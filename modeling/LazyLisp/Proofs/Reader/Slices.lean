import LazyLisp.Proofs.Decimal.Canonical
import LazyLisp.Proofs.Reader.Places
import LazyLisp.Proofs.Text.Quoted
import Mathlib.Data.Nat.Digits.Defs

/-!
# Slices — the text of a token, cut out again

A token can be given by its place alone: its kind, and where it starts and stops in the source text.
What it says is then cut out of the source text again, and so are the texts between the quotes of a
string and behind the colon of a key.  This file defines:

* `Decimal.spelled`, the number that a numeral spells out, by its sign, its digits and its point;
* `Quoted.Dangling`, that a text ends in a backslash with nothing left to escape;
* `Token.Sound`, that all that is cut out for a token is there and is what the token says.

Main results:

* `slice?_eq_some_iff`: what a slice is;
* `ofString?_eq_spelled`: numerals are read as the numbers that they spell out;
* `Quoted.not_dangling_of_mem` and `Quoted.dangling_of_decode`: the patterns let no backslash dangle,
  and only one that does is read as an escape of nothing;
* `sound_of_mem`: all tokens of a source text are sound.
-/

namespace LazyLisp
namespace Reader

/-! ## Slices -/

/-- Between two places that texts in front of them reach up to, there is a text. -/
theorem exists_between {before rest upto after : String} (h : before ++ rest = upto ++ after)
    (hle : before.utf8ByteSize ≤ upto.utf8ByteSize) :
    ∃ middle, upto = before ++ middle ∧ rest = middle ++ after := by
  have hlists : before.toList ++ rest.toList = upto.toList ++ after.toList := by
    rw [← String.toList_append, h, String.toList_append]
  rcases List.append_eq_append_iff.mp hlists with ⟨middle, hupto, hrest⟩ | ⟨middle, hbefore, hafter⟩
  · exact ⟨String.ofList middle, by simp [← String.toList_inj, hupto],
      by simp [← String.toList_inj, hrest]⟩
  · -- The text in front is no longer, so nothing is left of it.
    have hsplit : before = upto ++ String.ofList middle := by simp [← String.toList_inj, hbefore]
    have hempty : String.ofList middle = "" := by
      rw [hsplit, String.utf8ByteSize_append] at hle
      exact String.utf8ByteSize_eq_zero_iff.mp (by omega)
    have hmiddle : middle = [] := by simpa using hempty
    subst hmiddle
    exact ⟨"", by simpa using hsplit.symm, by simpa [← String.toList_inj] using hafter.symm⟩

/-- A slice is a part of the text, where the bytes in front of it and its own say. -/
theorem slice?_eq_some_iff {text slice : String} {start stop : Nat} :
    slice? text start stop = some slice ↔
      ∃ before after, text = before ++ (slice ++ after) ∧ start = before.utf8ByteSize ∧
        stop = start + slice.utf8ByteSize := by
  constructor
  · intro h
    have hbounds : String.Pos.Raw.IsValid text ⟨start⟩ ∧ String.Pos.Raw.IsValid text ⟨stop⟩ ∧
        start ≤ stop := by
      by_contra hnot
      rw [slice?, dif_neg hnot] at h
      cases h
    obtain ⟨hstart, hstop, hle⟩ := hbounds
    obtain ⟨before, rest, rfl, hbefore⟩ := String.Pos.Raw.isValid_iff_exists_append.mp hstart
    obtain ⟨upto, after, hsplit, hupto⟩ := String.Pos.Raw.isValid_iff_exists_append.mp hstop
    obtain rfl : start = before.utf8ByteSize := congrArg String.Pos.Raw.byteIdx hbefore
    obtain rfl : stop = upto.utf8ByteSize := congrArg String.Pos.Raw.byteIdx hupto
    obtain ⟨middle, rfl, rfl⟩ := exists_between hsplit hle
    rw [String.utf8ByteSize_append, slice?_append] at h
    cases h
    exact ⟨before, after, rfl, rfl, String.utf8ByteSize_append⟩
  · rintro ⟨before, after, rfl, rfl, rfl⟩
    exact slice?_append before slice after

example : slice? "é" 0 2 = some "é" ∧ slice? "é" 1 2 = none := by decide

/-- What stands at a position is cut out there. -/
theorem slice?_of_marks {position : Position} {source : String} {text : List Char}
    (h : position.Marks source text) :
    slice? source position.offset (position.advanceBy text).offset = some (String.ofList text) := by
  obtain ⟨before, after, hsource, hcounts⟩ := h
  refine slice?_eq_some_iff.mpr ⟨String.ofList before, String.ofList after, ?_, hcounts.offset,
    Position.offset_advanceBy position text⟩
  rw [← String.ofList_append, ← String.ofList_append, ← hsource, String.ofList_toList]

/-- The text between the quotes of a string. -/
theorem slice?_textBody (body : List Char) :
    slice? (String.ofList (Lexeme.text body).chars) 1
      ((String.ofList (Lexeme.text body).chars).utf8ByteSize - 1) = some (String.ofList body) := by
  have hsplit : String.ofList (Lexeme.text body).chars =
      "\x22" ++ (String.ofList body ++ "\x22") := by
    rw [← String.toList_inj]
    simp [Lexeme.chars]
  have hquote : "\x22".utf8ByteSize = 1 := rfl
  have hstop : ("\x22" ++ (String.ofList body ++ "\x22")).utf8ByteSize - 1 =
      "\x22".utf8ByteSize + (String.ofList body).utf8ByteSize := by
    rw [String.utf8ByteSize_append, String.utf8ByteSize_append, hquote]
    omega
  rw [hsplit, hstop]
  exact slice?_append "\x22" (String.ofList body) "\x22"

/-- The text behind the colon of a key. -/
theorem slice?_keyName (name : List Char) :
    slice? (String.ofList (Lexeme.key name).chars) 1
      (String.ofList (Lexeme.key name).chars).utf8ByteSize = some (String.ofList name) := by
  have hsplit : String.ofList (Lexeme.key name).chars = ":" ++ (String.ofList name ++ "") := by
    rw [← String.toList_inj]
    simp [Lexeme.chars]
  have hstop : (":" ++ (String.ofList name ++ "")).utf8ByteSize =
      ":".utf8ByteSize + (String.ofList name).utf8ByteSize := by
    rw [String.append_empty, String.utf8ByteSize_append]
  rw [hsplit, hstop]
  exact slice?_append ":" (String.ofList name) ""

end Reader

/-! ## Numbers -/

namespace Decimal

/-- The number that a numeral spells out: its digits as they stand behind one another, with the sign
in front, and as many places as there are digits behind the point. -/
def spelled (word : List Char) : Decimal where
  coefficient :=
    (if word.head? = some '-' then -1 else 1) *
      (Nat.ofDigits 10 ((word.filter Char.isDigit).reverse.map fun c => c.toNat - '0'.toNat) : Nat)
  scale := (word.dropWhile (· ≠ '.')).countP Char.isDigit

theorem digitsValue?_eq_ofDigits {digits : List Char} (h : ∀ c ∈ digits, c.isDigit = true)
    (value : Nat) :
    digitsValue? value digits = some (value * 10 ^ digits.length +
      Nat.ofDigits 10 (digits.reverse.map fun c => c.toNat - '0'.toNat)) := by
  induction digits generalizing value with
  | nil => simp [digitsValue?]
  | cons c rest ih =>
      have hzero : '0'.toNat = 48 := rfl
      rw [digitsValue?_cons (h c List.mem_cons_self), ih fun d hd => h d (List.mem_cons_of_mem _ hd),
        Option.some.injEq, List.reverse_cons, List.map_append, Nat.ofDigits_append,
        List.length_map, List.length_reverse, List.length_cons, List.map_singleton,
        Nat.ofDigits_singleton, hzero]
      ring

theorem positional_cons (whole : List Char) (c : Char) (rest : List Char) :
    positional whole (c :: rest) = whole ++ '.' :: c :: rest := rfl

end Decimal

namespace Reader

/-- A numeral has a sign or none, digits, and digits behind a point or none. -/
theorem exists_positional_of_isNumeral {word : List Char} (h : isNumeral word = true) :
    ∃ sign whole fraction, (sign = [] ∨ sign = ['-']) ∧ whole ≠ [] ∧
      (∀ c ∈ whole ++ fraction, c.isDigit = true) ∧
      word = sign ++ Decimal.positional whole fraction := by
  rcases exists_of_isNumeral h with ⟨sign, text, hsign, rfl, htext⟩
  rcases Language.mem_mul.mp (mem_unsigned_iff.mpr htext) with ⟨whole, hwhole, rest, hrest, rfl⟩
  obtain ⟨hne, hdigits⟩ := mem_someOf_iff.mp hwhole
  rcases mem_fraction_iff.mp hrest with rfl | ⟨fraction, ⟨hfraction, hplaces⟩, rfl⟩
  · exact ⟨sign, whole, [], hsign, hne, by simpa using hdigits, by simp [Decimal.positional]⟩
  · obtain ⟨c, later, rfl⟩ := List.exists_cons_of_ne_nil hfraction
    refine ⟨sign, whole, c :: later, hsign, hne, ?_, rfl⟩
    intro d hd
    exact (List.mem_append.mp hd).elim (hdigits d) (hplaces d)

theorem spelled_positional {sign whole fraction : List Char} (hsign : sign = [] ∨ sign = ['-'])
    (hne : whole ≠ []) (h : ∀ c ∈ whole ++ fraction, c.isDigit = true) :
    Decimal.spelled (sign ++ Decimal.positional whole fraction) =
      ⟨(if sign = ['-'] then -1 else 1) *
        (Nat.ofDigits 10 ((whole ++ fraction).reverse.map fun c => c.toNat - '0'.toNat) : Nat),
        fraction.length⟩ := by
  have hfraction : ∀ c ∈ fraction, c.isDigit = true := fun c hc => h c (List.mem_append_right _ hc)
  have hnone : sign.filter Char.isDigit = [] := by
    rcases hsign with rfl | rfl <;> rfl
  have hdigits : (sign ++ Decimal.positional whole fraction).filter Char.isDigit =
      whole ++ fraction := by
    rw [List.filter_append, hnone, List.nil_append, ← List.filter_eq_self.mpr h]
    cases fraction <;> simp [Decimal.positional]
  have hhead : (sign ++ Decimal.positional whole fraction).head? = some '-' ↔ sign = ['-'] := by
    rcases hsign with rfl | rfl
    · obtain ⟨c, rest, rfl⟩ := List.exists_cons_of_ne_nil hne
      have hc : c ≠ '-' := by
        rintro rfl
        cases h '-' (by simp)
      cases fraction <;> simp [Decimal.positional, hc]
    · simp
  have hpoint : ∀ c ∈ sign ++ whole, decide (c ≠ '.') = true :=
    Decimal.all_ne (Decimal.not_mem_of_not_isDigit hsign
      (fun c hc => h c (List.mem_append_left _ hc)) (by decide) (by decide))
  have hscale : ((sign ++ Decimal.positional whole fraction).dropWhile (· ≠ '.')).countP
      Char.isDigit = fraction.length := by
    cases fraction with
    | nil =>
        rw [Decimal.positional, List.dropWhile_eq_nil_iff.mpr hpoint]
        rfl
    | cons c later =>
        have hall : (c :: later).countP Char.isDigit = (c :: later).length :=
          List.countP_eq_length.mpr hfraction
        rw [Decimal.positional_cons, ← List.append_assoc, List.dropWhile_append_of_pos hpoint,
          List.dropWhile_cons_of_neg (by decide), List.countP_cons_of_neg (by decide), hall]
  simp only [Decimal.spelled, hdigits, hhead, hscale]

/-- A numeral is read as the number that it spells out. -/
theorem ofString?_eq_spelled {word : List Char} (h : isNumeral word = true)
    (hlength : word.length < 2 ^ 63) :
    Decimal.ofString? (String.ofList word) = some (Decimal.spelled word) := by
  obtain ⟨sign, whole, fraction, hsign, hne, hdigits, rfl⟩ := exists_positional_of_isNumeral h
  have hplaces : fraction.length < 2 ^ 63 := by
    have hle : fraction.length ≤ (Decimal.positional whole fraction).length := by
      cases fraction with
      | nil => exact Nat.zero_le _
      | cons c later =>
          simp only [Decimal.positional_cons, List.length_append, List.length_cons]
          omega
    rw [List.length_append] at hlength
    omega
  have hvalue := Decimal.digitsValue?_eq_ofDigits hdigits 0
  rw [Nat.zero_mul, Nat.zero_add] at hvalue
  obtain ⟨hplain, hnegative⟩ := Decimal.integer?_eq (by simp [hne]) hdigits hvalue
  rw [spelled_positional hsign hne hdigits]
  refine Decimal.ofString?_positional hsign hdigits ?_ hplaces
  rcases hsign with rfl | rfl
  · simpa using hplain
  · simpa using hnegative

end Reader

/-! ## Backslashes -/

namespace Quoted

open Reader (textItem mem_exactly_mul_iff)
open scoped Computability

/-- The text ends in a backslash that escapes nothing: those at its end do not pair up. -/
def Dangling (body : List Char) : Prop :=
  Odd (body.rtakeWhile (· = '\\')).length

instance (body : List Char) : Decidable (Dangling body) :=
  inferInstanceAs (Decidable (Odd _))

theorem dangling_append_cons {c : Char} (hc : c ≠ '\\') (front rest : List Char) :
    Dangling (front ++ c :: rest) ↔ Dangling rest := by
  have htake : (front ++ c :: rest).rtakeWhile (· = '\\') = rest.rtakeWhile (· = '\\') := by
    induction rest using List.reverseRecOn with
    | nil => simp [hc]
    | append_singleton others d ih =>
        rw [← List.cons_append, ← List.append_assoc, List.rtakeWhile_concat,
          List.rtakeWhile_concat, ih]
  rw [Dangling, Dangling, htake]

theorem dangling_backslashes_cons (rest : List Char) :
    Dangling ('\\' :: '\\' :: rest) ↔ Dangling rest := by
  -- Either a pair more stands at the end, or the end is that of the rest.
  by_cases hall : ∀ c ∈ rest, c = '\\'
  · have hrest : ∀ c ∈ '\\' :: '\\' :: rest, decide (c = '\\') = true := by simpa using hall
    rw [Dangling, Dangling, List.rtakeWhile_eq_self_iff.mpr hrest,
      List.rtakeWhile_eq_self_iff.mpr fun c hc => hrest c (by simp [hc])]
    simp [Nat.odd_add_one]
  · push Not at hall
    obtain ⟨c, hmem, hc⟩ := hall
    obtain ⟨front, behind, rfl⟩ := List.append_of_mem hmem
    rw [dangling_append_cons hc, ← List.cons_append, ← List.cons_append, dangling_append_cons hc]

theorem dangling_append_item {item : List Char} (h : item ∈ textItem) (rest : List Char) :
    Dangling (item ++ rest) ↔ Dangling rest := by
  rcases h with ⟨c, hc, rfl⟩ | h
  · simp only [Bool.and_eq_true, bne_iff_ne] at hc
    exact dangling_append_cons hc.2 [] rest
  · obtain ⟨_, ⟨c, hc, rfl⟩, rfl⟩ := mem_exactly_mul_iff.mp h
    by_cases hbackslash : c = '\\'
    · rw [hbackslash]
      exact dangling_backslashes_cons rest
    · exact dangling_append_cons hbackslash ['\\'] rest

/-- In a row of characters and escapes, each backslash has its pair. -/
theorem not_dangling_of_mem {body : List Char} (h : body ∈ textItem∗) : ¬Dangling body := by
  obtain ⟨items, rfl, hitems⟩ := Language.mem_kstar.mp h
  clear h
  induction items with
  | nil => decide
  | cons item rest ih =>
      obtain ⟨hitem, hrest⟩ := List.forall_mem_cons.mp hitems
      rw [List.flatten_cons, dangling_append_item hitem]
      exact ih hrest

theorem codePoint_ne_backslash (rest : List Char) : codePoint rest ≠ .error "\\" := by
  have hbad : badCodePoint rest ≠ "\\" := by
    intro heq
    have hchars := congrArg String.toList heq
    rw [badCodePoint, String.toList_ofList] at hchars
    cases hchars
  intro h
  unfold codePoint at h
  split at h
  · split at h
    · cases h
    · exact hbad (Except.error.inj h)
  · exact hbad (Except.error.inj h)

/-- The escape that an error shows has more than the backslash, unless the text stops there. -/
theorem dangling_of_decode {body : List Char} (h : decode body = .error "\\") : Dangling body := by
  have hmap : ∀ {c : Char} {result : Except String (List Char)},
      (c :: ·) <$> result = .error "\\" → result = .error "\\" := by
    intro c result hresult
    cases result with
    | ok text => cases hresult
    | error escape => exact hresult
  fun_induction decode body with
  | case1 => cases h
  | case2 => decide
  | case3 rest escape hcode =>
      cases h
      exact absurd hcode (codePoint_ne_backslash rest)
  | case4 rest c after hcode hlength ih =>
      obtain ⟨inner, rfl, -, -⟩ := codePoint_eq_ok_iff.mp hcode
      have hbrace := (dangling_append_cons (c := '\x7d') (by decide)
        ('\\' :: 'u' :: '\x7b' :: inner) after).mpr (ih (hmap h))
      simpa using hbrace
  | case5 d rest hne c hnamed ih =>
      have hletter : d ≠ '\n' := by
        rintro rfl
        cases hnamed
      exact (dangling_append_item (escape_mem_textItem hletter) rest).mpr (ih (hmap h))
  | case6 d rest hne hnamed =>
      have hchars := congrArg String.toList (Except.error.inj h)
      rw [String.toList_ofList] at hchars
      cases hchars
  | case7 c rest hlone _ hescape ih =>
      have hplain : c ≠ '\\' := by
        rintro rfl
        cases rest with
        | nil => exact hlone rfl rfl
        | cons d behind => exact hescape d behind rfl rfl
      exact (dangling_append_cons hplain [] rest).mpr (ih (hmap h))

end Quoted

namespace Reader

/-! ## Tokens -/

/-- What is cut out for a token is there, and is what the token says. -/
structure Token.Sound (source : String) (token : Token) : Prop where
  slice : slice? source token.position.offset token.stop.offset =
    some (String.ofList token.lexeme.chars)
  number : ∀ digits, token.lexeme = .number digits →
    Decimal.ofString? (String.ofList digits) = some (Decimal.spelled digits)
  /-- The text between the quotes of a string. -/
  text : ∀ body, token.lexeme = .text body →
    slice? (String.ofList token.lexeme.chars) 1
        ((String.ofList token.lexeme.chars).utf8ByteSize - 1) = some (String.ofList body) ∧
      ¬Quoted.Dangling body
  /-- The text behind the colon of a key. -/
  key : ∀ name, token.lexeme = .key name →
    slice? (String.ofList token.lexeme.chars) 1
      (String.ofList token.lexeme.chars).utf8ByteSize = some (String.ofList name)

section Mem

variable {source : String} {row : List Token} {token : Token}

/-- A token is a word of the pattern for its kind. -/
theorem chars_mem_language (h : tokens source = .ok row) (hmem : token ∈ row) :
    token.lexeme.chars ∈ token.lexeme.pattern.language := by
  obtain ⟨ending, rest, -, hscan⟩ := exists_scan?_of_mem h hmem
  exact (longest_of_scan? hscan).mem

theorem length_chars_le (h : tokens source = .ok row) (hmem : token ∈ row) :
    token.lexeme.chars.length ≤ source.length := by
  obtain ⟨before, after, hsource, -⟩ := ((marks_of_tokens h).1 token hmem).2
  rw [← String.length_toList, hsource]
  simp only [List.length_append]
  omega

theorem not_dangling_of_mem_language {body : List Char}
    (h : (Lexeme.text body).chars ∈ Pattern.text.language) : ¬Quoted.Dangling body := by
  obtain ⟨rest, hrest, hchars⟩ := mem_exactly_mul_iff.mp h
  obtain ⟨items, hitems, last, hlast, rfl⟩ := Language.mem_mul.mp hrest
  obtain rfl := mem_exactly_iff.mp hlast
  simp only [Lexeme.chars, List.cons_append, List.cons.injEq, true_and,
    List.append_left_inj] at hchars
  subst hchars
  exact Quoted.not_dangling_of_mem hitems

/-- The tokens of a source text are sound, unless it is longer than any text that can be stored. -/
theorem sound_of_mem (hlength : source.length < 2 ^ 63) (h : tokens source = .ok row)
    (hmem : token ∈ row) : token.Sound source where
  slice := slice?_of_marks ((marks_of_tokens h).1 token hmem).2
  number digits hlexeme := by
    have hword := chars_mem_language h hmem
    have hle := length_chars_le h hmem
    rw [hlexeme] at hword hle
    exact ofString?_eq_spelled (mem_number_iff.mp hword) (Nat.lt_of_le_of_lt hle hlength)
  text body hlexeme := by
    have hword := chars_mem_language h hmem
    rw [hlexeme] at hword ⊢
    exact ⟨slice?_textBody body, not_dangling_of_mem_language hword⟩
  key name hlexeme := by
    rw [hlexeme]
    exact slice?_keyName name

end Mem

end Reader
end LazyLisp
