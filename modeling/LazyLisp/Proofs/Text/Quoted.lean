import LazyLisp.Proofs.Reader.Pattern
import LazyLisp.Text.Quoted

/-!
# Quoted — what is quoted reads back

How a character is shown between quotes depends on tables that grow with each version of Unicode.
Reading does not: a character may stand as itself unless it is a quote or a backslash, under a named
escape, or under its code point.  Whatever is chosen for each character of a text, the literal is
one closed string, and it is read as the text.  This file defines:

* `Spelling`, the ways to write a character between quotes;
* `Spelled`, a text with each character written in one of these ways.

Main results:

* `Spelled.mem_kstar`: what is written so is a row of string items, and stays inside its quotes;
* `Spelled.decode`: it is read as the text;
* `spelled_encode`: `Quoted.encode` writes characters in these ways.
-/

namespace LazyLisp
namespace Quoted

open scoped Computability

/-! ## Ways to write a text -/

/-- The ways to write a character between quotes. -/
inductive Spelling : Char → List Char → Prop where
  /-- As itself. -/
  | raw {c : Char} (hquote : c ≠ '\x22') (hbackslash : c ≠ '\\') : Spelling c [c]
  | named {c : Char} (letter : Char) (h : namedEscape? letter = some c) :
      Spelling c ['\\', letter]
  /-- By its code point, with any number of zeros in front and in letters of either case. -/
  | codePoint {c : Char} (digits : List Char) (hne : digits ≠ [])
      (h : hexValue? 0 digits = some c.toNat) :
      Spelling c ('\\' :: 'u' :: '\x7b' :: (digits ++ ['\x7d']))

/-- A text between quotes, character by character. -/
inductive Spelled : List Char → List Char → Prop where
  | nil : Spelled [] []
  | cons {c : Char} {text word body : List Char} (head : Spelling c word)
      (tail : Spelled text body) : Spelled (c :: text) (word ++ body)

/-! ## Code points -/

theorem hexValue?_append (value : Nat) (digits more : List Char) :
    hexValue? value (digits ++ more) =
      (hexValue? value digits).bind fun value => hexValue? value more := by
  induction digits generalizing value with
  | nil => rfl
  | cons c rest ih => simp [hexValue?, ih, Option.bind_assoc]

theorem hexValue?_digitChar {digit : Nat} (h : digit < 16) (value : Nat) :
    hexValue? value [Nat.digitChar digit] = some (16 * value + digit) := by
  have hdigit : hexDigit? (Nat.digitChar digit) = some digit := by
    revert digit
    decide
  simp [hexValue?, hdigit]

/-- The hexadecimal digits of a number are read as that number. -/
theorem hexValue?_toDigits (n : Nat) : hexValue? 0 (Nat.toDigits 16 n) = some n := by
  induction n using Nat.strongRecOn with
  | ind n ih =>
      rw [Nat.toDigits_eq_if (by decide)]
      split
      · next hsmall => rw [hexValue?_digitChar hsmall, Nat.mul_zero, Nat.zero_add]
      · next hlarge =>
          have hquotient : n / 16 < n := Nat.div_lt_self (by omega) (by decide)
          rw [hexValue?_append, ih _ hquotient, Option.bind_some,
            hexValue?_digitChar (Nat.mod_lt n (by decide)), Nat.div_add_mod]

/-- The digits of a number have no character among them that ends the escape or the literal. -/
theorem exists_of_hexValue? {digits : List Char} {value n : Nat} (h : hexValue? value digits = some n)
    {c : Char} (hc : c ∈ digits) : ∃ digit, hexDigit? c = some digit := by
  induction digits generalizing value with
  | nil => cases hc
  | cons d rest ih =>
      rcases Option.bind_eq_some_iff.mp h with ⟨digit, hdigit, hrest⟩
      rcases List.mem_cons.mp hc with rfl | hc
      · exact ⟨digit, hdigit⟩
      · exact ih hrest hc

/-- The escape ends at the first closing brace. -/
theorem codePoint_eq_ok_iff {rest after : List Char} {c : Char} :
    codePoint rest = .ok (c, after) ↔
      ∃ inner, rest = '\x7b' :: (inner ++ '\x7d' :: after) ∧ '\x7d' ∉ inner ∧
        scalar? inner = some c := by
  constructor
  · intro h
    unfold codePoint at h
    split at h
    · next text =>
        split at h
        · next d brace tail hscalar hdrop =>
            cases h
            -- The search stops at the first closing brace.
            have hsplit := List.takeWhile_append_dropWhile (p := (· ≠ '\x7d')) (l := text)
            have hne : text.dropWhile (· ≠ '\x7d') ≠ [] :=
              hdrop ▸ List.cons_ne_nil _ _
            have hclosing := List.head_dropWhile_not (· ≠ '\x7d') hne
            simp only [hdrop, List.head_cons, decide_eq_false_iff_not, not_not] at hclosing
            subst hclosing
            rw [hdrop] at hsplit
            refine ⟨_, by rw [hsplit], ?_, hscalar⟩
            intro hmem
            simpa using List.mem_takeWhile_imp hmem
        · cases h
    · cases h
  · rintro ⟨inner, rfl, hinner, hscalar⟩
    have hopen : ∀ d ∈ inner, decide (d ≠ '\x7d') = true := by
      intro d hd
      rw [decide_eq_true_eq]
      rintro rfl
      exact hinner hd
    simp only [codePoint]
    rw [List.takeWhile_append_of_pos hopen, List.dropWhile_append_of_pos hopen]
    simp [hscalar]

theorem codePoint_eq {c : Char} {digits : List Char} (hne : digits ≠ [])
    (h : hexValue? 0 digits = some c.toNat) (rest : List Char) :
    codePoint ('\x7b' :: (digits ++ '\x7d' :: rest)) = .ok (c, rest) := by
  have hbrace : '\x7d' ∉ digits := by
    intro hmem
    obtain ⟨digit, hdigit⟩ := exists_of_hexValue? h hmem
    cases hdigit
  have hscalar : scalar? digits = some c := by
    obtain ⟨d, others, rfl⟩ := List.exists_cons_of_ne_nil hne
    have hplus : d ≠ '+' := by
      rintro rfl
      cases h
    have hvalid : c.toNat.isValidChar := c.valid
    simp [scalar?, hplus, h, hvalid]
  exact codePoint_eq_ok_iff.mpr ⟨digits, rfl, hbrace, hscalar⟩

/-! ## What is written stays inside its quotes -/

theorem raw_mem_textItem {c : Char} (hquote : c ≠ '\x22') (hbackslash : c ≠ '\\') :
    [c] ∈ Reader.textItem :=
  .inl ⟨c, by simpa using ⟨hquote, hbackslash⟩, rfl⟩

theorem escape_mem_textItem {letter : Char} (h : letter ≠ '\n') :
    ['\\', letter] ∈ Reader.textItem :=
  .inr (Reader.mem_exactly_mul_iff.mpr ⟨[letter], ⟨letter, by simpa using h, rfl⟩, rfl⟩)

theorem raw_append_mem_kstar {text rest : List Char} (h : ∀ c ∈ text, c ≠ '\x22' ∧ c ≠ '\\')
    (hrest : rest ∈ Reader.textItem∗) : text ++ rest ∈ Reader.textItem∗ := by
  induction text with
  | nil => exact hrest
  | cons c others ih =>
      have hc := h c List.mem_cons_self
      have hothers := ih fun d hd => h d (List.mem_cons_of_mem _ hd)
      rw [← List.singleton_append, List.append_assoc]
      exact Reader.append_mem_kstar (raw_mem_textItem hc.1 hc.2) hothers

/-- A way to write a character is one string item, or an escape and plain characters behind it. -/
theorem Spelling.mem_kstar {c : Char} {word : List Char} (h : Spelling c word) {rest : List Char}
    (hrest : rest ∈ Reader.textItem∗) : word ++ rest ∈ Reader.textItem∗ := by
  cases h with
  | raw hquote hbackslash =>
      exact Reader.append_mem_kstar (raw_mem_textItem hquote hbackslash) hrest
  | named letter hletter =>
      have hline : letter ≠ '\n' := by
        rintro rfl
        cases hletter
      exact Reader.append_mem_kstar (escape_mem_textItem hline) hrest
  | codePoint digits hne hdigits =>
      have hplain : ∀ d ∈ '\x7b' :: (digits ++ ['\x7d']), d ≠ '\x22' ∧ d ≠ '\\' := by
        intro d hd
        rcases List.mem_cons.mp hd with rfl | hd
        · decide
        · rcases List.mem_append.mp hd with hd | hd
          · obtain ⟨digit, hdigit⟩ := exists_of_hexValue? hdigits hd
            constructor <;> (rintro rfl; cases hdigit)
          · rw [List.mem_singleton.mp hd]
            decide
      have hescape : ['\\', 'u'] ∈ Reader.textItem := escape_mem_textItem (by decide)
      have hword := Reader.append_mem_kstar hescape (raw_append_mem_kstar hplain hrest)
      exact hword

theorem Spelled.mem_kstar {text body : List Char} (h : Spelled text body) :
    body ∈ Reader.textItem∗ := by
  induction h with
  | nil => exact Language.nil_mem_kstar _
  | cons head tail ih => exact head.mem_kstar ih

/-! ## What is written is read back -/

theorem decode_raw {c : Char} (h : c ≠ '\\') (rest : List Char) :
    decode (c :: rest) = (c :: ·) <$> decode rest := by
  rw [decode.eq_def]
  split <;> simp_all

theorem decode_named {c letter : Char} (h : namedEscape? letter = some c) (rest : List Char) :
    decode ('\\' :: letter :: rest) = (c :: ·) <$> decode rest := by
  have hletter : letter ≠ 'u' := by
    rintro rfl
    cases h
  rw [decode.eq_def]
  split
  case h_4 heq =>
      cases heq
      rw [h]
  case h_5 hescape heq =>
      cases heq
      exact absurd rfl (hescape letter rest rfl)
  all_goals simp_all

theorem decode_codePoint {c : Char} {rest after : List Char} (h : codePoint rest = .ok (c, after)) :
    decode ('\\' :: 'u' :: rest) = (c :: ·) <$> decode after := by
  rw [decode]
  split
  · next hother =>
      rw [h] at hother
      cases hother
  · next hother =>
      rw [h] at hother
      cases hother
      rfl

theorem Spelling.decode {c : Char} {word : List Char} (h : Spelling c word) (rest : List Char) :
    decode (word ++ rest) = (c :: ·) <$> Quoted.decode rest := by
  cases h with
  | raw hquote hbackslash => exact decode_raw hbackslash rest
  | named letter h => exact decode_named h rest
  | codePoint digits hne h =>
      have hread := codePoint_eq hne h rest
      simpa using decode_codePoint hread

theorem Spelled.decode {text body : List Char} (h : Spelled text body) :
    Quoted.decode body = .ok text := by
  induction h with
  | nil => rw [Quoted.decode]
  | cons head tail ih => rw [head.decode, ih, Except.map_ok]

/-! ## How texts are written -/

theorem spelling_encodeChar (c : Char) : Spelling c (encodeChar c) := by
  unfold encodeChar
  split
  · next h => exact .named _ (by simp [namedEscape?, h])
  split
  · next h => exact .named _ (by simp [namedEscape?, h])
  split
  · next h => exact .named _ (by simp [namedEscape?, h])
  split
  · next h => exact .named _ (by simp [namedEscape?, h])
  split
  · next h => exact .named _ (by simp [namedEscape?, h])
  split
  · next h => exact .named _ (by simp [namedEscape?, h])
  split
  · next hbackslash hquote _ => exact .raw hquote hbackslash
  · exact .codePoint _ Nat.toDigits_ne_nil (hexValue?_toDigits c.toNat)

theorem spelled_encode (text : List Char) : Spelled text (text.flatMap encodeChar) := by
  induction text with
  | nil => exact .nil
  | cons c rest ih => exact .cons (spelling_encodeChar c) ih

end Quoted
end LazyLisp
