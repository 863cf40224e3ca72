import LazyLisp.Reader.Token
import LazyLisp.Proofs.Reader.Numeral
import Mathlib.Computability.Language

/-!
# Pattern — the words of source text as regular languages

Each kind of token is a regular language, and so are the two kinds of text between tokens.  Some of
these languages overlap: a numeral could be a symbol, and the text of a closed string begins like
that of an open one.  This file defines:

* `oneOf`, `exactly`, `someOf` and `maybe`, from which the languages are built;
* `Pattern`, the kinds of words, with `Pattern.language` and the characters that
  `Pattern.startsWith`;
* `Lexeme.pattern`, the kind of a lexeme.

The rest says what the words of each kind look like: `mem_number_iff`, `mem_symbol_iff`,
`mem_key_iff`, and `splitText_append_of_mem` for what stands between the quotes of a string.
-/

namespace LazyLisp
namespace Reader

open scoped Computability

/-! ## Languages -/

/-- The words of one character, out of a class. -/
def oneOf (accepts : Char → Bool) : Language Char :=
  {word | ∃ c, accepts c = true ∧ word = [c]}

def exactly (c : Char) : Language Char := oneOf (· == c)

/-- The words of at least one character, all out of one class. -/
def someOf (accepts : Char → Bool) : Language Char := oneOf accepts * (oneOf accepts)∗

def maybe (language : Language Char) : Language Char := 1 + language

section Membership

variable {accepts : Char → Bool} {language : Language Char} {word : List Char}

theorem mem_oneOf_iff : word ∈ oneOf accepts ↔ ∃ c, accepts c = true ∧ word = [c] := Iff.rfl

theorem mem_oneOf_mul_iff :
    word ∈ oneOf accepts * language ↔
      ∃ c rest, accepts c = true ∧ rest ∈ language ∧ word = c :: rest := by
  rw [Language.mem_mul]
  constructor
  · rintro ⟨_, ⟨c, hc, rfl⟩, rest, hrest, rfl⟩
    exact ⟨c, rest, hc, hrest, rfl⟩
  · rintro ⟨c, rest, hc, hrest, rfl⟩
    exact ⟨[c], ⟨c, hc, rfl⟩, rest, hrest, rfl⟩

theorem mem_exactly_iff {c : Char} : word ∈ exactly c ↔ word = [c] := by
  simp [exactly, mem_oneOf_iff]

theorem mem_exactly_mul_iff {c : Char} :
    word ∈ exactly c * language ↔ ∃ rest, rest ∈ language ∧ word = c :: rest := by
  simp [exactly, mem_oneOf_mul_iff]

theorem mem_maybe_iff : word ∈ maybe language ↔ word = [] ∨ word ∈ language := by
  rw [maybe, Language.mem_add, Language.mem_one]

theorem mem_oneOf_kstar_iff : word ∈ (oneOf accepts)∗ ↔ ∀ c ∈ word, accepts c = true := by
  rw [Language.mem_kstar]
  constructor
  · rintro ⟨letters, rfl, hletters⟩ c hc
    rcases List.mem_flatten.mp hc with ⟨letter, hmem, hc⟩
    rcases hletters letter hmem with ⟨d, hd, rfl⟩
    rwa [List.mem_singleton.mp hc]
  · intro h
    refine ⟨word.map ([·]), ?_, ?_⟩
    · induction word with
      | nil => rfl
      | cons c rest ih =>
          have hrest := ih fun d hd => h d (List.mem_cons_of_mem _ hd)
          rw [List.map_cons, List.flatten_cons, ← hrest]
          rfl
    · intro letter hletter
      rcases List.mem_map.mp hletter with ⟨c, hc, rfl⟩
      exact ⟨c, h c hc, rfl⟩

theorem mem_someOf_iff :
    word ∈ someOf accepts ↔ word ≠ [] ∧ ∀ c ∈ word, accepts c = true := by
  rw [someOf, mem_oneOf_mul_iff]
  constructor
  · rintro ⟨c, rest, hc, hrest, rfl⟩
    refine ⟨List.cons_ne_nil c rest, fun d hd => ?_⟩
    rcases List.mem_cons.mp hd with rfl | hd
    · exact hc
    · exact mem_oneOf_kstar_iff.mp hrest d hd
  · rintro ⟨hne, h⟩
    obtain ⟨c, rest, rfl⟩ := List.exists_cons_of_ne_nil hne
    exact ⟨c, rest, h c List.mem_cons_self,
      mem_oneOf_kstar_iff.mpr fun d hd => h d (List.mem_cons_of_mem c hd), rfl⟩

end Membership

/-! ## Patterns -/

/-- Characters that keys and symbols are made of. -/
def isNameChar (c : Char) : Bool :=
  !Text.isBlank c &&
    !([',', ';', '(', ')', '[', ']', '\x7b', '\x7d', '\x27', '\x22'].contains c)

/-- A character of a string, or a backslash with the character that it escapes. -/
def textItem : Language Char :=
  oneOf (fun c => c != '\x22' && c != '\\') + exactly '\\' * oneOf (· != '\n')

/-- The kinds of words that source text is made of: those of tokens, and the two that separate
tokens. -/
inductive Pattern where
  | opening (delimiter : Delimiter)
  | closing (delimiter : Delimiter)
  | quoteMark
  | number
  | text
  | openText
  | key
  | symbol
  | separators
  | comment
deriving DecidableEq

namespace Pattern

/-- The twelve patterns of tokens, and the two of what separates them. -/
def all : List Pattern :=
  [.opening .paren, .closing .paren, .opening .bracket, .closing .bracket, .opening .brace,
    .closing .brace, .quoteMark, .number, .text, .openText, .key, .symbol, .separators, .comment]

theorem mem_all (pattern : Pattern) : pattern ∈ all := by
  rcases pattern with (_ | _ | _) | (_ | _ | _) | _ | _ | _ | _ | _ | _ | _ | _ <;> decide

/-- The words of a kind. -/
def language : Pattern → Language Char
  | .opening delimiter => exactly delimiter.opening
  | .closing delimiter => exactly delimiter.closing
  | .quoteMark => exactly '\x27'
  | .number =>
      maybe (exactly '-') * (someOf Char.isDigit * maybe (exactly '.' * someOf Char.isDigit))
  | .text => exactly '\x22' * (textItem∗ * exactly '\x22')
  | .openText => exactly '\x22' * (textItem∗ * maybe (exactly '\\'))
  | .key => exactly ':' * someOf isNameChar
  | .symbol => oneOf (fun c => isNameChar c && c != ':') * (oneOf isNameChar)∗
  | .separators => someOf [' ', '\t', '\r', '\n', ','].contains
  | .comment => exactly ';' * (oneOf (· != '\n'))∗

/-- Whether words of this kind may begin with `c`. -/
def startsWith : Pattern → Char → Bool
  | .opening delimiter, c => c == delimiter.opening
  | .closing delimiter, c => c == delimiter.closing
  | .quoteMark, c => c == '\x27'
  | .number, c => c == '-' || c.isDigit
  | .text, c => c == '\x22'
  | .openText, c => c == '\x22'
  | .key, c => c == ':'
  | .symbol, c => isWordChar c && c != ':'
  | .separators, c => isSeparator c
  | .comment, c => c == ';'

end Pattern

/-- The kind of word that a lexeme is. -/
def Lexeme.pattern : Lexeme → Pattern
  | .opening delimiter => .opening delimiter
  | .closing delimiter => .closing delimiter
  | .quoteMark => .quoteMark
  | .number _ => .number
  | .text _ => .text
  | .openText _ => .openText
  | .key _ => .key
  | .symbol _ => .symbol

/-! ## Words -/

theorem isNameChar_eq (c : Char) : isNameChar c = isWordChar c := by
  simp [isNameChar, isWordChar, isSpecial, beq_eq_decide, Bool.and_assoc]

theorem contains_separator_eq (c : Char) :
    [' ', '\t', '\r', '\n', ','].contains c = isSeparator c := by
  simp [isSeparator, beq_eq_decide, Bool.or_assoc]

theorem mem_separators_iff {word : List Char} :
    word ∈ Pattern.separators.language ↔ word ≠ [] ∧ ∀ c ∈ word, isSeparator c = true := by
  simp only [Pattern.language, mem_someOf_iff, contains_separator_eq]

theorem mem_comment_iff {word : List Char} :
    word ∈ Pattern.comment.language ↔ ∃ rest, (∀ c ∈ rest, c ≠ '\n') ∧ word = ';' :: rest := by
  simp only [Pattern.language, mem_exactly_mul_iff, mem_oneOf_kstar_iff, bne_iff_ne]

theorem mem_key_iff {word : List Char} :
    word ∈ Pattern.key.language ↔
      ∃ name, (name ≠ [] ∧ ∀ c ∈ name, isWordChar c = true) ∧ word = ':' :: name := by
  simp only [Pattern.language, mem_exactly_mul_iff, mem_someOf_iff, isNameChar_eq]

theorem mem_symbol_iff {word : List Char} :
    word ∈ Pattern.symbol.language ↔
      ∃ c rest, (isWordChar c && c != ':') = true ∧ (∀ d ∈ rest, isWordChar d = true) ∧
        word = c :: rest := by
  simp only [Pattern.language, mem_oneOf_mul_iff, mem_oneOf_kstar_iff, isNameChar_eq]

/-! ### Numerals -/

theorem isWordChar_of_isDigit {c : Char} (h : c.isDigit = true) : isWordChar c = true := by
  have hcode : 48 ≤ c.toNat ∧ c.toNat ≤ 57 := by
    simp only [Char.isDigit, Bool.and_eq_true, decide_eq_true_eq] at h
    exact h
  have hblank : Text.isBlank c = false := by
    simp only [Text.isBlank, Bool.or_eq_false_iff, Bool.and_eq_false_iff, decide_eq_false_iff_not,
      beq_eq_false_iff_ne]
    omega
  have hspecial : isSpecial c = false := by
    simp only [isSpecial, Bool.or_eq_false_iff, beq_eq_false_iff_ne]
    refine ⟨⟨⟨⟨⟨⟨⟨⟨⟨?_, ?_⟩, ?_⟩, ?_⟩, ?_⟩, ?_⟩, ?_⟩, ?_⟩, ?_⟩, ?_⟩ <;>
      (rintro rfl; revert h; decide)
  simp [isWordChar, hblank, hspecial]

theorem mem_fraction_iff {word : List Char} :
    word ∈ maybe (exactly '.' * someOf Char.isDigit) ↔
      word = [] ∨ ∃ digits, (digits ≠ [] ∧ ∀ c ∈ digits, c.isDigit = true) ∧
        word = '.' :: digits := by
  simp only [mem_maybe_iff, mem_exactly_mul_iff, mem_someOf_iff]

/-- A numeral without a sign is digits, or digits, a point and digits. -/
theorem mem_unsigned_iff {word : List Char} :
    word ∈ someOf Char.isDigit * maybe (exactly '.' * someOf Char.isDigit) ↔
      isUnsignedNumeral word = true := by
  have hsplit := List.takeWhile_append_dropWhile (p := Char.isDigit) (l := word)
  simp only [Language.mem_mul (l := someOf _), mem_someOf_iff, mem_fraction_iff]
  constructor
  · rintro ⟨whole, ⟨hne, hwhole⟩, tail, htail, rfl⟩
    -- The digits in front stop at the end or at the point.
    have hstop : tail.takeWhile Char.isDigit = [] ∧ tail.dropWhile Char.isDigit = tail := by
      rcases htail with rfl | ⟨fraction, _, rfl⟩
      · exact ⟨rfl, rfl⟩
      · exact ⟨rfl, rfl⟩
    have hdrop : (whole ++ tail).dropWhile Char.isDigit = tail := by
      rw [List.dropWhile_append_of_pos hwhole, hstop.2]
    have htake : (whole ++ tail).takeWhile Char.isDigit = whole := by
      rw [List.takeWhile_append_of_pos hwhole, hstop.1, List.append_nil]
    rcases htail with rfl | ⟨fraction, ⟨hfraction, hdigits⟩, rfl⟩
    · simp only [isUnsignedNumeral, htake, hdrop]
      simp [hne]
    · simp only [isUnsignedNumeral, htake, hdrop]
      simpa [hne, hfraction] using hdigits
  · intro h
    simp only [isUnsignedNumeral, Bool.and_eq_true, Bool.not_eq_true', List.isEmpty_eq_false_iff]
      at h
    have hwhole : ∀ c ∈ word.takeWhile Char.isDigit, c.isDigit = true :=
      fun c hc => List.mem_takeWhile_imp hc
    refine ⟨_, ⟨h.1, hwhole⟩, _, ?_, hsplit⟩
    rcases h with ⟨_, hrest⟩
    split at hrest
    · next hnil => exact .inl hnil
    · next fraction hpoint =>
        simp only [Bool.and_eq_true, Bool.not_eq_true', List.isEmpty_eq_false_iff,
          List.all_eq_true] at hrest
        exact .inr ⟨fraction, hrest, hpoint⟩
    · cases hrest

theorem mem_number_iff {word : List Char} :
    word ∈ Pattern.number.language ↔ isNumeral word = true := by
  simp only [Pattern.language, Language.mem_mul (l := maybe _), mem_maybe_iff, mem_exactly_iff,
    mem_unsigned_iff]
  constructor
  · rintro ⟨sign, hsign, text, htext, rfl⟩
    rcases hsign with rfl | rfl
    · -- A sign is no digit, so a numeral without one does not begin with it.
      unfold isNumeral
      split
      · next digits heq =>
          rw [List.nil_append] at heq
          simp [heq, isUnsignedNumeral] at htext
      · exact htext
    · exact htext
  · intro h
    unfold isNumeral at h
    split at h
    · exact ⟨['-'], .inr rfl, _, h, rfl⟩
    · exact ⟨[], .inl rfl, word, h, rfl⟩

/-- Numerals are words, and begin with a sign or a digit. -/
theorem isWordChar_of_isNumeral {word : List Char} (h : isNumeral word = true) :
    ∀ c ∈ word, isWordChar c = true := by
  rcases exists_of_isNumeral h with ⟨sign, text, hsign, rfl, htext⟩
  rcases exists_of_isUnsignedNumeral htext with ⟨whole, fraction, _, hdigit, hparts⟩
  have hdigits : ∀ c ∈ whole ++ fraction, isWordChar c = true :=
    fun c hc => isWordChar_of_isDigit (hdigit c hc)
  intro c hc
  rcases List.mem_append.mp hc with hc | hc
  · rcases hsign with rfl | rfl
    · cases hc
    · rw [List.mem_singleton.mp hc]
      decide
  · rcases hparts with ⟨rfl, rfl⟩ | rfl
    · exact hdigits c (by simpa using hc)
    · rcases List.mem_append.mp hc with hc | hc
      · exact hdigits c (List.mem_append_left _ hc)
      · rcases List.mem_cons.mp hc with rfl | hc
        · decide
        · exact hdigits c (List.mem_append_right _ hc)

/-! ### Strings -/

/-- What stands between quotes goes to the string, whatever follows. -/
theorem splitText_append_of_mem {body : List Char} (h : body ∈ textItem∗) (rest : List Char) :
    splitText (body ++ rest) = (body ++ (splitText rest).1, (splitText rest).2) := by
  rcases Language.mem_kstar.mp h with ⟨items, rfl, hitems⟩
  clear h
  induction items with
  | nil => rfl
  | cons item items ih =>
      have hrest := ih fun other hother => hitems other (List.mem_cons_of_mem _ hother)
      have hitem := hitems item List.mem_cons_self
      rw [List.flatten_cons, List.append_assoc]
      simp only [textItem, Language.mem_add, mem_oneOf_iff, mem_exactly_mul_iff, Bool.and_eq_true,
        bne_iff_ne] at hitem
      rcases hitem with ⟨c, hc, rfl⟩ | ⟨_, ⟨c, hc, rfl⟩, rfl⟩
      · simp [splitText, hc, hrest]
      · simp [splitText, hc, hrest]

theorem append_mem_kstar {language : Language Char} {item items : List Char}
    (hitem : item ∈ language) (hitems : items ∈ language∗) : item ++ items ∈ language∗ := by
  rw [← Language.one_add_self_mul_kstar_eq_kstar]
  exact .inr (Language.append_mem_mul hitem hitems)

theorem fst_splitText_mem (text : List Char) : (splitText text).1 ∈ textItem∗ := by
  fun_induction splitText text with
  | case1 => exact Language.nil_mem_kstar _
  | case2 => exact Language.nil_mem_kstar _
  | case3 => exact Language.nil_mem_kstar _
  | case4 => exact Language.nil_mem_kstar _
  | case5 c rest hc body after hsplit ih =>
      rw [hsplit] at ih
      have hitem : ['\\', c] ∈ textItem :=
        .inr (mem_exactly_mul_iff.mpr ⟨[c], ⟨c, by simpa using hc, rfl⟩, rfl⟩)
      exact append_mem_kstar hitem ih
  | case6 c rest hquote hend hescape body after hsplit ih =>
      rw [hsplit] at ih
      have hbackslash : c ≠ '\\' := by
        intro hc
        cases rest with
        | nil => exact hend hc rfl
        | cons d others => exact hescape d others hc rfl
      have hitem : [c] ∈ textItem := .inl ⟨c, by simpa using ⟨hquote, hbackslash⟩, rfl⟩
      exact append_mem_kstar hitem ih

/-- A string stops at a quote, at a backslash in front of a line break, or at the end. -/
theorem snd_splitText (text : List Char) :
    (splitText text).2 = [] ∨ (∃ rest, (splitText text).2 = '\x22' :: rest) ∨
      ∃ rest, (splitText text).2 = '\\' :: rest ∧ (rest = [] ∨ ∃ after, rest = '\n' :: after) := by
  fun_induction splitText text with
  | case1 => exact .inl rfl
  | case2 rest => exact .inr (.inl ⟨rest, rfl⟩)
  | case3 => exact .inr (.inr ⟨[], rfl, .inl rfl⟩)
  | case4 rest => exact .inr (.inr ⟨_, rfl, .inr ⟨_, rfl⟩⟩)
  | case5 c rest hc body after hsplit ih =>
      rw [hsplit] at ih
      exact ih
  | case6 c rest _ _ _ body after hsplit ih =>
      rw [hsplit] at ih
      exact ih

/-! ### First characters -/

/-- A word begins with a character that words of its kind may begin with. -/
theorem exists_cons_of_mem {pattern : Pattern} {word : List Char} (h : word ∈ pattern.language) :
    ∃ c rest, word = c :: rest ∧ pattern.startsWith c = true := by
  cases pattern with
  | opening delimiter | closing delimiter | quoteMark =>
      exact ⟨_, [], mem_exactly_iff.mp h, by simp [Pattern.startsWith]⟩
  | number =>
      have hnumeral := mem_number_iff.mp h
      rcases exists_of_isNumeral hnumeral with ⟨sign, text, hsign, rfl, htext⟩
      rcases exists_of_isUnsignedNumeral htext with ⟨whole, fraction, hne, hdigit, hparts⟩
      obtain ⟨c, others, rfl⟩ := List.exists_cons_of_ne_nil hne
      have hc : c.isDigit = true := hdigit c (by simp)
      rcases hsign with rfl | rfl
      · rcases hparts with ⟨rfl, _⟩ | rfl
        · exact ⟨c, others, rfl, by simp [Pattern.startsWith, hc]⟩
        · exact ⟨c, _, rfl, by simp [Pattern.startsWith, hc]⟩
      · exact ⟨'-', text, rfl, rfl⟩
  | text | openText =>
      rcases mem_exactly_mul_iff.mp h with ⟨rest, _, rfl⟩
      exact ⟨_, rest, rfl, rfl⟩
  | key =>
      rcases mem_key_iff.mp h with ⟨name, _, rfl⟩
      exact ⟨':', name, rfl, rfl⟩
  | symbol =>
      rcases mem_symbol_iff.mp h with ⟨c, rest, hc, _, rfl⟩
      exact ⟨c, rest, rfl, hc⟩
  | separators =>
      rcases mem_separators_iff.mp h with ⟨hne, hall⟩
      obtain ⟨c, rest, rfl⟩ := List.exists_cons_of_ne_nil hne
      exact ⟨c, rest, rfl, hall c List.mem_cons_self⟩
  | comment =>
      rcases mem_comment_iff.mp h with ⟨rest, _, rfl⟩
      exact ⟨';', rest, rfl, rfl⟩

theorem ne_nil_of_mem {pattern : Pattern} {word : List Char} (h : word ∈ pattern.language) :
    word ≠ [] := by
  rcases exists_cons_of_mem h with ⟨c, rest, rfl, _⟩
  exact List.cons_ne_nil c rest

end Reader
end LazyLisp
