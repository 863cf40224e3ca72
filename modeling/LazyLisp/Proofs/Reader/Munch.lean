import LazyLisp.Proofs.Reader.Pattern
import LazyLisp.Reader.Tokens
import Mathlib.Data.List.Infix

/-!
# Munch — tokens are longest matches

The reader cuts source text from the left.  At each place it takes the longest word of any pattern
that stands there, drops it if it only separates tokens, and goes on behind it, until the text is
used up or no pattern matches.  This file defines:

* `Longest`, the longest match at the head of a text;
* `Piece`, a word of a cut text, and `Munched`, the cuts into longest matches;
* `Stuck`, the texts that no pattern matches at the head of.

Main result: `tokens_munch`, that the tokens of a source text are those of such a cut, and that
cutting fails where a cut gets stuck.
-/

namespace LazyLisp
namespace Reader

open scoped Computability

/-! ## Longest matches -/

/-- `word` is the longest word of any pattern at the head of `text`, and a word of `pattern`.  Only a
number may be a word of a second pattern as well: it could be a symbol. -/
structure Longest (pattern : Pattern) (word text : List Char) : Prop where
  isPrefix : word <+: text
  mem : word ∈ pattern.language
  longest : ∀ (other : Pattern) (rival : List Char), rival <+: text → rival ∈ other.language →
    rival.length ≤ word.length
  tie : ∀ other : Pattern, word ∈ other.language → other = pattern ∨ pattern = .number ∧ other = .symbol

/-- No pattern matches at the head of `text`. -/
def Stuck (text : List Char) : Prop :=
  ∀ (pattern : Pattern) (word : List Char), word <+: text → word ∉ pattern.language

section Head

variable {pattern other : Pattern} {c : Char} {word rival rest : List Char}

/-- A match begins with the first character of the text. -/
theorem exists_of_prefix_cons (hhead : rival <+: c :: rest) (hmem : rival ∈ other.language) :
    ∃ tail, rival = c :: tail ∧ tail <+: rest ∧ other.startsWith c = true := by
  rcases exists_cons_of_mem hmem with ⟨d, tail, rfl, hstart⟩
  rcases List.cons_prefix_cons.mp hhead with ⟨rfl, htail⟩
  exact ⟨tail, rfl, htail, hstart⟩

/-- Where only one pattern can match, its longest match is the longest of all. -/
theorem Longest.of_only
    (honly : ∀ other ∈ Pattern.all, other.startsWith c = true → other = pattern)
    (hhead : word <+: c :: rest) (hmem : word ∈ pattern.language)
    (hmax : ∀ rival, rival <+: c :: rest → rival ∈ pattern.language →
      rival.length ≤ word.length) :
    Longest pattern word (c :: rest) where
  isPrefix := hhead
  mem := hmem
  longest other rival hrival hother := by
    rcases exists_of_prefix_cons hrival hother with ⟨_, _, _, hstart⟩
    cases honly other other.mem_all hstart
    exact hmax rival hrival hother
  tie other hother := by
    rcases exists_of_prefix_cons hhead hother with ⟨_, _, _, hstart⟩
    exact .inl (honly other other.mem_all hstart)

/-- A word of characters out of a class ends where the class ends. -/
theorem length_le_takeWhile {accepts : Char → Bool} (hhead : word <+: rest)
    (h : ∀ c ∈ word, accepts c = true) : word.length ≤ (rest.takeWhile accepts).length := by
  rcases hhead with ⟨after, rfl⟩
  rw [List.takeWhile_append_of_pos h, List.length_append]
  exact Nat.le_add_right _ _

end Head

/-! ### Words -/

theorem number_or_symbol_of_startsWith {other : Pattern} {c : Char} (hword : isWordChar c = true)
    (hcolon : c ≠ ':') (h : other.startsWith c = true) : other = .number ∨ other = .symbol := by
  -- No other pattern begins with a character of words.
  cases other with
  | number => exact .inl rfl
  | symbol => exact .inr rfl
  | opening delimiter | closing delimiter =>
      rw [eq_of_beq h] at hword
      revert hword
      cases delimiter <;> decide
  | quoteMark | text | openText | comment =>
      rw [eq_of_beq h] at hword
      revert hword
      decide
  | key => exact absurd (eq_of_beq h) hcolon
  | separators =>
      simp only [Pattern.startsWith, isSeparator, Bool.or_eq_true, beq_iff_eq] at h
      revert hword
      rcases h with (((rfl | rfl) | rfl) | rfl) | rfl <;> decide

/-- Numbers and symbols are made of the characters of words. -/
theorem isWordChar_of_mem {word : List Char}
    (h : word ∈ Pattern.number.language ∨ word ∈ Pattern.symbol.language) :
    ∀ c ∈ word, isWordChar c = true := by
  rcases h with h | h
  · exact isWordChar_of_isNumeral (mem_number_iff.mp h)
  · rcases mem_symbol_iff.mp h with ⟨c, rest, hc, hrest, rfl⟩
    intro d hd
    rcases List.mem_cons.mp hd with rfl | hd
    · exact (Bool.and_eq_true_iff.mp hc).1
    · exact hrest d hd

theorem longest_word {c : Char} {rest : List Char} (hword : isWordChar c = true)
    (hcolon : c ≠ ':') :
    Longest (Lexeme.ofWord (c :: rest.takeWhile isWordChar)).pattern
      (c :: rest.takeWhile isWordChar) (c :: rest) := by
  have htake : (c :: rest).takeWhile isWordChar = c :: rest.takeWhile isWordChar := by
    simp [hword]
  have hhead : c :: rest.takeWhile isWordChar <+: c :: rest :=
    htake ▸ List.takeWhile_prefix _
  have hrivals : ∀ (other : Pattern) (rival : List Char), rival <+: c :: rest →
      rival ∈ other.language → other = .number ∨ other = .symbol := by
    intro other rival hrival hother
    rcases exists_of_prefix_cons hrival hother with ⟨_, _, _, hstart⟩
    exact number_or_symbol_of_startsWith hword hcolon hstart
  have hsymbol : c :: rest.takeWhile isWordChar ∈ Pattern.symbol.language :=
    mem_symbol_iff.mpr ⟨c, _, by simp [hword, hcolon], fun d hd => List.mem_takeWhile_imp hd, rfl⟩
  have hlongest : ∀ (other : Pattern) (rival : List Char), rival <+: c :: rest →
      rival ∈ other.language → rival.length ≤ (c :: rest.takeWhile isWordChar).length := by
    intro other rival hrival hother
    have hchars : ∀ d ∈ rival, isWordChar d = true := by
      rcases hrivals other rival hrival hother with rfl | rfl
      · exact isWordChar_of_mem (.inl hother)
      · exact isWordChar_of_mem (.inr hother)
    rw [← htake]
    exact length_le_takeWhile hrival hchars
  unfold Lexeme.ofWord
  split
  · next hnumeral =>
      refine ⟨hhead, mem_number_iff.mpr hnumeral, hlongest, fun other hother => ?_⟩
      rcases hrivals other _ hhead hother with rfl | rfl
      · exact .inl rfl
      · exact .inr ⟨rfl, rfl⟩
  · next hnumeral =>
      refine ⟨hhead, hsymbol, hlongest, fun other hother => ?_⟩
      rcases hrivals other _ hhead hother with rfl | rfl
      · exact absurd (mem_number_iff.mp hother) hnumeral
      · exact .inl rfl

theorem longest_key {rest : List Char} (hne : rest.takeWhile isWordChar ≠ []) :
    Longest .key (':' :: rest.takeWhile isWordChar) (':' :: rest) := by
  have hname : ∀ c ∈ rest.takeWhile isWordChar, isWordChar c = true :=
    fun c hc => List.mem_takeWhile_imp hc
  refine .of_only (by decide) (List.cons_prefix_cons.mpr ⟨rfl, List.takeWhile_prefix _⟩)
    (mem_key_iff.mpr ⟨_, ⟨hne, hname⟩, rfl⟩) ?_
  intro rival hrival hmem
  rcases mem_key_iff.mp hmem with ⟨name, ⟨_, hchars⟩, rfl⟩
  exact Nat.succ_le_succ (length_le_takeWhile (List.cons_prefix_cons.mp hrival).2 hchars)

/-! ### Between tokens -/

theorem longest_separators {c : Char} {rest : List Char} (hc : isSeparator c = true) :
    Longest .separators ((c :: rest).takeWhile isSeparator) (c :: rest) := by
  have honly : ∀ other ∈ Pattern.all, other.startsWith c = true → other = .separators := by
    simp only [isSeparator, Bool.or_eq_true, beq_iff_eq] at hc
    rcases hc with (((rfl | rfl) | rfl) | rfl) | rfl <;> decide
  refine .of_only honly (List.takeWhile_prefix _)
    (mem_separators_iff.mpr ⟨by simp [hc], fun d hd => List.mem_takeWhile_imp hd⟩) ?_
  intro rival hrival hmem
  exact length_le_takeWhile hrival (mem_separators_iff.mp hmem).2

theorem longest_comment (rest : List Char) :
    Longest .comment (';' :: rest.takeWhile (· ≠ '\n')) (';' :: rest) := by
  have hline : ∀ c ∈ rest.takeWhile (· ≠ '\n'), c ≠ '\n' :=
    fun c hc => by simpa using List.mem_takeWhile_imp hc
  refine .of_only (by decide) (List.cons_prefix_cons.mpr ⟨rfl, List.takeWhile_prefix _⟩)
    (mem_comment_iff.mpr ⟨_, hline, rfl⟩) ?_
  intro rival hrival hmem
  rcases mem_comment_iff.mp hmem with ⟨tail, htail, rfl⟩
  exact Nat.succ_le_succ (length_le_takeWhile (List.cons_prefix_cons.mp hrival).2
    fun c hc => decide_eq_true (htail c hc))

/-! ### Strings -/

/-- A closed string ends at the first quote that is not escaped. -/
theorem splitText_of_text {rest tail : List Char} (hhead : tail <+: rest)
    (h : '\x22' :: tail ∈ Pattern.text.language) :
    ∃ body after, tail = body ++ ['\x22'] ∧ splitText rest = (body, '\x22' :: after) := by
  rcases hhead with ⟨after, rfl⟩
  rcases mem_exactly_mul_iff.mp h with ⟨_, hmem, heq⟩
  cases heq
  rcases Language.mem_mul.mp hmem with ⟨body, hbody, _, ⟨_, hquote, rfl⟩, rfl⟩
  cases eq_of_beq hquote
  refine ⟨body, after, rfl, ?_⟩
  rw [List.append_assoc, splitText_append_of_mem hbody]
  simp [splitText]

/-- An open string is part of what the string consists of, or all of it with a backslash that
escapes nothing. -/
theorem splitText_of_openText {rest tail : List Char} (hhead : tail <+: rest)
    (h : '\x22' :: tail ∈ Pattern.openText.language) :
    (∃ more, (splitText rest).1 = tail ++ more) ∨
      ∃ body after, tail = body ++ ['\\'] ∧ splitText rest = (body, '\\' :: after) := by
  rcases hhead with ⟨after, rfl⟩
  rcases mem_exactly_mul_iff.mp h with ⟨_, hmem, heq⟩
  cases heq
  rcases Language.mem_mul.mp hmem with ⟨body, hbody, last, hlast, rfl⟩
  rw [List.append_assoc, splitText_append_of_mem hbody]
  rcases mem_maybe_iff.mp hlast with rfl | hbackslash
  · exact .inl ⟨(splitText after).1, by simp⟩
  · cases mem_exactly_iff.mp hbackslash
    -- The backslash may still have something to escape.
    cases after with
    | nil => exact .inr ⟨body, [], rfl, by simp [splitText]⟩
    | cons c after =>
        by_cases hc : c = '\n'
        · exact .inr ⟨body, c :: after, rfl, by simp [splitText, hc]⟩
        · exact .inl ⟨c :: (splitText after).1, by simp [splitText, hc]⟩

/-- A match at a quote is a string, closed or open. -/
theorem string_of_prefix {rest rival : List Char} {other : Pattern}
    (hhead : rival <+: '\x22' :: rest) (hmem : rival ∈ other.language) :
    ∃ tail, rival = '\x22' :: tail ∧ tail <+: rest ∧ (other = .text ∨ other = .openText) := by
  have honly : ∀ other ∈ Pattern.all, other.startsWith '\x22' = true →
      other = .text ∨ other = .openText := by decide
  rcases exists_of_prefix_cons hhead hmem with ⟨tail, rfl, htail, hstart⟩
  exact ⟨tail, rfl, htail, honly other other.mem_all hstart⟩

theorem longest_text {rest body after : List Char} (h : splitText rest = (body, '\x22' :: after)) :
    Longest .text ('\x22' :: body ++ ['\x22']) ('\x22' :: rest) := by
  have hrest : body ++ '\x22' :: after = rest := by
    simpa [h] using splitText_append rest
  have hbody : body ∈ textItem∗ := by
    simpa [h] using fst_splitText_mem rest
  have hhead : '\x22' :: body ++ ['\x22'] <+: '\x22' :: rest := ⟨after, by simp [hrest]⟩
  have hopen : ∀ tail, tail <+: rest → '\x22' :: tail ∈ Pattern.openText.language →
      ∃ more, body = tail ++ more := by
    intro tail htail hmem
    rcases splitText_of_openText htail hmem with ⟨more, hmore⟩ | ⟨_, _, _, hsplit⟩
    · exact ⟨more, by simpa [h] using hmore⟩
    · rw [h] at hsplit
      simp at hsplit
  refine ⟨hhead, ?_, ?_, ?_⟩
  · exact mem_exactly_mul_iff.mpr
      ⟨_, Language.append_mem_mul hbody (mem_exactly_iff.mpr rfl), rfl⟩
  · intro other rival hrival hmem
    rcases string_of_prefix hrival hmem with ⟨tail, rfl, htail, rfl | rfl⟩
    · rcases splitText_of_text htail hmem with ⟨_, _, rfl, hsplit⟩
      cases h.symm.trans hsplit
      rfl
    · rcases hopen tail htail hmem with ⟨more, rfl⟩
      simp only [List.cons_append, List.length_cons, List.length_append]
      omega
  · intro other hmem
    rcases string_of_prefix hhead hmem with ⟨tail, heq, hinside, rfl | rfl⟩
    · exact .inl rfl
    · -- The closing quote is no part of an open string.
      obtain rfl : body ++ ['\x22'] = tail := by simpa using heq
      rcases hopen _ hinside hmem with ⟨more, hmore⟩
      have hlength := congrArg List.length hmore
      simp only [List.length_append, List.length_singleton] at hlength
      omega

/-- A string without a closing quote is all that there is of it. -/
theorem longest_openText {rest body : List Char} (last : List Char) {after : List Char}
    (h : splitText rest = (body, last ++ after))
    (hlast : last = ['\\'] ∨ last = [] ∧ after = []) :
    Longest .openText ('\x22' :: (body ++ last)) ('\x22' :: rest) := by
  have hrest : body ++ (last ++ after) = rest := by
    simpa [h] using splitText_append rest
  have hbody : body ∈ textItem∗ := by
    simpa [h] using fst_splitText_mem rest
  have hhead : '\x22' :: (body ++ last) <+: '\x22' :: rest := ⟨after, by simp [hrest]⟩
  have hclosed : ∀ tail, tail <+: rest → '\x22' :: tail ∉ Pattern.text.language := by
    intro tail htail hmem
    rcases splitText_of_text htail hmem with ⟨_, _, _, hsplit⟩
    rw [h] at hsplit
    rcases hlast with rfl | ⟨rfl, rfl⟩ <;> simp at hsplit
  refine ⟨hhead, ?_, ?_, ?_⟩
  · have hend : last ∈ maybe (exactly '\\') := by
      rcases hlast with rfl | ⟨rfl, _⟩
      · exact mem_maybe_iff.mpr (.inr (mem_exactly_iff.mpr rfl))
      · exact mem_maybe_iff.mpr (.inl rfl)
    exact mem_exactly_mul_iff.mpr ⟨_, Language.append_mem_mul hbody hend, rfl⟩
  · intro other rival hrival hmem
    rcases string_of_prefix hrival hmem with ⟨tail, rfl, htail, rfl | rfl⟩
    · exact absurd hmem (hclosed tail htail)
    · rcases splitText_of_openText htail hmem with ⟨more, hmore⟩ | ⟨_, _, rfl, hsplit⟩
      · rw [h] at hmore
        simp only at hmore
        simp only [hmore, List.length_cons, List.length_append]
        omega
      · rw [h] at hsplit
        rcases hlast with rfl | ⟨rfl, rfl⟩
        · cases hsplit
          rfl
        · simp at hsplit
  · intro other hmem
    rcases string_of_prefix hhead hmem with ⟨_, htail, hinside, rfl | rfl⟩
    · cases htail
      exact absurd hmem (hclosed _ hinside)
    · exact .inl rfl

theorem longest_scanText (rest : List Char) :
    Longest (scanText rest).1.pattern (scanText rest).1.chars ('\x22' :: rest) := by
  unfold scanText
  split
  · next h => exact longest_text h
  · next body after h => exact longest_openText ['\\'] h (.inl rfl)
  · next body after hquote hbackslash h =>
      rcases snd_splitText rest with hnil | ⟨_, hother⟩ | ⟨_, hother, _⟩
      · rw [h] at hnil
        cases hnil
        have hopen := longest_openText [] h (.inr ⟨rfl, rfl⟩)
        rwa [List.append_nil] at hopen
      · rw [h] at hother
        exact absurd hother (hquote _)
      · rw [h] at hother
        exact absurd hother (hbackslash _)

/-! ### All tokens -/

theorem longest_of_scan? {text rest : List Char} {lexeme : Lexeme}
    (h : Lexeme.scan? text = some (lexeme, rest)) : Longest lexeme.pattern lexeme.chars text := by
  have hsingle : ∀ {c : Char} {pattern : Pattern} {after : List Char},
      (∀ other ∈ Pattern.all, other.startsWith c = true → other = pattern) →
        pattern.language = exactly c → Longest pattern [c] (c :: after) := by
    intro c pattern after honly hlanguage
    have hmem : ∀ word, word ∈ pattern.language ↔ word = [c] := by
      simp [hlanguage, mem_exactly_iff]
    refine .of_only honly ⟨after, rfl⟩ ((hmem _).mpr rfl) ?_
    intro rival _ hrival
    rw [(hmem _).mp hrival]
  unfold Lexeme.scan? at h
  split at h
  case h_1 => cases h
  case h_9 body =>
      have hlexeme : (scanText body).1 = lexeme := congrArg Prod.fst (Option.some.inj h)
      exact hlexeme ▸ longest_scanText body
  case h_10 tail =>
      split at h
      · cases h
      · next hne =>
          cases h
          exact longest_key hne
  case h_11 c tail _ _ _ _ _ _ _ _ hcolon =>
      split at h
      · next hword =>
          cases h
          rw [Lexeme.chars_ofWord]
          exact longest_word hword hcolon
      · cases h
  all_goals
      cases h
      exact hsingle (by decide) rfl

/-- Where nothing can be scanned, nothing matches. -/
theorem stuck_of_scan? {c : Char} {rest : List Char} (hscan : Lexeme.scan? (c :: rest) = none)
    (hseparator : isSeparator c = false) (hcomment : c ≠ ';') : Stuck (c :: rest) := by
  intro pattern word hhead hmem
  rcases exists_of_prefix_cons hhead hmem with ⟨tail, rfl, htail, hstart⟩
  unfold Lexeme.scan? at hscan
  split at hscan
  case h_1 heq => cases heq
  case h_10 heq =>
      -- A colon begins keys only, and there is no name behind it.
      cases heq
      have honly : ∀ other ∈ Pattern.all, other.startsWith ':' = true → other = .key := by decide
      cases honly pattern pattern.mem_all hstart
      rcases mem_key_iff.mp hmem with ⟨name, ⟨hne, hname⟩, heq⟩
      cases heq
      split at hscan
      · next hnil =>
          have hlength := length_le_takeWhile htail hname
          rw [hnil] at hlength
          exact hne (List.eq_nil_of_length_eq_zero (Nat.le_zero.mp hlength))
      · cases hscan
  case h_11 heq =>
      cases heq
      split at hscan
      · cases hscan
      · next hword =>
          cases pattern with
          | number =>
              rcases Bool.or_eq_true_iff.mp hstart with hsign | hdigit
              · cases eq_of_beq hsign
                exact hword (by decide)
              · exact hword (isWordChar_of_isDigit hdigit)
          | symbol => exact hword (Bool.and_eq_true_iff.mp hstart).1
          | separators => exact Bool.false_ne_true (hseparator.symm.trans hstart)
          | comment => exact hcomment (eq_of_beq hstart)
          | opening delimiter | closing delimiter =>
              have hc := eq_of_beq hstart
              cases delimiter <;> contradiction
          | quoteMark | text | openText | key =>
              have hc := eq_of_beq hstart
              contradiction
  all_goals cases hscan

/-! ## Cuts -/

/-- A word of a cut text. -/
inductive Piece where
  | token (lexeme : Lexeme)
  | separators (word : List Char)
  | comment (word : List Char)

namespace Piece

def pattern : Piece → Pattern
  | .token lexeme => lexeme.pattern
  | .separators _ => .separators
  | .comment _ => .comment

def chars : Piece → List Char
  | .token lexeme => lexeme.chars
  | .separators word => word
  | .comment word => word

/-- The tokens among the pieces of a text that starts at `position`. -/
def tokens (position : Position) : List Piece → List Token
  | [] => []
  | .token lexeme :: rest => ⟨lexeme, position⟩ :: tokens (position.advanceBy lexeme.chars) rest
  | .separators word :: rest => tokens (position.advanceBy word) rest
  | .comment word :: rest => tokens (position.advanceBy word) rest

end Piece

/-- A text cut from the left, each time by the longest match, until only `rest` is left. -/
inductive Munched (rest : List Char) : List Char → List Piece → Prop where
  | stop : Munched rest rest []
  | next {piece : Piece} {text : List Char} {pieces : List Piece} :
      Longest piece.pattern piece.chars (piece.chars ++ text) → Munched rest text pieces →
        Munched rest (piece.chars ++ text) (piece :: pieces)

theorem Munched.chars_eq {rest text : List Char} {pieces : List Piece}
    (h : Munched rest text pieces) : text = pieces.flatMap Piece.chars ++ rest := by
  induction h with
  | stop => rfl
  | next _ _ ih => simp [← ih]

/-- No pattern has an empty word. -/
theorem Munched.chars_ne_nil {rest text : List Char} {pieces : List Piece}
    (h : Munched rest text pieces) : ∀ piece ∈ pieces, piece.chars ≠ [] := by
  induction h with
  | stop => simp
  | next hlongest _ ih =>
      intro piece hpiece
      rcases List.mem_cons.mp hpiece with rfl | hpiece
      · exact ne_nil_of_mem hlongest.mem
      · exact ih piece hpiece

/-- What cutting a text that starts at `position` comes to: the tokens of a complete cut, or an error
where the cut gets stuck. -/
def Cuts (position : Position) (text : List Char) (result : Except Error (List Token)) : Prop :=
  ∃ pieces rest, Munched rest text pieces ∧
    match result with
    | .ok row => rest = [] ∧ row = Piece.tokens position pieces
    | .error error => ∃ c after, rest = c :: after ∧ Stuck rest ∧
        error = ⟨.unexpectedChar c, position.advanceBy (pieces.flatMap Piece.chars)⟩

namespace Cuts

variable {position : Position} {whole text : List Char} {result : Except Error (List Token)}

/-- A piece that is no token changes nothing but the position. -/
theorem skip {piece : Piece} (hpiece : ∀ lexeme, piece ≠ .token lexeme)
    (hsplit : piece.chars ++ text = whole) (hlongest : Longest piece.pattern piece.chars whole)
    (h : Cuts (position.advanceBy piece.chars) text result) : Cuts position whole result := by
  subst hsplit
  rcases h with ⟨pieces, rest, hmunched, hresult⟩
  refine ⟨piece :: pieces, rest, .next hlongest hmunched, ?_⟩
  have htokens : Piece.tokens position (piece :: pieces) =
      Piece.tokens (position.advanceBy piece.chars) pieces := by
    cases piece with
    | token lexeme => exact absurd rfl (hpiece lexeme)
    | separators word => rfl
    | comment word => rfl
  cases result with
  | ok row => exact ⟨hresult.1, hresult.2.trans htokens.symm⟩
  | error error =>
      rcases hresult with ⟨c, after, hrest, hstuck, rfl⟩
      exact ⟨c, after, hrest, hstuck, by simp [Position.advanceBy_append]⟩

theorem token {lexeme : Lexeme} (hsplit : lexeme.chars ++ text = whole)
    (hlongest : Longest lexeme.pattern lexeme.chars whole)
    (h : Cuts (position.advanceBy lexeme.chars) text result) :
    Cuts position whole ((⟨lexeme, position⟩ :: ·) <$> result) := by
  subst hsplit
  rcases h with ⟨pieces, rest, hmunched, hresult⟩
  have hpiece : Longest (Piece.token lexeme).pattern (Piece.token lexeme).chars
      ((Piece.token lexeme).chars ++ text) := hlongest
  refine ⟨.token lexeme :: pieces, rest, .next hpiece hmunched, ?_⟩
  cases result with
  | ok row => exact ⟨hresult.1, congrArg _ hresult.2⟩
  | error error =>
      rcases hresult with ⟨c, after, hrest, hstuck, rfl⟩
      exact ⟨c, after, hrest, hstuck, by simp [Position.advanceBy_append, Piece.chars]⟩

end Cuts

/-! ## Source text -/

/-- Dropping separators one by one comes to dropping a run of them. -/
theorem tokensFrom_separators {word : List Char} (h : ∀ c ∈ word, isSeparator c = true)
    (position : Position) (rest : List Char) :
    tokensFrom position (word ++ rest) = tokensFrom (position.advanceBy word) rest := by
  induction word generalizing position with
  | nil => rfl
  | cons c word ih =>
      have hc := h c List.mem_cons_self
      rw [List.cons_append, tokensFrom, if_pos hc, Position.advanceBy_cons]
      exact ih (fun d hd => h d (List.mem_cons_of_mem c hd)) _

theorem cuts_tokensFrom (position : Position) (text : List Char) :
    Cuts position text (tokensFrom position text) := by
  -- By induction on the length of the text: a run of separators is one piece.
  induction hlength : text.length using Nat.strongRecOn generalizing position text with
  | ind length ih =>
  rcases text with _ | ⟨c, rest⟩
  · rw [tokensFrom]
    exact ⟨[], [], .stop, rfl, rfl⟩
  have hcut : ∀ (position : Position) {word after : List Char}, word ≠ [] →
      word ++ after = c :: rest → Cuts position after (tokensFrom position after) := by
    intro position word after hne hsplit
    have hword := List.length_pos_iff.mpr hne
    have htotal := congrArg List.length hsplit
    rw [List.length_append, hlength] at htotal
    exact ih after.length (by omega) position after rfl
  by_cases hseparator : isSeparator c = true
  · have hsplit := List.takeWhile_append_dropWhile (p := isSeparator) (l := c :: rest)
    have hall : ∀ d ∈ (c :: rest).takeWhile isSeparator, isSeparator d = true :=
      fun d hd => List.mem_takeWhile_imp hd
    have hwhole : tokensFrom position (c :: rest) =
        tokensFrom (position.advanceBy ((c :: rest).takeWhile isSeparator))
          ((c :: rest).dropWhile isSeparator) := by
      rw [← tokensFrom_separators hall, hsplit]
    have hne : (c :: rest).takeWhile isSeparator ≠ [] := by simp [hseparator]
    have hpiece : ∀ lexeme, Piece.separators ((c :: rest).takeWhile isSeparator) ≠ .token lexeme :=
      fun _ heq => Piece.noConfusion heq
    rw [hwhole]
    exact .skip hpiece hsplit (longest_separators hseparator) (hcut _ hne hsplit)
  · rw [tokensFrom, if_neg hseparator]
    by_cases hcomment : c = ';'
    · subst hcomment
      have hsplit : ';' :: rest.takeWhile (· ≠ '\n') ++ skipComment rest = ';' :: rest := by
        rw [List.cons_append, skipComment, List.takeWhile_append_dropWhile]
      have hpiece : ∀ lexeme, Piece.comment (';' :: rest.takeWhile (· ≠ '\n')) ≠ .token lexeme :=
        fun _ heq => Piece.noConfusion heq
      rw [if_pos rfl]
      exact .skip hpiece hsplit (longest_comment rest) (hcut _ (List.cons_ne_nil _ _) hsplit)
    · rw [if_neg hcomment]
      split
      · next hscan =>
          have hstuck := stuck_of_scan? hscan (Bool.eq_false_iff.mpr hseparator) hcomment
          exact ⟨[], _, .stop, c, rest, rfl, hstuck, rfl⟩
      · next lexeme after hscan =>
          have hsplit := Lexeme.scan?_chars hscan
          exact .token hsplit (longest_of_scan? hscan)
            (hcut _ (Lexeme.chars_ne_nil_of_scan? hscan) hsplit)

/-- Where a token ends. -/
def Token.stop (token : Token) : Position := token.position.advanceBy token.lexeme.chars

/-- Each token stands in the text behind the pieces in front of it. -/
theorem exists_of_mem_tokens {position : Position} {pieces : List Piece} {token : Token}
    (h : token ∈ Piece.tokens position pieces) :
    ∃ before after, pieces = before ++ .token token.lexeme :: after ∧
      token.position = position.advanceBy (before.flatMap Piece.chars) := by
  induction pieces generalizing position with
  | nil => cases h
  | cons piece pieces ih =>
      have hlater : token ∈ Piece.tokens (position.advanceBy piece.chars) pieces →
          ∃ before after, piece :: pieces = before ++ .token token.lexeme :: after ∧
            token.position = position.advanceBy (before.flatMap Piece.chars) := by
        intro hmem
        rcases ih hmem with ⟨before, after, rfl, hposition⟩
        exact ⟨piece :: before, after, rfl, by simp [hposition, Position.advanceBy_append]⟩
      cases piece with
      | token lexeme =>
          rcases List.mem_cons.mp h with rfl | h
          · exact ⟨[], pieces, rfl, rfl⟩
          · exact hlater h
      | separators word => exact hlater h
      | comment word => exact hlater h

/-- Bytes behind a stretch of text are on a boundary of characters. -/
theorem isValid_advanceBy {source : String} {before after : List Char}
    (h : source.toList = before ++ after) :
    String.Pos.Raw.IsValid source ⟨(Position.start.advanceBy before).offset⟩ := by
  refine String.Pos.Raw.isValid_iff_exists_append.mpr
    ⟨String.ofList before, String.ofList after, ?_, ?_⟩
  · rw [← String.ofList_append, ← h, String.ofList_toList]
  · simp [Position.offset_advanceBy, Position.start, String.rawEndPos]

theorem offset_le_advanceBy (position : Position) (text : List Char) :
    position.offset ≤ (position.advanceBy text).offset := by
  rw [Position.offset_advanceBy]
  exact Nat.le_add_right _ _

theorem offset_lt_advanceBy (position : Position) {text : List Char} (h : text ≠ []) :
    position.offset < (position.advanceBy text).offset := by
  obtain ⟨c, rest, rfl⟩ := List.exists_cons_of_ne_nil h
  have hc : position.offset < (position.advance c).offset := by
    have hsize := c.utf8Size_pos
    unfold Position.advance
    split <;> simp [hsize]
  exact Nat.lt_of_lt_of_le hc (offset_le_advanceBy _ rest)

/-- Tokens stand one behind the other. -/
theorem pairwise_tokens (position : Position) (pieces : List Piece) :
    (∀ token ∈ Piece.tokens position pieces, position.offset ≤ token.position.offset) ∧
      (Piece.tokens position pieces).Pairwise fun token later =>
        token.stop.offset ≤ later.position.offset := by
  induction pieces generalizing position with
  | nil => simp [Piece.tokens]
  | cons piece pieces ih =>
      have hpiece := offset_le_advanceBy position piece.chars
      have hlater := ih (position.advanceBy piece.chars)
      have hbehind : ∀ token ∈ Piece.tokens (position.advanceBy piece.chars) pieces,
          position.offset ≤ token.position.offset :=
        fun token hmem => hpiece.trans (hlater.1 token hmem)
      cases piece with
      | token lexeme =>
          refine ⟨fun token hmem => ?_, List.pairwise_cons.mpr hlater⟩
          rcases List.mem_cons.mp hmem with rfl | hmem
          · exact Nat.le_refl _
          · exact hbehind token hmem
      | separators word => exact ⟨hbehind, hlater.2⟩
      | comment word => exact ⟨hbehind, hlater.2⟩

/-- The tokens of a cut are not empty, and they begin and end between characters. -/
theorem Munched.token_span {source : String} {rest : List Char} {pieces : List Piece}
    (h : Munched rest source.toList pieces) {token : Token}
    (hmem : token ∈ Piece.tokens .start pieces) :
    token.position.offset < token.stop.offset ∧
      String.Pos.Raw.IsValid source ⟨token.position.offset⟩ ∧
      String.Pos.Raw.IsValid source ⟨token.stop.offset⟩ := by
  rcases exists_of_mem_tokens hmem with ⟨before, after, rfl, hposition⟩
  have hstop : token.stop =
      Position.start.advanceBy (before.flatMap Piece.chars ++ token.lexeme.chars) := by
    rw [Token.stop, hposition, Position.advanceBy_append]
  have hsource : source.toList =
      before.flatMap Piece.chars ++ (token.lexeme.chars ++ (after.flatMap Piece.chars ++ rest)) := by
    simp [h.chars_eq, Piece.chars]
  refine ⟨?_, ?_, ?_⟩
  · exact offset_lt_advanceBy _ (h.chars_ne_nil (.token token.lexeme) (by simp))
  · rw [hposition]
    exact isValid_advanceBy hsource
  · rw [hstop]
    exact isValid_advanceBy (hsource.trans (List.append_assoc _ _ _).symm)

/-- Cutting source text is cutting off longest matches and loses nothing.  The text is tiled by its
pieces, which are tokens, runs of separators and comments, each of them the longest match of any
pattern where it starts, and by a rest.  If the text is read, there is no rest; the tokens are those
pieces, in order, and they are not empty, begin and end between characters and do not overlap.
Otherwise no pattern matches the rest, and the error is about its first character. -/
theorem tokens_munch (source : String) :
    ∃ pieces rest, Munched rest source.toList pieces ∧
      source.toList = pieces.flatMap Piece.chars ++ rest ∧
      match tokens source with
      | .ok row =>
          rest = [] ∧ row = Piece.tokens .start pieces ∧
            (∀ token ∈ row, token.position.offset < token.stop.offset ∧
              String.Pos.Raw.IsValid source ⟨token.position.offset⟩ ∧
              String.Pos.Raw.IsValid source ⟨token.stop.offset⟩) ∧
            row.Pairwise fun token later => token.stop.offset ≤ later.position.offset
      | .error error =>
          ∃ c after, rest = c :: after ∧ Stuck rest ∧
            error = ⟨.unexpectedChar c, Position.start.advanceBy (pieces.flatMap Piece.chars)⟩ := by
  rcases cuts_tokensFrom .start source.toList with ⟨pieces, rest, hmunched, hresult⟩
  refine ⟨pieces, rest, hmunched, hmunched.chars_eq, ?_⟩
  rw [tokens]
  generalize tokensFrom .start source.toList = result at hresult ⊢
  cases result with
  | ok row =>
      rcases hresult with ⟨rfl, rfl⟩
      exact ⟨rfl, rfl, fun token hmem => hmunched.token_span hmem,
        (pairwise_tokens .start pieces).2⟩
  | error error => exact hresult

/-- A numeral goes as far as a symbol would: then it is one. -/
example : Lexeme.scan? "1.5.2 x".toList = some (.symbol "1.5.2".toList, " x".toList) := by decide

end Reader
end LazyLisp
