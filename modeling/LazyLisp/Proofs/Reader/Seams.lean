import LazyLisp.Proofs.Reader.Lines
import LazyLisp.Value.Render

/-!
# Seams — texts put side by side

A word goes on as long as it can, so two of them fuse if nothing separates them; a string and a
bracket end where they end.  A text that is not followed by a character of words can therefore be
cut on its own, and texts with spaces between them, or with brackets around them, are cut where they
were put together.  This file defines:

* `Boundary`, the texts in front of which any token ends;
* `Yields`, that a text is cut into a row of tokens of some sort, wherever it stands.

Main results:

* `yields_word` and `yields_text`: the tokens of words and of strings;
* `Yields.intercalate` and `Yields.bracketed`: how texts are put together.
-/

namespace LazyLisp
namespace Reader

open scoped Computability

/-! ## Boundaries -/

/-- A text that no word reaches into. -/
def Boundary (rest : List Char) : Prop :=
  ∀ c, rest.head? = some c → isWordChar c = false

theorem boundary_nil : Boundary [] := by
  intro c hc
  cases hc

theorem boundary_cons {c : Char} (h : isWordChar c = false) (rest : List Char) :
    Boundary (c :: rest) := by
  intro d hd
  cases hd
  exact h

/-- A row of characters of words ends at a boundary. -/
theorem Boundary.takeWhile {rest word : List Char} (h : Boundary rest)
    (hword : ∀ c ∈ word, isWordChar c = true) :
    (word ++ rest).takeWhile isWordChar = word ∧ (word ++ rest).dropWhile isWordChar = rest := by
  have hrest : rest.takeWhile isWordChar = [] ∧ rest.dropWhile isWordChar = rest := by
    cases rest with
    | nil => exact ⟨rfl, rfl⟩
    | cons c others => simp [h c rfl]
  rw [List.takeWhile_append_of_pos hword, List.dropWhile_append_of_pos hword, hrest.1, hrest.2,
    List.append_nil]
  exact ⟨rfl, rfl⟩

/-! ## Rows of tokens -/

/-- In front of a boundary, `text` is cut into a row of tokens that is `some sort` of row. -/
def Yields (text : List Char) (sort : List Token → Prop) : Prop :=
  ∀ position rest, Boundary rest → ∃ row, sort row ∧
    tokensFrom position (text ++ rest) =
      (row ++ ·) <$> tokensFrom (position.advanceBy text) rest

theorem Yields.tokens {source : String} {sort : List Token → Prop}
    (h : Yields source.toList sort) : ∃ row, sort row ∧ tokens source = .ok row := by
  obtain ⟨row, hrow, htokens⟩ := h .start [] boundary_nil
  refine ⟨row, hrow, ?_⟩
  rw [List.append_nil, tokensFrom, Except.map_ok, List.append_nil] at htokens
  exact htokens

theorem Yields.imp {text : List Char} {sort other : List Token → Prop}
    (h : Yields text sort) (himp : ∀ row, sort row → other row) : Yields text other := by
  intro position rest hrest
  obtain ⟨row, hrow, htokens⟩ := h position rest hrest
  exact ⟨row, himp row hrow, htokens⟩

/-- Two texts one after the other, if the second keeps out of the words of the first. -/
theorem Yields.append {text more : List Char} {sort other joined : List Token → Prop}
    (h : Yields text sort) (hmore : Yields more other)
    (hseam : ∀ rest, Boundary rest → Boundary (more ++ rest))
    (hjoin : ∀ row later, sort row → other later → joined (row ++ later)) :
    Yields (text ++ more) joined := by
  intro position rest hrest
  obtain ⟨row, hrow, htokens⟩ := h position (more ++ rest) (hseam rest hrest)
  obtain ⟨later, hlater, hothers⟩ := hmore (position.advanceBy text) rest hrest
  refine ⟨row ++ later, hjoin row later hrow hlater, ?_⟩
  rw [List.append_assoc, htokens, hothers, Functor.map_map, Position.advanceBy_append]
  simp only [List.append_assoc]

theorem yields_space {text : List Char} {sort : List Token → Prop} (h : Yields text sort) :
    Yields (' ' :: text) sort := by
  intro position rest hrest
  obtain ⟨row, hrow, htokens⟩ := h (position.advanceBy [' ']) rest hrest
  refine ⟨row, hrow, ?_⟩
  rw [List.cons_append, tokensFrom_separator (by decide), htokens]
  rfl

/-- Two texts with a space between them. -/
theorem Yields.append_space {text more : List Char} {sort other joined : List Token → Prop}
    (h : Yields text sort) (hmore : Yields more other)
    (hjoin : ∀ row later, sort row → other later → joined (row ++ later)) :
    Yields (text ++ ' ' :: more) joined :=
  h.append (yields_space hmore) (fun _ _ => boundary_cons (by decide) _) hjoin

/-! ## Single tokens -/

/-- What begins a token is neither a separator nor a comment. -/
theorem not_separator_of_scan? {c : Char} {rest after : List Char} {lexeme : Lexeme}
    (h : Lexeme.scan? (c :: rest) = some (lexeme, after)) :
    ¬isSeparator c = true ∧ c ≠ ';' := by
  constructor
  · intro hc
    simp only [isSeparator, Bool.or_eq_true, beq_iff_eq] at hc
    rcases hc with (((rfl | rfl) | rfl) | rfl) | rfl <;> cases h
  · rintro rfl
    cases h

/-- One token, if it ends at every boundary. -/
theorem yields_of_scan? {lexeme : Lexeme} (hne : lexeme.chars ≠ [])
    (h : ∀ rest, Boundary rest → Lexeme.scan? (lexeme.chars ++ rest) = some (lexeme, rest)) :
    Yields lexeme.chars fun row => ∃ position, row = [⟨lexeme, position⟩] := by
  intro position rest hrest
  refine ⟨[⟨lexeme, position⟩], ⟨position, rfl⟩, ?_⟩
  have hscan := h rest hrest
  obtain ⟨c, others, hchars⟩ := List.exists_cons_of_ne_nil hne
  rw [hchars, List.cons_append] at hscan ⊢
  have hstart := not_separator_of_scan? hscan
  rw [tokensFrom_of_some hstart.1 hstart.2 hscan, hchars]
  rfl

/-- A text that is one word on its own is the same word in front of every boundary. -/
theorem scan?_word {lexeme : Lexeme} (hquote : lexeme.chars.head? ≠ some '\x22')
    (h : Lexeme.scan? lexeme.chars = some (lexeme, [])) {rest : List Char} (hrest : Boundary rest) :
    Lexeme.scan? (lexeme.chars ++ rest) = some (lexeme, rest) := by
  obtain ⟨c, others, hchars⟩ := List.exists_cons_of_ne_nil (Lexeme.chars_ne_nil_of_scan? h)
  rw [hchars] at h hquote ⊢
  -- If the scan of a word leaves nothing, then all of it is characters of words.
  have hall : others.dropWhile isWordChar = [] →
      (others ++ rest).takeWhile isWordChar = others ∧
        (others ++ rest).dropWhile isWordChar = rest := fun hnil =>
    hrest.takeWhile (List.dropWhile_eq_nil_iff.mp hnil)
  have hself : others.dropWhile isWordChar = [] → others.takeWhile isWordChar = others :=
    fun hnil => List.takeWhile_eq_self_iff.mpr (List.dropWhile_eq_nil_iff.mp hnil)
  rw [List.cons_append]
  rcases Lexeme.scan?_cons c with ⟨other, hscan⟩ | rfl | rfl | hscan
  · rw [hscan] at h ⊢
    cases h
    rfl
  · exact absurd rfl hquote
  · rw [Lexeme.scan?_colon] at h ⊢
    cases hname : others.takeWhile isWordChar with
    | nil =>
        rw [hname] at h
        cases h
    | cons d name =>
        rw [hname] at h
        simp only [Option.some.injEq, Prod.mk.injEq] at h
        rw [(hall h.2).1, (hall h.2).2]
        rw [hself h.2] at hname
        rw [hname, ← h.1]
  · rw [hscan] at h ⊢
    split at h
    · next hword =>
        simp only [Option.some.injEq, Prod.mk.injEq] at h
        rw [if_pos hword, (hall h.2).1, (hall h.2).2, ← h.1, hself h.2]
    · cases h

theorem yields_word {lexeme : Lexeme} (hquote : lexeme.chars.head? ≠ some '\x22')
    (h : Lexeme.scan? lexeme.chars = some (lexeme, [])) :
    Yields lexeme.chars fun row => ∃ position, row = [⟨lexeme, position⟩] :=
  yields_of_scan? (Lexeme.chars_ne_nil_of_scan? h) fun _ hrest => scan?_word hquote h hrest

/-- A text that is one token is found by one scan. -/
theorem scan?_of_tokens {source : String} {lexeme : Lexeme}
    (hchars : lexeme.chars = source.toList) (h : tokens source = .ok [⟨lexeme, .start⟩]) :
    Lexeme.scan? lexeme.chars = some (lexeme, []) := by
  obtain ⟨ending, rest, hsuffix, hscan⟩ :=
    exists_scan?_of_mem h List.mem_cons_self
  have hsplit := Lexeme.scan?_chars hscan
  have hlength := hsuffix.length_le
  rw [← hsplit, hchars, List.length_append] at hlength
  have hrest : rest = [] := List.eq_nil_of_length_eq_zero (by omega)
  rw [hrest] at hsplit hscan
  rw [List.append_nil] at hsplit
  rwa [hsplit]

/-- A word that does not begin with a colon is taken whole. -/
theorem scan?_of_isWordChar {c : Char} (hword : isWordChar c = true) (hcolon : c ≠ ':')
    (rest : List Char) :
    Lexeme.scan? (c :: rest) =
      some (.ofWord (c :: rest.takeWhile isWordChar), rest.dropWhile isWordChar) := by
  unfold Lexeme.scan?
  split
  case h_1 heq => cases heq
  case h_10 heq =>
      cases heq
      exact absurd rfl hcolon
  case h_11 heq =>
      cases heq
      rw [if_pos hword]
  all_goals
      next heq =>
        cases heq
        cases hword

theorem yields_numeral {word : List Char} (h : isNumeral word = true) :
    Yields word fun row => ∃ position, row = [⟨.number word, position⟩] := by
  have hall := isWordChar_of_isNumeral h
  obtain ⟨c, others, rfl, hstart⟩ := exists_cons_of_mem (mem_number_iff.mpr h)
  have hfirst : c ≠ ':' ∧ c ≠ '\x22' := by
    constructor <;> (rintro rfl; cases hstart)
  have hothers : ∀ d ∈ others, isWordChar d = true := fun d hd => hall d (List.mem_cons_of_mem _ hd)
  have hscan : Lexeme.scan? (Lexeme.number (c :: others)).chars =
      some (.number (c :: others), []) := by
    rw [Lexeme.chars, scan?_of_isWordChar (hall c List.mem_cons_self) hfirst.1,
      List.takeWhile_eq_self_iff.mpr hothers, List.dropWhile_eq_nil_iff.mpr hothers,
      Lexeme.ofWord, if_pos h]
  exact yields_word (by simpa [Lexeme.chars] using hfirst.2) hscan

/-- A text that is one token, and no string, is that token in front of every boundary. -/
theorem yields_of_tokens {source : String} {lexeme : Lexeme} (hchars : lexeme.chars = source.toList)
    (hquote : source.toList.head? ≠ some '\x22') (h : tokens source = .ok [⟨lexeme, .start⟩]) :
    Yields source.toList fun row => ∃ position, row = [⟨lexeme, position⟩] := by
  rw [← hchars] at hquote ⊢
  exact yields_word hquote (scan?_of_tokens hchars h)

/-- A string ends at its closing quote, whatever follows. -/
theorem scan?_text {body : List Char} (h : body ∈ textItem∗) (rest : List Char) :
    Lexeme.scan? ('\x22' :: body ++ ['\x22'] ++ rest) = some (.text body, rest) := by
  have hsplit := splitText_append_of_mem h ('\x22' :: rest)
  rw [splitText, List.append_nil] at hsplit
  rw [List.append_assoc, List.cons_append, Lexeme.scan?_quote, scanText]
  simp [hsplit]

theorem yields_text {body : List Char} (h : body ∈ textItem∗) :
    Yields ('\x22' :: body ++ ['\x22']) fun row => ∃ position, row = [⟨.text body, position⟩] :=
  yields_of_scan? (List.cons_ne_nil _ _) fun rest _ => scan?_text h rest

theorem tokens_text {body : List Char} (h : body ∈ textItem∗) :
    tokens (String.ofList ('\x22' :: body ++ ['\x22'])) = .ok [⟨.text body, .start⟩] := by
  have hscan := scan?_text h []
  rw [List.append_nil, List.cons_append] at hscan
  rw [tokens, String.toList_ofList, List.cons_append,
    tokensFrom_of_some (by decide) (by decide) hscan, tokensFrom]
  rfl

/-! ## Texts put together -/

/-- Texts with a space between each two of them. -/
theorem Yields.intercalate {α : Type} {sort : α → List Token → Prop}
    {all : List α → List Token → Prop} (hnil : all [] [])
    (hcons : ∀ item items row later, sort item row → all items later →
      all (item :: items) (row ++ later))
    {texts : List String} {items : List α}
    (h : List.Forall₂ (fun text item => Yields text.toList (sort item)) texts items) :
    Yields (" ".intercalate texts).toList (all items) := by
  induction h with
  | nil =>
      intro position rest _
      exact ⟨[], hnil, by simp⟩
  | @cons text item texts items hfirst hrest ih =>
      cases hrest with
      | nil =>
          rw [String.intercalate_singleton]
          refine hfirst.imp fun row hrow => ?_
          simpa using hcons item [] row [] hrow hnil
      | cons hsecond hothers =>
          rw [String.intercalate_cons_cons, String.toList_append, String.toList_append,
            List.append_assoc]
          exact hfirst.append_space ih fun row later => hcons _ _ row later

theorem tokensFrom_opening (delimiter : Delimiter) (position : Position) (rest : List Char) :
    tokensFrom position (delimiter.opening :: rest) =
      (⟨.opening delimiter, position⟩ :: ·) <$>
        tokensFrom (position.advanceBy [delimiter.opening]) rest := by
  cases delimiter <;> exact tokensFrom_of_some (by decide) (by decide) rfl

theorem tokensFrom_closing (delimiter : Delimiter) (position : Position) (rest : List Char) :
    tokensFrom position (delimiter.closing :: rest) =
      (⟨.closing delimiter, position⟩ :: ·) <$>
        tokensFrom (position.advanceBy [delimiter.closing]) rest := by
  cases delimiter <;> exact tokensFrom_of_some (by decide) (by decide) rfl

/-- A text between brackets. -/
theorem Yields.bracketed (delimiter : Delimiter) {texts : List String}
    {inner outer : List Token → Prop} (h : Yields (" ".intercalate texts).toList inner)
    (hclose : ∀ opened closed row, inner row →
      outer (⟨.opening delimiter, opened⟩ :: (row ++ [⟨.closing delimiter, closed⟩]))) :
    Yields (bracketed (String.singleton delimiter.opening) (String.singleton delimiter.closing)
      texts).toList outer := by
  intro position rest _
  have hboundary : Boundary (delimiter.closing :: rest) := by
    cases delimiter <;> exact boundary_cons (by decide) rest
  obtain ⟨row, hrow, htokens⟩ :=
    h (position.advanceBy [delimiter.opening]) (delimiter.closing :: rest) hboundary
  have htext : (LazyLisp.bracketed (String.singleton delimiter.opening)
      (String.singleton delimiter.closing) texts).toList =
        [delimiter.opening] ++ ((" ".intercalate texts).toList ++ [delimiter.closing]) := by
    simp [LazyLisp.bracketed]
  generalize hclosed : (position.advanceBy [delimiter.opening]).advanceBy
    (" ".intercalate texts).toList = closed at htokens
  refine ⟨_, hclose position closed row hrow, ?_⟩
  rw [htext, Position.advanceBy_append, Position.advanceBy_append, hclosed, List.append_assoc,
    List.append_assoc, List.singleton_append, List.singleton_append, tokensFrom_opening, htokens,
    tokensFrom_closing, Functor.map_map, Functor.map_map]
  simp only [List.cons_append, List.append_assoc, List.nil_append]

end Reader
end LazyLisp
