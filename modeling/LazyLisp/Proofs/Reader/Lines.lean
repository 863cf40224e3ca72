import LazyLisp.Proofs.Reader.Munch

/-!
# Lines — the tokens of whole lines

A line break ends every token but one: a string goes on behind it.  So the tokens of whole lines are
the same whatever comes behind them, except for a string that is still open at their end.  This file
defines:

* `WholeLines`, the texts that end with a line break if they are not empty;
* `Unexpected`, the errors that come up in a given stretch of text;
* `Settled`, how far the tokens of a text do not depend on what follows.

Main result: `settled_tokensFrom`, that the tokens of whole lines are settled.
-/

namespace LazyLisp
namespace Reader

open scoped Computability

/-! ## Whole lines -/

/-- The text is empty or ends with a line break. -/
def WholeLines (text : List Char) : Prop :=
  ∀ c, text.getLast? = some c → c = '\n'

theorem wholeLines_of_getLast? {text : List Char} (h : text.getLast? = some '\n') :
    WholeLines text :=
  fun _ hc => Option.some.inj (hc.symm.trans h)

theorem WholeLines.of_append {text rest : List Char} (h : WholeLines (text ++ rest)) :
    WholeLines rest := by
  intro c hc
  exact h c (by simp [List.getLast?_append, hc])

theorem WholeLines.tail {c : Char} {rest : List Char} (h : WholeLines (c :: rest)) :
    WholeLines rest :=
  WholeLines.of_append (show WholeLines ([c] ++ rest) from h)

theorem WholeLines.mem {c : Char} {rest : List Char} (h : WholeLines (c :: rest)) (hc : c ≠ '\n') :
    '\n' ∈ rest := by
  cases hlast : rest.getLast? with
  | none =>
      rw [List.getLast?_eq_none_iff] at hlast
      subst hlast
      exact absurd (h c rfl) hc
  | some d =>
      have hd : d = '\n' := h d (by simp [List.getLast?_cons, hlast])
      exact hd ▸ List.mem_of_getLast? hlast

/-- A run of characters that ends inside a text ends at the same place if the text goes on. -/
theorem takeWhile_append_of_mem {accepts : Char → Bool} {c : Char} {text : List Char}
    (hmem : c ∈ text) (hc : accepts c = false) (more : List Char) :
    (text ++ more).takeWhile accepts = text.takeWhile accepts ∧
      (text ++ more).dropWhile accepts = text.dropWhile accepts ++ more := by
  induction text with
  | nil => cases hmem
  | cons d text ih =>
      by_cases hd : accepts d = true
      · have hrest : c ∈ text := by
          rcases List.mem_cons.mp hmem with rfl | hrest
          · exact absurd hd (by simp [hc])
          · exact hrest
        simp [hd, ih hrest]
      · simp [hd]

/-! ## One token -/

/-- A string that is closed or broken off in whole lines is the same string if they go on. -/
theorem splitText_append_of_ne_nil {text : List Char} (h : WholeLines text)
    (hne : (splitText text).2 ≠ []) (more : List Char) :
    splitText (text ++ more) = ((splitText text).1, (splitText text).2 ++ more) := by
  have hsplit := splitText_append text
  have hstop : splitText ((splitText text).2 ++ more) = ([], (splitText text).2 ++ more) := by
    rcases snd_splitText text with hnil | ⟨rest, hquote⟩ | ⟨rest, hbackslash, hrest⟩
    · exact absurd hnil hne
    · simp [hquote, splitText]
    · rcases hrest with rfl | ⟨after, rfl⟩
      · -- Whole lines do not end with a backslash.
        rw [hbackslash] at hsplit
        have hlast : text.getLast? = some '\\' := by
          rw [← hsplit]
          simp
        exact absurd (h _ hlast) (by decide)
      · simp [hbackslash, splitText]
  calc
    splitText (text ++ more)
        = splitText ((splitText text).1 ++ ((splitText text).2 ++ more)) := by
      rw [← List.append_assoc, hsplit]
    _ = ((splitText text).1, (splitText text).2 ++ more) := by
      rw [splitText_append_of_mem (fst_splitText_mem text), hstop, List.append_nil]

theorem scanText_append {text : List Char} (h : WholeLines text) (hne : (splitText text).2 ≠ [])
    (more : List Char) :
    scanText (text ++ more) = ((scanText text).1, (scanText text).2 ++ more) := by
  have happend := splitText_append_of_ne_nil h hne more
  rw [scanText, scanText, happend]
  generalize splitText text = split at hne
  rcases split with ⟨body, _ | ⟨c, rest⟩⟩
  · exact absurd rfl hne
  · by_cases hquote : c = '\x22'
    · subst hquote
      rfl
    · by_cases hbackslash : c = '\\'
      · subst hbackslash
        rfl
      · simp [hquote, hbackslash]

/-- The kinds of characters that a token can begin with. -/
theorem Lexeme.scan?_cons (c : Char) :
    (∃ lexeme, ∀ rest, Lexeme.scan? (c :: rest) = some (lexeme, rest)) ∨
      c = '\x22' ∨ c = ':' ∨
      ∀ rest, Lexeme.scan? (c :: rest) =
        if isWordChar c then
          some (.ofWord (c :: rest.takeWhile isWordChar), rest.dropWhile isWordChar)
        else none := by
  by_cases hdelimiter : ∃ lexeme, ∀ rest, Lexeme.scan? (c :: rest) = some (lexeme, rest)
  · exact .inl hdelimiter
  refine .inr ?_
  by_cases hquote : c = '\x22'
  · exact .inl hquote
  by_cases hcolon : c = ':'
  · exact .inr (.inl hcolon)
  refine .inr (.inr fun rest => ?_)
  unfold Lexeme.scan?
  split
  case h_1 heq => cases heq
  case h_9 heq =>
      cases heq
      exact absurd rfl hquote
  case h_10 heq =>
      cases heq
      exact absurd rfl hcolon
  case h_11 heq =>
      cases heq
      rfl
  all_goals
      next heq =>
        cases heq
        exact absurd ⟨_, fun _ => rfl⟩ hdelimiter

theorem Lexeme.scan?_quote (rest : List Char) :
    Lexeme.scan? ('\x22' :: rest) = some (scanText rest) := rfl

theorem Lexeme.scan?_colon (rest : List Char) :
    Lexeme.scan? (':' :: rest) =
      match rest.takeWhile isWordChar with
      | [] => none
      | name => some (.key name, rest.dropWhile isWordChar) := rfl

/-- The token at the head of whole lines is the same if they go on, unless it is a string that is
open all the way. -/
theorem scan?_append {c : Char} {rest : List Char} (h : WholeLines (c :: rest))
    (more : List Char) :
    Lexeme.scan? (c :: (rest ++ more)) =
        (Lexeme.scan? (c :: rest)).map (fun scanned => (scanned.1, scanned.2 ++ more)) ∨
      c = '\x22' ∧ rest ∈ textItem∗ := by
  have hrun (hc : c ≠ '\n') : (rest ++ more).takeWhile isWordChar = rest.takeWhile isWordChar ∧
      (rest ++ more).dropWhile isWordChar = rest.dropWhile isWordChar ++ more :=
    takeWhile_append_of_mem (h.mem hc) (by decide) more
  rcases Lexeme.scan?_cons c with ⟨lexeme, hscan⟩ | rfl | rfl | hscan
  · left
    rw [hscan, hscan, Option.map_some]
  · by_cases hopen : (splitText rest).2 = []
    · have hbody := splitText_append rest
      rw [hopen, List.append_nil] at hbody
      exact .inr ⟨rfl, hbody ▸ fst_splitText_mem rest⟩
    · left
      rw [Lexeme.scan?_quote, Lexeme.scan?_quote, scanText_append h.tail hopen more,
        Option.map_some]
  · left
    rw [Lexeme.scan?_colon, Lexeme.scan?_colon, (hrun (by decide)).1, (hrun (by decide)).2]
    split <;> rfl
  · left
    rw [hscan, hscan]
    split
    · next hword =>
        have hc : c ≠ '\n' := by
          rintro rfl
          exact absurd hword (by decide)
        rw [(hrun hc).1, (hrun hc).2, Option.map_some]
    · rfl

/-! ## All tokens -/

section Equations

variable {position : Position} {c : Char} {rest after : List Char} {lexeme : Lexeme}

theorem tokensFrom_separator (hc : isSeparator c = true) :
    tokensFrom position (c :: rest) = tokensFrom (position.advanceBy [c]) rest := by
  rw [tokensFrom, if_pos hc]
  rfl

theorem tokensFrom_comment :
    tokensFrom position (';' :: rest) =
      tokensFrom (position.advanceBy (';' :: rest.takeWhile (· ≠ '\n'))) (skipComment rest) := by
  rw [tokensFrom, if_neg (by decide), if_pos rfl]

theorem tokensFrom_of_none (hseparator : ¬isSeparator c = true) (hcomment : c ≠ ';')
    (hscan : Lexeme.scan? (c :: rest) = none) :
    tokensFrom position (c :: rest) = .error ⟨.unexpectedChar c, position⟩ := by
  rw [tokensFrom, if_neg hseparator, if_neg hcomment]
  split
  · rfl
  · next hother =>
      rw [hscan] at hother
      cases hother

theorem tokensFrom_of_some (hseparator : ¬isSeparator c = true) (hcomment : c ≠ ';')
    (hscan : Lexeme.scan? (c :: rest) = some (lexeme, after)) :
    tokensFrom position (c :: rest) =
      (⟨lexeme, position⟩ :: ·) <$> tokensFrom (position.advanceBy lexeme.chars) after := by
  rw [tokensFrom, if_neg hseparator, if_neg hcomment]
  split
  · next hother =>
      rw [hscan] at hother
      cases hother
  · next hother =>
      rw [hscan] at hother
      cases hother
      rfl

end Equations

/-- An error that comes up in `text`, which starts at `position`: a character that no token begins
with. -/
def Unexpected (position : Position) (text : List Char) (error : Error) : Prop :=
  ∃ before c after, text = before ++ c :: after ∧
    error = ⟨.unexpectedChar c, position.advanceBy before⟩

theorem Unexpected.prepend {position : Position} {front text : List Char} {error : Error}
    (h : Unexpected (position.advanceBy front) text error) :
    Unexpected position (front ++ text) error := by
  rcases h with ⟨before, c, after, rfl, rfl⟩
  exact ⟨front ++ before, c, after, (List.append_assoc _ _ _).symm,
    by rw [Position.advanceBy_append]⟩

theorem unexpected_of_tokensFrom {position : Position} {text : List Char} {error : Error}
    (h : tokensFrom position text = .error error) : Unexpected position text error := by
  have hcuts := cuts_tokensFrom position text
  rw [h] at hcuts
  rcases hcuts with ⟨pieces, _, hmunched, c, after, rfl, _, rfl⟩
  exact ⟨_, c, after, hmunched.chars_eq, rfl⟩

/-- A result that keeps the tokens in `row` or fails in `more`, which starts at `place`. -/
def Continues (row : List Token) (place : Position) (more : List Char)
    (result : Except Error (List Token)) : Prop :=
  match result with
  | .ok all => row <+: all
  | .error error => Unexpected place more error

theorem Continues.map_append {row : List Token} {place : Position} {more : List Char}
    {result : Except Error (List Token)} (h : Continues row place more result)
    (front : List Token) : Continues (front ++ row) place more ((front ++ ·) <$> result) := by
  cases result with
  | ok all => exact (List.prefix_append_right_inj front).mpr h
  | error error => exact h

/-- What is settled about the tokens of a text that starts at `position`, whatever follows. -/
inductive Settled (position : Position) (text : List Char) : Prop where
  | error (error : Error) (now : tokensFrom position text = .error error)
      (later : ∀ more, tokensFrom position (text ++ more) = .error error)
  | tokens (row : List Token) (now : tokensFrom position text = .ok row)
      (later : ∀ more, tokensFrom position (text ++ more) =
        (row ++ ·) <$> tokensFrom (position.advanceBy text) more)
  /-- A string is open at the end of the text: the tokens in front of it are settled. -/
  | openText (row : List Token) (body : List Char) (place : Position)
      (now : tokensFrom position text = .ok (row ++ [⟨.openText body, place⟩]))
      (later : ∀ more,
        Continues row (position.advanceBy text) more (tokensFrom position (text ++ more)))

/-- What is read in front of a text whose tokens are settled joins the tokens that are settled. -/
theorem Settled.prepend {position : Position} {word text : List Char} (front : List Token)
    (hfront : ∀ more, tokensFrom position (word ++ (text ++ more)) =
      (front ++ ·) <$> tokensFrom (position.advanceBy word) (text ++ more))
    (h : Settled (position.advanceBy word) text) : Settled position (word ++ text) := by
  have hnow : tokensFrom position (word ++ text) =
      (front ++ ·) <$> tokensFrom (position.advanceBy word) text := by
    simpa using hfront []
  cases h with
  | error error now later =>
      refine .error error ?_ fun more => ?_
      · rw [hnow, now, Except.map_error]
      · rw [List.append_assoc, hfront, later, Except.map_error]
  | tokens row now later =>
      refine .tokens (front ++ row) ?_ fun more => ?_
      · rw [hnow, now, Except.map_ok]
      · rw [List.append_assoc, hfront, later, Position.advanceBy_append, Functor.map_map]
        simp only [List.append_assoc]
  | openText row body place now later =>
      refine .openText (front ++ row) body place ?_ fun more => ?_
      · rw [hnow, now, Except.map_ok, List.append_assoc]
      · rw [List.append_assoc, hfront, Position.advanceBy_append]
        exact (later more).map_append front

/-- However a string goes on, what has been read of it belongs to its token. -/
theorem exists_of_scanText_append {body : List Char} (h : body ∈ textItem∗) (more : List Char) :
    ∃ lexeme tail after, scanText (body ++ more) = (lexeme, after) ∧
      lexeme.chars = '\x22' :: body ++ tail ∧ tail ++ after = more := by
  have hhead : '\x22' :: body <+: (scanText (body ++ more)).1.chars := by
    have hbody : body <+: (splitText (body ++ more)).1 := by
      rw [splitText_append_of_mem h]
      exact List.prefix_append _ _
    unfold scanText
    split <;> next heq =>
      rw [heq] at hbody
      rcases hbody with ⟨tail, rfl⟩
      simp [Lexeme.chars]
  rcases hhead with ⟨tail, htail⟩
  have hchars := scanText_chars (body ++ more)
  rw [← htail, List.append_assoc, List.cons_append, List.cons.injEq] at hchars
  exact ⟨_, tail, _, rfl, htail.symm, List.append_cancel_left hchars.2⟩

theorem Settled.of_open {body : List Char} (h : body ∈ textItem∗) (position : Position) :
    Settled position ('\x22' :: body) := by
  have hscan : scanText body = (.openText body, []) := by
    have hsplit := splitText_append_of_mem h []
    rw [List.append_nil] at hsplit
    simp [scanText, hsplit, splitText]
  have htokens : ∀ {rest after : List Char} {lexeme : Lexeme}, scanText rest = (lexeme, after) →
      tokensFrom position ('\x22' :: rest) =
        (⟨lexeme, position⟩ :: ·) <$> tokensFrom (position.advanceBy lexeme.chars) after :=
    fun hrest => tokensFrom_of_some (by decide) (by decide)
      ((Lexeme.scan?_quote _).trans (congrArg some hrest))
  refine .openText [] body position ?_ fun more => ?_
  · rw [htokens hscan, tokensFrom]
    rfl
  · rcases exists_of_scanText_append h more with ⟨lexeme, tail, after, hmore, hchars, rfl⟩
    rw [List.cons_append, htokens hmore]
    cases hrest : tokensFrom (position.advanceBy lexeme.chars) after with
    | ok row => exact List.nil_prefix
    | error error =>
        have hafter := unexpected_of_tokensFrom hrest
        rw [hchars, Position.advanceBy_append] at hafter
        exact hafter.prepend

/-- The tokens of whole lines are settled. -/
theorem settled_tokensFrom {text : List Char} (h : WholeLines text) (position : Position) :
    Settled position text := by
  fun_induction tokensFrom position text with
  | case1 position =>
      refine .tokens [] ?_ fun more => ?_
      · rw [tokensFrom]
      · simp
  | case2 position c rest hseparator ih =>
      have hfront : ∀ more, tokensFrom position ([c] ++ (rest ++ more)) =
          ([] ++ ·) <$> tokensFrom (position.advanceBy [c]) (rest ++ more) := by
        intro more
        simp [tokensFrom_separator hseparator]
      exact .prepend [] hfront (ih h.tail)
  | case3 position rest hlength hseparator ih =>
      have hsplit : ';' :: rest.takeWhile (· ≠ '\n') ++ skipComment rest = ';' :: rest := by
        rw [List.cons_append, skipComment, List.takeWhile_append_dropWhile]
      have hfront : ∀ more, tokensFrom position
          (';' :: rest.takeWhile (· ≠ '\n') ++ (skipComment rest ++ more)) =
            ([] ++ ·) <$> tokensFrom (position.advanceBy (';' :: rest.takeWhile (· ≠ '\n')))
              (skipComment rest ++ more) := by
        intro more
        -- The comment ends at a line break of these lines.
        have hline : (rest ++ more).takeWhile (· ≠ '\n') = rest.takeWhile (· ≠ '\n') ∧
            skipComment (rest ++ more) = skipComment rest ++ more :=
          takeWhile_append_of_mem (h.mem (by decide)) (by decide) more
        rw [← List.append_assoc, hsplit, List.cons_append, tokensFrom_comment, hline.1, hline.2]
        simp
      rw [← hsplit] at h ⊢
      exact .prepend [] hfront (ih h.of_append)
  | case4 position c rest hseparator hcomment hscan =>
      have hnone : ∀ more, Lexeme.scan? (c :: (rest ++ more)) = none := by
        intro more
        rcases scan?_append h more with hmore | ⟨rfl, hbody⟩
        · rw [hmore, hscan, Option.map_none]
        · rw [Lexeme.scan?_quote] at hscan
          cases hscan
      exact .error _ (tokensFrom_of_none hseparator hcomment hscan)
        fun more => tokensFrom_of_none hseparator hcomment (hnone more)
  | case5 position c rest hseparator hcomment lexeme after hscan hlength ih =>
      by_cases hopen : c = '\x22' ∧ rest ∈ textItem∗
      · rw [hopen.1]
        exact .of_open hopen.2 position
      · have hsplit := Lexeme.scan?_chars hscan
        have hfront : ∀ more, tokensFrom position (lexeme.chars ++ (after ++ more)) =
            ([⟨lexeme, position⟩] ++ ·) <$>
              tokensFrom (position.advanceBy lexeme.chars) (after ++ more) := by
          intro more
          have hmore := (scan?_append h more).resolve_right hopen
          rw [hscan, Option.map_some] at hmore
          rw [← List.append_assoc, hsplit, List.cons_append,
            tokensFrom_of_some hseparator hcomment hmore]
          rfl
        rw [← hsplit] at h ⊢
        exact .prepend _ hfront (ih h.of_append)

end Reader
end LazyLisp
