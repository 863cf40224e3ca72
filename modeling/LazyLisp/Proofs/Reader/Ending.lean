import LazyLisp.Proofs.Reader.Seams

/-!
# Ending — how a text can go on

The tokens of a text that stops anywhere are complete but for the last one: a word or a comment could
go on, unless a line break follows, and a string may lack its closing quote.  Such a string can stand
further in front, too, where a backslash before a line break has broken it off.  So every text that
can be cut into tokens either has complete tokens only, and keeps them on the next line, or there is a
first string in it that is not closed.  This file defines:

* `Closed`, the rows of tokens without an open string;
* `Ending`, the ways in which a text ends.

Main result: `ending_tokensFrom`, that every text ends in one of these ways.
-/

namespace LazyLisp
namespace Reader

open scoped Computability

/-! ## Where tokens end -/

/-- A run of characters ends where it did, if the text has gone on behind it or goes on with a
character that stops it. -/
theorem takeWhile_append_of_stop {accepts : Char → Bool} {text more : List Char}
    (h : text.dropWhile accepts ≠ [] ∨ ∃ c later, more = c :: later ∧ accepts c = false) :
    (text ++ more).takeWhile accepts = text.takeWhile accepts ∧
      (text ++ more).dropWhile accepts = text.dropWhile accepts ++ more := by
  induction text with
  | nil =>
      obtain ⟨c, later, rfl, hc⟩ := h.resolve_left fun hne => hne rfl
      simp [hc]
  | cons d text ih =>
      by_cases hd : accepts d = true
      · have hrest := ih (by simpa [hd] using h)
        simp [hd, hrest]
      · simp [hd]

/-- The text goes on behind what is left of it, or else on a new line. -/
def GoesOn (rest more : List Char) : Prop :=
  rest ≠ [] ∨ ∃ later, more = '\n' :: later

theorem GoesOn.takeWhile {accepts : Char → Bool} {text more : List Char}
    (h : GoesOn (text.dropWhile accepts) more) (hline : accepts '\n' = false) :
    (text ++ more).takeWhile accepts = text.takeWhile accepts ∧
      (text ++ more).dropWhile accepts = text.dropWhile accepts ++ more :=
  takeWhile_append_of_stop (h.imp_right fun ⟨later, hmore⟩ => ⟨'\n', later, hmore, hline⟩)

/-- A string that is not closed begins with a quote, and has no other one behind it. -/
theorem open_of_scan? {c : Char} {rest body after : List Char}
    (h : Lexeme.scan? (c :: rest) = some (.openText body, after)) :
    c = '\x22' ∧ ∀ tail, (splitText rest).2 ≠ '\x22' :: tail := by
  have hchars := Lexeme.scan?_chars h
  rw [Lexeme.chars, List.cons_append, List.cons.injEq] at hchars
  obtain ⟨rfl, _⟩ := hchars
  refine ⟨rfl, fun tail htail => ?_⟩
  have hsplit : splitText rest = ((splitText rest).1, '\x22' :: tail) := Prod.ext rfl htail
  rw [Lexeme.scan?_quote, scanText, hsplit] at h
  cases h

theorem closed_of_scanText {rest after : List Char} {lexeme : Lexeme}
    (h : scanText rest = (lexeme, after)) (hclosed : ∀ body, lexeme ≠ .openText body) :
    ∃ body ∈ textItem∗, lexeme = .text body ∧ rest = body ++ '\x22' :: after := by
  have hsplit := splitText_append rest
  have hbody := fst_splitText_mem rest
  unfold scanText at h
  split at h
  · next body tail heq =>
      rw [heq] at hsplit hbody
      cases h
      exact ⟨body, hbody, rfl, hsplit.symm⟩
  · cases h
    exact (hclosed _ rfl).elim
  · cases h
    exact (hclosed _ rfl).elim

/-- The token at the head of a text is the same if the text goes on, unless it is an open string. -/
theorem scan?_append_of_goesOn {c : Char} {rest after : List Char} {lexeme : Lexeme}
    (h : Lexeme.scan? (c :: rest) = some (lexeme, after))
    (hclosed : ∀ body, lexeme ≠ .openText body) {more : List Char} (hmore : GoesOn after more) :
    Lexeme.scan? (c :: (rest ++ more)) = some (lexeme, after ++ more) := by
  rcases Lexeme.scan?_cons c with ⟨other, hscan⟩ | rfl | rfl | hscan
  · rw [hscan] at h ⊢
    cases h
    rfl
  · rw [Lexeme.scan?_quote] at h
    obtain ⟨body, hbody, rfl, rfl⟩ := closed_of_scanText (Option.some.inj h) hclosed
    have htext := scan?_text hbody (after ++ more)
    simpa using htext
  · rw [Lexeme.scan?_colon] at h ⊢
    cases hname : rest.takeWhile isWordChar with
    | nil =>
        rw [hname] at h
        cases h
    | cons d name =>
        rw [hname] at h
        cases h
        have hrun := hmore.takeWhile (by decide)
        rw [hrun.1, hrun.2, hname]
  · rw [hscan] at h ⊢
    split at h
    · next hword =>
        cases h
        have hrun := hmore.takeWhile (by decide)
        rw [if_pos hword, hrun.1, hrun.2]
    · cases h

/-! ## Endings -/

/-- No string in the row is open. -/
def Closed (row : List Token) : Prop :=
  ∀ token ∈ row, ∀ body, token.lexeme ≠ .openText body

theorem closed_nil : Closed [] := by
  intro token hmem
  cases hmem

theorem Closed.append {row later : List Token} (h : Closed row) (hlater : Closed later) :
    Closed (row ++ later) := by
  intro token hmem
  exact (List.mem_append.mp hmem).elim (h token) (hlater token)

/-- How a text that starts at `position` ends, and what that means for its tokens if it goes on. -/
inductive Ending (position : Position) (text : List Char) : Prop where
  | error (error : Error) (now : tokensFrom position text = .error error)
  /-- All tokens are complete. -/
  | complete (row : List Token) (closed : Closed row) (now : tokensFrom position text = .ok row)
      (later : ∀ more, tokensFrom position (text ++ '\n' :: more) =
        (row ++ ·) <$> tokensFrom (position.advanceBy text) ('\n' :: more))
  /-- Behind `front` stands the first string that is not closed. -/
  | openText (row : List Token) (closed : Closed row) (front rest : List Char)
      (split : text = front ++ '\x22' :: rest)
      (open_ : ∀ tail, (splitText rest).2 ≠ '\x22' :: tail)
      (later : ∀ more, tokensFrom position (text ++ more) =
        (row ++ ·) <$> tokensFrom (position.advanceBy front) ('\x22' :: (rest ++ more)))

/-- What is cut off in front of a text joins its tokens, however it ends. -/
theorem Ending.prepend {position : Position} {word text : List Char} (front : List Token)
    (hclosed : Closed front)
    (hnow : tokensFrom position (word ++ text) =
      (front ++ ·) <$> tokensFrom (position.advanceBy word) text)
    (hfront : ∀ more, GoesOn text more → tokensFrom position (word ++ (text ++ more)) =
      (front ++ ·) <$> tokensFrom (position.advanceBy word) (text ++ more))
    (h : Ending (position.advanceBy word) text) : Ending position (word ++ text) := by
  cases h with
  | error error now => exact .error error (by rw [hnow, now, Except.map_error])
  | complete row closed now later =>
      refine .complete (front ++ row) (hclosed.append closed) (by rw [hnow, now, Except.map_ok]) ?_
      intro more
      rw [List.append_assoc, hfront _ (.inr ⟨more, rfl⟩), later, Position.advanceBy_append,
        Functor.map_map]
      simp only [List.append_assoc]
  | openText row closed before rest split open_ later =>
      refine .openText (front ++ row) (hclosed.append closed) (word ++ before) rest ?_ open_ ?_
      · rw [split, List.append_assoc]
      · intro more
        have hne : text ≠ [] := by simp [split]
        rw [List.append_assoc, hfront _ (.inl hne), later, Position.advanceBy_append,
          Functor.map_map]
        simp only [List.append_assoc]

/-- Every text ends in one of these ways. -/
theorem ending_tokensFrom (position : Position) (text : List Char) : Ending position text := by
  fun_induction tokensFrom position text with
  | case1 position =>
      refine .complete [] closed_nil (by rw [tokensFrom]) fun more => ?_
      simp
  | case2 position c rest hseparator ih =>
      have hfront : ∀ text, tokensFrom position ([c] ++ text) =
          ([] ++ ·) <$> tokensFrom (position.advanceBy [c]) text := by
        intro text
        simp [tokensFrom_separator hseparator]
      exact .prepend [] closed_nil (hfront rest) (fun more _ => hfront _) ih
  | case3 position rest hlength hseparator ih =>
      have hsplit : ';' :: rest.takeWhile (· ≠ '\n') ++ skipComment rest = ';' :: rest := by
        rw [List.cons_append, skipComment, List.takeWhile_append_dropWhile]
      rw [← hsplit]
      refine .prepend [] closed_nil ?_ (fun more hmore => ?_) ih
      · rw [hsplit, tokensFrom_comment]
        simp
      · -- The comment ends at a line break, be it in the text or behind it.
        have hline : (rest ++ more).takeWhile (· ≠ '\n') = rest.takeWhile (· ≠ '\n') ∧
            skipComment (rest ++ more) = skipComment rest ++ more :=
          hmore.takeWhile (by decide)
        rw [← List.append_assoc, hsplit, List.cons_append, tokensFrom_comment, hline.1, hline.2]
        simp
  | case4 position c rest hseparator hcomment hscan =>
      exact .error _ (tokensFrom_of_none hseparator hcomment hscan)
  | case5 position c rest hseparator hcomment lexeme after hscan hlength ih =>
      by_cases hopen : ∃ body, lexeme = .openText body
      · obtain ⟨body, rfl⟩ := hopen
        obtain ⟨rfl, hquote⟩ := open_of_scan? hscan
        exact .openText [] closed_nil [] rest rfl hquote fun more => by simp
      · have hclosed : ∀ body, lexeme ≠ .openText body := fun body heq => hopen ⟨body, heq⟩
        have hsplit := Lexeme.scan?_chars hscan
        rw [← hsplit]
        refine .prepend [⟨lexeme, position⟩] (List.forall_mem_singleton.mpr hclosed) ?_
          (fun more hmore => ?_) ih
        · rw [hsplit, tokensFrom_of_some hseparator hcomment hscan]
          rfl
        · rw [← List.append_assoc, hsplit, List.cons_append,
            tokensFrom_of_some hseparator hcomment (scan?_append_of_goesOn hscan hclosed hmore)]
          rfl

end Reader
end LazyLisp
