import LazyLisp.Proofs.Reader.Lines
import LazyLisp.Reader.Forms

/-!
# Final — errors that no further text takes back

Source text that ends too early is incomplete: a bracket, a quote mark or a string is open at its
end.  Any other error is found at a token that is complete, and nothing behind a token changes what
the reader makes of it.  So if whole lines have such an error, then they have it whatever follows,
unless the reader does not get as far as their tokens because a character behind them begins none.

Main result: `readAll_append_of_final`.
-/

namespace LazyLisp
namespace Reader

/-! ## Rows of tokens -/

namespace Progress

/-- What is open at the end could still be closed. -/
theorem isIncomplete_of_finish {progress : Progress} {error : Error}
    (h : progress.finish = .error error) : error.isIncomplete = true := by
  unfold finish at h
  split at h <;> cases h <;> rfl

end Progress

section Rows

variable {row : List Token} {error : Error}

/-- An error at a token is an error whatever follows. -/
theorem formsOf_append_of_error (h : row.foldlM Progress.step .start = .error error)
    (later : List Token) : formsOf (row ++ later) = .error error := by
  rw [formsOf, List.foldlM_append, h]
  rfl

/-- An error that is final is found at a token. -/
theorem foldlM_of_final (h : formsOf row = .error error) (hfinal : error.isIncomplete = false) :
    row.foldlM Progress.step .start = .error error := by
  rw [formsOf] at h
  cases hfold : row.foldlM Progress.step .start with
  | error other =>
      rw [hfold] at h
      cases h
      rfl
  | ok progress =>
      rw [hfold] at h
      have hincomplete : error.isIncomplete = true := Progress.isIncomplete_of_finish h
      exact absurd hincomplete (by simp [hfinal])

/-- It is not found at an open string. -/
theorem foldlM_of_final_openText {body : List Char} {place : Position}
    (h : formsOf (row ++ [⟨.openText body, place⟩]) = .error error)
    (hfinal : error.isIncomplete = false) : row.foldlM Progress.step .start = .error error := by
  have hall := foldlM_of_final h hfinal
  rw [List.foldlM_append] at hall
  cases hfold : row.foldlM Progress.step .start with
  | error other =>
      rw [hfold] at hall
      exact hall
  | ok progress =>
      -- The string itself is incomplete.
      rw [hfold] at hall
      cases hall
      cases hfinal

end Rows

/-! ## Source text -/

/-- An error of whole lines that is final stays, unless a character behind the lines begins no
token. -/
theorem readAll_append_of_final {a : String} {error : Error} (h : WholeLines a.toList)
    (hread : readAll a = .error error) (hfinal : error.isIncomplete = false) (b : String) :
    readAll (a ++ b) = .error error ∨
      ∃ unexpected, readAll (a ++ b) = .error unexpected ∧
        Unexpected (Position.start.advanceBy a.toList) b.toList unexpected := by
  have hkeep : ∀ {row : List Token}, row.foldlM Progress.step .start = .error error →
      Continues row (Position.start.advanceBy a.toList) b.toList (tokens (a ++ b)) →
        readAll (a ++ b) = .error error ∨
          ∃ unexpected, readAll (a ++ b) = .error unexpected ∧
            Unexpected (Position.start.advanceBy a.toList) b.toList unexpected := by
    intro row hrow hcontinues
    rw [readAll]
    cases htokens : tokens (a ++ b) with
    | ok all =>
        rw [htokens] at hcontinues
        rcases hcontinues with ⟨later, rfl⟩
        exact .inl (formsOf_append_of_error hrow later)
    | error unexpected =>
        rw [htokens] at hcontinues
        exact .inr ⟨unexpected, rfl, hcontinues⟩
  have htokens : tokens (a ++ b) = tokensFrom .start (a.toList ++ b.toList) := by
    rw [tokens, String.toList_append]
  rw [readAll, tokens] at hread
  cases settled_tokensFrom h .start with
  | error other now later =>
      left
      rw [now] at hread
      rw [readAll, htokens, later]
      exact hread
  | tokens row now later =>
      rw [now] at hread
      refine hkeep (foldlM_of_final hread hfinal) ?_
      rw [htokens, later]
      cases hmore : tokensFrom (Position.start.advanceBy a.toList) b.toList with
      | ok more => exact List.prefix_append row more
      | error unexpected => exact unexpected_of_tokensFrom hmore
  | openText row body place now later =>
      rw [now] at hread
      refine hkeep (foldlM_of_final_openText hread hfinal) ?_
      rw [htokens]
      exact later b.toList

end Reader
end LazyLisp
