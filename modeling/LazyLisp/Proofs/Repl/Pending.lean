import LazyLisp.Proofs.Reader.Final
import LazyLisp.Repl

/-!
# Pending — when a session gives lines up

A session holds lines back while they are incomplete and drops them when they are malformed.  What
makes lines malformed is an error that is final, so no line that follows could have completed them.

Main result: `malformed_final`.
-/

namespace LazyLisp
namespace Repl

open Reader

/-! ## Lines -/

/-- Every line but the last ends with a line break. -/
theorem getLast?_of_mem_splitLines (front text : List Char) :
    ∀ line ∈ (splitLines front text).dropLast, line.toList.getLast? = some '\n' := by
  induction text generalizing front with
  | nil =>
      intro line hline
      rw [splitLines] at hline
      split at hline <;> cases hline
  | cons c text ih =>
      intro line hline
      rw [splitLines] at hline
      split at hline
      · next hc =>
          cases hlines : splitLines [] text with
          | nil =>
              rw [hlines] at hline
              cases hline
          | cons next rest =>
              rw [hlines, List.dropLast_cons_of_ne_nil (List.cons_ne_nil _ _)] at hline
              rcases List.mem_cons.mp hline with rfl | hline
              · simp [hc]
              · exact ih [] line (hlines ▸ hline)
      · exact ih _ line hline

theorem wholeLines_append {pending line : String} (h : line.toList.getLast? = some '\n') :
    WholeLines (pending ++ line).toList := by
  refine wholeLines_of_getLast? ?_
  rw [String.toList_append, List.getLast?_append, h, Option.some_or]

/-! ## Blank lines -/

/-- No token begins with white space. -/
theorem scan?_of_isBlank {c : Char} (h : Text.isBlank c = true) (rest : List Char) :
    Lexeme.scan? (c :: rest) = none := by
  unfold Lexeme.scan?
  split
  case h_1 => rfl
  case h_11 heq =>
      cases heq
      simp [isWordChar, h]
  all_goals
    next heq =>
      cases heq
      exact absurd h (by decide)

theorem tokensFrom_of_blank {text : List Char} (h : ∀ c ∈ text, Text.isBlank c = true)
    {position : Position} {row : List Token} (hrow : tokensFrom position text = .ok row) :
    row = [] := by
  fun_induction tokensFrom position text with
  | case1 position =>
      cases hrow
      rfl
  | case2 position c rest hseparator ih =>
      exact ih (fun d hd => h d (List.mem_cons_of_mem _ hd)) hrow
  | case3 position rest hlength hseparator ih => exact absurd (h ';' List.mem_cons_self) (by decide)
  | case4 => cases hrow
  | case5 position c rest hseparator hcomment lexeme after hscan hlength ih =>
      rw [scan?_of_isBlank (h c List.mem_cons_self)] at hscan
      cases hscan

/-- Blank text holds no form, but it may hold white space that does not separate tokens. -/
theorem readAll_of_blank {text : String} (h : Text.allBlank text = true) :
    readAll text = .ok [] ∨ ∃ error, readAll text = .error error ∧ error.isIncomplete = false := by
  have hblank : ∀ c ∈ text.toList, Text.isBlank c = true := List.all_eq_true.mp h
  rw [readAll, tokens]
  cases htokens : tokensFrom .start text.toList with
  | ok row =>
      cases tokensFrom_of_blank hblank htokens
      exact .inl rfl
  | error error =>
      rcases unexpected_of_tokensFrom htokens with ⟨_, _, _, _, rfl⟩
      exact .inr ⟨_, rfl, rfl⟩

/-! ## Chunks -/

/-- Where further text completes the pending lines, they are not malformed: they are blank and hold
nothing, or incomplete, or complete already. -/
theorem chunk_of_completed {a b : String} {forms : List Value}
    (hlines : b = "" ∨ WholeLines a.toList) (h : readAll (a ++ b) = .ok forms) :
    chunk a false = .blank ∧ readAll a = .ok [] ∨
      chunk a false = .incomplete ∧ (∀ forms, readAll a ≠ .ok forms) ∨
      ∃ forms, chunk a false = .forms forms ∧ readAll a = .ok forms := by
  have hfinal : ∀ error, readAll a = .error error → error.isIncomplete ≠ false := by
    intro error hread hfinal
    rcases hlines with rfl | hlines
    · rw [String.append_empty, hread] at h
      cases h
    · rcases readAll_append_of_final hlines hread hfinal b with hsame | ⟨_, hother, _⟩
      · rw [h] at hsame
        cases hsame
      · rw [h] at hother
        cases hother
  unfold chunk
  split
  · next hblank =>
      rcases readAll_of_blank hblank with hread | ⟨error, hread, herror⟩
      · exact .inl ⟨rfl, hread⟩
      · exact absurd herror (hfinal error hread)
  · split
    · next read hread => exact .inr (.inr ⟨read, rfl, hread⟩)
    · next error hread =>
        have hincomplete : error.isIncomplete = true := by
          simpa using hfinal error hread
        simp [hincomplete, hread]

/-- An error of whole lines that is not for want of more text is final: whatever follows, reading
fails, and it fails with the same error unless a character that no token begins with stands in the
text that follows.  So a session does not drop pending lines that the next lines complete, however
many of them it takes: it does not find them malformed, and where it finds them blank, there is
nothing in them. -/
theorem malformed_final :
    (∀ (a b : String) (error : Error), a.toList.getLast? = some '\n' →
      readAll a = .error error → error.isIncomplete = false →
        readAll (a ++ b) = .error error ∨
          ∃ unexpected, readAll (a ++ b) = .error unexpected ∧
            Unexpected (Position.start.advanceBy a.toList) b.toList unexpected) ∧
      ∀ (input pending line : String) (done rest further : List String) (forms : List Value),
        splitLines [] input.toList = done ++ line :: rest → further <+: rest →
          readAll (pending ++ line ++ String.join further) = .ok forms →
            (∀ error, chunk (pending ++ line) false ≠ .malformed error) ∧
              (chunk (pending ++ line) false = .blank → readAll (pending ++ line) = .ok []) := by
  constructor
  · intro a b error hlines hread hfinal
    exact readAll_append_of_final (wholeLines_of_getLast? hlines) hread hfinal b
  · intro input pending line done rest further forms hlines hfurther hforms
    have hwhole : String.join further = "" ∨ WholeLines (pending ++ line).toList := by
      by_cases hrest : rest = []
      · -- There is no other line.
        obtain rfl : further = [] := List.prefix_nil.mp (hrest ▸ hfurther)
        exact .inl String.join_nil
      · have hmem : line ∈ (splitLines [] input.toList).dropLast := by
          rw [hlines]
          simp [List.dropLast_append_of_ne_nil, List.dropLast_cons_of_ne_nil hrest]
        exact .inr (wholeLines_append (getLast?_of_mem_splitLines _ _ line hmem))
    rcases chunk_of_completed hwhole hforms with ⟨hchunk, hread⟩ | ⟨hchunk, _⟩ | ⟨_, hchunk, _⟩
    · simp [hchunk, hread]
    · simp [hchunk]
    · simp [hchunk]

/-- The closing bracket stays the error, whatever the open string behind it becomes; and the list is
not dropped before its last line. -/
theorem malformed_final_open :
    (readAll ")\"\n" = .error ⟨.unexpectedToken ")", .start⟩ ∧
      (readAll (")\"\n" ++ "\" :\n") = .error ⟨.unexpectedToken ")", .start⟩ ∨
        ∃ unexpected, readAll (")\"\n" ++ "\" :\n") = .error unexpected ∧
          Unexpected (Position.start.advanceBy ")\"\n".toList) "\" :\n".toList unexpected)) ∧
      readAll ("(\n" ++ "1\n" ++ String.join [")\n"]) = .ok [.list [.number ⟨1, 0⟩]] ∧
        ∀ error, chunk ("(\n" ++ "1\n") false ≠ .malformed error := by
  have hread : readAll ")\"\n" = .error ⟨.unexpectedToken ")", .start⟩ := by cbv
  have hforms : readAll ("(\n" ++ "1\n" ++ String.join [")\n"]) =
      .ok [.list [.number ⟨1, 0⟩]] := by
    have htext : "(\n" ++ "1\n" ++ String.join [")\n"] = "(\n1\n)\n" := rfl
    rw [htext]
    cbv
  have hlines : splitLines [] "(\n1\n)\n".toList = ["(\n"] ++ "1\n" :: [")\n"] := by decide
  exact ⟨⟨hread, malformed_final.1 _ "\" :\n" _ (by decide) hread rfl⟩, hforms,
    (malformed_final.2 _ _ _ _ _ [")\n"] _ hlines (List.prefix_refl _) hforms).1⟩

end Repl
end LazyLisp
