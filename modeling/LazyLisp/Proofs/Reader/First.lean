import LazyLisp.Proofs.Reader.Grammar
import LazyLisp.Proofs.Reader.Inert

/-!
# First — reading a single form

Where one form is asked for, the reader stops at the token that completes it.  A text that holds
nothing else is used up by then.  This file defines `Progress.begun`, how many forms have been begun
so far, which counts up only where a new form begins.

Main results: `readOne_of_tokens`, that a text derived as one form is read as that form, and
`readAll_of_readOne`, that it makes no difference whether one form is asked for or all of them.
-/

namespace LazyLisp
namespace Reader

/-! ## Forms that have been begun -/

/-- How many forms have been begun outside all brackets. -/
def Progress.begun (progress : Progress) : Nat :=
  progress.forms.length + if progress.opened = [] then 0 else 1

theorem begun_deliver (form : Value) (forms : List Value) (opened : List (Opening × Position)) :
    (Progress.deliver form forms opened).begun = forms.length + 1 := by
  induction opened generalizing form with
  | nil => simp [Progress.deliver, Progress.begun]
  | cons entry rest ih =>
      rcases entry with ⟨_ | _, position⟩
      · simp [Progress.deliver, Progress.begun]
      · exact ih form.quoted

/-- Before a token, at most one form is begun and not complete; it belongs to that one, or begins
one. -/
theorem begun_step {progress next : Progress} {token : Token} (h : progress.step token = .ok next) :
    next.begun = progress.forms.length + 1 := by
  rcases token with ⟨lexeme, position⟩
  cases lexeme with
  | opening delimiter | quoteMark =>
      cases h
      simp [Progress.push, Progress.begun]
  | openText body => cases h
  -- A token that is a form by itself completes one, unless there is a flaw in it.
  | number digits | text body =>
      simp only [Progress.step] at h
      split at h
      · cases h
        exact begun_deliver _ progress.forms progress.opened
      · cases h
  | key name | symbol name =>
      cases h
      exact begun_deliver _ progress.forms progress.opened
  | closing delimiter =>
      simp only [Progress.step] at h
      split at h
      · split at h
        · split at h
          · cases h
            exact begun_deliver _ progress.forms _
          · cases h
        · cases h
      · cases h

theorem begun_le (progress : Progress) : progress.begun ≤ progress.forms.length + 1 := by
  unfold Progress.begun
  split <;> omega

theorem begun_foldlM {row : List Token} {progress last : Progress}
    (h : row.foldlM Progress.step progress = .ok last) : progress.begun ≤ last.begun := by
  induction row generalizing progress with
  | nil =>
      cases h
      exact le_rfl
  | cons token rest ih =>
      rw [List.foldlM_cons] at h
      obtain ⟨next, hstep, hrest⟩ := exists_of_bind_eq_ok h
      calc
        progress.begun ≤ progress.forms.length + 1 := begun_le progress
        _ = next.begun := (begun_step hstep).symm
        _ ≤ last.begun := ih hrest

theorem begun_of_finish {progress : Progress} {forms : List Value}
    (h : progress.finish = .ok forms) : progress.begun = forms.length := by
  rcases progress with ⟨_ | ⟨⟨_ | _, position⟩, rest⟩, read⟩
  · cases h
    simp [Progress.begun]
  · cases h
  · cases h

/-! ## The first form -/

/-- Tokens that make one form and nothing else are all used up by the first form. -/
theorem firstForm_of_finish {row : List Token} {progress : Progress} {form : Value}
    (h : row.foldlM Progress.step progress >>= Progress.finish = .ok [form]) :
    firstForm progress row = .ok (some form, []) := by
  induction row generalizing progress with
  | nil =>
      have hfinish : progress.finish = .ok [form] := h
      rw [firstForm, hfinish]
      rfl
  | cons token rest ih =>
      obtain ⟨last, hfold, hfinish⟩ := exists_of_bind_eq_ok h
      rw [List.foldlM_cons] at hfold
      obtain ⟨next, hstep, hrest⟩ := exists_of_bind_eq_ok hfold
      have hnext : rest.foldlM Progress.step next >>= Progress.finish = .ok [form] := by
        rw [hrest]
        exact hfinish
      rw [firstForm, hstep]
      rcases next with ⟨_ | ⟨entry, opened⟩, _ | ⟨first, forms⟩⟩
      · exact ih hnext
      · -- The first form is complete, so there are no tokens of another one.
        have hone : last.begun = 1 := begun_of_finish hfinish
        have hbegun := begun_foldlM hrest
        cases rest with
        | nil =>
            cases hrest
            cases forms with
            | nil =>
                cases hfinish
                rfl
            | cons other others => simp [Progress.begun] at hone
        | cons other later =>
            rw [List.foldlM_cons] at hrest
            obtain ⟨second, hsecond, hlater⟩ := exists_of_bind_eq_ok hrest
            have htwo := begun_step hsecond
            have hgrows := begun_foldlM hlater
            simp only [List.length_cons] at htwo
            omega
      · exact ih hnext
      · exact ih hnext

/-- Where the first form uses up all tokens, it is the only form. -/
theorem finish_of_firstForm {row : List Token} {progress : Progress} {first : Option Value}
    (hforms : progress.forms = []) (h : firstForm progress row = .ok (first, [])) :
    row.foldlM Progress.step progress >>= Progress.finish = .ok first.toList := by
  induction row generalizing progress with
  | nil =>
      rcases progress with ⟨_ | ⟨⟨_ | _, position⟩, rest⟩, forms⟩
      · cases hforms
        cases h
        rfl
      · cases h
      · cases h
  | cons token rest ih =>
      rw [List.foldlM_cons, bind_assoc]
      rw [firstForm] at h
      cases hstep : progress.step token with
      | error error =>
          rw [hstep] at h
          cases h
      | ok next =>
          rw [hstep] at h
          -- One form is begun now.  It is complete, or still open with none before it.
          have hbegun : next.begun = 1 := by
            rw [begun_step hstep, hforms, List.length_nil]
          rcases next with ⟨_ | ⟨entry, opened⟩, _ | ⟨form, forms⟩⟩
          · simp [Progress.begun] at hbegun
          · cases forms with
            | nil =>
                cases h
                rfl
            | cons other others => simp [Progress.begun] at hbegun
          · exact ih rfl h
          · simp [Progress.begun] at hbegun

/-- A text that one form is read from holds that form and no other, or no form at all. -/
theorem readAll_of_readOne {source : String} {form : Value} (h : readOne source = .ok form) :
    readAll source = .ok [form] ∨ readAll source = .ok [] ∧ form = .nil := by
  obtain ⟨row, hrow, hrest⟩ := exists_of_bind_eq_ok h
  obtain ⟨⟨first, later⟩, hfirst, hresult⟩ := exists_of_bind_eq_ok hrest
  cases later with
  | cons token rest => cases hresult
  | nil =>
      cases hresult
      have hforms : readAll source = .ok first.toList := by
        rw [readAll, hrow]
        exact finish_of_firstForm rfl hfirst
      cases first with
      | none => exact .inr ⟨hforms, rfl⟩
      | some form => exact .inl hforms

theorem formsOf_tokens (tree : Tree) : formsOf tree.tokens = .ok [tree.value] :=
  formsOf_eq_ok_iff.mpr ⟨[tree], by simp [Tree.allTokens], rfl⟩

/-- A source text that is derived as one form holds that form and no other. -/
theorem readAll_of_tokens {source : String} {tree : Tree} (h : tokens source = .ok tree.tokens) :
    readAll source = .ok [tree.value] := by
  rw [readAll, h]
  exact formsOf_tokens tree

/-- A source text that is derived as one form is read as that form. -/
theorem readOne_of_tokens {source : String} {tree : Tree}
    (h : tokens source = .ok tree.tokens) : readOne source = .ok tree.value := by
  have hforms := formsOf_tokens tree
  have hfirst : firstForm .start tree.tokens = .ok (some tree.value, []) :=
    firstForm_of_finish hforms
  simp only [readOne, h, hfirst, bind, Except.bind]
  rfl

end Reader
end LazyLisp
