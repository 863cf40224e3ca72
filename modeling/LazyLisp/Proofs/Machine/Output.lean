import LazyLisp.Machine

/-!
# Output — printed text is never read

A run adds what it prints to the text that nobody has taken yet, and no step looks at that text.  So
text that was printed before makes no difference to a run and stands in front of what the run
prints.  This file defines `Store.prepend`, which puts it there, and the same for states, steps and
outcomes.

Main results: `Machine.step_prepend`, and `Machine.evaluate_prepend` for the run of a form.
-/

namespace LazyLisp

/-! ## Stores -/

namespace Store

/-- The store with `text` in front of the text printed. -/
def prepend (text : String) (store : Store) : Store :=
  { store with output := text ++ store.output }

variable (text : String) (store : Store)

@[simp] theorem prepend_empty : store.prepend "" = store := by
  simp [prepend]

theorem prepend_append (more : String) :
    store.prepend (text ++ more) = (store.prepend more).prepend text := by
  simp [prepend, String.append_assoc]

/-- Text that is taken away can be put back. -/
theorem prepend_takeOutput : store.takeOutput.2.prepend store.takeOutput.1 = store := by
  simp [prepend, takeOutput]

theorem owner?_prepend (scope : Scope) (name : String) :
    (store.prepend text).owner? scope name = store.owner? scope name :=
  owner?_congr (show (store.prepend text).frames = store.frames from rfl) scope name

/-- Every request is answered as without the text, and leaves the text where it is. -/
theorem answer_prepend (request : Request) :
    (store.prepend text).answer request =
      ((store.answer request).1, (store.answer request).2.prepend text) := by
  cases request with
  | lookup scope name =>
      simp only [answer, get_by_owner, owner?_prepend]
      rfl
  | unbind scope name =>
      simp only [answer, delete_by_owner, owner?_prepend]
      split <;> rfl
  | start scope name =>
      simp only [answer, startAsync_by_owner, owner?_prepend]
      split <;> rfl
  | print line => simp [answer, print, prepend, String.append_assoc]
  | _ => rfl

theorem claim_prepend (me : EvaluationId) (id : CellId) :
    (store.prepend text).claim me id =
      ((store.claim me id).1, (store.claim me id).2.prepend text) := by
  have hcells : (store.prepend text).cells[id]? = store.cells[id]? := rfl
  simp only [claim, hcells]
  split <;> rfl

end Store

/-! ## Runs -/

namespace Machine

variable (text : String)

def State.prepend (state : State) : State :=
  { state with store := state.store.prepend text }

def Transition.prepend : Transition → Transition
  | .next state => .next (state.prepend text)
  | .halt result store => .halt result (store.prepend text)
  | .block cell store => .block cell (store.prepend text)

def Outcome.prepend : Outcome → Outcome
  | .finished result store => .finished result (store.prepend text)
  | .blocked cell store => .blocked cell (store.prepend text)
  | .unfinished state => .unfinished (state.prepend text)

theorem yield_prepend (result : Result) (stack : List Pending) (me : EvaluationId) (store : Store) :
    yield result stack me (store.prepend text) = (yield result stack me store).prepend text := by
  rcases stack with _ | ⟨_ | site | _, stack⟩
  · rfl
  · rfl
  · rw [yield.eq_def, yield.eq_def]
    rcases result with _ | value
    · rfl
    · cases value <;> rfl
  · rfl

theorem demand_prepend (cell : CellId) (stack : List Pending) (me : EvaluationId) (store : Store) :
    demand cell stack me (store.prepend text) = (demand cell stack me store).prepend text := by
  simp only [demand, Store.claim_prepend]
  rcases store.claim me cell with ⟨_ | _ | _ | _, later⟩ <;> rfl

/-- A step does the same, and leaves the text where it is. -/
theorem step_prepend (host : Host) (state : State) :
    step host (state.prepend text) = (step host state).prepend text := by
  rcases state with ⟨control, stack, me, store⟩
  cases control with
  | run script =>
      cases script with
      | done result => exact yield_prepend text result stack me store
      | ask request next =>
          simp only [step, State.prepend, Store.answer_prepend]
          rfl
      | eval form scope next => rfl
  | resume work =>
      cases work with
      | binding cell => exact demand_prepend text cell stack me store
      | form form scope => rfl
      | call func head operands scope => rfl
      | given site result => rfl

theorem run_prepend (host : Host) (fuel : Nat) (state : State) :
    run host fuel (state.prepend text) = (run host fuel state).prepend text := by
  induction fuel generalizing state with
  | zero => rfl
  | succ fuel ih =>
      rw [run, run, step_prepend]
      cases step host state with
      | next state => exact ih state
      | halt result store => rfl
      | block cell store => rfl

/-- A form comes to the same, whatever was printed before. -/
theorem evaluate_prepend (host : Host) (fuel : Nat) (form : Value) (scope : Scope) (store : Store) :
    evaluate host fuel form scope (store.prepend text) =
      (evaluate host fuel form scope store).prepend text :=
  run_prepend text host fuel (.ofForm form scope store)

end Machine
end LazyLisp
