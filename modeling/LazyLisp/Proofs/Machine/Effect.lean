import LazyLisp.Proofs.Machine.Path
import LazyLisp.Proofs.Store.Lifecycle

/-!
# Effect — what one step does to cells and to those who wait for them

Of all steps of the machine only three kinds matter to cells: a request may add or start one, a
demand may begin the work of one, and an outcome may settle one.  Only the last two change which
cells the stack waits to settle.  This file defines:

* `Machine.settling` and `Machine.forced`, the cells that a stack waits to settle;
* `Machine.Effect`, the kinds of steps by what they do to cells.

Main results: `Machine.effect_of_step`, every step that leads on is of one of these kinds;
`Machine.halt_of_step` and `Machine.block_of_step`, where a run stops.
-/

namespace LazyLisp
namespace Machine

variable {host : Host} {state state' : State} {stack : List Pending}

/-! ## Cells on the stack -/

/-- The cells that a stack waits to settle, innermost first, each with the evaluation that goes on
after that. -/
def settling : List Pending → List (CellId × EvaluationId)
  | [] => []
  | .settle cell evaluation :: stack => (cell, evaluation) :: settling stack
  | .await _ :: stack => settling stack
  | .trampoline _ :: stack => settling stack

/-- The cells that a stack waits to settle, innermost first. -/
def forced (stack : List Pending) : List CellId := (settling stack).map Prod.fst

/-! ## Kinds of steps -/

/-- The kinds of steps, by what they do to cells and to the evaluations that resolve them. -/
inductive Effect : State → State → Prop where
  /-- Nothing is done to any cell. -/
  | still {state state' : State} :
      state'.store = state.store → state'.evaluation = state.evaluation →
        settling state'.stack = settling state.stack → Effect state state'
  | answered {request : Request} {next : request.Answer → Script Value} {stack : List Pending}
      {evaluation : EvaluationId} {store : Store} :
      Effect ⟨.run (.ask request next), stack, evaluation, store⟩
        ⟨.run (next (store.answer request).1), stack, evaluation, (store.answer request).2⟩
  /-- The work of a demanded cell is begun. -/
  | entered {cell : CellId} {work : Suspension} {worker : Option EvaluationId}
      {stack : List Pending} {evaluation : EvaluationId} {store store' : Store} :
      store.claim evaluation cell = (.run work worker, store') →
        Effect ⟨.resume (.binding cell), stack, evaluation, store⟩
          ⟨.run (.done (.ok (.suspended work))),
            .trampoline none :: .settle cell evaluation :: stack, worker.getD evaluation, store'⟩
  | settled {cell : CellId} {outer : EvaluationId} {stack : List Pending}
      {evaluation : EvaluationId} {store : Store} {result : Result} :
      Effect ⟨.run (.done result), .settle cell outer :: stack, evaluation, store⟩
        ⟨.run (.done result), stack, outer, store.settle cell result⟩

theorem effect_of_yield {result : Result} {evaluation : EvaluationId} {store : Store}
    (h : yield result stack evaluation store = .next state') :
    Effect ⟨.run (.done result), stack, evaluation, store⟩ state' := by
  cases stack with
  | nil => cases h
  | cons pending stack =>
      cases pending with
      | await next =>
          cases h
          exact .still rfl rfl rfl
      | settle cell outer =>
          cases h
          exact .settled
      | trampoline site =>
          -- The trampoline resumes suspended work, or is left; it settles nothing.
          simp only [yield] at h
          split at h
          all_goals
            cases h
            exact .still rfl rfl rfl

theorem effect_of_demand {cell : CellId} {evaluation : EvaluationId} {store : Store}
    (h : demand cell stack evaluation store = .next state') :
    Effect ⟨.resume (.binding cell), stack, evaluation, store⟩ state' := by
  simp only [demand] at h
  split at h
  · next result store' hclaim =>
      cases h
      exact .still (Store.claim_store hclaim fun _ _ heq => by cases heq) rfl rfl
  · next work worker store' hclaim =>
      cases h
      exact .entered hclaim
  · next name store' hclaim =>
      cases h
      exact .still (Store.claim_store hclaim fun _ _ heq => by cases heq) rfl rfl
  · cases h

/-- Every step that leads on is of one of the kinds. -/
theorem effect_of_step (h : step host state = .next state') : Effect state state' := by
  rcases state with ⟨control, stack, evaluation, store⟩
  rcases control with ⟨result | ⟨request, next⟩ | ⟨form, scope, next⟩⟩ |
    ⟨⟨form, scope⟩ | ⟨func, head, operands, scope⟩ | cell | ⟨label, result⟩⟩
  · exact effect_of_yield h
  · cases h
    exact .answered
  · cases h
    exact .still rfl rfl rfl
  · cases h
    exact .still rfl rfl rfl
  · cases h
    exact .still rfl rfl rfl
  · exact effect_of_demand h
  · cases h
    exact .still rfl rfl rfl

/-- The machine halts with an empty stack, and leaves the store as it is. -/
theorem halt_of_step {result : Result} {store : Store} (h : step host state = .halt result store) :
    state.control = .run (.done result) ∧ state.stack = [] ∧ store = state.store := by
  rcases state with ⟨control, stack, evaluation, before⟩
  rcases control with ⟨done | ⟨request, next⟩ | ⟨form, scope, next⟩⟩ |
    ⟨⟨form, scope⟩ | ⟨func, head, operands, scope⟩ | cell | ⟨label, given⟩⟩
  · rcases stack with _ | ⟨next | site | ⟨cell, outer⟩, stack⟩
    · cases h
      exact ⟨rfl, rfl, rfl⟩
    · cases h
    · simp only [step, yield] at h
      split at h <;> cases h
    · cases h
  -- A demand is left over, and it leads on or blocks.
  all_goals try cases h
  simp only [step, demand] at h
  split at h <;> cases h

/-- The machine blocks at a demand for a cell that another evaluation is resolving. -/
theorem block_of_step {cell : CellId} {store : Store} (h : step host state = .block cell store) :
    state.control = .resume (.binding cell) ∧
      state.store.claim state.evaluation cell = (.wait, store) := by
  rcases state with ⟨control, stack, evaluation, before⟩
  rcases control with ⟨done | ⟨request, next⟩ | ⟨form, scope, next⟩⟩ |
    ⟨⟨form, scope⟩ | ⟨func, head, operands, scope⟩ | cell | ⟨label, given⟩⟩
  case resume.binding =>
    simp only [step, demand] at h
    split at h
    case h_4 hclaim =>
      cases h
      exact ⟨rfl, hclaim⟩
    all_goals cases h
  case run.done =>
    rcases stack with _ | ⟨next | site | ⟨cell, outer⟩, stack⟩
    · cases h
    · cases h
    · simp only [step, yield] at h
      split at h <;> cases h
    · cases h
  all_goals cases h

end Machine
end LazyLisp
