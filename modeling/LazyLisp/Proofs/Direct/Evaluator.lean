import LazyLisp.Program

/-!
# Direct — evaluation by recursion, without a trampoline

The machine leaves the last step of every form to whoever receives the form's outcome, and keeps an
explicit stack of what waits.  A *direct* evaluator does neither: whatever a step leaves suspended
is evaluated on the spot, by recursion, before the step counts as done.  So no outcome of a direct
evaluation is ever suspended, be it a form in tail position, a call, or the handle of a binding.

Direct evaluators differ in how they deal with demands for lazy bindings and in whether they keep
account of the calls they are in.  This file defines:

* `Discipline`, these two choices, with `Discipline.need` for call by need, `Discipline.strict` for
  call by need without self-dependence, and `Discipline.byName` for call by name;
* `Direct.outcome`, the outcome of a task, and `Direct.evaluate` for a form.

More fuel never changes an outcome that is there (`Direct.outcome_mono`), no outcome is suspended
(`Direct.ne_suspended_of_outcome`), and a form in tail position comes to the same as one evaluated on
the spot (`Direct.tail_iff_value`).
-/

namespace LazyLisp

/-! ## Disciplines -/

/-- How a direct evaluator deals with calls and with demands. -/
structure Discipline where
  /-- The call site by which suspended work shows in a trace. -/
  site : Suspension → Option CallSite
  /-- What comes of a demand for a cell. -/
  claim : Store → EvaluationId → CellId → Claim × Store
  /-- What is done with the outcome of a cell. -/
  settle : Store → CellId → Result → Store

namespace Discipline

/-- Call by need: a cell is resolved once and keeps its outcome.  No traces are kept. -/
def need : Discipline where
  site _ := none
  claim := Store.claim
  settle := Store.settle

/-- The same discipline with traces. -/
def traced (discipline : Discipline) : Discipline :=
  { discipline with site := Suspension.callSite? }

/-- Call by need, except that a binding which demands itself has no outcome at all. -/
def strict : Discipline :=
  { need with
    claim := fun store me cell =>
      match store.claim me cell with
      | (.selfDependent _, store) => (.wait, store)
      | other => other }

/-- Call by name: cells stay pending for ever, and every demand does their work from scratch. -/
def byName : Discipline where
  site _ := none
  claim store _ cell :=
    match store.cells[cell]? with
    | some ⟨_, .pending work⟩ => (.run work none, store)
    | _ => (.wait, store)
  settle store _ _ := store

end Discipline

/-! ## The evaluator -/

namespace Direct

open Machine (Control)

/-- The outcome of a task for the evaluation `me`.  The caller is the latest call that shows in a
trace since the task began; a failure passes it on its way out. -/
def outcome (discipline : Discipline) (host : Host) :
    Nat → EvaluationId → Option CallSite → Control → Store → Option (Result × Store)
  | 0, _, _, _, _ => none
  | fuel + 1, me, caller, .run (.done (.ok (.suspended work))), store =>
      outcome discipline host fuel me ((discipline.site work).or caller) (.resume work) store
  | _ + 1, _, _, .run (.done (.ok value)), store => some (.ok value, store)
  | _ + 1, _, caller, .run (.done (.error failure)), store =>
      some (.error (failure.throughAny caller), store)
  | fuel + 1, me, caller, .run (.ask request next), store =>
      outcome discipline host fuel me caller (.run (next (store.answer request).1))
        (store.answer request).2
  | fuel + 1, me, caller, .run (.eval form scope next), store =>
      match outcome discipline host fuel me none (.run (Form.step form scope)) store with
      | some (result, store) =>
          outcome discipline host fuel me caller (.run (next result)) store
      | none => none
  | fuel + 1, me, caller, .resume (.form form scope), store =>
      outcome discipline host fuel me caller (.run (Form.step form scope)) store
  | fuel + 1, me, caller, .resume (.call func head operands scope), store =>
      outcome discipline host fuel me caller (.run (func.enter host head operands scope)) store
  | fuel + 1, me, caller, .resume (.given _ result), store =>
      outcome discipline host fuel me caller (.run (.done result)) store
  | fuel + 1, me, caller, .resume (.binding cell), store =>
      match discipline.claim store me cell with
      | (.settled result, store) =>
          outcome discipline host fuel me caller (.run (.done result)) store
      | (.run work worker, store) =>
          match outcome discipline host fuel (worker.getD me) none
              (.run (.done (.ok (.suspended work)))) store with
          | some (result, store) =>
              outcome discipline host fuel me caller (.run (.done result))
                (discipline.settle store cell result)
          | none => none
      | (.selfDependent name, store) =>
          outcome discipline host fuel me caller
            (.run (.done (.error (Cell.selfDependence name)))) store
      | (.wait, _) => none

/-- The outcome of a form for the main evaluation. -/
def evaluate (discipline : Discipline) (host : Host) (fuel : Nat) (form : Value) (scope : Scope)
    (store : Store) : Option (Result × Store) :=
  outcome discipline host fuel Machine.mainEvaluation none (.run (Form.step form scope)) store

/-! ## Fuel -/

variable {discipline : Discipline} {host : Host}

/-- One more unit of fuel changes no outcome that is there. -/
theorem outcome_succ {fuel : Nat} {me : EvaluationId} {caller : Option CallSite}
    {control : Control} {store store' : Store} {result : Result}
    (h : outcome discipline host fuel me caller control store = some (result, store')) :
    outcome discipline host (fuel + 1) me caller control store = some (result, store') := by
  -- By induction on the fuel, for all tasks at once: inner outcomes stay as well.
  induction fuel generalizing me caller control store result store' with
  | zero => cases h
  | succ fuel ih =>
      rcases control with script | work
      · rcases script with (failure | value) | ⟨request, next⟩ | ⟨form, scope, next⟩
        · exact h
        · cases value with
          | suspended work => exact ih h
          | _ => exact h
        · exact ih h
        · rw [outcome] at h ⊢
          cases hform : outcome discipline host fuel me none (.run (Form.step form scope))
              store with
          | none => rw [hform] at h; cases h
          | some first =>
              rw [hform] at h
              rw [ih hform]
              exact ih h
      · cases work with
        | form form scope => exact ih h
        | call func head operands scope => exact ih h
        | given site result => exact ih h
        | binding cell =>
            rw [outcome] at h ⊢
            rcases hclaim : discipline.claim store me cell with ⟨claim, claimed⟩
            rw [hclaim] at h
            cases claim with
            | settled result => exact ih h
            | run work worker =>
                dsimp only at h ⊢
                cases hwork : outcome discipline host fuel (worker.getD me) none
                    (.run (.done (.ok (.suspended work)))) claimed with
                | none => rw [hwork] at h; cases h
                | some first =>
                    rw [hwork] at h
                    rw [ih hwork]
                    exact ih h
            | selfDependent name => exact ih h
            | wait => exact h

theorem outcome_mono {fuel fuel' : Nat} (hfuel : fuel ≤ fuel') {me : EvaluationId}
    {caller : Option CallSite} {control : Control} {store store' : Store} {result : Result}
    (h : outcome discipline host fuel me caller control store = some (result, store')) :
    outcome discipline host fuel' me caller control store = some (result, store') := by
  induction hfuel with
  | refl => exact h
  | step _ ih => exact outcome_succ ih

/-- A task has at most one outcome, whatever the fuel. -/
theorem outcome_unique {fuel fuel' : Nat} {me : EvaluationId} {caller : Option CallSite}
    {control : Control} {store : Store} {first second : Result × Store}
    (h : outcome discipline host fuel me caller control store = some first)
    (h' : outcome discipline host fuel' me caller control store = some second) :
    first = second := by
  have hle := outcome_mono (Nat.le_max_left fuel fuel') h
  have hle' := outcome_mono (Nat.le_max_right fuel fuel') h'
  exact Option.some.inj (hle.symm.trans hle')

/-! ## Outcomes -/

/-- Direct evaluation leaves nothing suspended. -/
theorem ne_suspended_of_outcome {fuel : Nat} {me : EvaluationId} {caller : Option CallSite}
    {control : Control} {store store' : Store} {value : Value}
    (h : outcome discipline host fuel me caller control store = some (.ok value, store'))
    (work : Suspension) : value ≠ .suspended work := by
  induction fuel generalizing me caller control store with
  | zero => cases h
  | succ fuel ih =>
      rcases control with script | suspension
      · rcases script with (failure | result) | ⟨request, next⟩ | ⟨form, scope, next⟩
        · cases h
        · cases result with
          -- Suspended work is resumed, and it is the outcome of that which counts.
          | suspended inner => exact ih h
          | _ =>
              intro hvalue
              subst hvalue
              cases h
        · exact ih h
        · rw [outcome] at h
          split at h
          · exact ih h
          · cases h
      · cases suspension with
        | form form scope => exact ih h
        | call func head operands scope => exact ih h
        | given site result => exact ih h
        | binding cell =>
            rw [outcome] at h
            split at h
            · exact ih h
            · split at h
              · exact ih h
              · cases h
            · exact ih h
            · cases h

/-! ## The last step -/

/-- What has come out stays as it is. -/
theorem outcome_done {result : Result} (hresult : ∀ work, result ≠ .ok (.suspended work))
    (fuel : Nat) (me : EvaluationId) (store : Store) :
    outcome discipline host (fuel + 1) me none (.run (.done result)) store =
      some (result, store) := by
  rcases result with failure | value
  · rfl
  · cases value with
    | suspended work => exact absurd rfl (hresult work)
    | _ => rfl

theorem outcome_done_outcome {fuel : Nat} {me : EvaluationId} {caller : Option CallSite}
    {control : Control} {store store' : Store} {result : Result}
    (h : outcome discipline host fuel me caller control store = some (result, store'))
    (more : Nat) :
    outcome discipline host (more + 1) me none (.run (.done result)) store' =
      some (result, store') := by
  refine outcome_done (fun work hwork => ?_) more me store'
  rw [hwork] at h
  exact ne_suspended_of_outcome h work rfl

/-- A form that is left to the caller comes to the same as one that is evaluated on the spot. -/
theorem tail_iff_value (hsite : ∀ form scope, discipline.site (.form form scope) = none)
    {me : EvaluationId} {form : Value} {scope : Scope} {store : Store} {final : Result × Store} :
    (∃ fuel, outcome discipline host fuel me none (.run (Script.tail form scope)) store =
        some final) ↔
      ∃ fuel, outcome discipline host fuel me none (.run (Script.value form scope)) store =
        some final := by
  -- Two units of fuel bring the form in tail position to its first step.
  have htail : ∀ fuel,
      outcome discipline host (fuel + 2) me none (.run (Script.tail form scope)) store =
        outcome discipline host fuel me none (.run (Form.step form scope)) store := by
    intro fuel
    have hnone : (discipline.site (.form form scope)).or none = none := by rw [hsite]; rfl
    calc
      outcome discipline host (fuel + 2) me none (.run (Script.tail form scope)) store
          = outcome discipline host (fuel + 1) me ((discipline.site (.form form scope)).or none)
              (.resume (.form form scope)) store := rfl
      _ = outcome discipline host fuel me none (.run (Form.step form scope)) store := by
          rw [hnone, outcome]
  constructor
  · rintro ⟨fuel, h⟩
    have hstep := (htail fuel).symm.trans (outcome_mono (Nat.le_add_right fuel 2) h)
    refine ⟨fuel + 2, ?_⟩
    rw [Script.value, outcome, outcome_succ hstep]
    exact outcome_done_outcome hstep fuel
  · rintro ⟨fuel, h⟩
    cases fuel with
    | zero => cases h
    | succ fuel =>
        rw [Script.value, outcome] at h
        split at h
        · next result store' hstep =>
            have hdone := outcome_unique (outcome_done_outcome hstep fuel) h
            exact ⟨fuel + 2, (htail fuel).trans (hdone ▸ hstep)⟩
        · cases h

end Direct
end LazyLisp
