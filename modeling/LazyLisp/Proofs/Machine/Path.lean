import LazyLisp.Program
import Mathlib.Logic.Relation

/-!
# Path — the states a run of the machine goes through

A run is a path of steps that lead on, and it is finished by a step that halts.  Both notions take
a *guard*, a condition that every state on the way has to meet, so that one notion serves for runs
as they are and for runs in which something never happens.  This file defines:

* `Machine.Path`, the states that can be reached under a guard;
* `Machine.Halts`, the runs that come to an end under a guard, with the number of steps;
* `Machine.State.RaisesSelfDependence`, the states in which a binding demands itself.

Main results: `Machine.finished_iff_halts` ties `Machine.run` to finished runs, and
`Machine.halts_guarded_iff` says that a run meets a guard exactly if all its states do.
-/

namespace LazyLisp
namespace Machine

variable {host : Host} {guard : State → Prop}

/-! ## Paths -/

/-- A step that leads on, from a state that meets the guard. -/
def Leads (host : Host) (guard : State → Prop) (state state' : State) : Prop :=
  guard state ∧ step host state = .next state'

/-- The states that a run goes through, all but the last of which meet the guard. -/
abbrev Path (host : Host) (guard : State → Prop) : State → State → Prop :=
  Relation.ReflTransGen (Leads host guard)

/-- The guard that every state meets. -/
def anyState : State → Prop := fun _ => True

/-! ## Finished runs -/

/-- After `steps` more steps that lead on, through states that meet the guard, the machine halts. -/
inductive Halts (host : Host) (guard : State → Prop) : Nat → State → Result → Store → Prop where
  | halt {state : State} {result : Result} {store : Store} :
      guard state → step host state = .halt result store → Halts host guard 0 state result store
  | next {steps : Nat} {state state' : State} {result : Result} {store : Store} :
      guard state → step host state = .next state' → Halts host guard steps state' result store →
        Halts host guard (steps + 1) state result store

/-- A finished run from a state that leads on is a finished run from the next state. -/
theorem Halts.of_next {steps : Nat} {state state' : State} {result : Result} {store : Store}
    (h : Halts host guard steps state result store) (hstep : step host state = .next state') :
    ∃ fewer, fewer + 1 = steps ∧ guard state ∧ Halts host guard fewer state' result store := by
  cases h with
  | halt _ hhalt =>
      rw [hstep] at hhalt
      cases hhalt
  | next hguard hnext hrest =>
      rw [hstep] at hnext
      cases hnext
      exact ⟨_, rfl, hguard, hrest⟩

/-- A path to a state from which the machine halts is a finished run. -/
theorem Halts.of_path {state state' : State} (hpath : Path host guard state state') {steps : Nat}
    {result : Result} {store : Store} (h : Halts host guard steps state' result store) :
    ∃ more, Halts host guard more state result store := by
  induction hpath using Relation.ReflTransGen.head_induction_on with
  | refl => exact ⟨steps, h⟩
  | head hleads _ ih =>
      rcases ih with ⟨more, hmore⟩
      exact ⟨more + 1, .next hleads.1 hleads.2 hmore⟩

theorem finished_iff_halts {state : State} {result : Result} {store : Store} :
    (∃ fuel, run host fuel state = .finished result store) ↔
      ∃ steps, Halts host anyState steps state result store := by
  constructor
  · rintro ⟨fuel, h⟩
    -- The fuel only bounds the number of steps.
    induction fuel generalizing state with
    | zero => cases h
    | succ fuel ih =>
        rw [run] at h
        split at h
        · next state' hstep =>
            rcases ih h with ⟨steps, hsteps⟩
            exact ⟨steps + 1, .next trivial hstep hsteps⟩
        · next hstep =>
            cases h
            exact ⟨0, .halt trivial hstep⟩
        · cases h
  · rintro ⟨steps, h⟩
    induction h with
    | halt _ hstep => exact ⟨1, by rw [run, hstep]⟩
    | next _ hstep _ ih =>
        rcases ih with ⟨fuel, hfuel⟩
        exact ⟨fuel + 1, by rw [run, hstep]; exact hfuel⟩

/-- A run meets a guard exactly if all states that it goes through do. -/
theorem halts_guarded_iff {steps : Nat} {state : State} {result : Result} {store : Store} :
    Halts host guard steps state result store ↔
      Halts host anyState steps state result store ∧
        ∀ state', Path host anyState state state' → guard state' := by
  constructor
  · intro h
    induction h with
    | halt hguard hstep =>
        refine ⟨.halt trivial hstep, fun state' hpath => ?_⟩
        rcases Relation.ReflTransGen.cases_head hpath with rfl | ⟨next, hleads, _⟩
        · exact hguard
        · rw [hleads.2] at hstep
          cases hstep
    | next hguard hstep _ ih =>
        refine ⟨.next trivial hstep ih.1, fun state' hpath => ?_⟩
        rcases Relation.ReflTransGen.cases_head hpath with rfl | ⟨next, hleads, hrest⟩
        · exact hguard
        · rw [hleads.2] at hstep
          cases hstep
          exact ih.2 state' hrest
  · rintro ⟨h, hguard⟩
    induction h with
    | halt _ hstep => exact .halt (hguard _ .refl) hstep
    | next _ hstep _ ih =>
        refine .next (hguard _ .refl) hstep (ih fun state' hpath => ?_)
        exact hguard state' (.head ⟨trivial, hstep⟩ hpath)

/-! ## Demands -/

section Demand

variable {cell : CellId} {stack : List Pending} {me : EvaluationId} {store claimed : Store}

theorem step_binding_of_settled {result : Result}
    (h : store.claim me cell = (.settled result, claimed)) :
    step host ⟨.resume (.binding cell), stack, me, store⟩ =
      .next ⟨.run (.done result), stack, me, claimed⟩ := by
  simp only [step, demand, h]

theorem step_binding_of_run {work : Suspension} {worker : Option EvaluationId}
    (h : store.claim me cell = (.run work worker, claimed)) :
    step host ⟨.resume (.binding cell), stack, me, store⟩ =
      .next ⟨.run (.done (.ok (.suspended work))), .trampoline none :: .settle cell me :: stack,
        worker.getD me, claimed⟩ := by
  simp only [step, demand, h]

theorem step_binding_of_selfDependent {name : String}
    (h : store.claim me cell = (.selfDependent name, claimed)) :
    step host ⟨.resume (.binding cell), stack, me, store⟩ =
      .next ⟨.run (.done (.error (Cell.selfDependence name))), stack, me, claimed⟩ := by
  simp only [step, demand, h]

theorem step_binding_of_wait (h : store.claim me cell = (.wait, claimed)) :
    step host ⟨.resume (.binding cell), stack, me, store⟩ = .block cell claimed := by
  simp only [step, demand, h]

end Demand

/-! ## Self-dependence -/

/-- The next step raises the failure of a binding that depends on its own value. -/
def State.RaisesSelfDependence (state : State) : Prop :=
  ∃ cell name, state.control = .resume (.binding cell) ∧
    (state.store.claim state.evaluation cell).1 = .selfDependent name

end Machine
end LazyLisp
