import LazyLisp.Proofs.Direct.Evaluator
import LazyLisp.Proofs.Machine.Path

/-!
# Trampoline — the machine computes what direct evaluation computes

A direct evaluation is a path of the machine, whatever waits on the stack below its trampoline
(`Direct.path_of_outcome`).  Conversely, when the machine comes to an end, then everything that it
began under a trampoline has a direct outcome, and the rest of the run starts from that outcome
(`Direct.outcome_of_halts`).

Both directions hold of every discipline that keeps traces and *governs* the guard of the run:
where the guard is met it deals with demands as the machine does, and elsewhere it has no outcome.
Call by need governs runs without a guard, and strict call by need governs runs in which no binding
demands itself.

Main result: `Direct.halts_iff_outcome`.
-/

namespace LazyLisp
namespace Direct

open Machine

/-! ## Disciplines and guards -/

/-- The discipline deals with a demand as the machine does where the guard is met, and has no
outcome elsewhere. -/
structure Governs (discipline : Discipline) (guard : State → Prop) : Prop where
  site : discipline.site = Suspension.callSite?
  settle : discipline.settle = Store.settle
  running : ∀ script stack me store, guard ⟨.run script, stack, me, store⟩
  resuming : ∀ work stack me store, (∀ cell, work ≠ .binding cell) →
    guard ⟨.resume work, stack, me, store⟩
  claim : ∀ cell stack me store, guard ⟨.resume (.binding cell), stack, me, store⟩ →
    discipline.claim store me cell = store.claim me cell
  refuse : ∀ cell stack me store, ¬ guard ⟨.resume (.binding cell), stack, me, store⟩ →
    (discipline.claim store me cell).1 = .wait

theorem governs_need : Governs Discipline.need.traced anyState where
  site := rfl
  settle := rfl
  running _ _ _ _ := trivial
  resuming _ _ _ _ _ := trivial
  claim _ _ _ _ _ := rfl
  refuse _ _ _ _ hguard := absurd trivial hguard

theorem governs_strict :
    Governs Discipline.strict.traced fun state => ¬ state.RaisesSelfDependence where
  site := rfl
  settle := rfl
  running script stack me store := by
    rintro ⟨cell, name, hcontrol, _⟩
    cases hcontrol
  resuming work stack me store hwork := by
    rintro ⟨cell, name, hcontrol, _⟩
    exact hwork cell (Control.resume.inj hcontrol)
  claim cell stack me store hguard := by
    simp only [Discipline.traced, Discipline.strict]
    split
    · next name claimed hclaim => exact absurd ⟨cell, name, rfl, by rw [hclaim]⟩ hguard
    · rfl
  refuse cell stack me store hguard := by
    -- Where the guard is not met, the demand is refused, and strict call by need has no outcome.
    rcases Classical.not_not.mp hguard with ⟨cell', name, hcontrol, hclaim⟩
    cases hcontrol
    simp only [Discipline.traced, Discipline.strict]
    split
    · rfl
    · next hother => exact (hother name _ (Prod.ext hclaim rfl)).elim

variable {discipline : Discipline} {guard : State → Prop} {host : Host}

/-! ## Direct evaluations are paths -/

/-- With this much fuel, direct evaluations are paths, whatever waits below the trampoline. -/
def FollowsPath (discipline : Discipline) (guard : State → Prop) (host : Host) (fuel : Nat) :
    Prop :=
  ∀ {me : EvaluationId} {caller : Option CallSite} {control : Control} {store store' : Store}
    {result : Result},
    outcome discipline host fuel me caller control store = some (result, store') →
      ∀ stack : List Pending,
        Path host guard ⟨control, .trampoline caller :: stack, me, store⟩
          ⟨.run (.done result), stack, me, store'⟩

section FollowsPath

variable {fuel : Nat} {me : EvaluationId} {caller : Option CallSite} {store store' : Store}
  {result : Result}

/-- A form is evaluated under a trampoline of its own, above the script that waits for it. -/
theorem path_eval (ih : FollowsPath discipline guard host fuel)
    (hgoverns : Governs discipline guard) {form : Value} {scope : Scope}
    {next : Result → Script Value}
    (h : outcome discipline host (fuel + 1) me caller (.run (.eval form scope next)) store =
      some (result, store')) (stack : List Pending) :
    Path host guard ⟨.run (.eval form scope next), .trampoline caller :: stack, me, store⟩
      ⟨.run (.done result), stack, me, store'⟩ := by
  have hguard := hgoverns.running (.eval form scope next) (.trampoline caller :: stack) me store
  rw [outcome] at h
  split at h
  · next first store₁ hfirst =>
      -- First the form, then the script, under the trampoline that was there before.
      have hbefore := ih hfirst (.await next :: .trampoline caller :: stack)
      have hawait := hgoverns.running (.done first) (.await next :: .trampoline caller :: stack) me
        store₁
      have hafter := ih h stack
      exact .head ⟨hguard, rfl⟩ (hbefore.trans (.head ⟨hawait, rfl⟩ hafter))
  · cases h

/-- The work of a cell is done under a trampoline of its own, above the cell that waits for it. -/
theorem path_demand (ih : FollowsPath discipline guard host fuel)
    (hgoverns : Governs discipline guard) {cell : CellId} (stack : List Pending)
    (hguard : guard ⟨.resume (.binding cell), .trampoline caller :: stack, me, store⟩)
    (h : outcome discipline host (fuel + 1) me caller (.resume (.binding cell)) store =
      some (result, store')) :
    Path host guard ⟨.resume (.binding cell), .trampoline caller :: stack, me, store⟩
      ⟨.run (.done result), stack, me, store'⟩ := by
  rw [outcome, hgoverns.claim cell _ me store hguard] at h
  rcases hclaim : store.claim me cell with ⟨claim, claimed⟩
  rw [hclaim] at h
  cases claim with
  | settled result => exact .head ⟨hguard, step_binding_of_settled hclaim⟩ (ih h stack)
  | run work worker =>
      dsimp only at h
      split at h
      · next first store₁ hfirst =>
          have hbefore := ih hfirst (.settle cell me :: .trampoline caller :: stack)
          have hsettle := hgoverns.running (.done first)
            (.settle cell me :: .trampoline caller :: stack) (worker.getD me) store₁
          rw [hgoverns.settle] at h
          have hafter := ih h stack
          exact .head ⟨hguard, step_binding_of_run hclaim⟩
            (hbefore.trans (.head ⟨hsettle, rfl⟩ hafter))
      · cases h
  | selfDependent name =>
      exact .head ⟨hguard, step_binding_of_selfDependent hclaim⟩ (ih h stack)
  | wait => cases h

/-- Where the guard is not met, a demand has no outcome. -/
theorem outcome_of_not_guard (hgoverns : Governs discipline guard) {cell : CellId}
    {stack : List Pending} (hguard : ¬ guard ⟨.resume (.binding cell), stack, me, store⟩) :
    outcome discipline host (fuel + 1) me caller (.resume (.binding cell)) store = none := by
  have hwait := hgoverns.refuse cell _ me store hguard
  rw [outcome]
  rcases hclaim : discipline.claim store me cell with ⟨claim, claimed⟩
  rw [hclaim] at hwait
  cases hwait
  rfl

end FollowsPath

/-- A direct evaluation is a path of the machine, whatever waits below the trampoline. -/
theorem path_of_outcome (hgoverns : Governs discipline guard) {fuel : Nat} {me : EvaluationId}
    {caller : Option CallSite} {control : Control} {store store' : Store} {result : Result}
    (h : outcome discipline host fuel me caller control store = some (result, store'))
    (stack : List Pending) :
    Path host guard ⟨control, .trampoline caller :: stack, me, store⟩
      ⟨.run (.done result), stack, me, store'⟩ := by
  induction fuel generalizing me caller control store result store' stack with
  | zero => cases h
  | succ fuel ih =>
      have hfollows : FollowsPath discipline guard host fuel := fun h stack => ih h stack
      rcases control with script | work
      · have hguard := hgoverns.running script (.trampoline caller :: stack) me store
        rcases script with (failure | value) | ⟨request, next⟩ | ⟨form, scope, next⟩
        · cases h
          exact .single ⟨hguard, rfl⟩
        · cases value with
          | suspended work =>
              rw [outcome, hgoverns.site] at h
              exact .head ⟨hguard, rfl⟩ (ih h stack)
          | _ =>
              cases h
              exact .single ⟨hguard, rfl⟩
        · exact .head ⟨hguard, rfl⟩ (ih h stack)
        · exact path_eval hfollows hgoverns h stack
      -- Demands are the only tasks at which the guard may not be met.
      · by_cases hbinding : ∃ cell, work = .binding cell
        · rcases hbinding with ⟨cell, rfl⟩
          by_cases hguard : guard ⟨.resume (.binding cell), .trampoline caller :: stack, me, store⟩
          · exact path_demand hfollows hgoverns stack hguard h
          · rw [outcome_of_not_guard hgoverns hguard] at h
            cases h
        · have hwork : ∀ cell, work ≠ .binding cell := fun cell heq => hbinding ⟨cell, heq⟩
          have hguard := hgoverns.resuming work (.trampoline caller :: stack) me store hwork
          cases work with
          | form form scope => exact .head ⟨hguard, rfl⟩ (ih h stack)
          | call func head operands scope => exact .head ⟨hguard, rfl⟩ (ih h stack)
          | given site result => exact .head ⟨hguard, rfl⟩ (ih h stack)
          | binding cell => exact absurd rfl (hwork cell)

/-! ## Finished runs have direct outcomes -/

/-- The outcome of a task under a trampoline, and what is left of the run after it. -/
def HasOutcome (discipline : Discipline) (host : Host) (guard : State → Prop) (steps : Nat)
    (me : EvaluationId) (caller : Option CallSite) (control : Control) (stack : List Pending)
    (store : Store) (final : Result) (finalStore : Store) : Prop :=
  ∃ fuel result store' rest, rest < steps ∧
    outcome discipline host fuel me caller control store = some (result, store') ∧
    Halts host guard rest ⟨.run (.done result), stack, me, store'⟩ final finalStore

/-- What is begun under a trampoline has a direct outcome if the machine comes to an end with fewer
than so many steps. -/
def OutcomesBelow (discipline : Discipline) (guard : State → Prop) (host : Host) (steps : Nat)
    (final : Result) (finalStore : Store) : Prop :=
  ∀ fewer, fewer < steps → ∀ {me : EvaluationId} {caller : Option CallSite} {control : Control}
    {stack : List Pending} {store : Store},
    Halts host guard fewer ⟨control, .trampoline caller :: stack, me, store⟩ final finalStore →
      HasOutcome discipline host guard fewer me caller control stack store final finalStore

section OutcomesBelow

variable {steps : Nat} {me : EvaluationId} {caller : Option CallSite} {control : Control}
  {stack : List Pending} {store : Store} {final : Result} {finalStore : Store}

/-- A step leads on to another task under the same trampoline. -/
theorem hasOutcome_of_step (ih : OutcomesBelow discipline guard host steps final finalStore)
    {control' : Control} {caller' : Option CallSite} {store' : Store}
    (h : Halts host guard steps ⟨control, .trampoline caller :: stack, me, store⟩ final finalStore)
    (hstep : step host ⟨control, .trampoline caller :: stack, me, store⟩ =
      .next ⟨control', .trampoline caller' :: stack, me, store'⟩)
    (hunfold : ∀ fuel, outcome discipline host (fuel + 1) me caller control store =
      outcome discipline host fuel me caller' control' store') :
    HasOutcome discipline host guard steps me caller control stack store final finalStore := by
  rcases h.of_next hstep with ⟨fewer, rfl, _, hrest⟩
  rcases ih fewer (Nat.lt_succ_self _) hrest with ⟨fuel, result, after, rest, hlt, hout, hhalts⟩
  exact ⟨fuel + 1, result, after, rest, Nat.lt_succ_of_lt hlt, (hunfold fuel).trans hout, hhalts⟩

/-- A step leads on to an inner task, for whose outcome something waits above the trampoline.  Once
the outcome is there, the outer task goes on from it. -/
theorem outcomes_of_nested (ih : OutcomesBelow discipline guard host steps final finalStore)
    {inner : EvaluationId} {first : Control} {pending : Pending} {claimed : Store}
    {next : Result → Control} {after : Result → Store → Store}
    (h : Halts host guard steps ⟨control, .trampoline caller :: stack, me, store⟩ final finalStore)
    (hstep : step host ⟨control, .trampoline caller :: stack, me, store⟩ =
      .next ⟨first, .trampoline none :: pending :: .trampoline caller :: stack, inner, claimed⟩)
    (hnext : ∀ result store',
      step host ⟨.run (.done result), pending :: .trampoline caller :: stack, inner, store'⟩ =
        .next ⟨next result, .trampoline caller :: stack, me, after result store'⟩) :
    ∃ fuel result store₁ result' store₂ rest, rest < steps ∧
      outcome discipline host fuel inner none first claimed = some (result, store₁) ∧
      outcome discipline host fuel me caller (next result) (after result store₁) =
        some (result', store₂) ∧
      Halts host guard rest ⟨.run (.done result'), stack, me, store₂⟩ final finalStore := by
  rcases h.of_next hstep with ⟨fewer, rfl, _, hrest⟩
  rcases ih fewer (Nat.lt_succ_self _) hrest with
    ⟨fuel, result, store₁, rest, hlt, hfirst, hhalts⟩
  rcases hhalts.of_next (hnext result store₁) with ⟨rest', rfl, _, hrest'⟩
  -- The rest of the run is shorter than the one that the inner task began.
  rcases ih rest' (by omega) hrest' with ⟨fuel', result', store₂, rest'', hlt', hout, hhalts'⟩
  have hfirst' := outcome_mono (Nat.le_max_left fuel fuel') hfirst
  have hout' := outcome_mono (Nat.le_max_right fuel fuel') hout
  exact ⟨max fuel fuel', result, store₁, result', store₂, rest'', by omega, hfirst', hout', hhalts'⟩

/-- A demand under a trampoline has a direct outcome. -/
theorem hasOutcome_of_demand (ih : OutcomesBelow discipline guard host steps final finalStore)
    (hgoverns : Governs discipline guard) {cell : CellId}
    (h : Halts host guard steps ⟨.resume (.binding cell), .trampoline caller :: stack, me, store⟩
      final finalStore) :
    HasOutcome discipline host guard steps me caller (.resume (.binding cell)) stack store final
      finalStore := by
  have hguard : guard ⟨.resume (.binding cell), .trampoline caller :: stack, me, store⟩ := by
    cases h <;> assumption
  have hsame := hgoverns.claim cell _ me store hguard
  rcases hclaim : store.claim me cell with ⟨claim, claimed⟩
  rw [hclaim] at hsame
  cases claim with
  | settled result =>
      exact hasOutcome_of_step ih h (step_binding_of_settled hclaim) fun fuel => by
        rw [outcome, hsame]
  | run work worker =>
      rcases outcomes_of_nested ih h (step_binding_of_run hclaim) fun _ _ => rfl with
        ⟨fuel, result, store₁, result', store₂, rest, hlt, hfirst, hout, hhalts⟩
      refine ⟨fuel + 1, result', store₂, rest, hlt, ?_, hhalts⟩
      rw [outcome, hsame]
      dsimp only
      rw [hfirst, hgoverns.settle]
      exact hout
  | selfDependent name =>
      exact hasOutcome_of_step ih h (step_binding_of_selfDependent hclaim) fun fuel => by
        rw [outcome, hsame]
  | wait =>
      -- A machine that waits for an evaluation below it never comes to an end.
      have hblock : step host ⟨.resume (.binding cell), .trampoline caller :: stack, me, store⟩ =
          .block cell claimed := step_binding_of_wait hclaim
      cases h with
      | halt _ hstep =>
          rw [hblock] at hstep
          cases hstep
      | next _ hstep _ =>
          rw [hblock] at hstep
          cases hstep

end OutcomesBelow

/-- If the machine comes to an end, then what it began under a trampoline has a direct outcome. -/
theorem outcome_of_halts (hgoverns : Governs discipline guard) {steps : Nat} {me : EvaluationId}
    {caller : Option CallSite} {control : Control} {stack : List Pending} {store : Store}
    {final : Result} {finalStore : Store}
    (h : Halts host guard steps ⟨control, .trampoline caller :: stack, me, store⟩ final
      finalStore) :
    HasOutcome discipline host guard steps me caller control stack store final finalStore := by
  -- By strong induction on the steps that are left: what waits goes on after the inner task.
  induction steps using Nat.strongRecOn generalizing me caller control stack store with
  | ind steps ih =>
    have hbelow : OutcomesBelow discipline guard host steps final finalStore :=
      fun fewer hlt => ih fewer hlt
    rcases control with script | work
    · rcases script with (failure | value) | ⟨request, next⟩ | ⟨form, scope, next⟩
      · rcases h.of_next rfl with ⟨fewer, rfl, _, hrest⟩
        exact ⟨1, _, store, fewer, Nat.lt_succ_self _, rfl, hrest⟩
      · cases value with
        | suspended work =>
            exact hasOutcome_of_step hbelow h rfl fun fuel => by rw [outcome, hgoverns.site]
        | _ =>
            rcases h.of_next rfl with ⟨fewer, rfl, _, hrest⟩
            exact ⟨1, _, store, fewer, Nat.lt_succ_self _, rfl, hrest⟩
      · exact hasOutcome_of_step hbelow h rfl fun fuel => rfl
      · rcases outcomes_of_nested hbelow h rfl fun _ _ => rfl with
          ⟨fuel, result, store₁, result', store₂, rest, hlt, hfirst, hout, hhalts⟩
        refine ⟨fuel + 1, result', store₂, rest, hlt, ?_, hhalts⟩
        rw [outcome, hfirst]
        exact hout
    · cases work with
      | form form scope => exact hasOutcome_of_step hbelow h rfl fun fuel => rfl
      | call func head operands scope => exact hasOutcome_of_step hbelow h rfl fun fuel => rfl
      | given site result => exact hasOutcome_of_step hbelow h rfl fun fuel => rfl
      | binding cell => exact hasOutcome_of_demand hbelow hgoverns h

/-- What runs on an otherwise empty stack comes to an end exactly if it has a direct outcome, and
it ends with that outcome. -/
theorem halts_iff_outcome (hgoverns : Governs discipline guard) {me : EvaluationId}
    {caller : Option CallSite} {control : Control} {store store' : Store} {result : Result} :
    (∃ steps, Halts host guard steps ⟨control, [.trampoline caller], me, store⟩ result store') ↔
      ∃ fuel, outcome discipline host fuel me caller control store = some (result, store') := by
  constructor
  · rintro ⟨steps, h⟩
    rcases outcome_of_halts hgoverns h with ⟨fuel, first, store₁, rest, _, hout, hhalts⟩
    -- Nothing waits below the trampoline, so the machine halts with the outcome.
    cases hhalts with
    | halt _ hstep =>
        cases hstep
        exact ⟨fuel, hout⟩
    | next _ hstep _ => cases hstep
  · rintro ⟨fuel, h⟩
    exact Halts.of_path (path_of_outcome hgoverns h [])
      (.halt (hgoverns.running (.done result) [] me store') rfl)

end Direct
end LazyLisp
