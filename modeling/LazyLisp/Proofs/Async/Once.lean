import LazyLisp.Proofs.Async.Invariant

/-!
# Once — lazy bindings are resolved once and for all

However evaluations take turns, the work of a lazy binding is entered at most once, by a demand for
the binding or by a request to start it, and what comes out is what everybody gets to see from then
on.  This file defines:

* `Async.Demands`, the states whose next step asks for a cell to be resolved.

Main results: `Async.entered_of_step`, which cells a step enters and why, `Async.settled_of_execution`,
what becomes of cells in the long run, and `Async.entered_once_settled_forever`, which puts them
together.
-/

namespace LazyLisp
namespace Async

open Machine

variable {host : Host} {start system system' : System} {log entries later : Log}
  {thread : EvaluationId} {state state' : State} {cell : CellId} {name : String} {result : Result}

/-! ## Why cells are entered -/

/-- The next step demands the cell, or asks for its work to be started under some name that is bound
to it. -/
def Demands (state : State) (cell : CellId) : Prop :=
  state.control = .resume (.binding cell) ∨
    ∃ scope name next frame, state.control = .run (.ask (.start scope name) next) ∧
      state.store.owner? scope name = some (frame, .lazy cell)

/-- A step enters only a cell that some thread demands, and whose work nobody has taken up yet.
Then some thread turns to that work, for the evaluation that has entered the cell. -/
theorem entered_of_step (h : Sound system log) (hstep : Step host system entries system') :
    ∀ entry ∈ entries, ∃ name work,
      (system.store.cells[entry.1]? = some ⟨name, .pending work⟩ ∨
        ∃ worker, system.store.cells[entry.1]? = some ⟨name, .started worker work⟩) ∧
      (∃ thread state, system.At thread state ∧ Demands state entry.1) ∧
      ∃ thread stack, system'.threads thread = .working (.run (.done (.ok (.suspended work))))
        (.trampoline none :: stack) entry.2 := by
  intro entry hmem
  cases hstep with
  | begin _ _ _ _ => cases hmem
  | @turn _ _ thread hturn =>
      cases hturn with
      | receive _ _ _ _ => cases hmem
      | deliver _ _ => cases hmem
      | halt _ _ => cases hmem
      | @think state state' hat hnext _ _ =>
          rcases entries_of_effect (effect_of_step hnext) with
            hnil | ⟨cell, work, worker, hcontrol, hclaim, _, ⟨stack, hactivity⟩, hentry⟩
          · rw [hnil] at hmem
            cases hmem
          · rw [hentry] at hmem
            have heq : entry = (cell, state'.evaluation) := List.mem_singleton.mp hmem
            subst heq
            rcases Store.claim_run hclaim with ⟨name, _, hcell⟩
            rw [← hat.2] at hcell
            have hthread := (system.threads_put thread (activityOf state') state'.store).trans hactivity
            refine ⟨name, work, ?_, ⟨thread, state, hat, .inl hcontrol⟩, thread, stack, hthread⟩
            rcases hcell with ⟨hpending, _⟩ | ⟨started, _, _, hstarted⟩
            · exact .inl hpending
            · exact .inr ⟨started, hstarted⟩
      | @spawn state state' cell name work hat hnext hlt hcell =>
          have heq : entry = (cell, state'.store.workers) := List.mem_singleton.mp hmem
          subst heq
          rcases request_of_workers_lt (effect_of_step hnext) hlt with
            ⟨request, next, hcontrol, hstore'⟩
          have hhired : Hired state.store := hat.2 ▸ h.hired
          have hlt' := hlt
          have hcell' := hcell
          rw [hstore'] at hlt' hcell'
          rcases hhired.pending_of_answer hlt' hcell' with
            ⟨hpending, scope, bound, frame, rfl, howner⟩
          rw [← hat.2] at hpending
          have hdemands : Demands state cell := .inr ⟨scope, bound, next, frame, hcontrol, howner⟩
          exact ⟨name, work, .inl hpending, ⟨thread, state, hat, hdemands⟩, state'.store.workers, [],
            System.threads_put ..⟩

/-! ## What is left of settled cells -/

/-- A step ages the store that the threads share. -/
theorem ages_of_step (h : Sound system log) (hstep : Step host system entries system') :
    system.store.Ages system'.store := by
  cases hstep with
  | begin _ _ hcells _ => exact .of_cells_eq hcells
  | @turn _ _ thread hturn =>
      cases hturn with
      | think hat hnext _ _ =>
          have hages := ages_of_effect (effect_of_step hnext) (h.runs_of_at hat)
          rw [← hat.2] at hages
          exact hages
      | spawn hat hnext _ _ =>
          have hages := ages_of_effect (effect_of_step hnext) (h.runs_of_at hat)
          rw [← hat.2] at hages
          exact hages
      | receive hat _ hclaim _ =>
          rw [← hat.2] at hclaim
          exact Store.ages_claim hclaim
      | @deliver cell worker stack evaluation result hreceiving _ =>
          refine Store.ages_settle (h.apart.runs thread cell ?_) result
          rw [hreceiving]
          exact List.mem_cons_self
      | halt hat hhalt =>
          rcases halt_of_step hhalt with ⟨_, _, hstore⟩
          exact .of_cells_eq (congrArg Store.cells (hstore.trans hat.2.symm))

/-- A settled cell stays settled, with the same outcome, and is not entered again. -/
theorem settled_of_execution (h : Sound system log) (hlater : Execution host system later system')
    (hcell : system.store.cells[cell]? = some ⟨name, .settled result⟩) :
    system'.store.cells[cell]? = some ⟨name, .settled result⟩ ∧ cell ∉ later.map Prod.fst ∧
      Sound system' (log ++ later) := by
  induction hlater with
  | refl => exact ⟨hcell, by simp, by rw [List.append_nil]; exact h⟩
  | @step before entries middle system' _ hstep ih =>
      rcases ih with ⟨hsettled, hbefore, hsound⟩
      refine ⟨(ages_of_step hsound hstep).settled hsettled, ?_, ?_⟩
      · intro hmem
        rw [List.map_append] at hmem
        rcases List.mem_append.mp hmem with hmem | hmem
        · exact hbefore hmem
        -- What a step enters was pending or started, and this cell is neither any more.
        · rcases List.mem_map.mp hmem with ⟨entry, hentry, rfl⟩
          rcases entered_of_step hsound hstep entry hentry with
            ⟨_, _, hpending | ⟨_, hstarted⟩, _, _⟩
          · rw [hsettled] at hpending
            cases hpending
          · rw [hsettled] at hstarted
            cases hstarted
      · rw [← List.append_assoc]
        exact sound_of_step hsound hstep

/-- What is read of a name that is bound to a settled cell: the value, or the binding itself if it
has failed. -/
def readOf (cell : CellId) : Result → Value
  | .ok value => value
  | .error _ => .suspended (.binding cell)

theorem get_of_settled {store : Store} {scope : Scope} {bound : String} {frame : FrameId}
    (hcell : store.cells[cell]? = some ⟨name, .settled result⟩)
    (howner : store.owner? scope bound = some (frame, .lazy cell)) :
    store.get scope bound = .ok (readOf cell result) := by
  cases result with
  | ok value => simp [Store.get_by_owner, howner, Store.read, hcell, Cell.value?, readOf]
  | error failure => simp [Store.get_by_owner, howner, Store.read, hcell, Cell.value?, readOf]

/-! ## The result -/

/-- In every execution the work of each lazy binding is entered at most once, and only because of a
demand for the binding or a request to start it.  An evaluation that demands what it is resolving
itself gets the failure of a binding that depends on its own value, and nothing else happens.  Once
there is an outcome, it stays the same for good: nobody enters the binding again, every demand comes
to that outcome and does nothing else, and it is what is read through every frame that binds a name
to the cell. -/
theorem entered_once_settled_forever (hstart : start.Fresh) (h : Execution host start log system) :
    (log.map Prod.fst).Nodup ∧
      (∀ entries system', Step host system entries system' → ∀ entry ∈ entries, ∃ name work,
        (system.store.cells[entry.1]? = some ⟨name, .pending work⟩ ∨
          ∃ worker, system.store.cells[entry.1]? = some ⟨name, .started worker work⟩) ∧
        (∃ thread state, system.At thread state ∧ Demands state entry.1) ∧
        ∃ thread stack, system'.threads thread = .working (.run (.done (.ok (.suspended work))))
          (.trampoline none :: stack) entry.2) ∧
      (∀ thread state id cell, system.At thread state → state.control = .resume (.binding id) →
        (id, state.evaluation) ∈ log → system.store.cells[id]? = some cell →
        (∀ result, cell.state ≠ .settled result) →
        Machine.step host state =
          .next { state with control := .run (.done (.error (Cell.selfDependence cell.name))) }) ∧
      ∀ cell name result, system.store.cells[cell]? = some ⟨name, .settled result⟩ →
        ∀ later system', Execution host system later system' →
          cell ∉ later.map Prod.fst ∧
          (∀ thread state, system'.At thread state → state.control = .resume (.binding cell) →
            Machine.step host state = .next { state with control := .run (.done result) }) ∧
          ∀ scope bound frame, system'.store.owner? scope bound = some (frame, .lazy cell) →
            system'.store.answer (.lookup scope bound) =
              (.ok (readOf cell result), system'.store) := by
  have hsound := sound_of_execution (sound_of_fresh hstart) h
  refine ⟨hsound.recorded.nodup, fun _ _ => entered_of_step hsound, ?_, ?_⟩
  · rintro thread ⟨control, stack, evaluation, store⟩ id cell hat rfl hmem hcell hopen
    rcases hsound.recorded.entered _ hmem with ⟨cell', hcell', hentered, _⟩
    rw [hcell] at hcell'
    cases hcell'
    rw [hat.2] at hcell
    exact step_binding_of_selfDependent (Store.claim_of_enteredBy hcell hentered hopen)
  · intro cell name result hcell later system' hlater
    rcases settled_of_execution hsound hlater hcell with ⟨hsettled, hnot, _⟩
    refine ⟨hnot, ?_, ?_⟩
    · rintro thread ⟨control, stack, evaluation, store⟩ hat rfl
      rw [hat.2] at hsettled
      exact step_binding_of_settled (Store.claim_of_settled hsettled)
    · intro scope bound frame howner
      rw [Store.answer, get_of_settled hsettled howner]

/-! ### One started binding -/

/-- A step that enters nothing leaves the log as it is. -/
theorem Execution.still (h : Execution host start log system)
    (hstep : Step host system [] system') : Execution host start log system' := by
  have hlog := h.step hstep
  rw [List.append_nil] at hlog
  exact hlog

/-- A thread goes on with a step that neither is a demand nor starts work. -/
theorem Execution.think (h : Execution host start log system) (hat : system.At thread state)
    (hnext : Machine.step host state = .next state')
    (hworkers : state'.store.workers = state.store.workers)
    (hcontrol : ∀ cell, state.control ≠ .resume (.binding cell)) :
    Execution host start log (system.put thread (activityOf state') state'.store) :=
  h.still (.turn (turn_of_step hat hnext hworkers hcontrol))

/-- The main thread resumes suspended work, with the store as it is. -/
theorem Execution.force (h : Execution host start log system)
    (hfree : system.threads mainEvaluation = .idle ∨
      ∃ result, system.threads mainEvaluation = .finished result) (work : Suspension) :
    Execution host start log (system.put mainEvaluation
      (activityOf (.ofSuspension work system.store)) system.store) :=
  h.still (.begin hfree (.suspension work system.store) rfl rfl)

/-- `x` is bound and started, its worker comes to one, and the next evaluation receives that. -/
theorem entered_once_settled_forever_worker :
    ∃ system, Execution Host.standard ⟨Store.base, fun _ => .idle⟩ [(0, 1)] system ∧
      system.store.cells[0]? = some ⟨"x", .settled (.ok (.int 1))⟩ ∧
      ∀ later system', Execution Host.standard system later system' → 0 ∉ later.map Prod.fst := by
  let script : Script Value :=
    .ask (.bindLazy .base "x" (.given none (.ok (.int 1)))) fun _ =>
      .ask (.start .base "x") fun _ => .done (.ok .nil)
  have hstart : System.Fresh ⟨Store.base, fun _ => .idle⟩ := ⟨rfl, fun _ => rfl⟩
  -- The main thread binds and starts `x`, and is done.
  have hbegun : Execution Host.standard ⟨Store.base, fun _ => .idle⟩ [] _ :=
    Execution.refl.still (.begin (.inl rfl) (.script script .base) rfl rfl)
  have hbound := hbegun.think (show System.At _ 0 ⟨_, _, _, _⟩ from ⟨rfl, rfl⟩) rfl rfl
    fun _ heq => by cases heq
  have hspawned := hbound.step (.turn (@Turn.spawn _ 0 _ ⟨_, _, _, _⟩ _ 0 "x" _ ⟨rfl, rfl⟩ rfl
    (Nat.lt_succ_self _) rfl))
  have hidle := hspawned.still
    (.turn (.halt (show System.At _ 0 ⟨_, _, _, _⟩ from ⟨rfl, rfl⟩) rfl))
  -- The worker comes to one.
  have hresumed := hidle.think (show System.At _ 1 ⟨_, _, _, _⟩ from ⟨rfl, rfl⟩) rfl rfl
    fun _ heq => by cases heq
  have hgiven := hresumed.think (show System.At _ 1 ⟨_, _, _, _⟩ from ⟨rfl, rfl⟩) rfl rfl
    fun _ heq => by cases heq
  have hvalue := hgiven.think (show System.At _ 1 ⟨_, _, _, _⟩ from ⟨rfl, rfl⟩) rfl rfl
    fun _ heq => by cases heq
  have hdone := hvalue.still
    (.turn (.halt (show System.At _ 1 ⟨_, _, _, _⟩ from ⟨rfl, rfl⟩) rfl))
  -- The main thread demands `x`, and receives what the worker came to.
  have hagain := hdone.force (.inr ⟨_, rfl⟩) (.binding 0)
  have hdemanded := hagain.think (show System.At _ 0 ⟨_, _, _, _⟩ from ⟨rfl, rfl⟩) rfl rfl
    fun _ heq => by cases heq
  have hreceiving := hdemanded.still (.turn (.receive
    (show System.At _ 0 ⟨_, _, _, _⟩ from ⟨rfl, rfl⟩) rfl rfl fun hnone => by cases hnone))
  have hdelivered := hreceiving.still (.turn (@Turn.deliver _ 0 _ _ _ _ _ _ rfl rfl))
  refine ⟨_, hdelivered, rfl, ?_⟩
  have hsettled := (entered_once_settled_forever hstart hdelivered).2.2.2 0 "x" (.ok (.int 1)) rfl
  intro later system' hlater
  exact (hsettled later system' hlater).1

end Async
end LazyLisp
