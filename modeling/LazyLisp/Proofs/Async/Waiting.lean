import LazyLisp.Proofs.Async.Once

/-!
# Waiting — evaluations that wait for each other

An evaluation that demands a binding which somebody else resolves has to wait, for the cell to settle
or for the worker's result.  The demand is refused if the evaluation resolves the binding itself, as
far as the cell can tell.  A cell knows who resolves it, but not what that evaluation waits for in its
turn.  So no evaluation ever waits for itself, but several can wait for each other in a circle.  This
file defines:

* `Async.System.Resolves` and `Async.System.Waits`, who resolves a cell and who waits for it;
* `Async.System.Awaits`, that one evaluation waits for a cell that another one resolves;
* `Async.Entrusted`, that received cells have been left to somebody else;
* `Async.advance`, the machine on one thread up to its next demand.

Main results: `Async.entrusted_of_execution`, what is known of a cell that is received from a worker;
`Async.waits_for_others`, that nobody waits for what they resolve themselves;
`Async.receiving_each_other_of_execution`, that two threads that receive from each other stay that way;
and `Async.awaits_each_other`, two workers that do.
-/

namespace LazyLisp
namespace Async

open Machine

variable {host : Host} {start system system' : System} {log entries : Log}
  {thread worker : EvaluationId} {state state' : State} {cell : CellId}

/-! ## Who waits for whom -/

/-- The evaluation has begun the work of the cell, and the outcome is not there yet. -/
def System.Resolves (system : System) (evaluation : EvaluationId) (id : CellId) : Prop :=
  ∃ cell, system.store.cells[id]? = some cell ∧ cell.EnteredBy evaluation ∧
    ∀ result, cell.state ≠ .settled result

/-- The evaluation cannot go on before the cell is settled: it has demanded the cell and was told to
wait, or it is to receive what the worker comes to. -/
inductive System.Waits (system : System) : EvaluationId → CellId → Prop where
  | settling {thread : EvaluationId} {state : State} {cell : CellId} {store : Store} :
      system.At thread state → state.control = .resume (.binding cell) →
        state.store.claim state.evaluation cell = (.wait, store) →
        Waits system state.evaluation cell
  | receiving {thread : EvaluationId} {cell : CellId} {worker : EvaluationId}
      {stack : List Pending} {evaluation : EvaluationId} :
      system.threads thread = .receiving cell worker stack evaluation →
        Waits system evaluation cell

/-- The first evaluation waits for a cell that the second one resolves. -/
def System.Awaits (system : System) (evaluation other : EvaluationId) : Prop :=
  ∃ cell, system.Waits evaluation cell ∧ system.Resolves other cell

/-! ## What is received -/

/-- Whoever receives the outcome of a cell has left it to a worker, who is somebody else. -/
def Entrusted (system : System) : Prop :=
  ∀ thread cell worker stack evaluation,
    system.threads thread = .receiving cell worker stack evaluation →
      worker ≠ evaluation ∧
        ∃ name, system.store.cells[cell]? = some ⟨name, .running evaluation (some worker)⟩

theorem entrusted_of_fresh (h : system.Fresh) : Entrusted system := by
  intro thread cell worker stack evaluation hreceiving
  rw [h.2 thread] at hreceiving
  cases hreceiving

/-- A running cell that still runs is as it was. -/
theorem running_of_ages {store store' : Store} {name : String} {owner : EvaluationId}
    {running : Option EvaluationId} (hages : store.Ages store')
    (hcell : store.cells[cell]? = some ⟨name, .running owner running⟩) (hruns : store'.Runs cell) :
    store'.cells[cell]? = some ⟨name, .running owner running⟩ := by
  obtain ⟨cell', hcell', rfl | hevent⟩ := hages cell _ hcell
  · exact hcell'
  -- The only thing that can happen to it is that it is settled.
  · obtain ⟨bound, other, helper, hrunning⟩ := hruns
    rw [hcell'] at hrunning
    cases hevent
    cases hrunning

theorem entrusted_of_step (hsound : Sound system log) (h : Entrusted system)
    (hstep : Step host system entries system') : Entrusted system' := by
  intro thread cell worker stack evaluation hreceiving
  rcases receiving_of_step hstep hreceiving with hbefore | ⟨work, hclaim⟩
  · obtain ⟨hne, name, hcell⟩ := h thread cell worker stack evaluation hbefore
    refine ⟨hne, name, running_of_ages (ages_of_step hsound hstep) hcell ?_⟩
    -- The cell is awaited, so it has not been settled by anybody else.
    refine (sound_of_step hsound hstep).apart.runs thread cell ?_
    rw [hreceiving]
    exact List.mem_cons_self
  · obtain ⟨name, hstore, ⟨_, hnone⟩ | ⟨started, hne, hsome, hcell⟩⟩ := Store.claim_run hclaim
    · cases hnone
    · cases hsome
      refine ⟨hne, name, ?_⟩
      rw [hstore]
      exact Store.getElem?_replaceCell_self hcell

theorem entrusted_of_execution (hstart : start.Fresh) (h : Execution host start log system) :
    Entrusted system := by
  induction h with
  | refl => exact entrusted_of_fresh hstart
  | step hbefore hstep ih =>
      exact entrusted_of_step (sound_of_execution (sound_of_fresh hstart) hbefore) ih hstep

theorem Entrusted.awaits (h : Entrusted system) {stack : List Pending} {evaluation : EvaluationId}
    (hreceiving : system.threads thread = .receiving cell worker stack evaluation) :
    system.Awaits evaluation worker := by
  obtain ⟨_, name, hcell⟩ := h _ _ _ _ _ hreceiving
  exact ⟨cell, .receiving hreceiving, _, hcell, rfl, fun _ heq => by cases heq⟩

/-! ## One thread at a time -/

/-- The machine takes so many steps, none of which is a demand or starts work. -/
def advance (host : Host) : Nat → State → Option State
  | 0, state => some state
  | steps + 1, state =>
      match state.control, Machine.step host state with
      | .resume (.binding _), _ => none
      | _, .next state' =>
          if state'.store.workers = state.store.workers then advance host steps state' else none
      | _, _ => none

/-- One thread goes on for so many steps, while the others stand still. -/
theorem Execution.advance {steps : Nat} (h : Execution host start log system)
    (hat : system.At thread state) (hsteps : Async.advance host steps state = some state') :
    Execution host start log (system.put thread (activityOf state') state'.store) := by
  induction steps generalizing system state with
  | zero =>
      cases hsteps
      rw [System.put_of_at hat]
      exact h
  | succ steps ih =>
      rw [Async.advance] at hsteps
      split at hsteps
      · cases hsteps
      · next middle hnext hcontrol =>
          rw [Option.ite_none_right_eq_some] at hsteps
          obtain ⟨hworkers, hsteps⟩ := hsteps
          have hthought := h.think hat hnext hworkers hcontrol
          rw [← system.put_put thread (activityOf middle) (activityOf state') middle.store]
          exact ih hthought (system.at_put thread middle) hsteps
      · cases hsteps

/-! ## Nobody waits for themselves -/

/-- A demand for a cell that the evaluation resolves itself is refused. -/
theorem System.Resolves.step (h : system.Resolves state.evaluation cell)
    (hat : system.At thread state) (hcontrol : state.control = .resume (.binding cell)) :
    ∃ name, Machine.step host state =
      .next { state with control := .run (.done (.error (Cell.selfDependence name))) } := by
  obtain ⟨content, hcell, hentered, hopen⟩ := h
  obtain ⟨control, stack, evaluation, store⟩ := state
  cases hcontrol
  rw [hat.2] at hcell
  exact ⟨content.name, step_binding_of_selfDependent
    (Store.claim_of_enteredBy hcell hentered hopen)⟩

theorem Entrusted.not_awaits_self (h : Entrusted system) (evaluation : EvaluationId) :
    ¬ system.Awaits evaluation evaluation := by
  rintro ⟨cell, hwaits, content, hcell, hentered, hopen⟩
  cases hwaits with
  | settling hat _ hclaim =>
      rw [hat.2] at hcell
      rw [Store.claim_of_enteredBy hcell hentered hopen] at hclaim
      cases hclaim
  | receiving hreceiving =>
      obtain ⟨hne, name, hrunning⟩ := h _ _ _ _ _ hreceiving
      rw [hrunning] at hcell
      cases hcell
      exact hne hentered

/-- In every execution, an evaluation waits for others only.  A demand for a cell that the evaluation
resolves itself, on its own account or as a worker, fails instead of waiting.  So where evaluations
wait for each other in a circle, there are at least two of them. -/
theorem waits_for_others (hstart : start.Fresh) (h : Execution host start log system) :
    (∀ evaluation other, system.Awaits evaluation other → evaluation ≠ other) ∧
      (∀ evaluation, Relation.TransGen system.Awaits evaluation evaluation →
        ∃ other, other ≠ evaluation ∧ system.Awaits evaluation other ∧
          Relation.TransGen system.Awaits other evaluation) ∧
      ∀ thread state cell, system.At thread state → state.control = .resume (.binding cell) →
        system.Resolves state.evaluation cell →
        ∃ name, Machine.step host state =
          .next { state with control := .run (.done (.error (Cell.selfDependence name))) } := by
  have hentrusted := entrusted_of_execution hstart h
  have hother : ∀ evaluation other, system.Awaits evaluation other → evaluation ≠ other := by
    rintro evaluation _ hawaits rfl
    exact hentrusted.not_awaits_self evaluation hawaits
  refine ⟨hother, ?_, fun thread state cell hat hcontrol hresolves => hresolves.step hat hcontrol⟩
  intro evaluation hcircle
  obtain ⟨other, hfirst, hrest⟩ := Relation.TransGen.head'_iff.mp hcircle
  have hne := hother evaluation other hfirst
  rcases Relation.reflTransGen_iff_eq_or_transGen.mp hrest with heq | hrest
  · exact (hne heq).elim
  · exact ⟨other, hne.symm, hfirst, hrest⟩

/-- A symbol in a form that was never read from a text. -/
def named (name : String) : Value := .symbol (.unplaced name)

/-- `x` is bound to itself and started.  Its worker demands it, and is refused. -/
theorem waits_for_others_started :
    ∃ log system state name, Execution Host.standard ⟨Store.base, fun _ => .idle⟩ log system ∧
      system.At 1 state ∧ ¬ system.Awaits 1 1 ∧ Machine.step .standard state =
        .next { state with control := .run (.done (.error (Cell.selfDependence name))) } := by
  let form : Value := .list [named "let", .vector [named "x", named "x"],
    .list [named "async", named "x"]]
  have hbegun : Execution Host.standard ⟨Store.base, fun _ => .idle⟩ [] _ :=
    Execution.refl.still (.begin (.inl rfl) (.form form .base .base) rfl rfl)
  have hasked := hbegun.advance (show System.At _ 0 (.ofForm form .base .base) from ⟨rfl, rfl⟩)
    (show Async.advance _ 16 _ = some ⟨_, _, _, _⟩ from rfl)
  have hstarted := hasked.step (.turn (@Turn.spawn _ 0 _ ⟨_, _, _, _⟩ _ 0 "x" _ ⟨rfl, rfl⟩ rfl
    (Nat.lt_succ_self _) rfl))
  have hdemanded := hstarted.advance (show System.At _ 1 ⟨_, _, _, _⟩ from ⟨rfl, rfl⟩)
    (show Async.advance _ 4 _ = some ⟨_, _, _, _⟩ from rfl)
  have hothers := waits_for_others ⟨rfl, fun _ => rfl⟩ hdemanded
  obtain ⟨name, hstep⟩ := hothers.2.2 1 ⟨_, _, _, _⟩ 0 ⟨rfl, rfl⟩ rfl
    ⟨_, rfl, rfl, fun _ heq => by cases heq⟩
  exact ⟨_, _, _, name, hdemanded, ⟨rfl, rfl⟩, fun hself => hothers.1 1 1 hself rfl, hstep⟩

/-! ## Waiting for good -/

section Stuck

variable {stack stack' : List Pending} {evaluation evaluation' : EvaluationId} {cell' : CellId}

/-- A step on some other thread does not disturb whoever receives. -/
theorem receiving_put (h : system.threads thread = .receiving cell worker stack evaluation)
    {other : EvaluationId} (hother : system.threads other ≠ .receiving cell worker stack evaluation)
    (activity : Activity) (store : Store) :
    (system.put other activity store).threads thread =
      .receiving cell worker stack evaluation := by
  have hne : thread ≠ other := by
    rintro rfl
    exact hother h
  rw [system.threads_put_of_ne hne, h]

/-- Whoever receives goes on receiving until the worker has finished. -/
theorem receiving_of_unfinished (hsound : Sound system log)
    (hstep : Step host system entries system')
    (h : system.threads thread = .receiving cell worker stack evaluation)
    (hworker : ∀ result, system.threads worker ≠ .finished result) :
    system'.threads thread = .receiving cell worker stack evaluation := by
  -- A thread at work is another one.
  have hat : ∀ {other : EvaluationId} {state : State}, system.At other state →
      system.threads other ≠ .receiving cell worker stack evaluation := by
    intro other state hat heq
    rw [hat.1] at heq
    cases heq
  cases hstep with
  | begin hmain _ _ _ =>
      refine receiving_put h (fun heq => ?_) _ _
      rcases hmain with hmain | ⟨result, hmain⟩
      all_goals
        rw [hmain] at heq
        cases heq
  | @turn _ _ other hturn =>
      cases hturn with
      | think hthread _ _ _ => exact receiving_put h (hat hthread) _ _
      | receive hthread _ _ _ => exact receiving_put h (hat hthread) _ _
      | halt hthread _ => exact receiving_put h (hat hthread) _ _
      | @spawn state state' _ _ _ hthread _ hlt _ =>
          have hbefore := receiving_put h (hat hthread) (activityOf state') state'.store
          -- The new worker is none of those that there are.
          have hle : thread ≤ system.store.workers := by
            refine hsound.bounded thread ?_
            rw [h]
            exact fun hidle => by cases hidle
          have hne : thread ≠ state'.store.workers := by
            rw [hthread.2] at hle
            exact Nat.ne_of_lt (Nat.lt_of_le_of_lt hle hlt)
          rw [System.threads_put_of_ne _ hne, hbefore]
      | @deliver _ _ _ _ result hreceiving hfinished =>
          refine receiving_put h (fun heq => ?_) _ _
          rw [hreceiving] at heq
          cases heq
          exact hworker result hfinished

/-- Two threads that receive from each other never come to anything. -/
theorem receiving_each_other_of_execution (hstart : start.Fresh)
    (hbefore : Execution host start log system)
    (h : system.threads thread = .receiving cell worker stack evaluation)
    (h' : system.threads worker = .receiving cell' thread stack' evaluation')
    {later : Log} (hlater : Execution host system later system') :
    Execution host start (log ++ later) system' ∧
      system'.threads thread = .receiving cell worker stack evaluation ∧
      system'.threads worker = .receiving cell' thread stack' evaluation' := by
  induction hlater with
  | refl =>
      rw [List.append_nil]
      exact ⟨hbefore, h, h'⟩
  | step _ hstep ih =>
      obtain ⟨hexecution, hthread, hworker⟩ := ih
      have hsound := sound_of_execution (sound_of_fresh hstart) hexecution
      refine ⟨?_, ?_, ?_⟩
      · rw [← List.append_assoc]
        exact hexecution.step hstep
      · refine receiving_of_unfinished hsound hstep hthread fun result heq => ?_
        rw [hworker] at heq
        cases heq
      · refine receiving_of_unfinished hsound hstep hworker fun result heq => ?_
        rw [hthread] at heq
        cases heq

end Stuck

/-! ## Two workers in a circle -/

/-- Two names are bound to each other, and both are started. -/
def circleForm : Value :=
  .list [named "let", .vector [named "a", named "b", named "b", named "a"],
    .list [named "async", .vector [named "a", named "b"]]]

/-- Each worker demands the binding of the other one, and is left waiting for its result. -/
theorem exists_circle :
    ∃ system, Execution Host.standard ⟨Store.base, fun _ => .idle⟩ [(0, 1), (1, 2)] system ∧
      system.threads 1 = .receiving 1 2 [.trampoline none] 1 ∧
      system.threads 2 = .receiving 0 1 [.trampoline none] 2 := by
  have hbegun : Execution Host.standard ⟨Store.base, fun _ => .idle⟩ [] _ :=
    Execution.refl.still (.begin (.inl rfl) (.form circleForm .base .base) rfl rfl)
  -- The main thread binds both names and starts them, one after the other.
  have hasked := hbegun.advance (show System.At _ 0 (.ofForm circleForm .base .base) from ⟨rfl, rfl⟩)
    (show Async.advance _ 17 _ = some ⟨_, _, _, _⟩ from rfl)
  have hfirst := hasked.step (.turn (@Turn.spawn _ 0 _ ⟨_, _, _, _⟩ _ 0 "a" _ ⟨rfl, rfl⟩ rfl
    (Nat.lt_succ_self _) rfl))
  have hsecond := hfirst.step (.turn (@Turn.spawn _ 0 _ ⟨_, _, _, _⟩ _ 1 "b" _ ⟨rfl, rfl⟩ rfl
    (Nat.lt_succ_self _) rfl))
  -- The worker of `a` demands `b`.
  have hlooked := hsecond.advance (show System.At _ 1 ⟨_, _, _, _⟩ from ⟨rfl, rfl⟩)
    (show Async.advance _ 4 _ = some ⟨_, _, _, _⟩ from rfl)
  have hreceiving := hlooked.still (.turn (.receive
    (show System.At _ 1 ⟨_, _, _, _⟩ from ⟨rfl, rfl⟩) rfl rfl fun hnone => by cases hnone))
  -- The worker of `b` demands `a`.
  have hlooked' := hreceiving.advance (show System.At _ 2 ⟨_, _, _, _⟩ from ⟨rfl, rfl⟩)
    (show Async.advance _ 4 _ = some ⟨_, _, _, _⟩ from rfl)
  have hcircle := hlooked'.still (.turn (.receive
    (show System.At _ 2 ⟨_, _, _, _⟩ from ⟨rfl, rfl⟩) rfl rfl fun hnone => by cases hnone))
  exact ⟨_, hcircle, rfl, rfl⟩

/-- A circle of two: neither worker resolves the binding that it demands, so neither demand is refused,
and the two wait for each other for good. -/
theorem awaits_each_other :
    ∃ log system, Execution Host.standard ⟨Store.base, fun _ => .idle⟩ log system ∧
      Relation.TransGen system.Awaits 1 1 ∧
      ∀ later system', Execution Host.standard system later system' →
        system'.Awaits 1 2 ∧ system'.Awaits 2 1 := by
  have hstart : System.Fresh ⟨Store.base, fun _ => .idle⟩ := ⟨rfl, fun _ => rfl⟩
  obtain ⟨system, hexecution, hfirst, hsecond⟩ := exists_circle
  have hforever : ∀ later system', Execution Host.standard system later system' →
      system'.Awaits 1 2 ∧ system'.Awaits 2 1 := by
    intro later system' hlater
    obtain ⟨hreached, hfirst', hsecond'⟩ :=
      receiving_each_other_of_execution hstart hexecution hfirst hsecond hlater
    have hentrusted := entrusted_of_execution hstart hreached
    exact ⟨hentrusted.awaits hfirst', hentrusted.awaits hsecond'⟩
  obtain ⟨hforth, hback⟩ := hforever [] system .refl
  exact ⟨_, system, hexecution, .tail (.single hforth) hback, hforever⟩

end Async
end LazyLisp
