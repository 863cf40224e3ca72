import LazyLisp.Proofs.Async.System
import Mathlib.Tactic.ByContra

/-!
# Invariant — what holds at every point of an execution

Four things hold however the threads take turns: the log names no cell twice, and the evaluation
that entered a cell is the one that the cell knows; no two threads wait to settle the same cell, and
all cells that are waited for run; and threads and started cells belong to workers that there are.
This file defines:

* `Async.Recorded`, `Async.Apart` and `Async.Hired`, the parts of the invariant;
* `Async.Sound`, the invariant.

Main results: `Async.sound_of_step` and, by induction, `Async.sound_of_execution`.
-/

namespace LazyLisp
namespace Async

open Machine

variable {host : Host} {system system' : System} {log entries : Log} {store : Store}
  {thread : EvaluationId} {activity : Activity} {state state' : State}

/-! ## The log -/

/-- No cell is in the log twice, and each has been entered by the evaluation that the log names.  If
the cell is started only, the worker has a thread of its own. -/
structure Recorded (system : System) (log : Log) : Prop where
  nodup : (log.map Prod.fst).Nodup
  entered : ∀ entry ∈ log, ∃ cell, system.store.cells[entry.1]? = some cell ∧
    cell.EnteredBy entry.2 ∧
      ∀ worker work, cell.state = .started worker work → system.threads worker ≠ .idle

namespace Recorded

theorem nil (system : System) : Recorded system [] := by
  refine ⟨.nil, ?_⟩
  intro entry hmem
  cases hmem

/-- What was entered stays entered by the same evaluation while the store ages. -/
theorem ages (h : Recorded system log) (hages : system.store.Ages system'.store)
    (hthreads : ∀ thread, system.threads thread ≠ .idle → system'.threads thread ≠ .idle) :
    Recorded system' log := by
  refine ⟨h.nodup, ?_⟩
  intro entry hmem
  rcases h.entered entry hmem with ⟨cell, hcell, hentered, hstarted⟩
  rcases hages _ cell hcell with ⟨cell', hcell', rfl | hevent⟩
  · exact ⟨cell', hcell', hentered, fun worker work hstate => hthreads _ (hstarted _ _ hstate)⟩
  -- Whatever happens to an entered cell, it is not to be started once more.
  · rcases hentered.event hevent with ⟨hentered', hstarted'⟩
    exact ⟨cell', hcell', hentered', fun worker work hstate => (hstarted' _ _ hstate).elim⟩

/-- Pending work has not been entered. -/
theorem not_mem_of_pending (h : Recorded system log) {id : CellId} {name : String}
    {work : Suspension} (hcell : system.store.cells[id]? = some ⟨name, .pending work⟩) :
    id ∉ log.map Prod.fst := by
  intro hmem
  rcases List.mem_map.mp hmem with ⟨entry, hentry, rfl⟩
  rcases h.entered entry hentry with ⟨cell, hcell', hentered, _⟩
  rw [hcell] at hcell'
  cases hcell'
  exact hentered

/-- Started work has not been entered before the worker has a thread. -/
theorem not_mem_of_started (h : Recorded system log) {id : CellId} {name : String}
    {worker : EvaluationId} {work : Suspension}
    (hcell : system.store.cells[id]? = some ⟨name, .started worker work⟩)
    (hidle : system.threads worker = .idle) : id ∉ log.map Prod.fst := by
  intro hmem
  rcases List.mem_map.mp hmem with ⟨entry, hentry, rfl⟩
  rcases h.entered entry hentry with ⟨cell, hcell', _, hstarted⟩
  rw [hcell] at hcell'
  cases hcell'
  exact hstarted worker work rfl hidle

theorem append (h : Recorded system log) {id : CellId} {cell : Cell} {me : EvaluationId}
    (hnew : id ∉ log.map Prod.fst) (hcell : system.store.cells[id]? = some cell)
    (hentered : cell.EnteredBy me)
    (hstarted : ∀ worker work, cell.state = .started worker work →
      system.threads worker ≠ .idle) : Recorded system (log ++ [(id, me)]) := by
  constructor
  · rw [List.map_append]
    refine List.nodup_append.mpr ⟨h.nodup, by simp, ?_⟩
    rintro other hother _ hid rfl
    have heq : other = id := List.mem_singleton.mp hid
    exact hnew (heq ▸ hother)
  · intro entry hmem
    rcases List.mem_append.mp hmem with hmem | hmem
    · exact h.entered entry hmem
    · have heq : entry = (id, me) := List.mem_singleton.mp hmem
      subst heq
      exact ⟨cell, hcell, hentered, hstarted⟩

end Recorded

/-! ## The cells that are waited for -/

/-- All cells that some thread will settle are running, and they are all different. -/
structure Apart (system : System) : Prop where
  nodup : ∀ thread, (system.threads thread).awaited.Nodup
  disjoint : ∀ thread other, thread ≠ other → ∀ cell ∈ (system.threads thread).awaited,
    cell ∉ (system.threads other).awaited
  runs : ∀ thread, ∀ cell ∈ (system.threads thread).awaited, system.store.Runs cell

namespace Apart

/-- One thread may change what it waits for as long as it does not take anything from others. -/
theorem put (h : Apart system) (hnodup : activity.awaited.Nodup)
    (hapart : ∀ cell ∈ activity.awaited, ∀ other, other ≠ thread →
      cell ∉ (system.threads other).awaited)
    (hruns : ∀ cell ∈ activity.awaited, store.Runs cell)
    (hothers : ∀ other, other ≠ thread → ∀ cell ∈ (system.threads other).awaited,
      store.Runs cell) : Apart (system.put thread activity store) := by
  refine ⟨?_, ?_, ?_⟩
  · intro one
    by_cases hone : one = thread
    · subst hone
      rw [system.threads_put]
      exact hnodup
    · rw [system.threads_put_of_ne hone]
      exact h.nodup one
  -- Either thread may be the one that has changed.
  · intro one two hne cell hmem
    by_cases hone : one = thread
    · subst hone
      rw [system.threads_put] at hmem
      rw [system.threads_put_of_ne (Ne.symm hne)]
      exact hapart cell hmem two (Ne.symm hne)
    · rw [system.threads_put_of_ne hone] at hmem
      by_cases htwo : two = thread
      · subst htwo
        rw [system.threads_put]
        exact fun hcell => hapart cell hcell one hone hmem
      · rw [system.threads_put_of_ne htwo]
        exact h.disjoint one two hne cell hmem
  · intro one cell hmem
    by_cases hone : one = thread
    · subst hone
      rw [system.threads_put] at hmem
      exact hruns cell hmem
    · rw [system.threads_put_of_ne hone] at hmem
      exact hothers one hone cell hmem

/-- A thread that waits for nothing new. -/
theorem put_sublist (h : Apart system)
    (hsub : activity.awaited.Sublist (system.threads thread).awaited)
    (hruns : ∀ cell, system.store.Runs cell → store.Runs cell) :
    Apart (system.put thread activity store) := by
  refine h.put (hsub.nodup (h.nodup thread)) ?_ ?_ ?_
  · intro cell hmem other hne
    exact h.disjoint thread other (Ne.symm hne) cell (hsub.subset hmem)
  · intro cell hmem
    exact hruns cell (h.runs thread cell (hsub.subset hmem))
  · intro other _ cell hmem
    exact hruns cell (h.runs other cell hmem)

/-- A thread that waits for a cell that did not run before. -/
theorem put_cons (h : Apart system) {id : CellId}
    (hcons : activity.awaited = id :: (system.threads thread).awaited)
    (hrun : store.Runs id ∧ ¬ system.store.Runs id ∧
      ∀ other, system.store.Runs other → store.Runs other) :
    Apart (system.put thread activity store) := by
  rcases hrun with ⟨hid, hnot, hruns⟩
  -- A cell that does not run is awaited by nobody.
  have hfresh : ∀ other, id ∉ (system.threads other).awaited :=
    fun other hmem => hnot (h.runs other id hmem)
  refine h.put ?_ ?_ ?_ ?_
  · rw [hcons]
    exact List.nodup_cons.mpr ⟨hfresh thread, h.nodup thread⟩
  · intro cell hmem other hne
    rw [hcons] at hmem
    rcases List.mem_cons.mp hmem with rfl | hmem
    · exact hfresh other
    · exact h.disjoint thread other (Ne.symm hne) cell hmem
  · intro cell hmem
    rw [hcons] at hmem
    rcases List.mem_cons.mp hmem with rfl | hmem
    · exact hid
    · exact hruns cell (h.runs thread cell hmem)
  · intro other _ cell hmem
    exact hruns cell (h.runs other cell hmem)

/-- A thread that settles the cell that it waits for first. -/
theorem put_settle (h : Apart system) {id : CellId} (result : Result)
    (hcons : (system.threads thread).awaited = id :: activity.awaited) :
    Apart (system.put thread activity (system.store.settle id result)) := by
  have hmem : ∀ cell ∈ activity.awaited, cell ∈ (system.threads thread).awaited := by
    intro cell hcell
    rw [hcons]
    exact List.mem_cons_of_mem id hcell
  have hid : id ∈ (system.threads thread).awaited := by
    rw [hcons]
    exact List.mem_cons_self
  have hnodup := h.nodup thread
  rw [hcons] at hnodup
  rcases List.nodup_cons.mp hnodup with ⟨hnot, hrest⟩
  refine h.put hrest ?_ ?_ ?_
  · intro cell hcell other hne
    exact h.disjoint thread other (Ne.symm hne) cell (hmem cell hcell)
  · intro cell hcell
    have hne : id ≠ cell := by
      rintro rfl
      exact hnot hcell
    exact (h.runs thread cell (hmem cell hcell)).settle hne result
  · intro other hother cell hcell
    have hne : id ≠ cell := by
      rintro rfl
      exact h.disjoint thread other (Ne.symm hother) id hid hcell
    exact (h.runs other cell hcell).settle hne result

end Apart

/-! ## Workers -/

/-- Started cells belong to workers that there are. -/
def Hired (store : Store) : Prop :=
  ∀ (id : CellId) (name : String) (worker : EvaluationId) (work : Suspension),
    store.cells[id]? = some ⟨name, .started worker work⟩ → 0 < worker ∧ worker ≤ store.workers

namespace Hired

theorem of_cells_eq {store' : Store} (h : Hired store) (hcells : store'.cells = store.cells)
    (hworkers : store.workers ≤ store'.workers) : Hired store' := by
  intro id name worker work hcell
  rw [hcells] at hcell
  rcases h id name worker work hcell with ⟨hpos, hle⟩
  exact ⟨hpos, Nat.le_trans hle hworkers⟩

theorem replaceCell (h : Hired store) {id : CellId} {cell cell' : Cell}
    (hcell : store.cells[id]? = some cell)
    (hstarted : ∀ worker work, cell'.state = .started worker work →
      0 < worker ∧ worker ≤ store.workers) : Hired (store.replaceCell id cell') := by
  intro other name worker work hother
  by_cases heq : id = other
  · subst heq
    rw [Store.getElem?_replaceCell_self hcell] at hother
    cases hother
    exact hstarted worker work rfl
  · rw [Store.getElem?_replaceCell_of_ne heq] at hother
    exact h other name worker work hother

theorem answer (h : Hired store) (request : Request) : Hired (store.answer request).2 := by
  rcases request.start_or_not with ⟨scope, name, rfl⟩ | hstart
  · rcases store.cells_startAsync scope name with
      hcells | ⟨_, id, bound, work, _, hcell, hworkers, hcells⟩
    · exact h.of_cells_eq hcells (store.workers_startAsync scope name)
    · intro other name' worker work' hother
      rw [Store.answer, hcells] at hother
      rw [Store.answer, hworkers]
      by_cases heq : id = other
      · subst heq
        rw [Store.getElem?_replaceCell_self hcell] at hother
        cases hother
        exact ⟨Nat.succ_pos _, Nat.le_refl _⟩
      · rw [Store.getElem?_replaceCell_of_ne heq] at hother
        rcases h other name' worker work' hother with ⟨hpos, hle⟩
        exact ⟨hpos, Nat.le_succ_of_le hle⟩
  · rcases store.cells_answer hstart with ⟨hworkers, hcells | ⟨name, work, hcells⟩⟩
    · exact h.of_cells_eq hcells (Nat.le_of_eq hworkers.symm)
    · intro id name' worker work' hcell
      rw [hcells, Array.getElem?_push] at hcell
      rw [hworkers]
      split at hcell
      · cases hcell
      · exact h id name' worker work' hcell

theorem claim (h : Hired store) {me : EvaluationId} {id : CellId} {work : Suspension}
    {worker : Option EvaluationId} {store' : Store}
    (hclaim : store.claim me id = (.run work worker, store')) : Hired store' := by
  rcases Store.claim_run hclaim with ⟨name, rfl, ⟨hcell, _⟩ | ⟨started, _, _, hcell⟩⟩
  all_goals exact h.replaceCell hcell fun _ _ heq => by cases heq

theorem settle (h : Hired store) {id : CellId} (hruns : store.Runs id) (result : Result) :
    Hired (store.settle id result) := by
  rcases hruns with ⟨name, owner, worker, hcell⟩
  rw [Store.settle_eq hcell]
  exact h.replaceCell hcell fun _ _ heq => by cases heq

/-- A cell that is started for a new worker is pending work to which the requested name is
bound. -/
theorem pending_of_answer (h : Hired store) {request : Request} {id : CellId} {name : String}
    {work : Suspension} (hlt : store.workers < (store.answer request).2.workers)
    (hcell : (store.answer request).2.cells[id]? =
      some ⟨name, .started (store.answer request).2.workers work⟩) :
    store.cells[id]? = some ⟨name, .pending work⟩ ∧
      ∃ scope bound frame, request = .start scope bound ∧
        store.owner? scope bound = some (frame, .lazy id) := by
  -- No cell was started for the worker before, since there was no such worker.
  have hnew : store.cells[id]? ≠ some ⟨name, .started (store.answer request).2.workers work⟩ := by
    intro hold
    rcases h id name _ work hold with ⟨_, hle⟩
    exact Nat.not_lt_of_le hle hlt
  rcases request.start_or_not with ⟨scope, bound, rfl⟩ | hstart
  · rcases store.cells_startAsync scope bound with
      hcells | ⟨frame, other, name', work', howner, hother, _, hcells⟩
    · rw [Store.answer, hcells] at hcell
      exact (hnew hcell).elim
    · have heq : other = id := by
        by_contra hne
        rw [Store.answer, hcells, Store.getElem?_replaceCell_of_ne hne] at hcell
        exact hnew hcell
      subst heq
      rw [Store.answer, hcells, Store.getElem?_replaceCell_self hother] at hcell
      simp only [Option.some.injEq, Cell.mk.injEq, Cell.State.started.injEq] at hcell
      rcases hcell with ⟨rfl, _, rfl⟩
      exact ⟨hother, scope, bound, frame, rfl, howner⟩
  · rw [(store.cells_answer hstart).1] at hlt
    exact (Nat.lt_irrefl _ hlt).elim

end Hired

/-! ## Steps of the machine -/

/-- A step of the machine ages the store, given that the cells it may settle are running. -/
theorem ages_of_effect (heffect : Effect state state')
    (hruns : ∀ cell ∈ forced state.stack, state.store.Runs cell) :
    state.store.Ages state'.store := by
  cases heffect with
  | still hstore _ _ => exact .of_cells_eq (by rw [hstore])
  | answered => exact Store.ages_answer _ _
  | entered hclaim => exact Store.ages_claim hclaim
  | settled => exact Store.ages_settle (hruns _ List.mem_cons_self) _

theorem workers_of_effect (heffect : Effect state state') :
    state.store.workers ≤ state'.store.workers := by
  cases heffect with
  | still hstore _ _ => exact Nat.le_of_eq (by rw [hstore])
  | answered => exact Store.workers_answer _ _
  | entered hclaim =>
      rcases Store.claim_run hclaim with ⟨name, rfl, _⟩
      exact Nat.le_refl _
  | settled => exact Nat.le_refl _

theorem hired_of_effect (heffect : Effect state state') (h : Hired state.store)
    (hruns : ∀ cell ∈ forced state.stack, state.store.Runs cell) : Hired state'.store := by
  cases heffect with
  | still hstore _ _ =>
      rw [hstore]
      exact h
  | answered => exact h.answer _
  | entered hclaim => exact h.claim hclaim
  | settled => exact h.settle (hruns _ List.mem_cons_self) _

theorem apart_of_effect (heffect : Effect state state') (h : Apart system)
    (hat : system.At thread state) :
    Apart (system.put thread (activityOf state') state'.store) := by
  rcases system with ⟨store, threads⟩
  have hawaited : (threads thread).awaited = forced state.stack := congrArg Activity.awaited hat.1
  have hstore : store = state.store := hat.2
  subst hstore
  cases heffect with
  | still hstore _ hsettling =>
      refine h.put_sublist ?_ ?_
      · rw [hawaited, activityOf, Activity.awaited, forced, hsettling]
        exact .refl _
      · intro cell hruns
        rw [hstore]
        exact hruns
  | answered =>
      refine h.put_sublist ?_ ?_
      · rw [hawaited]
        exact .refl _
      · intro cell hruns
        exact hruns.answer _
  | entered hclaim =>
      refine h.put_cons ?_ (Store.Runs.claim hclaim)
      rw [hawaited]
      rfl
  | settled =>
      refine h.put_settle _ ?_
      rw [hawaited]
      rfl

/-! ## Entered cells -/

theorem entriesOf_eq_nil (h : (forced state'.stack).length ≤ (forced state.stack).length) :
    entriesOf state state' = [] := by
  rw [entriesOf, Nat.sub_eq_zero_of_le h]
  rfl

theorem entriesOf_eq_singleton {cell : CellId}
    (h : forced state'.stack = cell :: forced state.stack) :
    entriesOf state state' = [(cell, state'.evaluation)] := by
  have hlength : (cell :: forced state.stack).length - (forced state.stack).length = 1 := by
    simp
  rw [entriesOf, h, hlength]
  rfl

/-- A step of the machine enters the cell whose demand begins its work, and no other.  The work is
what the machine turns to. -/
theorem entries_of_effect (heffect : Effect state state') :
    entriesOf state state' = [] ∨
      ∃ cell work worker, state.control = .resume (.binding cell) ∧
        state.store.claim state.evaluation cell = (.run work worker, state'.store) ∧
        state'.evaluation = worker.getD state.evaluation ∧
        (∃ stack, activityOf state' = .working (.run (.done (.ok (.suspended work))))
          (.trampoline none :: stack) state'.evaluation) ∧
        entriesOf state state' = [(cell, state'.evaluation)] := by
  cases heffect with
  | still _ _ hsettling =>
      have hforced : forced state'.stack = forced state.stack :=
        congrArg (List.map Prod.fst) hsettling
      exact .inl (entriesOf_eq_nil (Nat.le_of_eq (congrArg List.length hforced)))
  | answered => exact .inl (entriesOf_eq_nil (Nat.le_refl _))
  | entered hclaim =>
      exact .inr ⟨_, _, _, rfl, hclaim, rfl, ⟨_, rfl⟩, entriesOf_eq_singleton rfl⟩
  | settled => exact .inl (entriesOf_eq_nil (Nat.le_succ _))

/-- A step that neither is a demand nor starts work is always possible, and enters nothing. -/
theorem turn_of_step (hat : system.At thread state) (hnext : Machine.step host state = .next state')
    (hworkers : state'.store.workers = state.store.workers)
    (hcontrol : ∀ cell, state.control ≠ .resume (.binding cell)) :
    Turn host thread system [] (system.put thread (activityOf state') state'.store) := by
  have hnone : entriesOf state state' = [] := by
    rcases entries_of_effect (effect_of_step hnext) with hnil | ⟨cell, _, _, hdemand, _⟩
    · exact hnil
    · exact (hcontrol cell hdemand).elim
  rw [← hnone]
  refine .think hat hnext ?_ (not_hires hworkers)
  rintro worker ⟨cell, _, _, hdemand, _⟩
  exact (hcontrol cell hdemand).elim

/-! ## The invariant -/

/-- What holds at every point of an execution. -/
structure Sound (system : System) (log : Log) : Prop where
  recorded : Recorded system log
  apart : Apart system
  bounded : ∀ thread, system.threads thread ≠ .idle → thread ≤ system.store.workers
  hired : Hired system.store

namespace Sound

/-- What a thread at work will settle is running. -/
theorem runs_of_at (h : Sound system log) (hat : system.At thread state) :
    ∀ cell ∈ forced state.stack, state.store.Runs cell := by
  intro cell hmem
  rw [← hat.2]
  refine h.apart.runs thread cell ?_
  rw [hat.1]
  exact hmem

theorem thread_le (h : Sound system log) (hat : system.At thread state) :
    thread ≤ system.store.workers := by
  refine h.bounded thread ?_
  rw [hat.1]
  exact fun hidle => by cases hidle

/-- One thread goes on while the store ages, and nothing is entered. -/
theorem put (h : Sound system log) (hages : system.store.Ages store)
    (hworkers : system.store.workers ≤ store.workers) (hthread : thread ≤ store.workers)
    (hactive : activity ≠ .idle) (hapart : Apart (system.put thread activity store))
    (hhired : Hired store) : Sound (system.put thread activity store) log := by
  refine ⟨h.recorded.ages hages ?_, hapart, ?_, hhired⟩
  · intro other hactive'
    by_cases heq : other = thread
    · subst heq
      rw [system.threads_put]
      exact hactive
    · rw [system.threads_put_of_ne heq]
      exact hactive'
  · intro other hactive'
    by_cases heq : other = thread
    · subst heq
      exact hthread
    · rw [system.threads_put_of_ne heq] at hactive'
      exact Nat.le_trans (h.bounded other hactive') hworkers

/-- One thread takes a step of the machine.  What it enters is not in the log yet. -/
theorem put_effect (h : Sound system log) (hat : system.At thread state)
    (heffect : Effect state state') :
    Sound (system.put thread (activityOf state') state'.store) log := by
  have hruns := h.runs_of_at hat
  have hhired : Hired state.store := hat.2 ▸ h.hired
  have hages := ages_of_effect heffect hruns
  have hworkers := workers_of_effect heffect
  rw [← hat.2] at hages hworkers
  refine h.put hages hworkers (Nat.le_trans (h.thread_le hat) hworkers) ?_
    (apart_of_effect heffect h.apart hat) (hired_of_effect heffect hhired hruns)
  exact fun hidle => by cases hidle

end Sound

theorem sound_of_fresh (h : system.Fresh) : Sound system [] := by
  rcases h with ⟨hcells, hidle⟩
  refine ⟨.nil system, ⟨?_, ?_, ?_⟩, ?_, ?_⟩
  · intro thread
    rw [hidle thread]
    exact .nil
  · intro thread other _ cell hmem
    rw [hidle thread] at hmem
    cases hmem
  · intro thread cell hmem
    rw [hidle thread] at hmem
    cases hmem
  · intro thread hactive
    exact (hactive (hidle thread)).elim
  · intro id name worker work hcell
    rw [hcells] at hcell
    cases hcell

/-- The machine takes a step on one thread. -/
theorem sound_of_think (h : Sound system log) (hat : system.At thread state)
    (heffect : Effect state state')
    (hover : ∀ worker, TakesOver state worker → system.threads worker = .idle) :
    Sound (system.put thread (activityOf state') state'.store) (log ++ entriesOf state state') := by
  have hput := h.put_effect hat heffect
  rcases entries_of_effect heffect with
    hnil | ⟨cell, work, worker, hcontrol, hclaim, heval, _, hentry⟩
  · rw [hnil, List.append_nil]
    exact hput
  · rw [hentry]
    rcases Store.claim_run hclaim with ⟨name, hstore', hcell⟩
    -- Nobody has entered the cell: it was pending, or started for a worker without a thread.
    have hnew : cell ∉ log.map Prod.fst := by
      rcases hcell with ⟨hcell, _⟩ | ⟨started, _, hworker, hcell⟩
      · rw [← hat.2] at hcell
        exact h.recorded.not_mem_of_pending hcell
      · rw [← hat.2] at hcell
        subst hworker
        exact h.recorded.not_mem_of_started hcell (hover started ⟨cell, work, _, hcontrol, hclaim⟩)
    have hrunning : state'.store.cells[cell]? = some ⟨name, .running state.evaluation worker⟩ := by
      rw [hstore']
      rcases hcell with ⟨hcell, _⟩ | ⟨_, _, _, hcell⟩
      all_goals exact Store.getElem?_replaceCell_self hcell
    have hentered : Cell.EnteredBy state'.evaluation ⟨name, .running state.evaluation worker⟩ := by
      rw [heval]
      cases worker <;> rfl
    have hrecorded := hput.recorded.append hnew hrunning hentered fun _ _ heq => by cases heq
    exact ⟨hrecorded, hput.apart, hput.bounded, hput.hired⟩

/-- Only a request to start work makes room for a new worker. -/
theorem request_of_workers_lt (heffect : Effect state state')
    (hlt : state.store.workers < state'.store.workers) :
    ∃ request next, state.control = .run (.ask request next) ∧
      state'.store = (state.store.answer request).2 := by
  cases heffect with
  | still hstore _ _ =>
      rw [hstore] at hlt
      exact (Nat.lt_irrefl _ hlt).elim
  | @answered request next => exact ⟨request, next, rfl, rfl⟩
  | entered hclaim =>
      rcases Store.claim_run hclaim with ⟨name, rfl, _⟩
      exact (Nat.lt_irrefl _ hlt).elim
  | settled => exact (Nat.lt_irrefl _ hlt).elim

/-- Work is started, and the worker begins on a thread of its own. -/
theorem sound_of_spawn (h : Sound system log) (hat : system.At thread state)
    (heffect : Effect state state') (hlt : state.store.workers < state'.store.workers)
    {cell : CellId} {name : String} {work : Suspension}
    (hcell : state'.store.cells[cell]? = some ⟨name, .started state'.store.workers work⟩) :
    Sound ((system.put thread (activityOf state') state'.store).put state'.store.workers
        (workerOf work state'.store.workers) state'.store)
      (log ++ [(cell, state'.store.workers)]) := by
  have hput := h.put_effect hat heffect
  have hapart : Apart ((system.put thread (activityOf state') state'.store).put
      state'.store.workers (workerOf work state'.store.workers) state'.store) :=
    hput.apart.put_sublist (List.nil_sublist _) fun _ hruns => hruns
  have hspawn := hput.put (.of_cells_eq rfl) (Nat.le_refl _) (Nat.le_refl _)
    (fun hidle => by cases hidle) hapart hput.hired
  -- The cell was pending before the request, so nobody has entered it.
  have hnew : cell ∉ log.map Prod.fst := by
    rcases request_of_workers_lt heffect hlt with ⟨request, _, _, hstore'⟩
    have hhired : Hired state.store := hat.2 ▸ h.hired
    rw [hstore'] at hlt hcell
    have hpending := (hhired.pending_of_answer hlt hcell).1
    exact h.recorded.not_mem_of_pending (hat.2 ▸ hpending)
  refine ⟨hspawn.recorded.append hnew hcell rfl ?_, hspawn.apart, hspawn.bounded, hspawn.hired⟩
  -- The worker has its thread from now on.
  intro worker work' hstate hidle
  cases hstate
  have hself := (system.put thread (activityOf state') state'.store).threads_put
    state'.store.workers (workerOf work state'.store.workers) state'.store
  cases hself.symm.trans hidle

/-- Every step of a system preserves the invariant. -/
theorem sound_of_step (h : Sound system log) (hstep : Step host system entries system') :
    Sound system' (log ++ entries) := by
  cases hstep with
  | @begin state hmain hbegins hcells hworkers =>
      rw [List.append_nil]
      have hawaited : (activityOf state).awaited = [] := by
        rw [activityOf, Activity.awaited, forced, hbegins.settling]
        rfl
      refine h.put (.of_cells_eq hcells) (Nat.le_of_eq hworkers.symm) (Nat.zero_le _)
        (fun hidle => by cases hidle) (h.apart.put_sublist ?_ ?_)
        (h.hired.of_cells_eq hcells (Nat.le_of_eq hworkers.symm))
      · rw [hawaited]
        exact List.nil_sublist _
      · rintro cell ⟨name, owner, worker, hcell⟩
        exact ⟨name, owner, worker, by rw [hcells, hcell]⟩
  | @turn _ _ thread hturn =>
      cases hturn with
      | think hat hnext hover _ => exact sound_of_think h hat (effect_of_step hnext) hover
      | spawn hat hnext hlt hcell => exact sound_of_spawn h hat (effect_of_step hnext) hlt hcell
      | @receive state cell work worker store hat hcontrol hclaim hactive =>
          rw [List.append_nil]
          have hstore := hat.2
          rw [← hstore] at hclaim
          -- The cell was entered when its worker began; now it runs and is awaited.
          rcases Store.claim_run hclaim with ⟨name, hstore', _⟩
          have hworkers : system.store.workers ≤ store.workers := by
            rw [hstore']
            exact Nat.le_refl _
          refine h.put (Store.ages_claim hclaim) hworkers (Nat.le_trans (h.thread_le hat) hworkers)
            (fun hidle => by cases hidle) (h.apart.put_cons ?_ (Store.Runs.claim hclaim))
            (h.hired.claim hclaim)
          rw [hat.1]
          rfl
      | @deliver cell worker stack evaluation result hreceiving hfinished =>
          rw [List.append_nil]
          have hcons : (system.threads thread).awaited = cell :: forced stack := by
            rw [hreceiving]
            rfl
          -- What is awaited runs, so no outcome is replaced.
          have hruns : system.store.Runs cell := by
            refine h.apart.runs thread cell ?_
            rw [hcons]
            exact List.mem_cons_self
          have hthread : thread ≤ system.store.workers := by
            refine h.bounded thread ?_
            rw [hreceiving]
            exact fun hidle => by cases hidle
          exact h.put (Store.ages_settle hruns result) (Nat.le_refl _) hthread
            (fun hidle => by cases hidle) (h.apart.put_settle result hcons)
            (h.hired.settle hruns result)
      | @halt state result store hat hhalt =>
          rw [List.append_nil]
          rcases halt_of_step hhalt with ⟨_, _, hstore⟩
          have hsame : store = system.store := hstore.trans hat.2.symm
          subst hsame
          exact h.put (.of_cells_eq rfl) (Nat.le_refl _) (h.thread_le hat) (fun hidle => by cases hidle)
            (h.apart.put_sublist (List.nil_sublist _) fun _ hruns => hruns) h.hired

/-- Executions, by induction on their steps. -/
theorem sound_of_execution {start : System} (hstart : Sound start [])
    (h : Execution host start log system) : Sound system log := by
  induction h with
  | refl => exact hstart
  | step _ hstep ih => exact sound_of_step ih hstep

/-! ## What is received -/

section Receiving

variable {cell : CellId} {worker : EvaluationId} {stack : List Pending} {evaluation : EvaluationId}

/-- A thread that turns to something else does not receive. -/
theorem receiving_of_put {other : EvaluationId} {activity : Activity} {store : Store}
    (hactivity : activity ≠ .receiving cell worker stack evaluation)
    (h : (system.put other activity store).threads thread =
      .receiving cell worker stack evaluation) :
    system.threads thread = .receiving cell worker stack evaluation := by
  by_cases heq : thread = other
  · subst heq
    rw [system.threads_put] at h
    exact (hactivity h).elim
  · rw [system.threads_put_of_ne heq] at h
    exact h

/-- Whoever receives after a step has received before, unless the step is the demand for the cell. -/
theorem receiving_of_step (hstep : Step host system entries system')
    (h : system'.threads thread = .receiving cell worker stack evaluation) :
    system.threads thread = .receiving cell worker stack evaluation ∨
      ∃ work, system.store.claim evaluation cell = (.run work (some worker), system'.store) := by
  cases hstep with
  | begin _ _ _ _ => exact .inl (receiving_of_put (fun heq => by cases heq) h)
  | @turn _ _ demander hturn =>
      cases hturn with
      | think _ _ _ _ => exact .inl (receiving_of_put (fun heq => by cases heq) h)
      | deliver _ _ => exact .inl (receiving_of_put (fun heq => by cases heq) h)
      | halt _ _ => exact .inl (receiving_of_put (fun heq => by cases heq) h)
      | spawn _ _ _ _ =>
          have hbefore := receiving_of_put (fun heq => by cases heq) h
          exact .inl (receiving_of_put (fun heq => by cases heq) hbefore)
      | @receive state _ work _ _ hat _ hclaim _ =>
          by_cases heq : thread = demander
          · subst heq
            rw [system.threads_put] at h
            cases h
            rw [← hat.2] at hclaim
            exact .inr ⟨work, hclaim⟩
          · rw [system.threads_put_of_ne heq] at h
            exact .inl h

end Receiving

end Async
end LazyLisp
