import LazyLisp.Proofs.Machine.Session
import LazyLisp.Threads

/-!
# System — executions of threads

The threads of a system take turns in any order, one step at a time.  What a thread can do next is
stated here as a relation with the cells that are entered by that; `Async.System.turn_iff` says that
`Async.System.turn` computes it.  This file defines:

* `Async.Log`, which cells were entered, by which evaluations;
* `Async.Turn`, what a thread can do next, and `Async.Step`, the steps of a system, with the cells
  that they enter;
* `Async.Execution`, any number of steps with the log of all cells that they enter.
-/

namespace LazyLisp
namespace Async

open Machine

/-! ## Threads and stores -/

/-- The cells that an activity will settle. -/
def Activity.awaited : Activity → List CellId
  | .idle => []
  | .working _ stack _ => forced stack
  | .receiving cell _ stack _ => cell :: forced stack
  | .finished _ => []

namespace System

/-- Nothing has been evaluated, and there are no cells. -/
def Fresh (system : System) : Prop :=
  system.store.cells = #[] ∧ ∀ thread, system.threads thread = .idle

/-- Nothing is being evaluated on the main thread. -/
def Rests (system : System) : Prop :=
  system.threads mainEvaluation = .idle ∨ ∃ result, system.threads mainEvaluation = .finished result

/-- The machine on the thread is in the given state. -/
def At (system : System) (thread : EvaluationId) (state : State) : Prop :=
  system.threads thread = .working state.control state.stack state.evaluation ∧
    system.store = state.store

end System

/-! ## Steps -/

/-- Cells whose work was entered, in order, with the evaluations that entered them. -/
abbrev Log := List (CellId × EvaluationId)

/-- The cells that a step of the machine enters: those that the stack waits for from now on. -/
def entriesOf (state state' : State) : Log :=
  ((forced state'.stack).take ((forced state'.stack).length - (forced state.stack).length)).map
    fun cell => (cell, state'.evaluation)

/-- The next step demands a cell whose work was started for the given worker. -/
def TakesOver (state : State) (worker : EvaluationId) : Prop :=
  ∃ cell work store, state.control = .resume (.binding cell) ∧
    state.store.claim state.evaluation cell = (.run work (some worker), store)

/-- The step hands pending work over to a new worker.  A request to start work that somebody has taken
up before uses up a number of a worker, and does nothing else. -/
def Hires (state state' : State) : Prop :=
  state.store.workers < state'.store.workers ∧
    ∃ (cell : CellId) (name : String) (work : Suspension),
      state'.store.cells[cell]? = some ⟨name, .started state'.store.workers work⟩

theorem not_hires {state state' : State} (h : state'.store.workers = state.store.workers) :
    ¬ Hires state state' :=
  fun hires => Nat.ne_of_gt hires.1 h

/-- What one thread can do next, with the cells that are entered by that. -/
inductive Turn (host : Host) (thread : EvaluationId) : System → Log → System → Prop where
  /-- The machine takes a step, without hiring a worker or interfering with one that has a thread. -/
  | think {system : System} {state state' : State} :
      system.At thread state → Machine.step host state = .next state' →
        (∀ worker, TakesOver state worker → system.threads worker = .idle) →
        ¬ Hires state state' →
        Turn host thread system (entriesOf state state')
          (system.put thread (activityOf state') state'.store)
  /-- The machine takes a step that starts work, and the new worker gets its own thread. -/
  | spawn {system : System} {state state' : State} {cell : CellId} {name : String}
      {work : Suspension} :
      system.At thread state → Machine.step host state = .next state' →
        state.store.workers < state'.store.workers →
        state'.store.cells[cell]? = some ⟨name, .started state'.store.workers work⟩ →
        Turn host thread system [(cell, state'.store.workers)]
          ((system.put thread (activityOf state') state'.store).put state'.store.workers
            (workerOf work state'.store.workers) state'.store)
  /-- A started binding is demanded whose worker has its own thread. -/
  | receive {system : System} {state : State} {cell : CellId} {work : Suspension}
      {worker : EvaluationId} {store : Store} :
      system.At thread state → state.control = .resume (.binding cell) →
        state.store.claim state.evaluation cell = (.run work (some worker), store) →
        system.threads worker ≠ .idle →
        Turn host thread system []
          (system.put thread (.receiving cell worker state.stack state.evaluation) store)
  /-- A worker hands over what came out. -/
  | deliver {system : System} {cell : CellId} {worker : EvaluationId} {stack : List Pending}
      {evaluation : EvaluationId} {result : Result} :
      system.threads thread = .receiving cell worker stack evaluation →
        system.threads worker = .finished result →
        Turn host thread system []
          (system.put thread (.working (.run (.done result)) stack evaluation)
            (system.store.settle cell result))
  | halt {system : System} {state : State} {result : Result} {store : Store} :
      system.At thread state → Machine.step host state = .halt result store →
        Turn host thread system [] (system.put thread (.finished result) store)

/-- The steps of a system, with the cells that they enter. -/
inductive Step (host : Host) : System → Log → System → Prop where
  /-- The main thread begins with an evaluation, after anything but cells was changed. -/
  | begin {system : System} {state : State} :
      system.Rests → state.Begins → state.store.cells = system.store.cells →
        state.store.workers = system.store.workers →
        Step host system [] (system.put mainEvaluation (activityOf state) state.store)
  | turn {system system' : System} {entries : Log} {thread : EvaluationId} :
      Turn host thread system entries system' → Step host system entries system'

/-- Any number of steps, with the log of the cells that they enter. -/
inductive Execution (host : Host) (start : System) : Log → System → Prop where
  | refl : Execution host start [] start
  | step {log entries : Log} {system system' : System} :
      Execution host start log system → Step host system entries system' →
        Execution host start (log ++ entries) system'

theorem System.at_put (system : System) (thread : EvaluationId) (state : State) :
    (system.put thread (activityOf state) state.store).At thread state :=
  ⟨system.threads_put .., rfl⟩

theorem System.put_of_at {system : System} {thread : EvaluationId} {state : State}
    (hat : system.At thread state) :
    system.put thread (activityOf state) state.store = system := by
  obtain ⟨store, threads⟩ := system
  obtain ⟨hthread, rfl⟩ := hat
  rw [activityOf, ← hthread]
  exact System.put_self ..

end Async
end LazyLisp
