import LazyLisp.Machine

/-!
# Threads — evaluations side by side

The main evaluation and its workers share one store, and each has a thread of its own on which the
machine takes its steps.  Work that is started gets a worker with a thread in that very step.  A
started binding is resolved on the worker's thread, and whoever demands it first waits for the worker
and receives what comes out.  The threads take turns, one step at a time; whoever drives them says in
which order.  This file defines:

* `Async.Activity` and `Async.System`, the threads and the store that they share;
* `Async.System.turn`, the next step of a thread;
* `Async.System.tabulate`, the same system with its threads in a table.
-/

namespace LazyLisp
namespace Async

open Machine

/-! ## Threads and stores -/

/-- What a thread is doing. -/
inductive Activity where
  /-- Nobody uses the thread yet. -/
  | idle
  /-- The machine runs on it, for the given evaluation. -/
  | working (control : Control) (stack : List Pending) (evaluation : EvaluationId)
  /-- The outcome of a cell is awaited from its worker. -/
  | receiving (cell : CellId) (worker : EvaluationId) (stack : List Pending)
      (evaluation : EvaluationId)
  | finished (result : Result)

def Activity.isIdle : Activity → Bool
  | .idle => true
  | _ => false

theorem Activity.isIdle_iff {activity : Activity} : activity.isIdle = true ↔ activity = .idle := by
  cases activity <;> simp [isIdle]

structure System where
  /-- The store, which all evaluations share. -/
  store : Store
  /-- The threads, each under the identity of the evaluation that it was made for. -/
  threads : EvaluationId → Activity

namespace System

/-- The system with a new activity on one thread, and a new store. -/
def put (system : System) (thread : EvaluationId) (activity : Activity) (store : Store) : System :=
  -- The new threads do not keep the old store.
  let threads := system.threads
  ⟨store, fun other => if other = thread then activity else threads other⟩

theorem threads_put (system : System) (thread : EvaluationId) (activity : Activity)
    (store : Store) : (system.put thread activity store).threads thread = activity :=
  if_pos rfl

theorem threads_put_of_ne (system : System) {thread other : EvaluationId} (hne : other ≠ thread)
    (activity : Activity) (store : Store) :
    (system.put thread activity store).threads other = system.threads other :=
  if_neg hne

theorem put_self (system : System) (thread : EvaluationId) :
    system.put thread (system.threads thread) system.store = system := by
  obtain ⟨store, threads⟩ := system
  refine congrArg (mk store) (funext fun other => ?_)
  dsimp only
  split
  case isTrue heq => rw [heq]
  case isFalse => rfl

/-- Of two changes to a thread only the last one is left. -/
theorem put_put (system : System) (thread : EvaluationId) (activity activity' : Activity)
    (store store' : Store) :
    (system.put thread activity store).put thread activity' store' =
      system.put thread activity' store' := by
  refine congrArg (mk store') (funext fun other => ?_)
  rw [put]
  dsimp only
  split <;> rfl

/-- The order of changes to different threads does not matter to the threads. -/
theorem threads_put_comm (system : System) {thread other : EvaluationId} (hne : other ≠ thread)
    (activity activity' : Activity) (store store' : Store) :
    ((system.put thread activity store).put other activity' store').threads =
      ((system.put other activity' store').put thread activity store).threads := by
  funext third
  simp only [put]
  by_cases heq : third = thread
  · subst heq
    rw [if_neg (Ne.symm hne), if_pos rfl, if_pos rfl]
  · rw [if_neg heq, if_neg heq]

end System

/-- What the machine is doing, apart from the store. -/
def activityOf (state : State) : Activity :=
  .working state.control state.stack state.evaluation

/-- The start of a worker. -/
def workerOf (work : Suspension) (worker : EvaluationId) : Activity :=
  .working (.run (.done (.ok (.suspended work)))) [.trampoline none] worker

/-! ## Turns -/

/-- The cell that the next step demands, if it was handed to another evaluation, and that one. -/
def deliverer? (evaluation : EvaluationId) (store : Store) :
    Control → Option (CellId × EvaluationId)
  | .resume (.binding cell) =>
      match store.cells[cell]? with
      | some ⟨_, .started worker _⟩ => if worker = evaluation then none else some (cell, worker)
      | _ => none
  | _ => none

/-- The work of the latest worker, unless there were as many workers before. -/
def hired? (workers : Nat) (store : Store) : Option Suspension :=
  if workers < store.workers then
    store.cells.findSome? fun cell =>
      match cell.state with
      | .started worker work => if worker = store.workers then some work else none
      | _ => none
  else none

namespace System

/-- What a step of the machine on one of the threads leads to, if there were so many workers before.
A worker that the step hires begins on its own thread. -/
def after (thread : EvaluationId) (threads : EvaluationId → Activity) (workers : Nat) :
    Transition → Bool × System
  | .next state =>
      let system := put ⟨state.store, threads⟩ thread (activityOf state) state.store
      match hired? workers state.store with
      | some work =>
          (true, system.put state.store.workers (workerOf work state.store.workers) state.store)
      | none => (true, system)
  | .halt result store => (true, put ⟨store, threads⟩ thread (.finished result) store)
  | .block _ store => (false, ⟨store, threads⟩)

/-- The machine on one of the threads takes a step, if it can. -/
def think (host : Host) (thread : EvaluationId) (threads : EvaluationId → Activity)
    (state : State) : Bool × System :=
  -- Only the number of workers is kept of the old store, so the step can change the store in place.
  after thread threads state.store.workers (Machine.step host state)

/-- Whether a thread can go on, and the system after its next step.  A thread that has to wait or has
come to its end leaves the system as it is. -/
def turn (host : Host) (thread : EvaluationId) : System → Bool × System
  | ⟨store, threads⟩ =>
      match threads thread with
      | .idle | .finished _ => (false, ⟨store, threads⟩)
      | .receiving cell worker stack evaluation =>
          match threads worker with
          | .finished result =>
              (true, put ⟨store, threads⟩ thread (.working (.run (.done result)) stack evaluation)
                (store.settle cell result))
          | _ => (false, ⟨store, threads⟩)
      | .working control stack evaluation =>
          match deliverer? evaluation store control with
          | some (cell, worker) =>
              if (threads worker).isIdle then
                think host thread threads ⟨control, stack, evaluation, store⟩
              else
                (true, put ⟨store, threads⟩ thread (.receiving cell worker stack evaluation)
                  (store.claim evaluation cell).2)
          | none => think host thread threads ⟨control, stack, evaluation, store⟩

/-- The same system, with its threads as a table in place of a row of changes. -/
def tabulate (system : System) : System :=
  let table := Array.ofFn fun thread : Fin (system.store.workers + 1) => system.threads thread
  ⟨system.store, fun thread => table.getD thread .idle⟩

end System

end Async
end LazyLisp
