import LazyLisp.Builtin.Table

/-!
# Machine — evaluation step by step

Evaluation runs on a machine with an explicit stack, so neither nesting nor long chains of lazy
bindings are limited by anything but memory.  The machine either plays the evaluator's part in a
script or resumes suspended work.  Three things wait on its stack:

* a script, for the outcome of a form that it asked to be evaluated;
* a *trampoline*, which resumes suspended work until a value or a failure comes out.  It remembers
  the latest call that shows in a trace, which is why a tail call replaces its caller there;
* a cell, for its outcome.

The machine has one thread.  Work that was started by `async` is done on it by the first who demands
the binding; `Async.System` runs the machine on a thread for every worker, where started work
proceeds at once.

This file defines:

* `Machine.State`, `Machine.step` and `Machine.run`;
* `Machine.evaluate`, `Machine.force` and `Machine.perform`, the runs from a form, from suspended
  work and from a script;
* `Machine.resumptions`, how often a run resumes suspended work.
-/

namespace LazyLisp
namespace Machine

/-! ## States -/

/-- What waits for the outcome of what the machine is doing. -/
inductive Pending where
  /-- A script waits for the outcome of a form. -/
  | await (next : Result → Script Value)
  /-- Suspended outcomes are resumed.  The call site is the latest one since this began. -/
  | trampoline (site : Option CallSite)
  /-- A cell waits for its outcome, and the given evaluation goes on after that. -/
  | settle (cell : CellId) (evaluation : EvaluationId)

/-- What the machine is doing. -/
inductive Control where
  | run (script : Script Value)
  | resume (work : Suspension)

structure State where
  control : Control
  /-- What waits, innermost first. -/
  stack : List Pending
  /-- The evaluation that the machine is working for. -/
  evaluation : EvaluationId
  store : Store

/-- The identity of the main evaluation. -/
def mainEvaluation : EvaluationId := 0

/-! ## Steps -/

/-- What a step leads to. -/
inductive Transition where
  | next (state : State)
  | halt (result : Result) (store : Store)
  /-- The evaluation waits for a cell that an evaluation below it on the stack is resolving, so
  neither can go on. -/
  | block (cell : CellId) (store : Store)

/-- A result reaches what waits for it. -/
def yield (result : Result) (stack : List Pending) (evaluation : EvaluationId) (store : Store) :
    Transition :=
  match stack with
  | [] => .halt result store
  | .await next :: stack => .next ⟨.run (next result), stack, evaluation, store⟩
  | .trampoline site :: stack =>
      match result with
      | .ok (.suspended work) =>
          .next ⟨.resume work, .trampoline (work.callSite?.or site) :: stack, evaluation, store⟩
      | .ok value => .next ⟨.run (.done (.ok value)), stack, evaluation, store⟩
      | .error failure =>
          .next ⟨.run (.done (.error (failure.throughAny site))), stack, evaluation, store⟩
  | .settle cell outer :: stack =>
      .next ⟨.run (.done result), stack, outer, store.settle cell result⟩

/-- A lazy binding is demanded. -/
def demand (cell : CellId) (stack : List Pending) (evaluation : EvaluationId) (store : Store) :
    Transition :=
  match store.claim evaluation cell with
  | (.settled result, store) => .next ⟨.run (.done result), stack, evaluation, store⟩
  | (.run work worker, store) =>
      .next ⟨.run (.done (.ok (.suspended work))),
        .trampoline none :: .settle cell evaluation :: stack, worker.getD evaluation, store⟩
  | (.selfDependent name, store) =>
      .next ⟨.run (.done (.error (Cell.selfDependence name))), stack, evaluation, store⟩
  | (.wait, store) => .block cell store

/-- One step. -/
def step (host : Host) (state : State) : Transition :=
  match state with
  | ⟨.run (.done result), stack, evaluation, store⟩ => yield result stack evaluation store
  | ⟨.run (.ask request next), stack, evaluation, store⟩ =>
      let (answer, store) := store.answer request
      .next ⟨.run (next answer), stack, evaluation, store⟩
  | ⟨.run (.eval form scope next), stack, evaluation, store⟩ =>
      .next
        ⟨.run (Form.step form scope), .trampoline none :: .await next :: stack, evaluation, store⟩
  | ⟨.resume (.form form scope), stack, evaluation, store⟩ =>
      .next ⟨.run (Form.step form scope), stack, evaluation, store⟩
  | ⟨.resume (.call func head operands scope), stack, evaluation, store⟩ =>
      .next ⟨.run (func.enter host head operands scope), stack, evaluation, store⟩
  | ⟨.resume (.given _ result), stack, evaluation, store⟩ =>
      .next ⟨.run (.done result), stack, evaluation, store⟩
  | ⟨.resume (.binding cell), stack, evaluation, store⟩ => demand cell stack evaluation store

/-! ## Runs -/

/-- How a run ends. -/
inductive Outcome where
  | finished (result : Result) (store : Store)
  | blocked (cell : CellId) (store : Store)
  /-- The allowed number of steps was not enough. -/
  | unfinished (state : State)

/-- Take up to `fuel` steps. -/
def run (host : Host) : Nat → State → Outcome
  | 0, state => .unfinished state
  | fuel + 1, state =>
      match step host state with
      | .next state => run host fuel state
      | .halt result store => .finished result store
      | .block cell store => .blocked cell store

/-- How many of the first `fuel` steps resume suspended work. -/
def resumptions (host : Host) : Nat → State → Nat
  | 0, _ => 0
  | fuel + 1, state =>
      let here := match state.control with
        | .resume _ => 1
        | .run _ => 0
      match step host state with
      | .next state => here + resumptions host fuel state
      | .halt _ _ => here
      | .block _ _ => here

/-! ## Where runs begin -/

/-- Play the evaluator's part in a script. -/
def State.ofScript (script : Script Value) (store : Store) : State :=
  ⟨.run script, [], mainEvaluation, store⟩

/-- Evaluate a form to a value that is not suspended. -/
def State.ofForm (form : Value) (scope : Scope) (store : Store) : State :=
  ⟨.run (Form.step form scope), [.trampoline none], mainEvaluation, store⟩

/-- Resume suspended work until a value or a failure comes out. -/
def State.ofSuspension (work : Suspension) (store : Store) : State :=
  ⟨.run (.done (.ok (.suspended work))), [.trampoline none], mainEvaluation, store⟩

/-- The outcome of a script. -/
def perform (host : Host) (fuel : Nat) (script : Script Value) (store : Store) : Outcome :=
  run host fuel (.ofScript script store)

/-- The outcome of a form. -/
def evaluate (host : Host) (fuel : Nat) (form : Value) (scope : Scope) (store : Store) : Outcome :=
  run host fuel (.ofForm form scope store)

/-- The outcome of suspended work. -/
def force (host : Host) (fuel : Nat) (work : Suspension) (store : Store) : Outcome :=
  run host fuel (.ofSuspension work store)

end Machine
end LazyLisp
