import LazyLisp.Value.Basic

/-!
# Cell — lazy bindings, resolved at most once

A cell holds the work of one lazy binding until somebody demands it, and the outcome from then on.
In between it is running, and remembers the evaluation that runs it, so that a binding whose work
demands the binding itself is noticed.  Work can also be handed to a background evaluation, the
worker; whoever first demands the binding then receives what the worker makes of it.

* `Cell.State` lists the states: pending, started, running, settled;
* `Cell.claim` is a demand by one evaluation, with `Claim` for what comes of it;
* `Cell.start` hands pending work to a worker;
* `Cell.settle` stores the outcome.
-/

namespace LazyLisp

/-- The identity of an evaluation: the main one, or a worker. -/
abbrev EvaluationId := Nat

namespace Cell

/-- The state of a lazy binding. -/
inductive State where
  /-- Nobody has asked for the binding yet. -/
  | pending (work : Suspension)
  /-- A worker resolves the work; nobody has asked for the binding yet. -/
  | started (worker : EvaluationId) (work : Suspension)
  /-- The owner resolves the binding, by itself or by waiting for the worker. -/
  | running (owner : EvaluationId) (worker : Option EvaluationId)
  | settled (result : Result)

end Cell

/-- A lazy binding: the name it was made for, and its state. -/
structure Cell where
  name : String
  state : Cell.State

/-- What comes of a demand. -/
inductive Claim where
  /-- The outcome is there. -/
  | settled (result : Result)
  /-- The demanding evaluation has to do the work, as the given worker if there is one. -/
  | run (work : Suspension) (worker : Option EvaluationId)
  /-- The demand comes from the work of the binding itself, which goes by this name. -/
  | selfDependent (name : String)
  /-- Another evaluation is resolving the binding. -/
  | wait

namespace Cell

/-- The failure of a binding that depends on its own value. -/
def selfDependence (name : String) : Failure :=
  { cause := .invalidArgument name "binding depends on its own value" }

/-- The value, once the binding has been resolved successfully. -/
def value? (cell : Cell) : Option Value :=
  match cell.state with
  | .settled (.ok value) => some value
  | _ => none

/-- A demand for the binding by the evaluation `me`. -/
def claim (me : EvaluationId) (cell : Cell) : Claim × Cell :=
  match cell.state with
  | .pending work => (.run work none, { cell with state := .running me none })
  | .started worker work =>
      if worker = me then (.selfDependent cell.name, cell)
      else (.run work (some worker), { cell with state := .running me (some worker) })
  | .running owner worker =>
      if owner = me ∨ worker = some me then (.selfDependent cell.name, cell) else (.wait, cell)
  | .settled result => (.settled result, cell)

/-- Hand pending work to `worker`.  A binding that is already being resolved is left alone. -/
def start (worker : EvaluationId) (cell : Cell) : Cell :=
  match cell.state with
  | .pending work => { cell with state := .started worker work }
  | _ => cell

/-- Store the outcome. -/
def settle (result : Result) (cell : Cell) : Cell :=
  { cell with state := .settled result }

end Cell
end LazyLisp
