import LazyLisp.Machine

/-!
# Program — evaluating source text

A program is a row of forms, evaluated in order in one scope.  Its value is that of the last form,
or nil if it has none, and the first form that fails ends it.  Nothing is evaluated of a text that
cannot be read to its end.
-/

namespace LazyLisp
namespace Program

/-- Evaluate forms in order, after one that came to `last`. -/
def evaluateAll (scope : Scope) (last : Value) : List Value → Script Value
  | [] => pure last
  | form :: rest => do
      let value ← Script.value form scope
      evaluateAll scope value rest

/-- Read source text and evaluate every form of it. -/
def evaluate (source : String) (scope : Scope) : Script Value :=
  match Reader.readAll source with
  | .ok forms => evaluateAll scope .nil forms
  | .error error => Script.fail (.parseFailure error.message)

/-- The outcome of a program on the one thread of the machine. -/
def run (host : Host) (fuel : Nat) (source : String) (scope : Scope) (store : Store) :
    Machine.Outcome :=
  Machine.perform host fuel (evaluate source scope) store

end Program
end LazyLisp
