import LazyLisp.Builtin.Call
import LazyLisp.Value.Equality

/-!
# Data — values examined, compared and taken apart

Tests and kinds hold of any value; sizes of lists, vectors and maps; `get` looks into maps.
-/

namespace LazyLisp
namespace Builtin

/-! ## Any value -/

/-- A test on one value. -/
def test (predicate : Predicate) (call : Call) : Script Value := do
  let value ← call.single
  pure (.bool (predicate.accepts value))

/-- `(type value)`: the name of the value's kind. -/
def kindOf (call : Call) : Script Value := do
  let value ← call.single
  pure (.text value.kindName)

/-- Whether all forms have values equal to `first`.  The first one that differs settles it. -/
def allEqual (call : Call) (first : Value) : List Value → Script Value
  | [] => pure (.bool true)
  | form :: rest => do
      let value ← call.value form
      if value.equal first then allEqual call first rest else pure (.bool false)

/-- `(equal? first form...)`, with at least two operands. -/
def equal (call : Call) : Script Value :=
  match call.operands with
  | first :: second :: rest => do
      let value ← call.value first
      allEqual call value (second :: rest)
  | _ => call.arityMismatch (.atLeast 2)

/-! ## Collections -/

/-- How many elements or entries the only operand has. -/
def sizeOfOperand (call : Call) : Script Nat := do
  match ← call.single with
  | .list items => pure items.length
  | .vector items => pure items.length
  | .map entries => pure entries.length
  | other => call.typeMismatch "List, Vector or Map" other

def count (call : Call) : Script Value := do
  let size ← sizeOfOperand call
  pure (.int size)

def isEmpty (call : Call) : Script Value := do
  let size ← sizeOfOperand call
  pure (.bool (size == 0))

/-- `(get map key)`: the entry for a key or a string, or nil if there is none. -/
def get (call : Call) : Script Value :=
  match call.operands with
  | [first, second] => do
      match ← call.value first with
      | .map entries =>
          match ← call.value second with
          | .key key => pure ((Entries.get? key entries).getD .nil)
          | .text name => pure ((Entries.get? ⟨name⟩ entries).getD .nil)
          | other => call.typeMismatch "String or Key" other
      | other => call.typeMismatch "Map" other
  | _ => call.arityMismatch (.exactly 2)

/-- `(list form...)`: the values of the forms. -/
def list (call : Call) : Script Value := do
  let values ← Script.values call.operands call.scope
  pure (.list values)

end Builtin
end LazyLisp
