import LazyLisp.Script

/-!
# Form — what values mean as code

Symbols stand for what they are bound to, lists are calls, vectors and maps are evaluated element by
element, and everything else stands for itself.  A list whose head is not a function is data after
all, and becomes the vector of its elements' values.  This file defines:

* `Form.step`, one step of evaluation, whose outcome may be suspended;
* `Form.call`, the form that calls a function with values that are already there.
-/

namespace LazyLisp
namespace Form

/-- One step of evaluation.  A call is only suspended: the function gets the unevaluated operands
and the caller's scope when the call is resumed.  The values of a map are evaluated in the order in
which the map holds its entries, which is that of the keys.  A map promises no order, and a hash
table would come to another one, so nothing should rest on which value is evaluated first. -/
def step (form : Value) (scope : Scope) : Script Value :=
  match form with
  | .symbol symbol => Script.lookup scope symbol.name
  | .list [] => pure .nil
  | .list (head :: operands) => do
      match ← Script.value head scope with
      | .func func => pure (.suspended (.call func head operands scope))
      | data =>
          let values ← Script.values operands scope
          pure (.vector (data :: values))
  | .vector items => do
      let values ← Script.values items scope
      pure (.vector values)
  | .map entries => do
      let values ← entries.mapM fun entry => do
        let value ← Script.value entry.2 scope
        pure (entry.1, value)
      pure (.map values)
  | form => pure form

/-- A value in the place of an operand.  Values that do not stand for themselves are quoted, so that
the function sees them unchanged. -/
def operand : Value → Value
  | .symbol symbol => Value.quoted (.symbol symbol)
  | .list items => Value.quoted (.list items)
  | .vector items => Value.quoted (.vector items)
  | .map entries => Value.quoted (.map entries)
  | .suspended work => Value.quoted (.suspended work)
  | value => value

/-- The form that calls `head` with values that are already there. -/
def call (head : Value) (values : List Value) : Value :=
  .list (head :: values.map operand)

end Form
end LazyLisp
