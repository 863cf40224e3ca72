import LazyLisp.Builtin.Call
import LazyLisp.Reader.Forms
import LazyLisp.Value.Render

/-!
# Code — code as data, and printing
-/

namespace LazyLisp
namespace Builtin

/-- `(quote form)`: the form itself. -/
def quote (call : Call) : Script Value :=
  match call.operands with
  | [form] => pure form
  | _ => call.arityMismatch (.exactly 1)

/-- `(eval form)`: evaluate the form, and then the form that it evaluates to. -/
def evaluate (call : Call) : Script Value := do
  let code ← call.single
  call.tail code

/-- `(parse source)`: the only form of a source text, unevaluated. -/
def read (call : Call) : Script Value := do
  match ← call.single with
  | .text source =>
      match Reader.readOne source with
      | .ok form => pure form
      | .error error => Script.fail (.parseFailure error.message)
  | other => call.typeMismatch "String" other

/-- `(prn form...)`: print the texts of the values on one line, one space apart. -/
def print (call : Call) : Script Value := do
  let values ← Script.values call.operands call.scope
  Script.print (" ".intercalate (values.map Value.display))
  pure .nil

end Builtin
end LazyLisp
