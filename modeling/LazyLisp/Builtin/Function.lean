import LazyLisp.Builtin.Call

/-!
# Function — functions made, called and applied to elements

A function remembers its scope; a call of it opens one frame inside that scope, in which every
parameter is bound to its operand, to be evaluated in the caller's scope when it is first asked for.

`map` and `apply` do not call their function themselves: they build the calls as code, and leave
that to be evaluated in the caller's scope.
-/

namespace LazyLisp
namespace Builtin

/-! ## Making functions -/

/-- A parameter, which has to be a symbol. -/
def parameter (call : Call) : Value → Script Symbol
  | .symbol symbol => pure symbol
  | other => call.typeMismatch "Symbol parameter" other

/-- Make a function of the given name, with the caller's scope. -/
def makeClosure (call : Call) (name : String) (params body : Value) : Script Func :=
  match params.elements? with
  | some items => do
      let symbols ← items.mapM (parameter call)
      pure (.closure name symbols body call.scope)
  | none => call.typeMismatch "parameter list" params

/-- `(fn* (param...) body)` -/
def lambda (call : Call) : Script Value :=
  match call.operands with
  | [params, body] => Value.func <$> makeClosure call "fn*" params body
  | _ => call.arityMismatch (.exactly 2)

/-- `(defn! name (param...) body)` binds the name to the function itself, not lazily. -/
def defineFunction (call : Call) : Script Value :=
  match call.operands with
  | [name, params, body] => do
      let symbol ← call.symbol name
      let func ← makeClosure call symbol.name params body
      Script.bindName call.scope symbol.name (.func func)
      pure (.func func)
  | _ => call.arityMismatch (.exactly 3)

/-! ## Calling them -/

/-- Bind parameters to operands, to be evaluated in the caller's scope. -/
def bindParams (inner caller : Scope) : List (Symbol × Value) → Script Unit
  | [] => pure ()
  | (param, operand) :: rest => do
      let _ ← Script.bindLazy inner param.name (.form operand caller)
      bindParams inner caller rest

/-- A call of a function made by a program.  The body is left to the caller. -/
def enterClosure (name : String) (params : List Symbol) (body : Value) (scope : Scope)
    (operands : List Value) (caller : Scope) : Script Value :=
  if operands.length = params.length then do
    let inner ← Script.openScope scope
    bindParams inner caller (params.zip operands)
    Script.tail body inner
  else Script.fail (.arityMismatch name (.exactly params.length) operands.length)

/-! ## Calls built as code -/

/-- The head of a call that is built as code: the symbol by which the program named the function, so
that traces show it, and otherwise the function itself. -/
def callHead (operand : Value) (func : Func) : Value :=
  match operand with
  | .symbol symbol => .symbol symbol
  | _ => .func func

/-- `(map f items)`: a vector of `f` called on each element. -/
def map (call : Call) : Script Value :=
  match call.operands with
  | [first, second] => do
      let func ← call.func first
      let items ← call.elements (← call.value second)
      call.tail (.vector (items.map fun item => Form.call (callHead first func) [item]))
  | _ => call.arityMismatch (.exactly 2)

/-- `(apply f items)`: `f` called on all elements together. -/
def apply (call : Call) : Script Value :=
  match call.operands with
  | [first, second] => do
      let func ← call.func first
      let items ← call.elements (← call.value second)
      call.tail (Form.call (callHead first func) items)
  | _ => call.arityMismatch (.exactly 2)

end Builtin
end LazyLisp
