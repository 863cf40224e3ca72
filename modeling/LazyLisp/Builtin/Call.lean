import LazyLisp.Form

/-!
# Call — a native function's view of its call

A native function is given its call as it was written: the head, the unevaluated operands, and the
scope of the caller.  It also knows the name that it was installed under, which its failures
mention. This file defines `Call`, the failures that come from a malformed call, and the operand
checks that many functions share.
-/

namespace LazyLisp

/-- A call as a native function sees it. -/
structure Call where
  /-- The name that the function was installed under. -/
  name : String
  /-- The head of the call, as it was written. -/
  head : Value
  operands : List Value
  /-- The scope of the caller. -/
  scope : Scope

namespace Call

variable {α : Type}

/-! ## Failures -/

def arityMismatch (call : Call) (expected : Arity) : Script α :=
  .fail (.arityMismatch call.name expected call.operands.length)

/-- `got` stands where something else was expected. -/
def typeMismatch (call : Call) (expected : String) (got : Value) : Script α :=
  .fail (.typeMismatch call.name expected got.kindName)

def invalidArgument (call : Call) (reason : String) : Script α :=
  .fail (.invalidArgument call.name reason)

/-! ## Operands -/

/-- The value of an operand. -/
def value (call : Call) (operand : Value) : Script Value :=
  .value operand call.scope

/-- Leave the evaluation of an operand to the caller. -/
def tail (call : Call) (operand : Value) : Script Value :=
  .tail operand call.scope

/-- The value of an operand, which has to be a number. -/
def number (call : Call) (operand : Value) : Script Decimal := do
  match ← call.value operand with
  | .number n => pure n
  | other => call.typeMismatch "Number" other

/-- The value of an operand, which has to be a function. -/
def func (call : Call) (operand : Value) : Script Func := do
  match ← call.value operand with
  | .func func => pure func
  | other => call.typeMismatch "Func" other

/-- The value of the only operand. -/
def single (call : Call) : Script Value :=
  match call.operands with
  | [operand] => call.value operand
  | _ => call.arityMismatch (.exactly 1)

/-- An operand that has to be a symbol, unevaluated. -/
def symbol (call : Call) : Value → Script Symbol
  | .symbol symbol => pure symbol
  | other => call.typeMismatch "Symbol" other

/-- The elements of a value, which has to be a list or vector. -/
def elements (call : Call) (value : Value) : Script (List Value) :=
  match value.elements? with
  | some items => pure items
  | none => call.typeMismatch "List or Vector" value

end Call
end LazyLisp
