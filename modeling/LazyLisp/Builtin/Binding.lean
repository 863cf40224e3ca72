import LazyLisp.Builtin.Call

/-!
# Binding — names bound, removed and resolved ahead of time

`let` binds names in a new frame, `def!` in the current one.  Both bind lazily: a form is evaluated
when its name is first asked for.  `def!` hands out the binding, so that the caller resolves it, and
`async` resolves bindings before anyone asks.
-/

namespace LazyLisp
namespace Builtin

/-! ## Local names -/

/-- Bind names to forms in `scope`, one pair after the other.  The forms are evaluated in the same
scope when they are first asked for. -/
def bindPairs (call : Call) (scope : Scope) : List Value → Script Unit
  | name :: form :: rest => do
      let symbol ← call.symbol name
      let _ ← Script.bindLazy scope symbol.name (.form form scope)
      bindPairs call scope rest
  | _ => pure ()

/-- `(let (name form ...) body)`: a form sees all bindings, and is evaluated only if it is asked
for. -/
def bindLocals (call : Call) : Script Value :=
  match call.operands with
  | [bindings, body] => do
      let pairs ← call.elements bindings
      if pairs.length % 2 = 1 then call.invalidArgument "binding missing a value"
      else
        let scope ← Script.openScope call.scope
        bindPairs call scope pairs
        Script.tail body scope
  | _ => call.arityMismatch (.exactly 2)

/-! ## Names of the current frame -/

/-- `(def! name form)` -/
def define (call : Call) : Script Value :=
  match call.operands with
  | [name, form] => do
      let symbol ← call.symbol name
      let cell ← Script.bindLazy call.scope symbol.name (.form form call.scope)
      pure (.suspended (.binding cell))
  | _ => call.arityMismatch (.exactly 2)

/-- `(free! name)` removes the binding from the frame that owns it. -/
def undefine (call : Call) : Script Value :=
  match call.operands with
  | [name] => do
      let symbol ← call.symbol name
      Script.unbind call.scope symbol.name
      pure .nil
  | _ => call.arityMismatch (.exactly 1)

/-! ## Resolving ahead of time -/

/-- Start resolving the bindings of names, one after the other. -/
def startAll (call : Call) : List Value → Script Unit
  | [] => pure ()
  | name :: rest => do
      let symbol ← call.symbol name
      Script.start call.scope symbol.name
      startAll call rest

/-- `(async name)` or `(async [name...])`: start resolving lazy bindings in the background.  The
names are not evaluated. -/
def async (call : Call) : Script Value :=
  match call.operands with
  | [.symbol symbol] => do
      Script.start call.scope symbol.name
      pure .nil
  | [operand] =>
      match operand.elements? with
      | some names => do
          startAll call names
          pure .nil
      | none => call.typeMismatch "Symbol or Vector" operand
  | _ => call.arityMismatch (.exactly 1)

end Builtin
end LazyLisp
