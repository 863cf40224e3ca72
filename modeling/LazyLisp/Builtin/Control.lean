import LazyLisp.Builtin.Call
import LazyLisp.Decimal.Text
import LazyLisp.Value.Render

/-!
# Control — forms that steer evaluation

* branching, sequencing, and short-circuit conjunction and disjunction;
* failures raised and handled;
* waiting.

Whatever a form evaluates last it leaves to its caller, so loops written as tail calls through these
forms stay flat.
-/

namespace LazyLisp
namespace Builtin

/-! ## Order and choice -/

/-- `(if test consequent alternative?)`; without an alternative a failed test yields nil. -/
def choose (call : Call) : Script Value :=
  match call.operands with
  | [test, consequent] => do
      let value ← call.value test
      if value.isTruthy then call.tail consequent else pure .nil
  | [test, consequent, alternative] => do
      let value ← call.value test
      if value.isTruthy then call.tail consequent else call.tail alternative
  | _ => call.arityMismatch (.between 2 3)

/-- Evaluate forms one after the other. -/
def sequenceOf (call : Call) : List Value → Script Value
  | [] => pure .nil
  | [last] => call.tail last
  | form :: rest => do
      let _ ← call.value form
      sequenceOf call rest

/-- `(do form...)` -/
def inOrder (call : Call) : Script Value :=
  sequenceOf call call.operands

/-- Evaluate forms up to the first whose value passes `stop`; the last one decides if none does. -/
def firstOf (stop : Value → Bool) (empty : Value) (call : Call) : List Value → Script Value
  | [] => pure empty
  | [last] => call.tail last
  | form :: rest => do
      let value ← call.value form
      if stop value then pure value else firstOf stop empty call rest

/-- `(and form...)`: the first falsy value, else the last one. -/
def conjoin (call : Call) : Script Value :=
  firstOf (fun value => !value.isTruthy) (.bool true) call call.operands

/-- `(or form...)`: the first truthy value, else the last one. -/
def disjoin (call : Call) : Script Value :=
  firstOf Value.isTruthy (.bool false) call call.operands

/-! ## Failures -/

/-- `(throw value)`: fail with the value's text. -/
def raise (call : Call) : Script Value := do
  let value ← call.single
  Script.fail (.thrown value.display)

/-- `(try form handler)`: if the form fails, call the handler with the message.  If the handler does
not even evaluate, the first failure stands. -/
def recover (call : Call) : Script Value :=
  match call.operands with
  | [form, handler] => do
      match ← Script.attempt form call.scope with
      | .ok value => pure value
      | .error failure =>
          match ← Script.attempt handler call.scope with
          | .error _ => Script.done (.error failure)
          | .ok (.func func) => call.tail (Form.call (.func func) [.text failure.message])
          | .ok other => call.typeMismatch "Func" other
  | _ => call.arityMismatch (.exactly 2)

/-! ## Time -/

/-- Whether an evaluation can wait for so many seconds.  Seconds are measured in double precision,
so a negative number will do if it rounds to zero, that is, from `-2 ^ (-1075)` on; and every
number is too large that rounds to `2 ^ 64` or beyond, that is, from `2 ^ 64 - 2 ^ 10` on. -/
def canWait (seconds : Decimal) : Bool :=
  let least : Decimal := ⟨-(Nat.pow 5 1075 : Nat), 1075⟩
  let bound : Decimal := .ofInt 18446744073709550592
  seconds.compare least != .lt && seconds.compare bound == .lt

/-- `(wait seconds)`: let time pass. -/
def wait (call : Call) : Script Value :=
  match call.operands with
  | [operand] => do
      let seconds ← call.number operand
      if canWait seconds then
        Script.pause (seconds.mul (.ofInt 1000)).truncated.toNat
        pure .nil
      else call.invalidArgument ("cannot wait " ++ seconds.render ++ " seconds")
  | _ => call.arityMismatch (.exactly 1)

end Builtin
end LazyLisp
