import LazyLisp.Builtin.Call
import LazyLisp.Decimal.Division
import LazyLisp.Decimal.Text

/-!
# Number — functions of numbers

Operands are evaluated in order, and each has to be a number before the next one is evaluated.  Sums
and products start from zero and one.  A difference and a running quotient start from the first
operand if there is another one after it; a single operand is taken from zero, or divides one.
-/

namespace LazyLisp
namespace Builtin

/-! ## Sums and products -/

/-- The operands as numbers. -/
def numbers (call : Call) : Script (List Decimal) :=
  call.operands.mapM call.number

def add (call : Call) : Script Value := do
  let operands ← numbers call
  pure (.number (operands.foldl Decimal.add .zero))

def multiply (call : Call) : Script Value := do
  let operands ← numbers call
  pure (.number (operands.foldl Decimal.mul .one))

/-! ## Differences and quotients -/

/-- Where a running operation starts, and the operands it runs over. -/
def seeded (seed : Decimal) : List Decimal → Decimal × List Decimal
  | first :: second :: rest => (first, second :: rest)
  | operands => (seed, operands)

def subtract (call : Call) : Script Value := do
  let operands ← numbers call
  let (first, rest) := seeded .zero operands
  pure (.number (rest.foldl Decimal.sub first))

/-- Divide by one number after the other. -/
def divideBy (dividend : Decimal) : List Decimal → Script Decimal
  | [] => pure dividend
  | divisor :: rest =>
      match dividend.div? divisor with
      | some quotient => divideBy quotient rest
      | none => Script.fail .divisionByZero

def divide (call : Call) : Script Value := do
  let operands ← numbers call
  let (first, rest) := seeded .one operands
  Value.number <$> divideBy first rest

/-! ## Truncated quotients -/

/-- Quotient and remainder of the first two operands at the decimal place that the third one gives.
A zero divisor is noticed before a place that is out of range. -/
def quotRem (call : Call) : Script (Decimal × Decimal) :=
  match call.operands with
  | [first, second, third] => do
      let dividend ← call.number first
      let divisor ← call.number second
      let places ← call.number third
      if divisor.isZero then Script.fail .divisionByZero
      else
        match places.truncated64?.bind (dividend.quotRem? divisor) with
        | some result => pure result
        | none => call.invalidArgument ("precision " ++ places.render ++ " out of range")
  | _ => call.arityMismatch (.exactly 3)

/-- `(quot a b places)` -/
def quotient (call : Call) : Script Value := do
  let result ← quotRem call
  pure (.number result.1)

/-- `(rem a b places)` -/
def remainder (call : Call) : Script Value := do
  let result ← quotRem call
  pure (.number result.2)

/-! ## Order -/

/-- A test on two numbers. -/
def compare (comparison : Comparison) (call : Call) : Script Value :=
  match call.operands with
  | [first, second] => do
      let a ← call.number first
      let b ← call.number second
      pure (.bool (comparison.accepts (a.compare b)))
  | _ => call.arityMismatch (.exactly 2)

end Builtin
end LazyLisp
