import LazyLisp.Decimal.Text

/-!
# Division — truncating division at a place, and long division to a hundred digits

Two divisions of decimals:

* `Decimal.quotRem?` cuts the quotient off toward zero at a chosen decimal place and returns the
  matching remainder; it refuses places and shifts beyond `Decimal.maxPlaces`;
  `Decimal.quotRem64` tells apart the answers that scales of 64 bits have no room for;
* `Decimal.div?` carries on until nothing remains or the quotient has `Decimal.divisionDigits`
  digits, and rounds the last one by the digit that would follow.
-/

namespace LazyLisp
namespace Decimal

/-! ## Quotient and remainder at a place -/

/-- The largest place, and the largest power of ten, that a truncating division works with. -/
def maxPlaces : Int := 100000

/-- The power of ten that brings `a / b` to whole numbers at `places`, computed with 64-bit
integers.  There is none if one of the sums on the way leaves their range. -/
def shift? (a b : Decimal) (places : Int) : Option Int := do
  let gap ← checked64? (b.scale - a.scale)
  checked64? (gap + places)

/-- The quotient of `a` and `b` truncated toward zero at `places` decimal places, and what is left
of `a`.  Negative places truncate to tens, hundreds and so on.  There is no answer for a zero
divisor, and none when `places` or the power of ten that brings both operands to whole numbers is
out of range. -/
def quotRem? (a b : Decimal) (places : Int) : Option (Decimal × Decimal) :=
  if b.isZero ∨ maxPlaces < places.natAbs then none
  else do
    let shift ← a.shift? b places
    if maxPlaces < shift.natAbs then none
    else
      let quotient : Decimal :=
        ⟨(a.coefficient * tenTo shift.toNat).tdiv (b.coefficient * tenTo (-shift).toNat), places⟩
      some (quotient, a.sub (b.mul quotient))

/-- How many digits a quotient gets before it is rounded. -/
def divisionDigits : Nat := 100

/-- The smallest power of ten by which a positive `numerator` reaches `denominator`. -/
def lead (numerator denominator : Nat) : Nat :=
  let k := (numeral denominator).length - (numeral numerator).length
  if numerator * tenTo k < denominator then k + 1 else k

/-- Append up to `budget` more digits to `quotient`, as long as something remains.  Returns the
quotient, the remainder and the number of digits appended. -/
def extendQuotient (denominator : Nat) : Nat → Nat → Nat → Nat × Nat × Nat
  | 0, quotient, remainder => (quotient, remainder, 0)
  | budget + 1, quotient, remainder =>
      if remainder = 0 then (quotient, remainder, 0)
      else
        let (q, r, count) := extendQuotient denominator budget
          (quotient * 10 + remainder * 10 / denominator) (remainder * 10 % denominator)
        (q, r, count + 1)

/-- Long division of positive numbers: the quotient's digits as one number, and how many decimal
places they reach.  A remainder that is left rounds the last digit up if the next one is five or
more. -/
def longDivision (numerator denominator : Nat) : Nat × Nat :=
  let k := lead numerator denominator
  let numerator := numerator * tenTo k
  let first := numerator / denominator
  let (quotient, remainder, count) := extendQuotient denominator
    (divisionDigits - (numeral first).length) first (numerator % denominator)
  let rounding := if 5 ≤ remainder * 10 / denominator then 1 else 0
  (quotient + rounding, k + count)

/-- The quotient of `a` and `b`, or nothing for a zero divisor.  Dividing zero, or dividing by a one
that `isOne` recognises, gives back the dividend as it was written. -/
def div? (a b : Decimal) : Option Decimal :=
  if b.isZero then none
  else if a.isZero || b.isOne then some a
  else if a.coefficient = b.coefficient then some ⟨1, a.scale - b.scale⟩
  else
    let (quotient, places) := longDivision a.coefficient.natAbs b.coefficient.natAbs
    some ⟨a.coefficient.sign * b.coefficient.sign * quotient, a.scale - b.scale + places⟩

end Decimal
end LazyLisp
