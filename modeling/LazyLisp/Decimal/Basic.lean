/-!
# Decimal — exact decimal numbers

A decimal is a whole coefficient and a scale, and stands for `coefficient * 10 ^ (-scale)`.  The
scale may be negative.  Many pairs stand for one number; comparison looks at the number, while
arithmetic says which pair it returns, because division to a fixed count of digits can tell pairs
apart.  Arithmetic here has no bounds; `Decimal.InRange` holds of the numbers whose scale fits into
64 bits.  This file defines:

* `Decimal.unscaled`, the coefficient that a decimal has at a given larger scale;
* `Decimal.compare` and `Decimal.equal`, order and equality of the numbers;
* exact `add`, `sub`, `neg` and `mul`;
* `Decimal.truncated`, the integer part.
-/

namespace LazyLisp

/-- The number `coefficient * 10 ^ (-scale)`. -/
structure Decimal where
  coefficient : Int
  scale : Int
deriving DecidableEq, Repr, Inhabited

namespace Decimal

/-- A whole number. -/
def ofInt (n : Int) : Decimal := ⟨n, 0⟩

def zero : Decimal := ofInt 0

def one : Decimal := ofInt 1

/-- The power of ten with `n` zeros. -/
def tenTo (n : Nat) : Nat := Nat.pow 10 n

/-- Whether a number is in the range of 64-bit signed integers. -/
def fits64 (n : Int) : Bool :=
  -9223372036854775808 ≤ n && n ≤ 9223372036854775807

/-- A number, if it is in the range of 64-bit signed integers. -/
def checked64? (n : Int) : Option Int :=
  if fits64 n then some n else none

/-- The scale is a 64-bit integer, as it has to be for the number to be held in memory.  Reading,
sums and differences keep to this range; the scale of a product is a sum of scales and can leave
it. -/
def InRange (a : Decimal) : Prop := fits64 a.scale = true

instance : DecidablePred InRange := fun a => decEq (fits64 a.scale) true

/-! ## Comparison -/

def isZero (a : Decimal) : Bool := a.coefficient == 0

def isNegative (a : Decimal) : Bool := a.coefficient < 0

/-- The coefficient of `a` written at `scale`, for a scale no smaller than its own. -/
def unscaled (a : Decimal) (scale : Int) : Int :=
  if a.isZero then 0 else a.coefficient * tenTo (scale - a.scale).toNat

/-- The order of the numbers.  Zero is compared by sign alone, since its scale says nothing. -/
def compare (a b : Decimal) : Ordering :=
  if a.isZero || b.isZero then Ord.compare a.coefficient b.coefficient
  else
    let scale := max a.scale b.scale
    Ord.compare (a.unscaled scale) (b.unscaled scale)

/-- Whether two decimals stand for one number. -/
def equal (a b : Decimal) : Bool :=
  if a.isZero || b.isZero then a.coefficient == b.coefficient
  else
    let scale := max a.scale b.scale
    a.unscaled scale == b.unscaled scale

/-- How many decimal places a one may be written with and still be recognised. -/
def onePlaces : Int := 38

/-- Whether `a` is one, and written with at most `onePlaces` decimal places.  Products and quotients
ask this before they do any work, so longer spellings are not looked into. -/
def isOne (a : Decimal) : Bool := decide (a.scale ≤ onePlaces) && a.equal one

/-! ## Arithmetic -/

/-- How many decimal places a zero can pass on to the number that it is added to. -/
def zeroPlaces : Int := 15

/-- `a` as it comes out of a sum with a zero written at `scale`: with the decimal places that the
zero has beyond its own, up to `zeroPlaces` of them. -/
def padded (a : Decimal) (scale : Int) : Decimal :=
  let scale := a.scale + max 0 (min zeroPlaces (scale - a.scale))
  ⟨a.unscaled scale, scale⟩

/-- The sum.  A zero changes nothing but the scale of the other operand. -/
def add (a b : Decimal) : Decimal :=
  if b.isZero then a.padded b.scale
  else if a.isZero then b.padded a.scale
  else
    let scale := max a.scale b.scale
    ⟨a.unscaled scale + b.unscaled scale, scale⟩

def neg (a : Decimal) : Decimal := ⟨-a.coefficient, a.scale⟩

/-- The difference.  Taking away zero gives back the first operand as it was written. -/
def sub (a b : Decimal) : Decimal :=
  if b.isZero then a
  else
    let scale := max a.scale b.scale
    ⟨a.unscaled scale - b.unscaled scale, scale⟩

/-- Take up to `2 ^ (k + 1) - 1` trailing zeros off `n`, and count them.  Blocks of `2 ^ k` zeros
are tried from the largest down, so the work grows with the logarithm of their number. -/
def stripZeros : Nat → Nat → Nat × Nat
  | 0, n => if n % 10 = 0 then (n / 10, 1) else (n, 0)
  | k + 1, n =>
      let block := tenTo (2 ^ (k + 1))
      if n % block = 0 then
        let (m, count) := stripZeros k (n / block)
        (m, count + 2 ^ (k + 1))
      else stripZeros k n

/-- A `k` for which `n` has at most `2 ^ k` decimal digits. -/
def digitLevel (n : Nat) : Nat := n.log2.log2 + 1

/-- The pair for the same number whose coefficient does not end in zero; zero is `0` at scale 0. -/
def normalize (a : Decimal) : Decimal :=
  if a.isZero then zero
  else
    let (m, count) := stripZeros (digitLevel a.coefficient.natAbs) a.coefficient.natAbs
    ⟨a.coefficient.sign * m, a.scale - count⟩

/-- The product.  Multiplying by a one that `isOne` recognises normalizes the other operand. -/
def mul (a b : Decimal) : Decimal :=
  if a.isOne then b.normalize
  else if b.isOne then a.normalize
  else ⟨a.coefficient * b.coefficient, a.scale + b.scale⟩

/-- The integer part, toward zero. -/
def truncated (a : Decimal) : Int :=
  if a.isZero then 0
  else if 0 ≤ a.scale then a.coefficient.tdiv (tenTo a.scale.toNat)
  else a.coefficient * tenTo (-a.scale).toNat

/-- The integer part, if it is in the range of 64-bit signed integers. -/
def truncated64? (a : Decimal) : Option Int :=
  checked64? a.truncated

end Decimal
end LazyLisp
