import LazyLisp.Decimal.Basic

/-!
# Decimal text — positional notation

A decimal is written in plain positional notation, without trailing zeros behind the point and
without an exponent, and zero is `0` whatever its scale.  Reading is wider: a sign, a point at
either end, underscores between digits, and an exponent.  This file defines:

* `Decimal.numeral`, the decimal digits of a natural number;
* `Decimal.render`, the text of a decimal;
* `Decimal.ofString?`, which reads one.
-/

namespace LazyLisp
namespace Decimal

/-! ## Writing -/

/-- The last `2 ^ k` decimal digits of `n`, padded with zeros in front.  The number is halved into
blocks of digits, so that long numbers are divided only a few times. -/
def paddedDigits : Nat → Nat → List Char
  | 0, n => [Nat.digitChar (n % 10)]
  | k + 1, n =>
      let block := tenTo (2 ^ k)
      paddedDigits k (n / block) ++ paddedDigits k (n % block)

/-- The decimal digits of `n`, without leading zeros; zero has the one digit `0`. -/
def numeral (n : Nat) : List Char :=
  match (paddedDigits (digitLevel n) n).dropWhile (· = '0') with
  | [] => ['0']
  | digits => digits

/-- `digits` without the zeros at their end. -/
def trimZeros (digits : List Char) : List Char :=
  (digits.reverse.dropWhile (· = '0')).reverse

/-- The digits of a whole number with the point moved left by `places`, trailing zeros behind the
point left out, and the point too if nothing follows it. -/
def pointed (digits : List Char) (places : Nat) : List Char :=
  let digits := List.replicate (places + 1 - digits.length) '0' ++ digits
  let whole := digits.take (digits.length - places)
  match trimZeros (digits.drop (digits.length - places)) with
  | [] => whole
  | fraction => whole ++ '.' :: fraction

/-- The digits of a decimal's magnitude. -/
def magnitude (a : Decimal) : List Char :=
  let digits := numeral a.coefficient.natAbs
  if 0 ≤ a.scale then pointed digits a.scale.toNat
  else digits ++ List.replicate (-a.scale).toNat '0'

/-- The text of a decimal. -/
def render (a : Decimal) : String :=
  String.ofList <|
    if a.isZero then ['0']
    else if a.isNegative then '-' :: a.magnitude
    else a.magnitude

/-! ## Reading -/

/-- The value of decimal digits with underscores among them, continuing from `value`. -/
def digitsValue? (value : Nat) : List Char → Option Nat
  | [] => some value
  | c :: rest =>
      if c = '_' then digitsValue? value rest
      else if c.isDigit then digitsValue? (10 * value + (c.toNat - '0'.toNat)) rest
      else none

/-- The value of a text of digits and underscores that begins with a digit. -/
def natural? : List Char → Option Nat
  | [] => none
  | c :: rest => if c.isDigit then digitsValue? 0 (c :: rest) else none

/-- The value of digits with at most one sign in front. -/
def integer? : List Char → Option Int
  | '-' :: digits => (natural? digits).map fun n => -n
  | '+' :: digits => (natural? digits).map fun n => n
  | digits => (natural? digits).map fun n => n

/-- The value of an exponent: an integer without underscores. -/
def exponent? (text : List Char) : Option Int :=
  if text.contains '_' then none else integer? text

/-- Take the point out of a mantissa: its digits, and how many of them stood behind the point. -/
def splitPoint (mantissa : List Char) : List Char × Nat :=
  match mantissa.span (· ≠ '.') with
  | (whole, _ :: fraction) => (whole ++ fraction, fraction.countP (· ≠ '_'))
  | (whole, []) => (whole, 0)

/-- Read `mantissa`, or `mantissa e exponent`.  The scale has to be in the range of 64-bit signed
integers. -/
def ofString? (text : String) : Option Decimal := do
  let (mantissa, exponent) ← match text.toList.span fun c => c ≠ 'e' && c ≠ 'E' with
    | (mantissa, _ :: exponent) => (exponent? exponent).map (mantissa, ·)
    | (mantissa, []) => some (mantissa, 0)
  let (digits, places) := splitPoint mantissa
  let coefficient ← integer? digits
  let scale : Int := places - exponent
  if fits64 scale then some ⟨coefficient, scale⟩ else none

end Decimal
end LazyLisp
