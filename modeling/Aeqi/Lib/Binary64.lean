import Mathlib.Data.Int.Log
import Mathlib.Data.Rat.Floor

/-!
# Rounding to binary64

An operation on `f64` values is the exact operation on rationals, rounded to 53 significant bits
with ties to even. This is so within the normal range, which is all that is modelled: no rounding
overflows or is subnormal.
-/

namespace Aeqi.Lib.Binary64

/-- The nearest integer, the even one of two that are as near. -/
def nearestEven (x : ℚ) : ℤ :=
  if x - ⌊x⌋ < 1 / 2 ∨ x - ⌊x⌋ = 1 / 2 ∧ ⌊x⌋ % 2 = 0 then ⌊x⌋ else ⌊x⌋ + 1

/-- The unit in the last place of a positive number. -/
def ulp (x : ℚ) : ℚ := 2 ^ (Int.log 2 x - 52)

/-- A nonnegative number, rounded. -/
def round (x : ℚ) : ℚ := if x = 0 then 0 else nearestEven (x / ulp x) * ulp x

variable {x y : ℚ}

theorem nearestEven_le : (nearestEven x : ℚ) ≤ x + 1 := by
  have hfloor : (⌊x⌋ : ℚ) ≤ x := Int.floor_le x
  unfold nearestEven
  split
  · linarith
  · push_cast
    linarith

theorem nearestEven_nonneg (hx : 0 ≤ x) : 0 ≤ nearestEven x := by
  have hfloor : 0 ≤ ⌊x⌋ := Int.floor_nonneg.2 hx
  unfold nearestEven
  split <;> omega

theorem ulp_pos : 0 < ulp x := zpow_pos (by norm_num) _

theorem ulp_le (hx : 0 < x) : ulp x ≤ x := by
  have hlog : ((2 : ℕ) : ℚ) ^ Int.log 2 x ≤ x := Int.zpow_log_le_self (by norm_num) hx
  have hmono : (2 : ℚ) ^ (Int.log 2 x - 52) ≤ 2 ^ Int.log 2 x :=
    zpow_le_zpow_right₀ (by norm_num) (by omega)
  exact hmono.trans hlog

theorem round_nonneg (hx : 0 ≤ x) : 0 ≤ round x := by
  unfold round
  split
  · exact le_rfl
  · have hnearest : 0 ≤ nearestEven (x / ulp x) :=
      nearestEven_nonneg (div_nonneg hx ulp_pos.le)
    exact mul_nonneg (Int.cast_nonneg hnearest) ulp_pos.le

theorem round_le (hx : 0 ≤ x) : round x ≤ 2 * x := by
  unfold round
  split
  · next h => rw [h]; norm_num
  · next h =>
    have hpos : 0 < x := lt_of_le_of_ne hx (Ne.symm h)
    calc (nearestEven (x / ulp x) : ℚ) * ulp x
        ≤ (x / ulp x + 1) * ulp x := mul_le_mul_of_nonneg_right nearestEven_le ulp_pos.le
      _ = x + ulp x := by rw [add_mul, div_mul_cancel₀ x ulp_pos.ne', one_mul]
      _ ≤ 2 * x := by linarith [ulp_le hpos]

theorem round_le_of_le (hx : 0 ≤ x) (h : x ≤ y) : round x ≤ 2 * y := by
  linarith [round_le hx]

end Aeqi.Lib.Binary64
