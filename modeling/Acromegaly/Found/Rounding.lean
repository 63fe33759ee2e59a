import Mathlib.Algebra.Order.Group.Abs
import Mathlib.Algebra.Order.Ring.Int

/-!
# Rounded and truncated division

`nearest a b = ⌊(a + ⌊b / 2⌋) / b⌋` is the usual integer idiom for a quotient rounded to nearest
(halves away from zero for non-negative `a`). The lemmas bound it from above and say exactly when
it rounds down and when it rounds up. Idioms that divide with truncation, as C does, agree with it
as long as the dividend is not negative (`tdiv_eq_nearest`).

A truncated quotient is less than one unit away from the exact one on both sides of zero
(`abs_mul_tdiv_sub_lt`), and as small as the exact one (`abs_tdiv_lt`).
-/

namespace Acromegaly.Found

/-- The quotient `a / b` rounded to nearest. -/
def nearest (a b : ℤ) : ℤ := (a + b / 2) / b

theorem mul_nearest_le {b : ℤ} (hb : 0 < b) (a : ℤ) : b * nearest a b ≤ a + b / 2 :=
  Int.mul_ediv_self_le hb.ne'

/-- A truncating division of a non-negative dividend is `nearest`. -/
theorem tdiv_eq_nearest {a b : ℤ} (h : 0 ≤ a + b / 2) : (a + b / 2).tdiv b = nearest a b :=
  Int.tdiv_eq_ediv_of_nonneg h

/-- A remainder below the half is rounded down. -/
theorem nearest_of_down {a b : ℤ} (hb : 0 < b) (h : 2 * (a % b) < b) : nearest a b = a / b := by
  have hr := Int.emod_nonneg a hb.ne'
  have hsplit : a + b / 2 = a % b + b / 2 + b * (a / b) := by
    have := Int.emod_add_mul_ediv a b
    omega
  unfold nearest
  rw [hsplit, Int.add_mul_ediv_left _ _ hb.ne', Int.ediv_eq_zero_of_lt (by omega) (by omega),
    Int.zero_add]

/-- A remainder of at least the half is rounded up. -/
theorem nearest_of_up {a b : ℤ} (hb : 0 < b) (h : b ≤ 2 * (a % b)) : nearest a b = a / b + 1 := by
  have hr := Int.emod_lt_of_pos a hb
  have hsplit : a + b / 2 = a % b + b / 2 - b + b * (a / b + 1) := by
    have := Int.emod_add_mul_ediv a b
    have := Int.mul_add b (a / b) 1
    omega
  unfold nearest
  rw [hsplit, Int.add_mul_ediv_left _ _ hb.ne', Int.ediv_eq_zero_of_lt (by omega) (by omega),
    Int.zero_add]

/-! ## Truncated division -/

/-- A truncated quotient is less than one unit away from the exact one. -/
theorem abs_mul_tdiv_sub_lt {b : ℤ} (hb : 0 < b) (a : ℤ) : |b * a.tdiv b - a| < b := by
  have hsplit := Int.mul_tdiv_add_tmod a b
  have hlow := Int.lt_tmod_of_pos a hb
  have hhigh := Int.tmod_lt_of_pos a hb
  rw [abs_lt]
  constructor
  · omega
  · omega

/-- A quotient is smaller than `n` in size if the dividend is smaller than `b * n`. -/
theorem abs_tdiv_lt {a b n : ℤ} (hb : 0 < b) (h : |a| < b * n) : |a.tdiv b| < n := by
  have hnonneg : ∀ x : ℤ, 0 ≤ x → x < b * n → |x.tdiv b| < n := by
    intro x hx hlt
    rw [abs_of_nonneg (Int.tdiv_nonneg hx hb.le), Int.tdiv_eq_ediv_of_nonneg hx]
    apply Int.ediv_lt_of_lt_mul hb
    rwa [Int.mul_comm]
  rcases le_total 0 a with ha | ha
  · rw [abs_of_nonneg ha] at h
    exact hnonneg a ha h
  · rw [abs_of_nonpos ha] at h
    have hneg := hnonneg (-a) (by omega) h
    rwa [Int.neg_tdiv, abs_neg] at hneg

end Acromegaly.Found
