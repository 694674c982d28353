import Mathlib.Analysis.SpecialFunctions.Log.Deriv
import Mathlib.Tactic.Linarith

/-!
# IndexDtf.Lib.CompoundRate

**A rate that is charged many times.** What a rate `f` leaves after `n` times is `(1 - f) ^ n`, and
should be `1 - x`. How much less than `x` it charges follows from how far `n * f` is below the
logarithm that would be exact.
-/

namespace IndexDtf.Lib

open Real

variable {f x : ℝ} {n : ℕ}

theorem one_sub_pow_le_exp (hf : f ≤ 1) : (1 - f) ^ n ≤ exp (-(n * f)) := by
  calc (1 - f) ^ n ≤ exp (-f) ^ n := pow_le_pow_left₀ (sub_nonneg.mpr hf) (one_sub_le_exp_neg f) n
    _ = exp (-(n * f)) := by rw [← exp_nat_mul, mul_neg]

theorem exp_le_one_sub_pow (hf : f ≤ 1 / 2) :
    exp (-(n * f + 2 * n * f ^ 2)) ≤ (1 - f) ^ n := by
  have hpos : 0 < 1 - f := by linarith
  have hlog : -(f + 2 * f ^ 2) ≤ log (1 - f) := by
    refine le_trans ?_ (one_sub_inv_le_log_of_pos hpos)
    have hsq : 0 ≤ f ^ 2 * (1 - 2 * f) := mul_nonneg (sq_nonneg f) (by linarith)
    rw [neg_le, neg_sub, sub_le_iff_le_add, inv_le_iff_one_le_mul₀ hpos]
    linarith
  calc exp (-(n * f + 2 * n * f ^ 2)) = exp (-(f + 2 * f ^ 2)) ^ n := by
        rw [← exp_nat_mul]
        congr 1
        ring
    _ ≤ (1 - f) ^ n := pow_le_pow_left₀ (exp_pos _).le ((le_log_iff_exp_le hpos).mp hlog) n

/-- Four terms of the logarithm. -/
theorem neg_log_one_sub_bounds (h0 : 0 ≤ x) (h1 : x < 1) :
    x + x ^ 2 / 2 + x ^ 3 / 3 + x ^ 4 / 4 - x ^ 5 / (1 - x) ≤ -log (1 - x) ∧
      -log (1 - x) ≤ x + x ^ 2 / 2 + x ^ 3 / 3 + x ^ 4 / 4 + x ^ 5 / (1 - x) := by
  have habs : |x| = x := abs_of_nonneg h0
  have hseries := abs_log_sub_add_sum_range_le (habs.trans_lt h1) 4
  rw [habs] at hseries
  norm_num [Finset.sum_range_succ] at hseries
  obtain ⟨hlow, hhigh⟩ := abs_le.mp hseries
  constructor
  · linarith
  · linarith

/-- What is charged too little, from the shortfall of the exponent. -/
theorem compound_shortfall (hf : f ≤ 1 / 2) (hx : x < 1) :
    (1 - x) * (-log (1 - x) - n * f - 2 * n * f ^ 2) ≤ x - (1 - (1 - f) ^ n) ∧
      (|(-log (1 - x) - n * f)| ≤ 1 → x - (1 - (1 - f) ^ n)
        ≤ (1 - x) * (-log (1 - x) - n * f + (-log (1 - x) - n * f) ^ 2)) := by
  have hpos : 0 < 1 - x := by linarith
  constructor
  · have hlow := exp_le_one_sub_pow (n := n) hf
    have hsplit : exp (-(n * f + 2 * n * f ^ 2))
        = (1 - x) * exp (-log (1 - x) - n * f - 2 * n * f ^ 2) := by
      rw [← exp_log hpos, ← exp_add, exp_log hpos]
      congr 1
      ring
    have hexp := mul_le_mul_of_nonneg_left
      (add_one_le_exp (-log (1 - x) - n * f - 2 * n * f ^ 2)) hpos.le
    linarith
  · intro hsmall
    have hhigh := one_sub_pow_le_exp (n := n) (show f ≤ 1 by linarith)
    have hsplit : exp (-(n * f)) = (1 - x) * exp (-log (1 - x) - n * f) := by
      rw [← exp_log hpos, ← exp_add, exp_log hpos]
      congr 1
      ring
    have hbound := (abs_le.mp (abs_exp_sub_one_sub_id_le hsmall)).2
    have hexp := mul_le_mul_of_nonneg_left hbound hpos.le
    linarith

end IndexDtf.Lib
