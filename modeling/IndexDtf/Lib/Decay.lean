import Mathlib.Analysis.SpecialFunctions.Pow.Real
import IndexDtf.Lib.CompoundRate

/-!
# IndexDtf.Lib.Decay

**A quantity that decays, from time to time.** What is left of `U` after `t` units of time is
`U * β ^ t`, if nothing is rounded. A computation that multiplies it by approximations of powers
of `β`, and rounds, stays near that whatever the times of its rounds:

* `Decayed.step` — the errors of the rounds add up;
* `abs_one_sub_pow_sub_exp_le` — a small rate leaves what the exponential does, up to twice the
  rate.
-/

namespace IndexDtf.Lib

open Real

variable {U β ε δ δ' x x' q : ℝ} {t e : ℕ}

/-- What is left of `U` after `t` units of time, up to `ε` of it for each of them and `δ` in all. -/
def Decayed (U β ε : ℝ) (t : ℕ) (δ x : ℝ) : Prop := |x - U * β ^ t| ≤ U * (t * ε) + δ

theorem Decayed.start : Decayed U β ε 0 0 U := by
  rw [Decayed, pow_zero, mul_one, sub_self, abs_zero, Nat.cast_zero, zero_mul, mul_zero, add_zero]

/-- **A round.** What is left is multiplied by an approximation of a power and rounded. -/
theorem Decayed.step (h : Decayed U β ε t δ x) (hU : 0 ≤ U) (hβ : 0 ≤ β) (hβ' : β ≤ 1)
    (hq : 0 ≤ q) (hq' : q ≤ 1) (hpow : |q - β ^ e| ≤ e * ε) (hround : |x' - x * q| ≤ δ') :
    Decayed U β ε (t + e) (δ + δ') x' := by
  have hleft : |(x - U * β ^ t) * q| ≤ U * (t * ε) + δ := by
    rw [abs_mul, abs_of_nonneg hq]
    exact (mul_le_of_le_one_right (abs_nonneg _) hq').trans h
  have hnew : |U * β ^ t * (q - β ^ e)| ≤ U * (e * ε) := by
    have hUt : 0 ≤ U * β ^ t := mul_nonneg hU (pow_nonneg hβ t)
    rw [abs_mul, abs_of_nonneg hUt]
    refine mul_le_mul ?_ hpow (abs_nonneg _) hU
    exact mul_le_of_le_one_right hU (pow_le_one₀ hβ hβ')
  have hsplit : x' - U * β ^ (t + e)
      = (x' - x * q) + ((x - U * β ^ t) * q + U * β ^ t * (q - β ^ e)) := by
    rw [pow_add]
    ring
  rw [Decayed, hsplit, Nat.cast_add]
  calc |(x' - x * q) + ((x - U * β ^ t) * q + U * β ^ t * (q - β ^ e))|
      ≤ |x' - x * q| + (|(x - U * β ^ t) * q| + |U * β ^ t * (q - β ^ e)|) :=
        (abs_add_le ..).trans (add_le_add_right (abs_add_le ..) _)
    _ ≤ δ' + ((U * (t * ε) + δ) + U * (e * ε)) :=
        add_le_add hround (add_le_add hleft hnew)
    _ = U * ((t + e) * ε) + (δ + δ') := by ring

/-! ### Small rates -/

variable {f y : ℝ} {n : ℕ}

/-- The exponential is a contraction on decays. -/
theorem abs_exp_neg_sub_exp_neg_le (hx : 0 ≤ x) (hy : 0 ≤ y) :
    |exp (-x) - exp (-y)| ≤ |x - y| := by
  wlog hxy : x ≤ y generalizing x y with hwlog
  · rw [abs_sub_comm, abs_sub_comm x]
    exact hwlog hy hx (le_of_not_ge hxy)
  have hle : exp (-y) ≤ exp (-x) := exp_le_exp.mpr (neg_le_neg hxy)
  rw [abs_of_nonneg (sub_nonneg.mpr hle), abs_sub_comm, abs_of_nonneg (sub_nonneg.mpr hxy)]
  have hsplit : exp (-y) = exp (-x) * exp (-(y - x)) := by
    rw [← exp_add]
    congr 1
    ring
  have hone : exp (-x) ≤ 1 := exp_le_one_iff.mpr (neg_nonpos.mpr hx)
  have hlin : 1 - exp (-(y - x)) ≤ y - x := by
    have := add_one_le_exp (-(y - x))
    linarith
  calc exp (-x) - exp (-y) = exp (-x) * (1 - exp (-(y - x))) := by rw [hsplit]; ring
    _ ≤ exp (-x) * (y - x) := mul_le_mul_of_nonneg_left hlin (exp_pos _).le
    _ ≤ y - x := mul_le_of_le_one_left (sub_nonneg.mpr hxy) hone

/-- What a small rate leaves after `n` times, against a decay that was meant. -/
theorem abs_one_sub_pow_sub_exp_le (hf : 0 ≤ f) (hf' : f ≤ 1 / 2) (hy : 0 ≤ y) :
    |(1 - f) ^ n - exp (-y)| ≤ 2 * f + |n * f - y| := by
  have hnf : 0 ≤ n * f := mul_nonneg (Nat.cast_nonneg n) hf
  have hclose := abs_le.mp (abs_exp_neg_sub_exp_neg_le hnf hy)
  have hhigh := one_sub_pow_le_exp (n := n) (show f ≤ 1 by linarith)
  have hlow := exp_le_one_sub_pow (n := n) hf'
  -- the loss grows with the time, but what is left of it decays
  have hbounded : n * f * exp (-(n * f)) ≤ 1 := by
    rw [exp_neg, ← div_eq_mul_inv, div_le_one (exp_pos _)]
    have := add_one_le_exp (n * f)
    linarith
  have hsplit : exp (-(n * f + 2 * n * f ^ 2))
      = exp (-(n * f)) * exp (-(2 * n * f ^ 2)) := by
    rw [← exp_add]
    congr 1
    ring
  have hlin : 1 - 2 * n * f ^ 2 ≤ exp (-(2 * n * f ^ 2)) := by
    have := add_one_le_exp (-(2 * n * f ^ 2))
    linarith
  have hloss : exp (-(n * f)) - 2 * f ≤ exp (-(n * f + 2 * n * f ^ 2)) := by
    have hmul := mul_le_mul_of_nonneg_left hlin (exp_pos (-(n * f))).le
    have hbound := mul_le_mul_of_nonneg_left hbounded (show 0 ≤ 2 * f by linarith)
    rw [hsplit]
    calc exp (-(n * f)) - 2 * f ≤ exp (-(n * f)) - 2 * f * (n * f * exp (-(n * f))) := by linarith
      _ = exp (-(n * f)) * (1 - 2 * n * f ^ 2) := by ring
      _ ≤ exp (-(n * f)) * exp (-(2 * n * f ^ 2)) := hmul
  rw [abs_le]
  constructor
  · linarith
  · linarith

end IndexDtf.Lib
