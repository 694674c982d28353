import Mathlib.Analysis.Complex.ExponentialBounds
import Mathlib.Analysis.SpecialFunctions.Log.Deriv
import Mathlib.Tactic.FieldSimp
import Mathlib.Tactic.Linarith

/-!
# IndexDtf.Lib.TruncatedSeries

**Series in fixed-point arithmetic.** A number `x` of scale `S` stands for the real `x / S`. The
series of the exponential and of the logarithm compute each term from the one before, and round
every division down. Two facts bound what that loses:

* the rounded series is at most the exact one, which is at most the function (`expTrunc_le`,
  `atanhTrunc_le`);
* a unit that a round loses grows into at most the sum of the terms that come after it, relative
  to it (`le_expTrunc`, `le_atanhTrunc`).

The exact series from its `n`-th term on, relative to the term before, is `expTail` and
`atanhTail`.
-/

namespace IndexDtf.Lib

open Finset Real

/-- A division that is rounded down loses less than one. -/
theorem div_sub_one_lt_cast_div {a b : ℕ} (hb : 0 < b) : (a / b : ℝ) - 1 < (a / b : ℕ) := by
  rw [sub_lt_iff_lt_add, div_lt_iff₀ (by exact_mod_cast hb)]
  exact_mod_cast Nat.lt_mul_of_div_lt (Nat.lt_succ_self _) hb

/-- A division that is rounded down, in between. -/
theorem cast_div_bounds {a b : ℕ} (hb : 0 < b) :
    (a / b : ℝ) - 1 ≤ (a / b : ℕ) ∧ ((a / b : ℕ) : ℝ) ≤ a / b :=
  ⟨(div_sub_one_lt_cast_div hb).le, Nat.cast_div_le⟩

/-! ### The exponential -/

/-- The terms of the exponential of `x` from the `n`-th on, after `term`. -/
def expTrunc (S x : ℕ) : ℕ → ℕ → ℕ → ℕ
  | 0, _, _ => 0
  | rounds + 1, n, term =>
      term * x / (n * S) + expTrunc S x rounds (n + 1) (term * x / (n * S))

theorem expTrunc_zero (S x rounds n : ℕ) : expTrunc S x rounds n 0 = 0 := by
  induction rounds generalizing n with
  | zero => rfl
  | succ rounds ih => rw [expTrunc, Nat.zero_mul, Nat.zero_div, ih]

/-- The sum of `X ^ i / (n * (n + 1) * … * (n + i - 1))`, for `i` from one. -/
noncomputable def expTail (X : ℝ) : ℕ → ℕ → ℝ
  | 0, _ => 0
  | rounds + 1, n => X / n * (1 + expTail X rounds (n + 1))

section Exponential

variable {S x rounds n m term : ℕ} {X : ℝ}

theorem expTail_nonneg (hX : 0 ≤ X) : 0 ≤ expTail X rounds n := by
  induction rounds generalizing n with
  | zero => exact le_rfl
  | succ rounds ih =>
      have := ih (n := n + 1)
      rw [expTail]
      positivity

theorem expTail_anti (hX : 0 ≤ X) (hn : 0 < n) (h : n ≤ m) :
    expTail X rounds m ≤ expTail X rounds n := by
  induction rounds generalizing n m with
  | zero => exact le_rfl
  | succ rounds ih =>
      have hn' : (0 : ℝ) < n := by exact_mod_cast hn
      have hnm : (n : ℝ) ≤ m := by exact_mod_cast h
      have htail := ih (Nat.succ_pos n) (Nat.succ_le_succ h)
      rw [expTail, expTail]
      refine mul_le_mul (div_le_div_of_nonneg_left hX hn' hnm) (by linarith) ?_ (by positivity)
      have : 0 ≤ expTail X rounds (m + 1) := expTail_nonneg hX
      linarith

theorem expTail_eq_sum (hn : 0 < n) :
    expTail X rounds n = ∑ i ∈ range rounds, X ^ (i + 1) / n.ascFactorial (i + 1) := by
  induction rounds generalizing n with
  | zero => rfl
  | succ rounds ih =>
      have hn' : (n : ℝ) ≠ 0 := by exact_mod_cast hn.ne'
      rw [expTail, ih (Nat.succ_pos n), sum_range_succ', mul_add, mul_one, mul_sum, add_comm]
      congr 1
      · refine sum_congr rfl fun i _ => ?_
        have hfactor : (n.ascFactorial (i + 1 + 1) : ℝ) = n * (n + 1).ascFactorial (i + 1) := by
          have := Nat.succ_ascFactorial n (i + 1)
          rw [Nat.ascFactorial_succ]
          exact_mod_cast this.symm
        have hpos : ((n + 1).ascFactorial (i + 1) : ℝ) ≠ 0 := by
          exact_mod_cast (n.ascFactorial_pos (i + 1)).ne'
        rw [hfactor]
        field_simp
        ring
      · simp [Nat.ascFactorial]

/-- From the first term on these are the partial sums of the exponential, less the one. -/
theorem one_add_expTail : 1 + expTail X rounds 1 = ∑ i ∈ range (rounds + 1), X ^ i / i.factorial := by
  rw [expTail_eq_sum Nat.one_pos, sum_range_succ', add_comm]
  simp [Nat.one_ascFactorial]

theorem one_add_expTail_le (hX : 0 ≤ X) (hn : 0 < n) : 1 + expTail X rounds n ≤ exp X := by
  calc 1 + expTail X rounds n ≤ 1 + expTail X rounds 1 :=
        add_le_add le_rfl (expTail_anti hX Nat.one_pos hn)
    _ = ∑ i ∈ range (rounds + 1), X ^ i / i.factorial := one_add_expTail
    _ ≤ exp X := sum_le_exp_of_nonneg hX _

/-- What the partial sums lack, up to half as many as there are terms. -/
theorem exp_sub_le (hX : 0 ≤ X) (hrounds : 2 * X ≤ rounds + 2) :
    exp X - X ^ (rounds + 1) / (rounds + 1).factorial * 2 ≤ 1 + expTail X rounds 1 := by
  have hhalf : ‖(X : ℂ)‖ / (rounds + 1).succ ≤ 1 / 2 := by
    rw [Complex.norm_real, norm_of_nonneg hX, div_le_iff₀ (by positivity)]
    push_cast
    linarith
  have hbound := Complex.exp_bound' hhalf
  rw [Complex.norm_real, norm_of_nonneg hX] at hbound
  have hreal : ‖Complex.exp X - ∑ i ∈ range (rounds + 1), (X : ℂ) ^ i / i.factorial‖
      = |exp X - ∑ i ∈ range (rounds + 1), X ^ i / i.factorial| := by
    rw [← Real.norm_eq_abs, ← Complex.norm_real]
    push_cast
    rfl
  rw [hreal] at hbound
  rw [one_add_expTail]
  linarith [le_abs_self (exp X - ∑ i ∈ range (rounds + 1), X ^ i / i.factorial)]

theorem expTrunc_le (hS : 0 < S) (hn : 0 < n) :
    (expTrunc S x rounds n term : ℝ) ≤ term * expTail (x / S) rounds n := by
  induction rounds generalizing n term with
  | zero => simp [expTrunc, expTail]
  | succ rounds ih =>
      have hnext : ((term * x / (n * S) : ℕ) : ℝ) ≤ term * (x / S / n) := by
        refine Nat.cast_div_le.trans_eq ?_
        push_cast
        field_simp
      have htail : 0 ≤ expTail (x / S) rounds (n + 1) := expTail_nonneg (by positivity)
      rw [expTrunc, expTail]
      push_cast
      calc ((term * x / (n * S) : ℕ) : ℝ) + expTrunc S x rounds (n + 1) (term * x / (n * S))
          ≤ (term * x / (n * S) : ℕ)
            + (term * x / (n * S) : ℕ) * expTail (x / S) rounds (n + 1) :=
            add_le_add le_rfl (ih (Nat.succ_pos n))
        _ = (term * x / (n * S) : ℕ) * (1 + expTail (x / S) rounds (n + 1)) := by ring
        _ ≤ term * (x / S / n) * (1 + expTail (x / S) rounds (n + 1)) :=
            mul_le_mul_of_nonneg_right hnext (by linarith)
        _ = term * (x / S / n * (1 + expTail (x / S) rounds (n + 1))) := by ring

theorem le_expTrunc (hS : 0 < S) (hn : 0 < n) :
    term * expTail (x / S) rounds n - rounds * exp (x / S) ≤ (expTrunc S x rounds n term : ℝ) := by
  induction rounds generalizing n term with
  | zero => simp [expTrunc, expTail]
  | succ rounds ih =>
      have hX : (0 : ℝ) ≤ x / S := by positivity
      have hnext : term * (x / S / n) - 1 ≤ ((term * x / (n * S) : ℕ) : ℝ) := by
        refine le_trans (le_of_eq ?_) (div_sub_one_lt_cast_div (Nat.mul_pos hn hS)).le
        push_cast
        field_simp
      have htail : 0 ≤ expTail (x / S) rounds (n + 1) := expTail_nonneg hX
      have hunit : 1 + expTail (x / S) rounds (n + 1) ≤ exp (x / S) :=
        one_add_expTail_le hX (Nat.succ_pos n)
      have hrest := @ih (n + 1) (term * x / (n * S)) (Nat.succ_pos n)
      have hgrow := mul_le_mul_of_nonneg_right hnext
        (show (0 : ℝ) ≤ 1 + expTail (x / S) rounds (n + 1) by linarith)
      rw [expTrunc, expTail]
      push_cast
      linarith

end Exponential

/-! ### The inverse hyperbolic tangent -/

/-- The terms of the inverse hyperbolic tangent with square `q` from the `n`-th on, the first of
which is `term` over `2 * n - 1`. -/
def atanhTrunc (S q : ℕ) : ℕ → ℕ → ℕ → ℕ
  | 0, _, _ => 0
  | rounds + 1, n, term =>
      term / (2 * n - 1) + atanhTrunc S q rounds (n + 1) (term * q / S)

theorem atanhTrunc_zero (S q rounds n : ℕ) : atanhTrunc S q rounds n 0 = 0 := by
  induction rounds generalizing n with
  | zero => rfl
  | succ rounds ih => rw [atanhTrunc, Nat.zero_mul, Nat.zero_div, Nat.zero_div, ih]

/-- The sum of `Q ^ i / (2 * (n + i) - 1)`, for `i` from zero. -/
noncomputable def atanhTail (Q : ℝ) : ℕ → ℕ → ℝ
  | 0, _ => 0
  | rounds + 1, n => 1 / ((2 * n : ℕ) - 1) + Q * atanhTail Q rounds (n + 1)

section Logarithm

variable {S q rounds n term : ℕ} {Q z Y : ℝ}

theorem atanhTail_succ :
    atanhTail Q (rounds + 1) n = 1 / (2 * n - 1) + Q * atanhTail Q rounds (n + 1) := by
  rw [atanhTail, Nat.cast_mul, Nat.cast_ofNat]

theorem atanhTail_nonneg (hQ : 0 ≤ Q) (hn : 0 < n) : 0 ≤ atanhTail Q rounds n := by
  induction rounds generalizing n with
  | zero => exact le_rfl
  | succ rounds ih =>
      have hn' : (1 : ℝ) ≤ n := by exact_mod_cast hn
      have htail := ih (Nat.succ_pos n)
      have hden : (0 : ℝ) < 2 * n - 1 := by linarith
      rw [atanhTail_succ]
      positivity

/-- A geometric sum. -/
theorem atanhTail_le (hQ : 0 ≤ Q) (hquarter : Q ≤ 1 / 4) (hn : 0 < n) :
    atanhTail Q rounds n ≤ 4 / 3 := by
  induction rounds generalizing n with
  | zero =>
      rw [atanhTail]
      norm_num
  | succ rounds ih =>
      have hn' : (1 : ℝ) ≤ n := by exact_mod_cast hn
      have htail := ih (Nat.succ_pos n)
      have hfirst : 1 / (2 * n - 1 : ℝ) ≤ 1 := by
        rw [div_le_one (by linarith)]
        linarith
      have hprod : Q * atanhTail Q rounds (n + 1) ≤ 1 / 4 * (4 / 3) :=
        mul_le_mul hquarter htail (atanhTail_nonneg hQ (Nat.succ_pos n)) (by norm_num)
      rw [atanhTail_succ]
      linarith

theorem atanhTail_eq_sum :
    atanhTail Q rounds n = ∑ i ∈ range rounds, Q ^ i / (2 * (n + i : ℕ) - 1) := by
  induction rounds generalizing n with
  | zero => rfl
  | succ rounds ih =>
      rw [atanhTail_succ, ih, sum_range_succ', mul_sum, add_comm]
      congr 1
      refine sum_congr rfl fun i _ => ?_
      rw [pow_succ, show n + 1 + i = n + (i + 1) by omega]
      ring

theorem mul_atanhTail :
    z * atanhTail (z ^ 2) rounds 1 = ∑ i ∈ range rounds, z ^ (2 * i + 1) / (2 * i + 1) := by
  rw [atanhTail_eq_sum, mul_sum]
  refine sum_congr rfl fun i _ => ?_
  rw [← pow_mul, pow_succ]
  push_cast
  ring

/-- The rounded series is at most the exact one of any square that its own does not exceed. -/
theorem atanhTrunc_le (hS : 0 < S) (hn : 0 < n) (hQ : 0 ≤ Q) (hq : (q : ℝ) ≤ S * Q) :
    (atanhTrunc S q rounds n term : ℝ) ≤ term * atanhTail Q rounds n := by
  induction rounds generalizing n term with
  | zero => simp [atanhTrunc, atanhTail]
  | succ rounds ih =>
      have hS' : (0 : ℝ) < S := by exact_mod_cast hS
      have hfirst : ((term / (2 * n - 1) : ℕ) : ℝ) ≤ term * (1 / (2 * n - 1)) := by
        refine Nat.cast_div_le.trans_eq ?_
        rw [Nat.cast_sub (by omega), mul_one_div]
        push_cast
        ring
      have hnext : ((term * q / S : ℕ) : ℝ) ≤ term * Q := by
        refine Nat.cast_div_le.trans ?_
        rw [div_le_iff₀ hS']
        push_cast
        calc (term * q : ℝ) ≤ term * (S * Q) := mul_le_mul_of_nonneg_left hq (Nat.cast_nonneg _)
          _ = term * Q * S := by ring
      have htail : 0 ≤ atanhTail Q rounds (n + 1) := atanhTail_nonneg hQ (Nat.succ_pos n)
      have hrest := @ih (n + 1) (term * q / S) (Nat.succ_pos n)
      have hgrow := mul_le_mul_of_nonneg_right hnext htail
      rw [atanhTrunc, atanhTail_succ]
      push_cast
      linarith

/-- A round loses less than four units: one in its own division, and one each in the next term and
in its square, which grow to four thirds. -/
theorem le_atanhTrunc (hS : 0 < S) (hn : 0 < n) (hQ : 0 ≤ Q) (hquarter : Q ≤ 1 / 4)
    (hq : S * Q - 1 ≤ (q : ℝ)) (hqS : q ≤ S) (hterm : term ≤ S) :
    term * atanhTail Q rounds n - rounds * 4 ≤ (atanhTrunc S q rounds n term : ℝ) := by
  induction rounds generalizing n term with
  | zero => simp [atanhTrunc, atanhTail]
  | succ rounds ih =>
      have hS' : (0 : ℝ) < S := by exact_mod_cast hS
      have hterm' : (term : ℝ) ≤ S := by exact_mod_cast hterm
      have hfirst : term * (1 / (2 * n - 1)) - 1 ≤ ((term / (2 * n - 1) : ℕ) : ℝ) := by
        refine le_trans (le_of_eq ?_)
          (div_sub_one_lt_cast_div (show 0 < 2 * n - 1 by omega)).le
        rw [Nat.cast_sub (by omega), mul_one_div]
        push_cast
        ring
      have hnext : term * Q - 2 ≤ ((term * q / S : ℕ) : ℝ) := by
        have hfloor := div_sub_one_lt_cast_div (a := term * q) hS
        have hlost : term * Q - 1 ≤ (term * q : ℝ) / S := by
          rw [le_div_iff₀ hS']
          have := mul_le_mul_of_nonneg_left hq term.cast_nonneg
          linarith
        push_cast at hfloor
        linarith
      have htail : 0 ≤ atanhTail Q rounds (n + 1) := atanhTail_nonneg hQ (Nat.succ_pos n)
      have htail' : atanhTail Q rounds (n + 1) ≤ 4 / 3 := atanhTail_le hQ hquarter (Nat.succ_pos n)
      have hrest := @ih (n + 1) (term * q / S) (Nat.succ_pos n)
        ((Nat.div_le_div_right (Nat.mul_le_mul hterm hqS)).trans_eq (Nat.mul_div_cancel _ hS))
      have hgrow := mul_le_mul_of_nonneg_right hnext htail
      rw [atanhTrunc, atanhTail_succ]
      push_cast
      linarith

/-- The logarithm of `Y`, from the exact series at a number that is at most `δ` below
`(Y - 1) / (Y + 1)`. -/
theorem log_sub_log_le {δ : ℝ} (hY : 1 ≤ Y) (hY3 : Y ≤ 3) (hz : 0 ≤ z)
    (hle : z ≤ (Y - 1) / (Y + 1)) (hge : (Y - 1) / (Y + 1) - δ ≤ z) :
    log ((1 + z) / (1 - z)) ≤ log Y ∧ log Y - 4 * δ ≤ log ((1 + z) / (1 - z)) := by
  have hden : 0 < Y + 1 := by linarith
  have hhalf : (Y - 1) / (Y + 1) ≤ 1 / 2 := by
    rw [div_le_iff₀ hden]
    linarith
  have hz1 : 0 < 1 - z := by linarith
  have hYpos : 0 < Y := by linarith
  have hratio : 0 < (1 + z) / (1 - z) := by positivity
  have hY' : Y * (1 - z) - (1 + z) = ((Y - 1) / (Y + 1) - z) * (Y + 1) := by
    field_simp
    ring
  constructor
  · refine log_le_log hratio ((div_le_iff₀ hz1).mpr ?_)
    have := mul_nonneg (sub_nonneg.mpr hle) hden.le
    linarith
  · have hquot : log Y - log ((1 + z) / (1 - z)) ≤ Y / ((1 + z) / (1 - z)) - 1 := by
      rw [← log_div hYpos.ne' hratio.ne']
      exact log_le_sub_one_of_pos (by positivity)
    have hexcess : Y / ((1 + z) / (1 - z)) - 1 ≤ 4 * δ := by
      have hform : Y / ((1 + z) / (1 - z)) - 1
          = ((Y - 1) / (Y + 1) - z) * (Y + 1) / (1 + z) := by
        rw [← hY']
        field_simp
      have hnum : ((Y - 1) / (Y + 1) - z) * (Y + 1) ≤ 4 * δ := by
        have hδ : (Y - 1) / (Y + 1) - z ≤ δ := by linarith
        have h0 := sub_nonneg.mpr hle
        calc ((Y - 1) / (Y + 1) - z) * (Y + 1) ≤ δ * 4 :=
              mul_le_mul hδ (by linarith) hden.le (h0.trans hδ)
          _ = 4 * δ := by ring
      have hgrown : 0 ≤ 4 * δ * z := mul_nonneg (by linarith) hz
      rw [hform, div_le_iff₀ (by linarith)]
      linarith
    linarith

end Logarithm

end IndexDtf.Lib
