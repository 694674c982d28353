import IndexDtf.Lib.TruncatedSeries
import IndexDtf.Shared.DecimalExp

/-!
# IndexDtf.Shared.DecimalReal

How far `ln` and `exp` are from the logarithm and the exponential of the real numbers.

* `ln_error_of_rounds` — `ln` is off by 806 units of the last place and one for each division by e;
* `ln_error` — by at most 1100, for a ratio from 1 to 10⁹;
* `exp_error` — the inverse of `exp` of a number up to 24 is off by about one unit.
-/

namespace IndexDtf.Decimal

open Lib

/-- The number a D18 stands for. -/
noncomputable def toReal (x : Decimal) : ℝ := x.val / d18

theorem cast_d18 : (d18 : ℝ) = 1000000000000000000 := by norm_num [d18]

theorem cast_d18_pos : (0 : ℝ) < d18 := by
  rw [cast_d18]
  norm_num

theorem toReal_mul_d18 (x : Decimal) : x.toReal * d18 = x.val :=
  div_mul_cancel₀ _ cast_d18_pos.ne'

theorem toReal_nonneg (x : Decimal) : 0 ≤ x.toReal := div_nonneg (Nat.cast_nonneg _) cast_d18_pos.le

theorem toReal_le {x : Decimal} {c : ℕ} (h : x.val ≤ c * d18) : x.toReal ≤ c := by
  rw [toReal, div_le_iff₀ cast_d18_pos]
  exact_mod_cast h

theorem one_le_toReal {x : Decimal} (h : d18 ≤ x.val) : 1 ≤ x.toReal := by
  rw [toReal, one_le_div cast_d18_pos]
  exact_mod_cast h

/-! ### The exponential -/

theorem expSeries_eq {x term result y : Decimal} {rounds n : ℕ}
    (h : expSeries x rounds n term result = .ok y) :
    y.val = result.val + expTrunc d18 x.val rounds n term.val := by
  induction rounds generalizing n term result with
  | zero =>
      cases h
      rfl
  | succ rounds ih =>
      rw [expTrunc]
      rcases expSeries_succ h with ⟨hzero, rfl⟩ | ⟨-, hrest⟩
      · rw [hzero, expTrunc_zero]
        rfl
      · rw [ih hrest, Nat.add_assoc]

/-- The series of a number of at most 24 is the exponential, less 101 units of it at most. -/
theorem expSeries_error {x s : Decimal} (hx : x.val ≤ 24 * d18)
    (h : expSeries x maxIterations 1 oneE18 oneE18 = .ok s) :
    (d18 - 101) * Real.exp x.toReal ≤ s.val ∧ s.val ≤ d18 * Real.exp x.toReal := by
  have hd18 : 0 < d18 := by decide
  have hX := toReal_nonneg x
  have hX24 : x.toReal ≤ 24 := by exact_mod_cast toReal_le hx
  have hone : 1 ≤ Real.exp x.toReal := Real.one_le_exp hX
  have hs : (s.val : ℝ) = d18 + (expTrunc d18 x.val maxIterations 1 d18 : ℕ) := by
    rw [expSeries_eq h]
    push_cast
    rfl
  constructor
  · have hlost : x.toReal ^ (maxIterations + 1) / (maxIterations + 1).factorial * 2 * d18
        ≤ 1 := by
      have hpow : x.toReal ^ (maxIterations + 1) ≤ 24 ^ (maxIterations + 1) :=
        pow_le_pow_left₀ hX hX24 _
      have hnum : (24 : ℝ) ^ (maxIterations + 1) / (maxIterations + 1).factorial * 2 * d18 ≤ 1 := by
        rw [cast_d18, maxIterations]
        norm_num [Nat.factorial]
      refine le_trans ?_ hnum
      gcongr
    have htail : Real.exp x.toReal - x.toReal ^ (maxIterations + 1) / (maxIterations + 1).factorial
        * 2 ≤ 1 + expTail x.toReal maxIterations 1 := by
      refine exp_sub_le hX ?_
      rw [maxIterations]
      push_cast
      linarith
    have hseries : d18 * expTail (x.val / d18) maxIterations 1 - maxIterations * Real.exp (x.val / d18)
        ≤ (expTrunc d18 x.val maxIterations 1 d18 : ℝ) := le_expTrunc hd18 Nat.one_pos
    have hrounds : ((maxIterations : ℕ) : ℝ) = 100 := by norm_num [maxIterations]
    rw [← toReal, hrounds] at hseries
    have hsum := mul_le_mul_of_nonneg_right htail d18.cast_nonneg
    rw [hs]
    linarith
  · have hseries : (expTrunc d18 x.val maxIterations 1 d18 : ℝ)
        ≤ d18 * expTail (x.val / d18) maxIterations 1 := expTrunc_le hd18 Nat.one_pos
    have htail : 1 + expTail x.toReal maxIterations 1 ≤ Real.exp x.toReal :=
      one_add_expTail_le hX Nat.one_pos
    have hsum := mul_le_mul_of_nonneg_left htail d18.cast_nonneg
    rw [← toReal] at hseries
    rw [hs]
    linarith

/-- The inverse of `exp`: rounded down, and off by about a tenth of a unit before. -/
theorem exp_error {x v : Decimal} (hx : x.val ≤ 24 * d18) (h : x.exp true = .ok (some v)) :
    d18 * Real.exp (-x.toReal) - 1 ≤ v.val ∧
      v.val ≤ d18 * Real.exp (-x.toReal) * (1 + 1 / 10 ^ 15) := by
  obtain ⟨s, hs, hone, hv⟩ := exp_spec h
  obtain ⟨hlow, hhigh⟩ := expSeries_error hx hs
  have hspos : 0 < s.val := lt_of_lt_of_le (by decide) ((Nat.le_add_right ..).trans hone)
  have hspos' : (0 : ℝ) < s.val := by exact_mod_cast hspos
  have hexp := Real.exp_pos (x.toReal)
  have hd18 := cast_d18
  rw [hv, Real.exp_neg]
  constructor
  · refine le_trans ?_ (div_sub_one_lt_cast_div hspos).le
    have hquot : (d18 : ℝ) * (Real.exp x.toReal)⁻¹ ≤ (d18 * d18 : ℕ) / s.val := by
      rw [le_div_iff₀ hspos', mul_comm (d18 : ℝ), mul_assoc, inv_mul_le_iff₀ hexp]
      have hscaled := mul_le_mul_of_nonneg_left hhigh d18.cast_nonneg
      push_cast
      linarith
    linarith
  · refine Nat.cast_div_le.trans ?_
    rw [div_le_iff₀ hspos']
    push_cast
    have hbelow : (d18 : ℝ) ≤ (1 + 1 / 10 ^ 15) * (d18 - 101) := by
      rw [hd18]
      norm_num
    calc (d18 * d18 : ℝ) ≤ d18 * ((1 + 1 / 10 ^ 15) * (d18 - 101)) := by
          rw [hd18] at hbelow ⊢
          linarith
      _ = d18 * (Real.exp x.toReal)⁻¹ * (1 + 1 / 10 ^ 15)
          * ((d18 - 101) * Real.exp x.toReal) := by field_simp
      _ ≤ d18 * (Real.exp x.toReal)⁻¹ * (1 + 1 / 10 ^ 15) * s.val := by gcongr

/-! ### The logarithm -/

theorem lnSeries_eq {zSquared term result y : Decimal} {rounds n : ℕ}
    (h : lnSeries zSquared rounds n term result = .ok y) :
    y.val = result.val + atanhTrunc d18 zSquared.val rounds n term.val := by
  induction rounds generalizing n term result with
  | zero =>
      cases h
      rfl
  | succ rounds ih =>
      rw [atanhTrunc]
      rcases lnSeries_succ h with ⟨hzero, hy⟩ | ⟨-, hrest⟩
      · rw [hzero, atanhTrunc_zero, hy]
        rfl
      · rw [ih hrest, Nat.add_assoc]

/-- The constant `E` is the number e to its last place. -/
theorem log_e : 1 - 1 / d18 ≤ Real.log e.toReal ∧ Real.log e.toReal ≤ 1 := by
  have hd18 := cast_d18
  have hE : e.toReal = 2.718281828459045235 := by
    rw [toReal, hd18]
    norm_num [e]
  obtain ⟨hlow, hhigh⟩ := abs_le.mp Real.exp_one_near_20
  have hpos : (0 : ℝ) < 2.718281828459045235 := by norm_num
  rw [hE]
  constructor
  · have hexp : Real.exp 1 ≤ 2.718281828459045235 * (1 + 1 / d18) := by
      refine le_trans (sub_le_iff_le_add'.mp hhigh) ?_
      rw [hd18]
      norm_num
    have hone : (0 : ℝ) < 1 + 1 / d18 := by positivity
    have hlog := Real.log_le_log (Real.exp_pos 1) hexp
    rw [Real.log_exp, Real.log_mul hpos.ne' hone.ne'] at hlog
    have hsmall := Real.log_le_sub_one_of_pos hone
    linarith
  · rw [Real.log_le_iff_le_exp hpos]
    refine le_trans ?_ (neg_le_sub_iff_le_add.mp hlow |> sub_le_iff_le_add.mpr)
    norm_num

/-- A division by e takes one off the logarithm, to a unit of the last place. -/
theorem log_div_e {x : Decimal} (hx : e.val ≤ x.val) :
    |Real.log (⟨x.val * d18 / e.val⟩ : Decimal).toReal + 1 - Real.log x.toReal| ≤ 1 / d18 := by
  have hd18 := cast_d18_pos
  have he : (0 : ℝ) < e.val := by exact_mod_cast (by decide : 0 < e.val)
  have hxpos : (0 : ℝ) < x.val := by exact_mod_cast lt_of_lt_of_le (by decide : 0 < e.val) hx
  have hone : d18 ≤ x.val * d18 / e.val := by
    rw [Nat.le_div_iff_mul_le (by decide), Nat.mul_comm]
    exact Nat.mul_le_mul_right d18 hx
  have hmpos : (0 : ℝ) < (x.val * d18 / e.val : ℕ) := by
    exact_mod_cast lt_of_lt_of_le (by decide : 0 < d18) hone
  obtain ⟨hlow, hhigh⟩ := log_e
  have hquot : Real.log (x.val * d18 / e.val / d18) = Real.log x.toReal - Real.log e.toReal := by
    rw [← Real.log_div (by rw [toReal]; positivity) (by rw [toReal]; positivity), toReal, toReal]
    congr 1
    field_simp
  have hupper : Real.log ((x.val * d18 / e.val : ℕ) / d18)
      ≤ Real.log (x.val * d18 / e.val / d18) := by
    refine Real.log_le_log (by positivity) (div_le_div_of_nonneg_right ?_ hd18.le)
    exact Nat.cast_div_le.trans_eq (by push_cast; rfl)
  -- the division loses less than one of at least 1e18 units
  have hlower : Real.log (x.val * d18 / e.val / d18) - 1 / d18
      ≤ Real.log ((x.val * d18 / e.val : ℕ) / d18) := by
    have hfloor : (x.val * d18 / e.val : ℝ) ≤ (x.val * d18 / e.val : ℕ) * (1 + 1 / d18) := by
      have hlost := (div_sub_one_lt_cast_div (a := x.val * d18) (b := e.val) (by decide)).le
      have hunit : (1 : ℝ) ≤ (x.val * d18 / e.val : ℕ) * (1 / d18) := by
        rw [mul_one_div, one_le_div hd18]
        exact_mod_cast hone
      push_cast at hlost
      linarith
    have hsmall := Real.log_le_sub_one_of_pos (show (0 : ℝ) < 1 + 1 / d18 by positivity)
    have hlog := Real.log_le_log (by positivity) (div_le_div_of_nonneg_right hfloor hd18.le)
    rw [mul_div_right_comm ((x.val * d18 / e.val : ℕ) : ℝ),
      Real.log_mul (by positivity) (by positivity)] at hlog
    linarith
  rw [show (⟨x.val * d18 / e.val⟩ : Decimal).toReal = (x.val * d18 / e.val : ℕ) / d18 from rfl, abs_le]
  constructor
  · linarith
  · linarith

/-- The divisions by e are counted, and each is off by a unit. -/
theorem lnLower_log {fuel : ℕ} {x y : Decimal} {power power' : ℤ}
    (h : lnLower fuel x power = .ok (y, power')) :
    |Real.log y.toReal + power' - (Real.log x.toReal + power)| ≤ (power' - power) / d18 := by
  induction fuel generalizing x power with
  | zero =>
      cases h
      simp
  | succ fuel ih =>
      rw [lnLower] at h
      split at h
      · next hge =>
        simp only [bind_eq_ok, mul_eq_ok, div_eq_ok, oneE18] at h
        obtain ⟨_, ⟨-, rfl⟩, _, ⟨-, rfl⟩, h⟩ := h
        have hrest := ih h
        have hstep := log_div_e hge
        have hsum := (abs_add_le _ _).trans (add_le_add hrest hstep)
        push_cast at hsum ⊢
        refine le_trans (le_of_eq ?_) (hsum.trans_eq (by ring))
        congr 1
        ring
      · cases h
        simp

/-- The square of a number, rounded down. -/
theorem square_bounds (z : ℕ) : (d18 : ℝ) * toReal ⟨z⟩ ^ 2 - 1 ≤ (z * z / d18 : ℕ) ∧
    ((z * z / d18 : ℕ) : ℝ) ≤ d18 * toReal ⟨z⟩ ^ 2 := by
  have hsquare : (d18 : ℝ) * toReal ⟨z⟩ ^ 2 = (z * z : ℕ) / d18 := by
    rw [toReal]
    push_cast
    field_simp
  rw [hsquare]
  exact cast_div_bounds (by decide)

/-- What the series lacks, at a number of at most a half, is less than a unit. -/
theorem atanh_rest_le {Z : ℝ} (hZ : 0 ≤ Z) (hhalf : Z ≤ 1 / 2) :
    Z ^ (2 * maxIterations + 1) / (1 - Z ^ 2) * d18 ≤ 1 := by
  have hquarter : Z ^ 2 ≤ (1 / 2) ^ 2 := pow_le_pow_left₀ hZ hhalf 2
  have hpow : Z ^ (2 * maxIterations + 1) ≤ (1 / 2) ^ (2 * maxIterations + 1) :=
    pow_le_pow_left₀ hZ hhalf _
  have hnum : (1 / 2 : ℝ) ^ (2 * maxIterations + 1) / (3 / 4) * d18 ≤ 1 := by
    rw [cast_d18, maxIterations]
    norm_num
  refine le_trans ?_ hnum
  gcongr
  linarith

/-- The series at `z`, twice: the logarithm of the number that `z` belongs to. -/
theorem lnSeries_error {z : ℕ} {s : Decimal} (hz : z * 2 ≤ d18)
    (h : lnSeries ⟨z * z / d18⟩ maxIterations 1 ⟨z⟩ zero = .ok s) :
    d18 * Real.log ((1 + toReal ⟨z⟩) / (1 - toReal ⟨z⟩)) - 802 ≤ 2 * s.val ∧
      2 * s.val ≤ d18 * Real.log ((1 + toReal ⟨z⟩) / (1 - toReal ⟨z⟩)) := by
  have hd18 : 0 < d18 := by decide
  have hS := cast_d18_pos
  have hz0 := toReal_nonneg ⟨z⟩
  have hhalf : toReal ⟨z⟩ ≤ 1 / 2 := by
    have : (z * 2 : ℝ) ≤ d18 := by exact_mod_cast hz
    rw [toReal, div_le_iff₀ hS]
    linarith
  have hQ : 0 ≤ toReal ⟨z⟩ ^ 2 := sq_nonneg _
  have hquarter : toReal ⟨z⟩ ^ 2 ≤ 1 / 4 := by
    refine (pow_le_pow_left₀ hz0 hhalf 2).trans_eq ?_
    norm_num
  obtain ⟨hq, hq'⟩ := square_bounds z
  have hzS : z ≤ d18 := by omega
  have hqS : z * z / d18 ≤ d18 := Nat.div_le_of_le_mul (Nat.mul_le_mul hzS hzS)
  have hs : (s.val : ℝ) = atanhTrunc d18 (z * z / d18) maxIterations 1 z := by
    rw [lnSeries_eq h, zero, Nat.zero_add]
  have hterms : (z : ℝ) * atanhTail (toReal ⟨z⟩ ^ 2) maxIterations 1
      = d18 * ∑ i ∈ Finset.range maxIterations, toReal ⟨z⟩ ^ (2 * i + 1) / (2 * i + 1) := by
    rw [← mul_atanhTail, ← mul_assoc, mul_comm (d18 : ℝ), toReal_mul_d18]
  constructor
  · have hlow : z * atanhTail (toReal ⟨z⟩ ^ 2) maxIterations 1 - maxIterations * 4
        ≤ (atanhTrunc d18 (z * z / d18) maxIterations 1 z : ℝ) :=
      le_atanhTrunc hd18 Nat.one_pos hQ hquarter hq hqS hzS
    have hrest := atanh_rest_le hz0 hhalf
    have hlog := Real.log_div_le_sum_range_add hz0 (by linarith) maxIterations
    have hsum := mul_le_mul_of_nonneg_left hlog hS.le
    have hrounds : ((maxIterations : ℕ) : ℝ) = 100 := by norm_num [maxIterations]
    rw [hterms, hrounds] at hlow
    rw [hs]
    linarith
  · have hhigh : (atanhTrunc d18 (z * z / d18) maxIterations 1 z : ℝ)
        ≤ z * atanhTail (toReal ⟨z⟩ ^ 2) maxIterations 1 := atanhTrunc_le hd18 Nat.one_pos hQ hq'
    have hlog := Real.sum_range_le_log_div hz0 (by linarith) maxIterations
    have hsum := mul_le_mul_of_nonneg_left hlog hS.le
    rw [hterms] at hhigh
    rw [hs]
    linarith

/-- The number `z` of a normalized number is `(y - 1) / (y + 1)`, to a unit. -/
theorem log_normalized {y : Decimal} (hone : d18 ≤ y.val) (hbelow : y.val < e.val) :
    let z : Decimal := ⟨(y.val - d18) * d18 / (y.val + d18)⟩
    z.val * 2 ≤ d18 ∧ Real.log ((1 + z.toReal) / (1 - z.toReal)) ≤ Real.log y.toReal ∧
      Real.log y.toReal - 4 * (1 / d18) ≤ Real.log ((1 + z.toReal) / (1 - z.toReal)) := by
  intro z
  have hd18 := cast_d18_pos
  have he : e.val < 3 * d18 := by decide
  have hy3 : y.toReal ≤ 3 := by exact_mod_cast toReal_le (hbelow.trans he).le
  have hpos : 0 < y.val + d18 := Nat.add_pos_right _ (by decide)
  have hquot : ((y.val - d18) * d18 : ℕ) / ((y.val + d18 : ℕ) : ℝ) / d18
      = (y.toReal - 1) / (y.toReal + 1) := by
    rw [toReal]
    push_cast [Nat.cast_sub hone]
    field_simp
  have hfloor := (div_sub_one_lt_cast_div (a := (y.val - d18) * d18) hpos).le
  refine ⟨normalized_half hone hbelow, log_sub_log_le (one_le_toReal hone) hy3 (toReal_nonneg z) ?_ ?_⟩
  · rw [← hquot, toReal]
    exact div_le_div_of_nonneg_right Nat.cast_div_le hd18.le
  · rw [← hquot, toReal, ← sub_div]
    exact div_le_div_of_nonneg_right hfloor hd18.le

/-- `ln` of a number from one up that needs `rounds` divisions by e at most. -/
theorem ln_error_of_rounds {x y : Decimal} {rounds : ℕ} (hrounds : rounds < 256)
    (hone : d18 ≤ x.val) (hfits : x.val * d18 < u256Bound)
    (hbound : x.val * 10 ^ rounds < e.val * 27 ^ rounds) (h : x.ln = .ok (some y)) :
    |y.val - d18 * Real.log x.toReal| ≤ 806 + rounds := by
  have hd18 := cast_d18_pos
  rcases hone.eq_or_lt with heq | hlt
  · obtain ⟨n⟩ := x
    obtain rfl : d18 = n := heq
    rw [ln, if_pos (show (⟨d18⟩ : Decimal) = oneE18 from rfl)] at h
    cases h
    rw [toReal, div_self hd18.ne', Real.log_one, zero, Nat.cast_zero, mul_zero, sub_zero, abs_zero]
    positivity
  · obtain ⟨normalized, power, series, hlower, hone', hseries, hy⟩ := ln_spec hlt h
    obtain ⟨y', power', hlower', -, hbelow, hpower, hpower'⟩ : ∃ y power,
        lnLower 256 x 0 = .ok (y, power) ∧ d18 ≤ y.val ∧ y.val < e.val ∧ 0 ≤ power ∧
          power ≤ 0 + rounds := lnLower_total hrounds hone hfits hbound
    rw [hlower, Except.ok.injEq, Prod.mk.injEq] at hlower'
    obtain ⟨rfl, rfl⟩ := hlower'
    obtain ⟨hz, hlogHigh, hlogLow⟩ := log_normalized hone' hbelow
    obtain ⟨hlow, hhigh⟩ := lnSeries_error hz hseries
    have hcast : (y.val : ℝ) = 2 * series.val + d18 * power := by
      have hpow : ((power.natAbs : ℕ) : ℝ) = power := by
        rw [Nat.cast_natAbs, abs_of_nonneg hpower]
      rw [hy hpower]
      push_cast
      rw [hpow]
    have hcount : (power : ℝ) ≤ rounds := by
      have : power ≤ (rounds : ℤ) := by omega
      exact_mod_cast this
    -- a unit for each division
    have hdrift : |d18 * (Real.log normalized.toReal + power - Real.log x.toReal)| ≤ rounds := by
      have hlog := lnLower_log hlower
      rw [Int.cast_zero, sub_zero, add_zero, le_div_iff₀ hd18] at hlog
      rw [abs_mul, abs_of_pos hd18, mul_comm]
      exact hlog.trans hcount
    obtain ⟨hdrift, hdrift'⟩ := abs_le.mp hdrift
    have hunit : (d18 : ℝ) * (1 / d18) = 1 := mul_one_div_cancel hd18.ne'
    have hsum := mul_le_mul_of_nonneg_left hlogHigh hd18.le
    have hsum' := mul_le_mul_of_nonneg_left hlogLow hd18.le
    rw [hcast, abs_le]
    constructor
    · linarith
    · linarith

/-- `ln` of a number from 1 to 10⁹. -/
theorem ln_error {x y : Decimal} (hone : d18 ≤ x.val) (hfits : x.val ≤ 10 ^ 27)
    (h : x.ln = .ok (some y)) : |y.val - d18 * Real.log x.toReal| ≤ 1100 := by
  obtain ⟨hsmall, hbound⟩ := lt_of_le_billion hfits
  refine (ln_error_of_rounds (by decide) hone hsmall hbound h).trans ?_
  norm_num

end IndexDtf.Decimal
