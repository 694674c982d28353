import IndexDtf.Shared.DecimalLoops
import IndexDtf.Shared.DecimalPow
import IndexDtf.Shared.DecimalReal

/-!
# IndexDtf.Shared.DecimalAccuracy

**How far `pow`, `ln` and `exp` are from what they stand for**, each with the loops that it runs.

* `pow_accurate` — a power of a number of at most one: a unit for each unit of the exponent;
* `ln_accurate` — the logarithm, whose loops end for every number: a thousand units;
* `exp_accurate` — the exponential, whose series breaks before its counter ends it: a part in 10¹⁵.
-/

namespace IndexDtf.Decimal

open Lib

variable {x : Decimal} {n : ℕ}

/-! ### Powers -/

/-- What the loop of `pow` comes to is the power. -/
theorem pow_runs (hn : 1 < n) : ∃ r, powWhile.Runs ⟨x, oneE18, n⟩ r ∧
    x.pow n = r.map fun step => step.value.result := by
  rw [pow, if_neg (by omega), if_neg hn.ne']
  exact powLoop_runs

/-- **Powers** of a number of at most one: nothing overflows, and a unit is lost at most for each
unit of the exponent. -/
theorem pow_accurate (hx : x.val ≤ d18) (n : ℕ) : ∃ r, x.pow n = .ok r ∧
    (1 < n → ∃ step, powWhile.Runs ⟨x, oneE18, n⟩ (.ok step) ∧ step.value.result = r) ∧
    (d18 : ℚ) * (x.val / d18) ^ n - n ≤ r.val ∧ (r.val : ℚ) ≤ d18 * (x.val / d18) ^ n := by
  have hpow := pow_of_le_one hx n
  refine ⟨_, hpow, ?_, powTrunc_lower (by decide) hx, powTrunc_upper Nat.lt_log2_self⟩
  intro hn
  obtain ⟨r, hruns, hr⟩ := pow_runs (x := x) hn
  rw [hpow] at hr
  cases r with
  | error e => cases hr
  | ok step => exact ⟨step, hruns, (Except.ok.inj hr).symm⟩

theorem pow_accurate_half : ∃ r, pow ⟨500000000000000000⟩ 3 = .ok r ∧
    (d18 : ℚ) * ((500000000000000000 : ℕ) / d18) ^ 3 - (3 : ℕ) ≤ r.val ∧
    (r.val : ℚ) ≤ d18 * ((500000000000000000 : ℕ) / d18) ^ 3 := by
  obtain ⟨r, hr, -, hlow, hhigh⟩ := pow_accurate (x := ⟨500000000000000000⟩) (by decide) 3
  exact ⟨r, hr, hlow, hhigh⟩

/-! ### The logarithm -/

theorem lnRaise_overflow {fuel : ℕ} {power : ℤ} : FailsIn Overflow (lnRaise fuel x power) := by
  induction fuel generalizing x power with
  | zero => exact .ok _
  | succ fuel ih => exact .ite (.bind mulD18_overflow fun _ _ => ih) (.ok _)

theorem lnLower_overflow {fuel : ℕ} {power : ℤ} : FailsIn Overflow (lnLower fuel x power) := by
  induction fuel generalizing x power with
  | zero => exact .ok _
  | succ fuel ih =>
      exact .ite (.bind mul_overflow fun _ _ => .bind div_overflow fun _ _ => ih) (.ok _)

theorem lnSeries_overflow {zSquared term result : Decimal} {rounds : ℕ} :
    FailsIn Overflow (lnSeries zSquared rounds n term result) := by
  induction rounds generalizing n term result with
  | zero => exact .ok _
  | succ rounds ih =>
      exact .bind div_overflow fun _ _ => .bind add_overflow fun _ _ =>
        .bind mulD18_overflow fun _ _ => .ite (.ok _) ih

theorem ln_overflow : FailsIn Overflow x.ln := by
  refine .ite (.ok _) (.ite (.ok _) (.bind lnRaise_overflow fun _ _ => .bind lnLower_overflow
    fun _ _ => .bind sub_overflow fun _ _ => .bind add_overflow fun _ _ => .bind mul_overflow
    fun _ _ => .bind div_overflow fun _ _ => .bind mulD18_overflow fun _ _ =>
    .bind lnSeries_overflow fun _ _ => .bind mul_overflow fun _ _ => .bind mul_overflow
    fun _ _ => ?_))
  exact .ite (.bind add_overflow fun _ _ => .ok _) (.ite (.bind sub_overflow fun _ _ => .ok _)
    (.ok _))

/-- Raising a number to one leaves it below e, if it was. -/
theorem lnRaise_le {fuel : ℕ} {power : ℤ} {s : Decimal × ℤ}
    (h : lnRaise fuel x power = .ok s) : s.1.val ≤ max x.val e.val := by
  induction fuel generalizing x power with
  | zero =>
      cases h
      exact le_max_left ..
  | succ fuel ih =>
      rw [lnRaise] at h
      split at h
      · next hlt =>
        rw [bind_eq_ok] at h
        obtain ⟨_, hround, h⟩ := h
        rw [mulD18_eq_ok] at hround
        obtain ⟨-, rfl⟩ := hround
        have hle : x.val * e.val / d18 ≤ e.val :=
          Nat.div_le_of_le_mul (Nat.mul_le_mul_right _ hlt.le)
        exact (ih h).trans (max_le (hle.trans (le_max_right ..)) (le_max_right ..))
      · cases h
        exact le_max_left ..

/-- A number of `u64` units needs 44 divisions by e. -/
theorem lt_of_le_u64 {x : ℕ} (hx : x ≤ 2 ^ 64 * d18) :
    x * d18 < u256Bound ∧ x * 10 ^ 44 < e.val * 27 ^ 44 :=
  ⟨(Nat.mul_le_mul_right _ hx).trans_lt (by decide),
    (Nat.mul_le_mul_right _ hx).trans_lt (by decide)⟩

/-- **The logarithm.** Its loops end for every number but zero, so that it returns or overflows;
from one up it is accurate. -/
theorem ln_accurate (hpos : 0 < x.val) (hfits : x.val < u256Bound) :
    (∃ r, lnRaiseWhile.Runs (x, 0) r ∧ lnRaise 256 x 0 = r.map fun step => step.value) ∧
      (∀ raised, lnRaiseWhile.Runs (x, 0) (.ok (.yield raised)) → ∃ r,
        lnLowerWhile.Runs raised r ∧
          lnLower 256 raised.1 raised.2 = r.map fun step => step.value) ∧
      (∀ zSquared z, ∃ r, (lnSeriesWhile zSquared).Runs ⟨1, z, zero⟩ r ∧
        lnSeries zSquared maxIterations 1 z zero = r.map fun step => step.value.result) ∧
      (∀ e, x.ln = .error e → e = .code .MathOverflow) ∧
      (d18 ≤ x.val → x.val ≤ 2 ^ 64 * d18 →
        ∃ y, x.ln = .ok (some y) ∧ |y.val - d18 * Real.log x.toReal| ≤ 1000) := by
  refine ⟨lnRaise_runs 0 hpos, ?_, fun _ _ => lnSeries_runs, ln_overflow, ?_⟩
  · intro raised hraised
    obtain ⟨r, hr, hraise⟩ := lnRaise_runs 0 hpos
    rw [hr.unique hraised] at hraise
    have hbelow : raised.1.val < u256Bound :=
      (lnRaise_le hraise).trans_lt (max_lt hfits (by decide))
    exact lnLower_runs raised.2 hbelow
  · intro hone hmax
    obtain ⟨hsmall, hbound⟩ := lt_of_le_u64 hmax
    obtain ⟨y, hy, -⟩ := ln_of_rounds (by decide) hone hsmall hbound
    refine ⟨y, hy, (ln_error_of_rounds (by decide) hone hsmall hbound hy).trans ?_⟩
    norm_num

theorem ln_accurate_two : (∃ r, lnRaiseWhile.Runs (⟨2000000000000000000⟩, 0) r) ∧
    ∃ y, ln ⟨2000000000000000000⟩ = .ok (some y) ∧
      |y.val - d18 * Real.log (toReal ⟨2000000000000000000⟩)| ≤ 1000 := by
  obtain ⟨⟨r, hruns, -⟩, -, -, -, haccurate⟩ :=
    ln_accurate (x := ⟨2000000000000000000⟩) (by decide) (by decide)
  exact ⟨⟨r, hruns⟩, haccurate (by decide) (by decide)⟩

/-! ### The exponential -/

/-- `exp` is its series, also at zero, where it is not run. -/
theorem exp_eq_series {s : Decimal} : x.exp false = .ok (some s) ↔
    expSeries x maxIterations 1 oneE18 oneE18 = .ok s := by
  rw [exp]
  split
  · next hzero =>
    obtain ⟨n⟩ := x
    obtain rfl : n = 0 := hzero
    rw [show (⟨0⟩ : Decimal) = zero from rfl, expSeries_zero]
    simp
  · simp [bind_eq_ok]

/-- Of 21, the factorials outgrow the powers. -/
theorem pow_lt_factorial {m : ℕ} (hm : 89 ≤ m) : d18 * 21 ^ m < m.factorial := by
  induction m, hm using Nat.le_induction with
  | base => decide +kernel
  | succ m hm ih =>
      calc d18 * 21 ^ (m + 1) = 21 * (d18 * 21 ^ m) := by ring
        _ < 21 * m.factorial := Nat.mul_lt_mul_of_pos_left ih (by decide)
        _ ≤ (m + 1) * m.factorial := Nat.mul_le_mul_right _ (by omega)
        _ = (m + 1).factorial := (Nat.factorial_succ m).symm

/-- What the terms of the series stay below, at a number of at most 21. -/
structure Converging (s : SeriesState) : Prop where
  started : 1 ≤ s.n
  positive : 0 < s.term.val
  bounded : s.term.val * (s.n - 1).factorial ≤ d18 * 21 ^ (s.n - 1)

/-- They are gone by the 90th. -/
theorem Converging.n_le {s : SeriesState} (h : Converging s) : s.n ≤ 89 := by
  by_contra hlate
  have hgrown : d18 * 21 ^ (s.n - 1) < (s.n - 1).factorial := pow_lt_factorial (by omega)
  have hterm : (s.n - 1).factorial ≤ s.term.val * (s.n - 1).factorial :=
    Nat.le_mul_of_pos_left _ h.positive
  have hbounded := h.bounded
  omega

theorem Converging.round {s s' : SeriesState} (hx : x.val ≤ 21 * d18) (h : Converging s)
    (hbody : (expWhile x).body s = .ok (.yield s')) : Converging s' := by
  obtain ⟨hn, hnext, hpositive⟩ := seriesWhile_round hbody
  simp only [fromPlain, bind_eq_ok, mul_eq_ok, checked_eq_ok, div_eq_ok, Except.ok.injEq,
    Prod.mk.injEq] at hnext
  obtain ⟨_, ⟨-, rfl⟩, _, ⟨-, rfl⟩, term, ⟨hpos, rfl⟩, _, -, hterm, -⟩ := hnext
  have hstep : s'.term.val * s.n ≤ s.term.val * 21 := by
    rw [← hterm]
    exact nextTerm_mul_le hpos hx
  refine ⟨by omega, hpositive, ?_⟩
  rw [hn, Nat.add_sub_cancel]
  calc s'.term.val * s.n.factorial = s'.term.val * s.n * (s.n - 1).factorial := by
        rw [Nat.mul_assoc, Nat.mul_factorial_pred (Nat.ne_of_gt h.started)]
    _ ≤ s.term.val * 21 * (s.n - 1).factorial := Nat.mul_le_mul_right _ hstep
    _ = s.term.val * (s.n - 1).factorial * 21 := Nat.mul_right_comm ..
    _ ≤ d18 * 21 ^ (s.n - 1) * 21 := Nat.mul_le_mul_right _ h.bounded
    _ = d18 * 21 ^ s.n := by
        rw [Nat.mul_assoc, ← Nat.pow_succ, Nat.succ_eq_add_one, Nat.sub_add_cancel h.started]

/-- The loop of `exp` breaks. -/
theorem exp_breaks {s : Decimal} (hx : x.val ≤ 21 * d18)
    (h : expSeries x maxIterations 1 oneE18 oneE18 = .ok s) : ∃ n < maxIterations,
      (expWhile x).Runs ⟨1, oneE18, oneE18⟩ (.ok (.done ⟨n, zero, s⟩)) := by
  obtain ⟨r, hruns, hseries⟩ : ∃ r, (expWhile x).Runs ⟨1, oneE18, oneE18⟩ r ∧
      expSeries x maxIterations 1 oneE18 oneE18 = r.map fun step => step.value.result :=
    expSeries_runs
  rw [h] at hseries
  have hlast := hruns.last Converging (fun _ _ hs _ => hs.round hx)
    ⟨le_rfl, by decide, le_rfl⟩
  cases r with
  | error e => cases hseries
  | ok step =>
      cases step with
      | yield s' =>
          obtain ⟨hs', hcond⟩ := hlast
          have hle := hs'.n_le
          have hover : ¬ s'.n ≤ maxIterations := of_decide_eq_false hcond
          rw [maxIterations] at hover
          omega
      | done s' =>
          obtain ⟨last, hs, -, hbody⟩ := hlast
          obtain ⟨hn, -, hterm⟩ := seriesWhile_break hbody
          obtain ⟨n, term, result⟩ := s'
          obtain rfl : term = zero := hterm
          obtain rfl : n = last.n := hn
          cases hseries
          exact ⟨last.n, hs.n_le.trans_lt (by decide), hruns⟩

/-- **The exponential.** On the range of an auction its series converges, and it is accurate and
monotone. -/
theorem exp_accurate (hx : x.val ≤ 21 * d18) : ∃ n s v, n < maxIterations ∧
    (expWhile x).Runs ⟨1, oneE18, oneE18⟩ (.ok (.done ⟨n, zero, s⟩)) ∧
    x.exp false = .ok (some s) ∧ x.exp true = .ok (some v) ∧
    (s.val : ℝ) ≤ d18 * Real.exp x.toReal ∧
    (1 - 1 / 10 ^ 15) * (d18 * Real.exp x.toReal) ≤ s.val ∧
    ∀ (y s' v' : Decimal), x.val ≤ y.val → y.exp false = .ok (some s') →
      y.exp true = .ok (some v') → s.val ≤ s'.val ∧ v'.val ≤ v.val := by
  have hx' : x.val ≤ 24 * d18 := hx.trans (Nat.mul_le_mul_right _ (by decide))
  obtain ⟨s, hs, -⟩ : ∃ s, expSeries x maxIterations 1 oneE18 oneE18 = .ok s ∧
      oneE18.val ≤ s.val := expSeries_total le_rfl le_rfl hx' (by decide) (by decide)
  obtain ⟨v, hv, -⟩ := exp_total hx'
  obtain ⟨n, hn, hruns⟩ := exp_breaks hx hs
  obtain ⟨hlow, hhigh⟩ := expSeries_error hx' hs
  refine ⟨n, s, v, hn, hruns, exp_eq_series.mpr hs, hv, hhigh, ?_, ?_⟩
  · refine le_trans ?_ hlow
    rw [← mul_assoc]
    refine mul_le_mul_of_nonneg_right ?_ (Real.exp_pos _).le
    rw [cast_d18]
    norm_num
  · intro y s' v' hxy hs' hv'
    exact ⟨expSeries_mono hxy le_rfl le_rfl hs (exp_eq_series.mp hs'), exp_anti hxy hv hv'⟩

theorem exp_accurate_one : ∃ n s, n < maxIterations ∧
    (expWhile ⟨1000000000000000000⟩).Runs ⟨1, oneE18, oneE18⟩ (.ok (.done ⟨n, zero, s⟩)) ∧
    exp ⟨1000000000000000000⟩ false = .ok (some s) ∧
    (s.val : ℝ) ≤ d18 * Real.exp (toReal ⟨1000000000000000000⟩) := by
  obtain ⟨n, s, -, hn, hruns, hs, -, hhigh, -⟩ :=
    exp_accurate (x := ⟨1000000000000000000⟩) (by decide)
  exact ⟨n, s, hn, hruns, hs, hhigh⟩

end IndexDtf.Decimal
