import Mathlib.Data.Nat.Size
import IndexDtf.Lib.Loop
import IndexDtf.Shared.DecimalExp

/-!
# IndexDtf.Shared.DecimalLoops

**The loops of `pow`, `ln` and `exp` end.** Each is written out as the loop it is, without a bound
on its rounds; the functions that count rounds return what the loop comes to, since no loop has
more of them.

* `powLoop_runs` — the loop of `pow`, one round for each bit of the exponent;
* `lnRaise_runs`, `lnLower_runs` — the loops of `ln` that bring a number between one and e;
* `lnSeries_runs`, `expSeries_runs` — the series, which may break.
-/

namespace IndexDtf.Decimal

open Lib

/-! ### The loops -/

/-- The variables of the loop of `pow`. -/
structure PowState where
  base : Decimal
  result : Decimal
  exp : ℕ

/-- The loop of `pow`. -/
def powWhile : Loop Abort PowState where
  cond s := s.exp > 0
  body s := do
    let result ← (if s.exp % 2 = 1 then s.result.mulD18 s.base else .ok s.result)
    let base ← (if s.exp > 1 then s.base.mulD18 s.base else .ok s.base)
    .ok (.yield ⟨base, result, s.exp / 2⟩)

/-- The first loop of `ln`, of the normalized number and the power. -/
def lnRaiseWhile : Loop Abort (Decimal × ℤ) where
  cond s := s.1.val < d18
  body s := do .ok (.yield (← s.1.mulD18 e, s.2 - 1))

/-- The second loop of `ln`. -/
def lnLowerWhile : Loop Abort (Decimal × ℤ) where
  cond s := s.1.val ≥ e.val
  body s := do .ok (.yield (← (← s.1.mul oneE18).div e, s.2 + 1))

/-- The variables of the two series. -/
structure SeriesState where
  n : ℕ
  term : Decimal
  result : Decimal

/-- The loop of a series: `next` is the next term and the sum so far. -/
def seriesWhile (next : SeriesState → Result (Decimal × Decimal)) : Loop Abort SeriesState where
  cond s := s.n ≤ maxIterations
  body s := do
    let (term, result) ← next s
    .ok (if term.val < 1 then .done ⟨s.n, term, result⟩ else .yield ⟨s.n + 1, term, result⟩)

/-- The series of `ln`, which adds a part of the term before. -/
def lnSeriesWhile (zSquared : Decimal) : Loop Abort SeriesState :=
  seriesWhile fun s => do
    let result ← s.result.add (← s.term.div (fromScaled (2 * s.n - 1)))
    let term ← s.term.mulD18 zSquared
    .ok (term, result)

/-- The series of `exp`, which adds the next term. -/
def expWhile (x : Decimal) : Loop Abort SeriesState :=
  seriesWhile fun s => do
    let term ← (← s.term.mul x).div (← fromPlain s.n)
    let result ← s.result.add term
    .ok (term, result)

variable {fuel n : ℕ} {x zSquared term result : Decimal} {power : ℤ} {s s' : SeriesState}
  {next : SeriesState → Result (Decimal × Decimal)}

/-- Doubling a number gives it another bit. -/
theorem size_lt_of_double {a b : ℕ} (hb : 0 < b) (h : a * 2 ≤ b) : a.size < b.size := by
  obtain ⟨k, hk⟩ := Nat.exists_eq_succ_of_ne_zero (Nat.size_pos.mpr hb).ne'
  have hlt : b < 2 ^ b.size := Nat.lt_size_self b
  rw [hk, Nat.pow_succ] at hlt
  rw [hk, Nat.lt_succ_iff, Nat.size_le]
  omega

/-! ### The loop of `pow` -/

theorem powLoop_evaluate {s : PowState} :
    powLoop fuel s.base s.result s.exp
      = (powWhile.evaluate fuel s).map fun step => step.value.result := by
  refine Loop.evaluate_count PowState.result (fun fuel s => powLoop fuel s.base s.result s.exp)
    (fun _ _ => True) (fun _ _ => rfl) ?_ ?_ (fun _ _ _ _ _ => trivial) trivial
  · intro k s _ hcond
    have hzero : s.exp = 0 := Nat.eq_zero_of_not_pos (of_decide_eq_false hcond)
    rw [powLoop, if_pos hzero]
  · intro k s _ hcond
    have hpos : s.exp > 0 := of_decide_eq_true hcond
    rw [powLoop, if_neg hpos.ne']
    simp only [powWhile, bind_assoc, ok_bind, Loop.after_yield]
    by_cases hodd : s.exp % 2 = 1 <;> by_cases hone : s.exp > 1 <;>
      simp only [hodd, hone, if_true, if_false, ok_bind]

/-- A round shifts the exponent to the right. -/
theorem powWhile_round {s s' : PowState} (h : powWhile.body s = .ok (.yield s')) :
    s'.exp = s.exp / 2 := by
  simp only [powWhile, bind_eq_ok, Except.ok.injEq, ForInStep.yield.injEq] at h
  obtain ⟨_, -, _, -, rfl⟩ := h
  rfl

/-- The loop of `pow` ends after as many rounds as the exponent has bits. -/
theorem powLoop_runs : ∃ r, powWhile.Runs ⟨x, result, n⟩ r ∧
    powLoop (n.log2 + 1) x result n = r.map fun step => step.value.result := by
  refine ⟨_, Loop.evaluate_runs (fun _ => True) (fun s => s.exp.size) ?_ ?_ trivial ?_,
    powLoop_evaluate (s := ⟨x, result, n⟩)⟩
  · intro s _ hcond
    exact Nat.size_pos.mpr (of_decide_eq_true hcond)
  · intro s s' _ hcond hbody
    refine ⟨trivial, size_lt_of_double (of_decide_eq_true hcond) ?_⟩
    rw [powWhile_round hbody]
    exact Nat.div_mul_le_self ..
  · exact Nat.size_le.mpr Nat.lt_log2_self

/-! ### The loops of `ln` -/

theorem lnRaise_evaluate {s : Decimal × ℤ} :
    lnRaise fuel s.1 s.2 = (lnRaiseWhile.evaluate fuel s).map fun step => step.value := by
  refine Loop.evaluate_count id (fun fuel s => lnRaise fuel s.1 s.2) (fun _ _ => True)
    (fun _ _ => rfl) ?_ ?_ (fun _ _ _ _ _ => trivial) trivial
  · intro k s _ hcond
    have hge : ¬ s.1.val < d18 := of_decide_eq_false hcond
    rw [lnRaise, if_neg hge]
    rfl
  · intro k s _ hcond
    have hlt : s.1.val < d18 := of_decide_eq_true hcond
    rw [lnRaise, if_pos hlt]
    simp only [lnRaiseWhile, bind_assoc, ok_bind, Loop.after_yield]

theorem lnLower_evaluate {s : Decimal × ℤ} :
    lnLower fuel s.1 s.2 = (lnLowerWhile.evaluate fuel s).map fun step => step.value := by
  refine Loop.evaluate_count id (fun fuel s => lnLower fuel s.1 s.2) (fun _ _ => True)
    (fun _ _ => rfl) ?_ ?_ (fun _ _ _ _ _ => trivial) trivial
  · intro k s _ hcond
    have hlt : ¬ s.1.val ≥ e.val := of_decide_eq_false hcond
    rw [lnLower, if_neg hlt]
    rfl
  · intro k s _ hcond
    have hge : s.1.val ≥ e.val := of_decide_eq_true hcond
    rw [lnLower, if_pos hge]
    simp only [lnLowerWhile, bind_assoc, ok_bind, Loop.after_yield]

/-- A round of the first loop at least doubles the number. -/
theorem lnRaiseWhile_round {s s' : Decimal × ℤ} (h : lnRaiseWhile.body s = .ok (.yield s')) :
    s.1.val * 2 ≤ s'.1.val := by
  simp only [lnRaiseWhile, bind_eq_ok, mulD18_eq_ok, Except.ok.injEq, ForInStep.yield.injEq] at h
  obtain ⟨_, ⟨-, rfl⟩, rfl⟩ := h
  rw [Nat.le_div_iff_mul_le (by decide), Nat.mul_assoc]
  exact Nat.mul_le_mul_left _ (by decide)

/-- A round of the second loop at least halves it. -/
theorem lnLowerWhile_round {s s' : Decimal × ℤ} (h : lnLowerWhile.body s = .ok (.yield s')) :
    s'.1.val * 2 ≤ s.1.val := by
  simp only [lnLowerWhile, bind_eq_ok, mul_eq_ok, div_eq_ok, Except.ok.injEq,
    ForInStep.yield.injEq] at h
  obtain ⟨_, ⟨-, rfl⟩, _, ⟨-, rfl⟩, rfl⟩ := h
  have hdiv : s.1.val * oneE18.val / e.val * 27 ≤ s.1.val * 10 := div_e_le _
  show s.1.val * oneE18.val / e.val * 2 ≤ s.1.val
  omega

/-- The first loop ends: a number below one has at most 60 bits. -/
theorem lnRaise_runs (power : ℤ) (hx : 0 < x.val) : ∃ r, lnRaiseWhile.Runs (x, power) r ∧
    lnRaise 256 x power = r.map fun step => step.value := by
  have hbits {s : Decimal × ℤ} (hcond : lnRaiseWhile.cond s = true) : s.1.val.size ≤ 60 := by
    have hlt : s.1.val < d18 := of_decide_eq_true hcond
    exact Nat.size_le.mpr (hlt.trans (by decide))
  refine ⟨_, Loop.evaluate_runs (fun s => 0 < s.1.val) (fun s => 61 - s.1.val.size) ?_ ?_ hx ?_,
    lnRaise_evaluate (s := (x, power))⟩
  · intro s _ hcond
    have hsize := hbits hcond
    omega
  · intro s s' hs hcond hbody
    have hsize := hbits hcond
    have hdouble := lnRaiseWhile_round hbody
    have hmore : s.1.val.size < s'.1.val.size := size_lt_of_double (by omega) hdouble
    exact ⟨by omega, by omega⟩
  · omega

/-- The second loop ends: a number has at most 256 bits. -/
theorem lnLower_runs (power : ℤ) (hx : x.val < u256Bound) : ∃ r, lnLowerWhile.Runs (x, power) r ∧
    lnLower 256 x power = r.map fun step => step.value := by
  refine ⟨_, Loop.evaluate_runs (fun _ => True) (fun s => s.1.val.size) ?_ ?_ trivial ?_,
    lnLower_evaluate (s := (x, power))⟩
  · intro s _ hcond
    have hge : s.1.val ≥ e.val := of_decide_eq_true hcond
    exact Nat.size_pos.mpr (lt_of_lt_of_le (by decide) hge)
  · intro s s' _ hcond hbody
    have hge : s.1.val ≥ e.val := of_decide_eq_true hcond
    have hhalf := lnLowerWhile_round hbody
    exact ⟨trivial, size_lt_of_double (lt_of_lt_of_le (by decide) hge) hhalf⟩
  · exact Nat.size_le.mpr hx

/-! ### The series -/

/-- A round of a series that goes on: the next term is not zero. -/
theorem seriesWhile_round (h : (seriesWhile next).body s = .ok (.yield s')) :
    s'.n = s.n + 1 ∧ next s = .ok (s'.term, s'.result) ∧ 0 < s'.term.val := by
  simp only [seriesWhile, bind_eq_ok, Except.ok.injEq] at h
  obtain ⟨⟨term, result⟩, hnext, h⟩ := h
  split at h
  · cases h
  · next hge =>
    cases h
    exact ⟨rfl, hnext, Nat.le_of_not_lt hge⟩

/-- One that breaks: it is. -/
theorem seriesWhile_break (h : (seriesWhile next).body s = .ok (.done s')) :
    s'.n = s.n ∧ next s = .ok (s'.term, s'.result) ∧ s'.term = zero := by
  simp only [seriesWhile, bind_eq_ok, Except.ok.injEq] at h
  obtain ⟨⟨⟨t⟩, result⟩, hnext, h⟩ := h
  split at h
  · next hlt =>
    cases h
    obtain rfl : t = 0 := Nat.lt_one_iff.mp hlt
    exact ⟨rfl, hnext, rfl⟩
  · cases h

/-- The counter bounds a series, also for a function that counts the rounds down. -/
theorem seriesWhile_runs {f : ℕ → ℕ → Decimal → Decimal → Result Decimal}
    (hzero : ∀ n term result, f 0 n term result = .ok result)
    (hsucc : ∀ rounds n term result, f (rounds + 1) n term result = (do
      let (term, result) ← next ⟨n, term, result⟩
      if term.val < 1 then .ok result else f rounds (n + 1) term result)) :
    ∃ r, (seriesWhile next).Runs ⟨1, term, result⟩ r ∧
      f maxIterations 1 term result = r.map fun step => step.value.result := by
  refine ⟨_, Loop.evaluate_runs (fun _ => True) (fun s => maxIterations + 1 - s.n) ?_ ?_ trivial
    le_rfl, Loop.evaluate_count (s := ⟨1, term, result⟩) SeriesState.result
      (fun fuel s => f fuel s.n s.term s.result) (fun fuel s => s.n + fuel = maxIterations + 1)
      (fun _ _ => hzero ..) ?_ ?_ ?_ (Nat.add_comm ..)⟩
  · intro s _ hcond
    exact Nat.sub_pos_of_lt (Nat.lt_succ_of_le (of_decide_eq_true hcond))
  · intro s s' _ hcond hbody
    have hle : s.n ≤ maxIterations := of_decide_eq_true hcond
    obtain ⟨hnext, -⟩ := seriesWhile_round hbody
    exact ⟨trivial, by omega⟩
  · intro k s hs hcond
    have hgt : ¬ s.n ≤ maxIterations := of_decide_eq_false hcond
    omega
  · intro k s _ _
    rw [hsucc]
    simp only [seriesWhile, bind_assoc, ok_bind, Loop.after_ite, Loop.after_done, Loop.after_yield]
  · intro k s s' hs hbody
    obtain ⟨hnext, -⟩ := seriesWhile_round hbody
    omega

theorem lnSeries_runs : ∃ r, (lnSeriesWhile zSquared).Runs ⟨1, term, result⟩ r ∧
    lnSeries zSquared maxIterations 1 term result = r.map fun step => step.value.result := by
  refine seriesWhile_runs (fun _ _ _ => rfl) ?_
  intro rounds n term result
  simp only [lnSeries, bind_assoc, ok_bind]

theorem expSeries_runs : ∃ r, (expWhile x).Runs ⟨1, term, result⟩ r ∧
    expSeries x maxIterations 1 term result = r.map fun step => step.value.result := by
  refine seriesWhile_runs (fun _ _ _ => rfl) ?_
  intro rounds n term result
  simp only [expSeries, bind_assoc, ok_bind]

end IndexDtf.Decimal
