import IndexDtf.Lib.FixedPoint
import IndexDtf.Shared.Decimal

/-!
# IndexDtf.Shared.DecimalPow

What `pow` and `nth_root` return on the numbers the fee code gives them: bases
and radicands of at most one.

* `pow_of_le_one` — `pow` of a base of at most one succeeds and is `powTrunc`;
* `nthRoot_year` — the root the yearly rates are turned into per-second rates
  with: it succeeds, and one minus the root is the rate `perSecond`.
-/

namespace IndexDtf.Decimal

open Lib

theorem ratCast_d18 : (d18 : ℚ) = 1000000000000000000 := by norm_num [d18]

theorem ratCast_d18_pos : (0 : ℚ) < d18 := by
  rw [ratCast_d18]
  norm_num

/-! ### Powers of a base of at most one -/

/-- Products of numbers of at most one stay far below 256 bits. -/
theorem mulD18_of_le_one {x y : Decimal} (hx : x.val ≤ d18) (hy : y.val ≤ d18) :
    x.mulD18 y = .ok ⟨mulTrunc d18 x.val y.val⟩ := by
  rw [mulD18_eq_ok]
  refine ⟨?_, rfl⟩
  calc x.val * y.val ≤ d18 * d18 := Nat.mul_le_mul hx hy
    _ < u256Bound := by decide

theorem powLoop_of_le_one {fuel exp : ℕ} {base result : Decimal} (hb : base.val ≤ d18)
    (hr : result.val ≤ d18) :
    powLoop fuel base result exp = .ok ⟨powTrunc d18 fuel base.val result.val exp⟩ := by
  induction fuel generalizing base result exp with
  | zero => rfl
  | succ fuel ih =>
      unfold powLoop powTrunc
      rw [mulD18_of_le_one hr hb, mulD18_of_le_one hb hb]
      have hrb := (mulTrunc_le_left (a := result.val) hb).trans hr
      have hbb := (mulTrunc_le_left (a := base.val) hb).trans hb
      by_cases h0 : exp = 0
      · simp [h0]
      · by_cases h1 : exp > 1 <;> by_cases h2 : exp % 2 = 1 <;>
          simp [h0, h1, h2, ih, hr, hb, hrb, hbb]

/-- A power of a base of at most one is computed without overflow. -/
theorem pow_of_le_one {x : Decimal} (hx : x.val ≤ d18) (n : ℕ) :
    x.pow n = .ok ⟨powTrunc d18 (n.log2 + 1) x.val d18 n⟩ := by
  unfold pow
  split
  · next h => simp [h, powTrunc, oneE18]
  · split
    · next h =>
        subst h
        have hone : mulTrunc d18 d18 x.val = x.val := Nat.mul_div_cancel_left _ (by decide)
        simp [powTrunc, hone, Nat.log2]
    · exact powLoop_of_le_one hx le_rfl

/-! ### The per-second rate of a yearly rate -/

/-- What the series of `nth_root` takes off one, for a number that is `a` below
one: the sum of its three terms. -/
def rootDrop (n a : ℕ) : ℕ :=
  a / n + a * a * (n - 1) / d18 / (n * n) / 2
    + a * a * a * ((n - 1) * (n - 2)) / d18 / d18 / (n * n * n) / 6

theorem rootDrop_mono {n a b : ℕ} (h : a ≤ b) : rootDrop n a ≤ rootDrop n b := by
  unfold rootDrop
  gcongr

/-- The series is evaluated without overflow while the terms before the
divisions fit. -/
theorem nthRootTerms_of {n a : ℕ} (hn : 2 ≤ n) (hsq : n * n ≤ u64Max)
    (hcube : n * n * n ≤ u128Max)
    (hbound : a * a * a * (n * n) < u256Bound) (ha : 0 < a) :
    nthRootTerms ⟨a⟩ n = .ok
      (⟨a / n⟩, ⟨a * a * (n - 1) / d18 / (n * n) / 2⟩,
        ⟨a * a * a * ((n - 1) * (n - 2)) / d18 / d18 / (n * n * n) / 6⟩) := by
  have hnum : (n - 1) * (n - 2) ≤ n * n := Nat.mul_le_mul (Nat.sub_le ..) (Nat.sub_le ..)
  have hn₁ : n - 1 ≤ n * n := (Nat.sub_le ..).trans (Nat.le_mul_self n)
  have haa : a * a ≤ a * a * a := Nat.le_mul_of_pos_right _ ha
  have h₄ : a * a * a * ((n - 1) * (n - 2)) < u256Bound :=
    lt_of_le_of_lt (Nat.mul_le_mul_left _ hnum) hbound
  have h₂ : a * a * (n - 1) < u256Bound := lt_of_le_of_lt (Nat.mul_le_mul haa hn₁) hbound
  have h₃ : a * a * a < u256Bound :=
    lt_of_le_of_lt (Nat.le_mul_of_pos_right _ (Nat.mul_pos (by omega) (by omega))) hbound
  have h₁ : a * a < u256Bound := lt_of_le_of_lt haa h₃
  have hpos : 0 < n ∧ 0 < n * n ∧ 0 < n * n * n := by
    refine ⟨by omega, ?_, ?_⟩ <;> positivity
  have hY : checkedMulU64 n n = .ok (n * n) := by simp [hsq]
  have hY₃ : checkedMulU128 (n * n) n = .ok (n * n * n) := by simp [hcube]
  have hN : checkedMulU64 (n - 1) (n - 2) = .ok ((n - 1) * (n - 2)) := by
    simp [hnum.trans hsq]
  have hs₁ : checkedSub n 1 = .ok (n - 1) := by simp; omega
  have hs₂ : checkedSub n 2 = .ok (n - 2) := by simp [hn]
  have hd (m k : ℕ) (hk : 0 < k) : div ⟨m⟩ (fromScaled k) = .ok ⟨m / k⟩ := div_of hk
  have hd₁₈ (m : ℕ) : div ⟨m⟩ oneE18 = .ok ⟨m / d18⟩ := div_of (by decide)
  simp only [nthRootTerms, mul, checked_of, h₁, h₂, h₃, h₄, hY, hY₃, hN, hs₁, hs₂, ok_bind,
    fromScaled_val, hd, hd₁₈, hpos, Nat.zero_lt_succ]

/-- Three subtractions from one succeed when their sum fits. -/
theorem sub_sub_sub {x y z : ℕ} (h : x + y + z ≤ d18) :
    (do (← (← oneE18.sub ⟨x⟩).sub ⟨y⟩).sub ⟨z⟩) = .ok (⟨d18 - (x + y + z)⟩ : Decimal) := by
  rw [sub_of (x := oneE18) (show x ≤ d18 by omega), ok_bind,
    sub_of (show y ≤ oneE18.val - x by simp only [oneE18]; omega), ok_bind, sub_eq_ok]
  simp only [oneE18, Decimal.mk.injEq]
  omega

/-- Above the bound of the binary search, the root of a number just below one is
one minus the series. -/
theorem nthRoot_of {n a : ℕ} (hn : nthRootUpperBound < n) (hsq : n * n ≤ u64Max)
    (hcube : n * n * n ≤ u128Max) (hbound : a * a * a * (n * n) < u256Bound) (ha : a < d18)
    (hdrop : rootDrop n a ≤ d18) : nthRoot ⟨d18 - a⟩ n = .ok ⟨d18 - rootDrop n a⟩ := by
  have hx : (⟨d18 - a⟩ : Decimal) ≠ zero := by
    simp only [zero, ne_eq, Decimal.mk.injEq]
    omega
  rw [nthRoot, if_neg hx]
  rcases Nat.eq_zero_or_pos a with rfl | hpos
  · simp [oneE18, rootDrop]
  · have hx₁ : (⟨d18 - a⟩ : Decimal) ≠ oneE18 := by
      simp only [oneE18, ne_eq, Decimal.mk.injEq]
      omega
    have hone : 2 ≤ n := by unfold nthRootUpperBound at hn; omega
    have hsub : oneE18.sub ⟨d18 - a⟩ = .ok ⟨a⟩ := by
      rw [sub_eq_ok]
      exact ⟨Nat.sub_le .., congrArg _ (Nat.sub_sub_self ha.le)⟩
    rw [if_neg hx₁, if_pos hn, hsub, ok_bind, nthRootTerms_of hone hsq hcube hbound hpos, ok_bind]
    exact sub_sub_sub hdrop

/-- The yearly rate `a` as a rate per second: one minus the
`YEAR_IN_SECONDS`-th root of one minus `a`. -/
def perSecond (a : ℕ) : ℕ := rootDrop yearInSeconds a

/-- Up to the largest yearly rate, the rate per second is about 3.34e-9. -/
theorem perSecond_le {a : ℕ} (ha : a ≤ maxTvlFee) : perSecond a ≤ 3400000000 :=
  (rootDrop_mono ha).trans (by decide)

/-- The conversion of a yearly rate of at most `MAX_TVL_FEE` succeeds. -/
theorem nthRoot_year {a : ℕ} (ha : a ≤ maxTvlFee) :
    nthRoot ⟨d18 - a⟩ yearInSeconds = .ok ⟨d18 - perSecond a⟩ := by
  have hcube : a * a * a ≤ maxTvlFee * maxTvlFee * maxTvlFee :=
    Nat.mul_le_mul (Nat.mul_le_mul ha ha) ha
  refine nthRoot_of (by decide) (by decide) (by decide) ?_ (lt_of_le_of_lt ha (by decide)) ?_
  · exact lt_of_le_of_lt (Nat.mul_le_mul_right _ hcube) (by decide)
  · exact (perSecond_le ha).trans (by decide)

/-- A yearly rate is lost altogether in the conversion exactly when it is
smaller than the number of seconds in a year. -/
theorem perSecond_eq_zero_iff {a : ℕ} : perSecond a = 0 ↔ a < yearInSeconds := by
  constructor
  · intro h
    rw [perSecond, rootDrop, Nat.add_eq_zero_iff, Nat.add_eq_zero_iff] at h
    obtain ⟨⟨hfirst, -⟩, -⟩ := h
    exact (Nat.div_eq_zero_iff.mp hfirst).resolve_left (by decide)
  · intro h
    have hmono := rootDrop_mono (n := yearInSeconds) (Nat.le_sub_one_of_lt h)
    have hlast : rootDrop yearInSeconds (yearInSeconds - 1) = 0 := by decide
    rw [hlast] at hmono
    exact Nat.le_zero.mp hmono

/-- Over ten years even the largest rate leaves more than a third: Bernoulli's inequality, for each
quarter. -/
theorem decay_ge {rate elapsed : ℕ} (hrate : rate ≤ 3400000000)
    (helapsed : elapsed ≤ yearInSeconds * 10) :
    (100 / 297 : ℚ) ≤ (((d18 - rate : ℕ) : ℚ) / d18) ^ elapsed := by
  have hle : rate ≤ d18 := hrate.trans (by decide)
  have hS := ratCast_d18
  have hr : (rate : ℚ) ≤ 3400000000 := by exact_mod_cast hrate
  have hbase : ((d18 - rate : ℕ) : ℚ) / d18 = 1 - rate / d18 := by
    rw [Nat.cast_sub hle, hS]
    ring
  have hquarter : (7884000 : ℕ) * (rate / d18 : ℚ) ≤ 26806 / 1000000 := by
    rw [hS]
    push_cast
    linarith
  have hten : elapsed ≤ 7884000 * 40 := helapsed
  have hdecay := decay_lower (x := (rate / d18 : ℚ)) (by positivity) (by linarith)
    (by rw [hS]; linarith) hten
  have hforty : (973194 / 1000000 : ℚ) ^ 40 ≤ (1 - (7884000 : ℕ) * (rate / d18 : ℚ)) ^ 40 :=
    pow_le_pow_left₀ (by norm_num) (by linarith) 40
  rw [hbase]
  exact le_trans (by norm_num) (hforty.trans hdecay)

/-- So does the power that is computed, up to its units. -/
theorem decay_ten_years {rate elapsed : ℕ} (hrate : rate ≤ 3400000000)
    (helapsed : elapsed ≤ yearInSeconds * 10) :
    d18 / 5 ≤ powTrunc d18 (elapsed.log2 + 1) (d18 - rate) d18 elapsed := by
  have hS := ratCast_d18
  have hel : (elapsed : ℚ) ≤ 315360000 := by
    have : elapsed ≤ 315360000 := helapsed
    exact_mod_cast this
  have hdecay := decay_ge hrate helapsed
  have hpow := powTrunc_lower (S := d18) (b := d18 - rate) (n := elapsed) (by decide)
    (Nat.sub_le ..)
  have hfifth : ((d18 / 5 : ℕ) : ℚ) ≤ powTrunc d18 (elapsed.log2 + 1) (d18 - rate) d18 elapsed := by
    refine le_trans ?_ hpow
    have hq : ((d18 / 5 : ℕ) : ℚ) = 200000000000000000 := by norm_num [d18]
    have hmul := mul_le_mul_of_nonneg_left hdecay (by positivity : (0 : ℚ) ≤ d18)
    rw [hS] at hmul ⊢
    linarith
  exact_mod_cast hfifth

end IndexDtf.Decimal
