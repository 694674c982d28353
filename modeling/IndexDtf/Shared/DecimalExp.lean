import Mathlib.Tactic.Linarith
import Mathlib.Tactic.Ring
import IndexDtf.Shared.Decimal

/-!
# IndexDtf.Shared.DecimalExp

When `ln` and `exp` return: neither overflows on the numbers a price curve gives them.

* `ln_of_rounds` — the logarithm of a number that few divisions by e bring below e is computed;
* `ln_total` — so is that of a ratio from 1 to 10⁹, which is below 22;
* `exp_total` — so is the inverse of the exponential up to 24, which is at most 1.
-/

namespace IndexDtf.Decimal

open Lib

/-- A quotient that is multiplied stays below what the numerator does. -/
theorem floor_mul_le {a c k m : ℕ} (hc : 0 < c) (h : a * k ≤ m * c) : a / c * k ≤ m := by
  refine Nat.le_of_mul_le_mul_right ?_ hc
  calc a / c * k * c = a / c * c * k := Nat.mul_right_comm ..
    _ ≤ a * k := Nat.mul_le_mul_right k (Nat.div_mul_le_self a c)
    _ ≤ m * c := h

/-! ### The logarithm -/

/-- A division by e takes more than 27 tenths off. -/
theorem div_e_le (n : ℕ) : n * d18 / e.val * 27 ≤ n * 10 := by
  have hdiv : n * d18 / e.val * e.val ≤ n * d18 := Nat.div_mul_le_self ..
  simp only [e, d18] at hdiv ⊢
  omega

/-- Dividing by e: after `rounds` rounds at most the number is below e, if it is below
e times 2.7 to the power of `rounds`. -/
theorem lnLower_total {fuel rounds : ℕ} {x : Decimal} {power : ℤ} (hfuel : rounds < fuel)
    (hone : d18 ≤ x.val) (hfits : x.val * d18 < u256Bound)
    (hbound : x.val * 10 ^ rounds < e.val * 27 ^ rounds) :
    ∃ y power', lnLower fuel x power = .ok (y, power') ∧ d18 ≤ y.val ∧ y.val < e.val ∧
      power ≤ power' ∧ power' ≤ power + rounds := by
  induction rounds generalizing fuel x power with
  | zero =>
      obtain ⟨fuel, rfl⟩ := Nat.exists_eq_add_of_lt hfuel
      have hlt : x.val < e.val := by omega
      refine ⟨x, power, ?_, hone, hlt, le_rfl, by omega⟩
      rw [lnLower, if_neg (by omega)]
  | succ rounds ih =>
      obtain ⟨fuel, rfl⟩ : ∃ k, fuel = k + 1 := ⟨fuel - 1, by omega⟩
      rw [lnLower]
      split
      · next hge =>
        have hdiv := div_e_le x.val
        have hfits' : x.val * d18 / e.val * d18 < u256Bound :=
          (Nat.mul_le_mul_right d18 (by omega)).trans_lt hfits
        have hone' : d18 ≤ x.val * d18 / e.val := by
          rw [Nat.le_div_iff_mul_le (by decide), Nat.mul_comm]
          exact Nat.mul_le_mul_right d18 hge
        have hbound' : x.val * d18 / e.val * 10 ^ rounds < e.val * 27 ^ rounds := by
          refine lt_of_mul_lt_mul_right ?_ (Nat.zero_le 27)
          calc x.val * d18 / e.val * 10 ^ rounds * 27
              = x.val * d18 / e.val * 27 * 10 ^ rounds := by ring
            _ ≤ x.val * 10 * 10 ^ rounds := Nat.mul_le_mul_right _ hdiv
            _ = x.val * 10 ^ (rounds + 1) := by ring
            _ < e.val * 27 ^ (rounds + 1) := hbound
            _ = e.val * 27 ^ rounds * 27 := by ring
        rw [mul_of (y := oneE18) hfits, ok_bind, div_of (by decide), ok_bind]
        obtain ⟨y, power', hy, hlow, hhigh, hle, hle'⟩ : ∃ y power',
            lnLower fuel ⟨x.val * d18 / e.val⟩ (power + 1) = .ok (y, power') ∧
            d18 ≤ y.val ∧ y.val < e.val ∧ power + 1 ≤ power' ∧ power' ≤ power + 1 + rounds :=
          ih (by omega) hone' hfits' hbound'
        exact ⟨y, power', hy, hlow, hhigh, by omega, by omega⟩
      · next hlt => exact ⟨x, power, rfl, hone, by omega, le_rfl, by omega⟩

/-- The series of `ln`, at a number whose square is at most a quarter: three times what was added
up and four times the next term never exceed four times the first term. -/
theorem lnSeries_total {zSquared term result : Decimal} {rounds n : ℕ}
    (hn : 1 ≤ n) (hz : zSquared.val * 4 ≤ d18) (hsmall : result.val * 3 + term.val * 4 ≤ 4 * d18) :
    ∃ y, lnSeries zSquared rounds n term result = .ok y ∧
      y.val * 3 ≤ result.val * 3 + term.val * 4 := by
  induction rounds generalizing n term result with
  | zero => exact ⟨result, rfl, by omega⟩
  | succ rounds ih =>
      have hdiv : term.val / (2 * n - 1) ≤ term.val := Nat.div_le_self ..
      have hd18 : 4 * d18 < u256Bound := by decide
      have hmul : term.val * zSquared.val < u256Bound := by
        calc term.val * zSquared.val ≤ d18 * d18 := Nat.mul_le_mul (by omega) (by omega)
          _ < u256Bound := by decide
      have hquarter : term.val * zSquared.val / d18 * 4 ≤ term.val := by
        refine floor_mul_le (by decide) ?_
        rw [Nat.mul_assoc]
        exact Nat.mul_le_mul_left _ hz
      have hpos : 0 < (fromScaled (2 * n - 1)).val := by
        rw [fromScaled_val]
        omega
      rw [lnSeries, div_of hpos, ok_bind, add_of (by simp only [fromScaled_val]; omega), ok_bind,
        mulD18_eq_ok.mpr ⟨hmul, rfl⟩, ok_bind]
      simp only [fromScaled_val]
      split
      · exact ⟨_, rfl, by simp only; omega⟩
      · obtain ⟨y, hy, hle⟩ : ∃ y, lnSeries zSquared rounds (n + 1)
            ⟨term.val * zSquared.val / d18⟩ ⟨result.val + term.val / (2 * n - 1)⟩ = .ok y ∧
            y.val * 3 ≤ (result.val + term.val / (2 * n - 1)) * 3
              + term.val * zSquared.val / d18 * 4 := ih (by omega) (by simp only; omega)
        exact ⟨y, hy, by omega⟩

/-- The series at a number of at most a half. -/
theorem lnSeries_half {z : ℕ} (hz : z * 2 ≤ d18) :
    ∃ s, lnSeries ⟨z * z / d18⟩ maxIterations 1 ⟨z⟩ zero = .ok s ∧ s.val * 3 ≤ z * 4 := by
  have hsquare : z * z / d18 * 4 ≤ d18 := by
    refine floor_mul_le (by decide) ?_
    calc z * z * 4 = z * 2 * (z * 2) := by ring
      _ ≤ d18 * d18 := Nat.mul_le_mul hz hz
  obtain ⟨s, hs, hle⟩ : ∃ s, lnSeries ⟨z * z / d18⟩ maxIterations 1 ⟨z⟩ zero = .ok s ∧
      s.val * 3 ≤ zero.val * 3 + z * 4 :=
    lnSeries_total le_rfl hsquare (by simp only [zero]; omega)
  exact ⟨s, hs, by simpa only [zero, Nat.zero_mul, Nat.zero_add] using hle⟩

/-- The number `(y - 1) / (y + 1)` of the series is at most a half, as `y` is below 3. -/
theorem normalized_half {y : ℕ} (hone : d18 ≤ y) (hbelow : y < e.val) :
    (y - d18) * d18 / (y + d18) * 2 ≤ d18 := by
  have he : e.val < 3 * d18 := by decide
  have hd18 : 0 < d18 := by decide
  refine floor_mul_le (by omega) ?_
  calc (y - d18) * d18 * 2 = d18 * ((y - d18) * 2) := by ring
    _ ≤ d18 * (y + d18) := Nat.mul_le_mul_left d18 (by omega)

/-- `ln` of a number from one up that needs `rounds` divisions by e at most. -/
theorem ln_of_rounds {x : Decimal} {rounds : ℕ} (hrounds : rounds < 256) (hone : d18 ≤ x.val)
    (hfits : x.val * d18 < u256Bound) (hbound : x.val * 10 ^ rounds < e.val * 27 ^ rounds) :
    ∃ y, x.ln = .ok (some y) ∧ y.val ≤ (rounds + 2) * d18 := by
  rw [ln]
  split
  · exact ⟨zero, rfl, Nat.zero_le _⟩
  · have hd18 : 0 < d18 := by decide
    have hpos : x.isZero = false := by
      simp only [isZero, decide_eq_false_iff_not]
      omega
    have hraise : lnRaise 256 x 0 = .ok (x, 0) := by rw [lnRaise, if_neg (by omega)]
    obtain ⟨y, power, hlower, hlow, hhigh, hpower, hpower'⟩ : ∃ y power,
        lnLower 256 x 0 = .ok (y, power) ∧ d18 ≤ y.val ∧ y.val < e.val ∧ 0 ≤ power ∧
          power ≤ 0 + rounds := lnLower_total hrounds hone hfits hbound
    have he : e.val < 3 * d18 := by decide
    have hfit : 258 * d18 < u256Bound := by decide
    have hnumerator : (y.val - d18) * d18 < u256Bound :=
      (Nat.mul_le_mul_right d18 (by omega : y.val - d18 ≤ 2 * d18)).trans_lt (by decide)
    have hz := normalized_half hlow hhigh
    obtain ⟨series, hseries, hsum⟩ := lnSeries_half hz
    have hzz : (y.val - d18) * d18 / (y.val + d18) * ((y.val - d18) * d18 / (y.val + d18))
        < u256Bound := by
      calc _ ≤ d18 * d18 := Nat.mul_le_mul (by omega) (by omega)
        _ < u256Bound := by decide
    have hpow : d18 * power.natAbs ≤ rounds * d18 := by
      rw [Nat.mul_comm]
      exact Nat.mul_le_mul_right d18 (by omega)
    have hmax : rounds * d18 ≤ 255 * d18 := Nat.mul_le_mul_right d18 (by omega)
    rw [hpos, hraise, ok_bind]
    simp only [Bool.false_eq_true, if_false]
    rw [hlower, ok_bind]
    simp only [oneE18]
    rw [sub_of (y := ⟨d18⟩) hlow, ok_bind, add_of (by simp only; omega), ok_bind]
    simp only
    rw [mul_of (x := ⟨y.val - d18⟩) (y := ⟨d18⟩) hnumerator, ok_bind, div_of (by simp only; omega),
      ok_bind]
    simp only
    rw [mulD18_eq_ok.mpr ⟨hzz, rfl⟩, ok_bind, hseries, ok_bind,
      mul_of (by simp only [fromScaled_val]; omega), ok_bind,
      mul_of (by simp only [fromScaled_val]; omega), ok_bind]
    simp only [fromScaled_val, Nat.add_mul]
    split
    · rw [add_of (by simp only; omega), ok_bind]
      exact ⟨_, rfl, by simp only; omega⟩
    · rw [if_neg (by omega)]
      exact ⟨_, rfl, by simp only; omega⟩

/-- A number up to 10⁹ needs 20 divisions. -/
theorem lt_of_le_billion {x : ℕ} (hfits : x ≤ 10 ^ 27) :
    x * d18 < u256Bound ∧ x * 10 ^ 20 < e.val * 27 ^ 20 :=
  ⟨(Nat.mul_le_mul_right _ hfits).trans_lt (by decide),
    (Nat.mul_le_mul_right _ hfits).trans_lt (by decide)⟩

/-- `ln` of a number from 1 to 10⁹. -/
theorem ln_total {x : Decimal} (hone : d18 ≤ x.val) (hfits : x.val ≤ 10 ^ 27) :
    ∃ y, x.ln = .ok (some y) ∧ y.val ≤ 22 * d18 := by
  obtain ⟨hsmall, hbound⟩ := lt_of_le_billion hfits
  exact ln_of_rounds (by decide) hone hsmall hbound

/-! ### The exponential -/

/-- At a number of at most `c`, the next term is at most `c / n` of the one before. -/
theorem nextTerm_mul_le {term x n c : ℕ} (hn : 0 < n * d18) (hx : x ≤ c * d18) :
    term * x / (n * d18) * n ≤ term * c := by
  refine floor_mul_le hn ?_
  calc term * x * n ≤ term * (c * d18) * n := Nat.mul_le_mul_right n (Nat.mul_le_mul_left _ hx)
    _ = term * c * (n * d18) := by ring

/-- The terms of the series grow at most until the 24th, if the number is at most 24. -/
theorem expSeries_total {x term result : Decimal} {rounds n : ℕ} (hn : 1 ≤ n)
    (hrounds : rounds + n ≤ 101) (hx : x.val ≤ 24 * d18)
    (hterm : term.val * 24 ^ (25 - n) ≤ 24 ^ 24 * d18)
    (hresult : result.val + rounds * (24 ^ 24 * d18) ≤ 101 * (24 ^ 24 * d18)) :
    ∃ y, expSeries x rounds n term result = .ok y ∧ result.val ≤ y.val := by
  induction rounds generalizing n term result with
  | zero => exact ⟨result, rfl, le_rfl⟩
  | succ rounds ih =>
      have hsmall : term.val ≤ 24 ^ 24 * d18 := by
        refine le_trans ?_ hterm
        exact Nat.le_mul_of_pos_right _ (Nat.pow_pos (by decide))
      have hmul : term.val * x.val < u256Bound :=
        (Nat.mul_le_mul hsmall hx).trans_lt (by decide)
      have hplain : n * d18 < u256Bound :=
        (Nat.mul_le_mul_right d18 (by omega : n ≤ 101)).trans_lt (by decide)
      have hpos : 0 < n * d18 := Nat.mul_pos hn (by decide)
      have hnext : term.val * x.val / (n * d18) * n ≤ term.val * 24 := nextTerm_mul_le hpos hx
      have hterm' : term.val * x.val / (n * d18) * 24 ^ (25 - (n + 1)) ≤ 24 ^ 24 * d18 := by
        by_cases hlate : 25 ≤ n
        · rw [show 25 - (n + 1) = 0 by omega, Nat.pow_zero, Nat.mul_one]
          refine le_trans (Nat.le_of_mul_le_mul_right ?_ hn) hsmall
          exact hnext.trans (Nat.mul_le_mul_left _ (by omega))
        · rw [show 25 - n = 25 - (n + 1) + 1 by omega, Nat.pow_succ] at hterm
          calc term.val * x.val / (n * d18) * 24 ^ (25 - (n + 1))
              ≤ term.val * 24 * 24 ^ (25 - (n + 1)) :=
                Nat.mul_le_mul_right _ ((Nat.le_mul_of_pos_right _ hn).trans hnext)
            _ = term.val * (24 ^ (25 - (n + 1)) * 24) := by ring
            _ ≤ 24 ^ 24 * d18 := hterm
      have hbound : 101 * (24 ^ 24 * d18) < u256Bound := by decide
      have hle : term.val * x.val / (n * d18) ≤ 24 ^ 24 * d18 :=
        (Nat.le_mul_of_pos_right _ (Nat.pow_pos (by decide))).trans hterm'
      rw [Nat.add_mul, Nat.one_mul] at hresult
      rw [expSeries, mul_of hmul, ok_bind, fromPlain, checked_of hplain, ok_bind, div_of hpos,
        ok_bind, add_of (by simp only; omega), ok_bind]
      simp only
      split
      · exact ⟨_, rfl, Nat.le_add_right ..⟩
      · obtain ⟨y, hy, hle'⟩ : ∃ y, expSeries x rounds (n + 1) ⟨term.val * x.val / (n * d18)⟩
            ⟨result.val + term.val * x.val / (n * d18)⟩ = .ok y ∧
            result.val + term.val * x.val / (n * d18) ≤ y.val :=
          ih (by omega) (by omega) hterm' (by simp only; omega)
        exact ⟨y, hy, (Nat.le_add_right ..).trans hle'⟩

/-- The inverse of `exp` of a number of at most 24. -/
theorem exp_total {x : Decimal} (hx : x.val ≤ 24 * d18) :
    ∃ y, x.exp true = .ok (some y) ∧ y.val ≤ d18 := by
  rw [exp]
  split
  · exact ⟨oneE18, rfl, le_rfl⟩
  · obtain ⟨y, hy, hone⟩ : ∃ y, expSeries x maxIterations 1 oneE18 oneE18 = .ok y ∧
        oneE18.val ≤ y.val :=
      expSeries_total le_rfl le_rfl hx (by decide) (by decide)
    have hone' : d18 ≤ y.val := hone
    have hd18 : 0 < d18 := by decide
    rw [hy, ok_bind, if_pos rfl, if_neg (by omega)]
    refine ⟨_, rfl, Nat.div_le_of_le_mul ?_⟩
    exact Nat.mul_le_mul_right d18 hone'

/-! ### The exponential grows -/

theorem expSeries_ge {x term result y : Decimal} {rounds n : ℕ}
    (h : expSeries x rounds n term result = .ok y) : result.val ≤ y.val := by
  induction rounds generalizing n term result with
  | zero =>
      cases h
      exact le_rfl
  | succ rounds ih =>
      simp only [expSeries, bind_eq_ok, add_eq_ok] at h
      obtain ⟨_, -, _, -, _, -, _, ⟨-, rfl⟩, h⟩ := h
      split at h
      · cases h
        exact Nat.le_add_right ..
      · exact (Nat.le_add_right ..).trans (ih h)

/-- What a round of the series does: the next term, which is added. -/
theorem expSeries_succ {x term result y : Decimal} {rounds n : ℕ}
    (h : expSeries x (rounds + 1) n term result = .ok y) :
    (term.val * x.val / (n * d18) = 0 ∧ y = result) ∨
      (0 < term.val * x.val / (n * d18) ∧
        expSeries x rounds (n + 1) ⟨term.val * x.val / (n * d18)⟩
          ⟨result.val + term.val * x.val / (n * d18)⟩ = .ok y) := by
  simp only [expSeries, fromPlain, bind_eq_ok, mul_eq_ok, checked_eq_ok, div_eq_ok, add_eq_ok] at h
  obtain ⟨_, ⟨-, rfl⟩, _, ⟨-, rfl⟩, _, ⟨-, rfl⟩, _, ⟨-, rfl⟩, h⟩ := h
  split at h
  · next hlt =>
    cases h
    have hzero : term.val * x.val / (n * d18) = 0 := Nat.lt_one_iff.mp hlt
    exact .inl ⟨hzero, by simp only [hzero, Nat.add_zero]⟩
  · next hge => exact .inr ⟨Nat.pos_of_ne_zero fun hzero => hge (by simp only [hzero]; decide), h⟩

/-- A larger number has larger terms, and no fewer of them. -/
theorem expSeries_mono {x x' term term' result result' y y' : Decimal} {rounds n : ℕ}
    (hx : x.val ≤ x'.val) (hterm : term.val ≤ term'.val) (hresult : result.val ≤ result'.val)
    (h : expSeries x rounds n term result = .ok y)
    (h' : expSeries x' rounds n term' result' = .ok y') : y.val ≤ y'.val := by
  induction rounds generalizing n term term' result result' with
  | zero =>
      cases h
      cases h'
      exact hresult
  | succ rounds ih =>
      have hnext : term.val * x.val / (n * d18) ≤ term'.val * x'.val / (n * d18) :=
        Nat.div_le_div_right (Nat.mul_le_mul hterm hx)
      rcases expSeries_succ h with ⟨-, rfl⟩ | ⟨hpos, hrest⟩
      · exact hresult.trans (expSeries_ge h')
      · rcases expSeries_succ h' with ⟨hzero, -⟩ | ⟨-, hrest'⟩
        · omega
        · exact ih hnext (Nat.add_le_add hresult hnext) hrest hrest'

theorem expSeries_zero : expSeries zero maxIterations 1 oneE18 oneE18 = .ok oneE18 := by
  decide +kernel

/-- The inverse of `exp`, from the series; at zero the series is one as well. -/
theorem exp_spec {x v : Decimal} (h : x.exp true = .ok (some v)) :
    ∃ s, expSeries x maxIterations 1 oneE18 oneE18 = .ok s ∧ d18 + x.val ≤ s.val ∧
      v.val = d18 * d18 / s.val := by
  have hseries : ∃ s, expSeries x maxIterations 1 oneE18 oneE18 = .ok s ∧
      v.val = d18 * d18 / s.val := by
    rw [exp] at h
    split at h
    · next hzero =>
      cases h
      obtain ⟨n⟩ := x
      obtain rfl : n = 0 := hzero
      exact ⟨oneE18, expSeries_zero, by decide⟩
    · simp only [bind_eq_ok, if_true] at h
      obtain ⟨s, hs, h⟩ := h
      split at h
      · cases h
      · cases h
        exact ⟨s, hs, rfl⟩
  obtain ⟨s, hs, hv⟩ := hseries
  refine ⟨s, hs, ?_, hv⟩
  -- the first term is the number itself
  have hfirst : oneE18.val * x.val / (1 * d18) = x.val := by
    rw [Nat.one_mul]
    exact Nat.mul_div_cancel_left _ (by decide)
  rcases expSeries_succ hs with ⟨hzero, rfl⟩ | ⟨-, hrest⟩
  · rw [hfirst] at hzero
    rw [hzero]
    exact le_rfl
  · rw [hfirst] at hrest
    exact expSeries_ge hrest

/-- The inverse of `exp` falls. -/
theorem exp_anti {x x' v v' : Decimal} (hx : x.val ≤ x'.val) (h : x.exp true = .ok (some v))
    (h' : x'.exp true = .ok (some v')) : v'.val ≤ v.val := by
  obtain ⟨s, hs, hone, hv⟩ := exp_spec h
  obtain ⟨s', hs', -, hv'⟩ := exp_spec h'
  have hd18 : 0 < d18 := by decide
  rw [hv, hv']
  exact Nat.div_le_div_left (expSeries_mono hx le_rfl le_rfl hs hs') (by omega)

/-- Above zero the inverse of `exp` is below one. -/
theorem exp_lt_one {x v : Decimal} (hx : 0 < x.val) (h : x.exp true = .ok (some v)) :
    v.val < d18 := by
  obtain ⟨s, -, hone, hv⟩ := exp_spec h
  rw [hv, Nat.div_lt_iff_lt_mul (by omega)]
  exact Nat.mul_lt_mul_of_pos_left (by omega) (by decide)

/-! ### The logarithm near one -/

/-- The steps of `ln` for a number above one. -/
theorem ln_spec {x y : Decimal} (hone : d18 < x.val) (h : x.ln = .ok (some y)) :
    ∃ (normalized : Decimal) (power : ℤ) (series : Decimal),
      lnLower 256 x 0 = .ok (normalized, power) ∧ d18 ≤ normalized.val ∧
      lnSeries ⟨(normalized.val - d18) * d18 / (normalized.val + d18)
          * ((normalized.val - d18) * d18 / (normalized.val + d18)) / d18⟩ maxIterations 1
        ⟨(normalized.val - d18) * d18 / (normalized.val + d18)⟩ zero = .ok series ∧
      (0 ≤ power → y.val = 2 * series.val + d18 * power.natAbs) := by
  have hraise : lnRaise 256 x 0 = .ok (x, 0) := by rw [lnRaise, if_neg (by omega)]
  have hne : x ≠ oneE18 := by
    rintro rfl
    exact absurd hone (lt_irrefl _)
  have hpos : x.isZero = false := by
    rw [isZero, decide_eq_false_iff_not]
    omega
  rw [ln, if_neg hne, hpos, hraise] at h
  simp only [Bool.false_eq_true, if_false, bind_eq_ok, Except.ok.injEq, Prod.exists, Prod.mk.injEq,
    sub_eq_ok, add_eq_ok, mul_eq_ok, div_eq_ok, mulD18_eq_ok, oneE18] at h
  obtain ⟨_, _, ⟨rfl, rfl⟩, normalized, power, hlower, _, ⟨hone', rfl⟩, _, ⟨-, rfl⟩, _, ⟨-, rfl⟩,
    _, ⟨-, rfl⟩, _, ⟨-, rfl⟩, series, hseries, _, ⟨-, rfl⟩, _, ⟨-, rfl⟩, h⟩ := h
  refine ⟨normalized, power, series, hlower, hone', hseries, fun hpower => ?_⟩
  split at h
  · simp only [bind_eq_ok, add_eq_ok, Except.ok.injEq, Option.some.injEq] at h
    obtain ⟨_, ⟨-, rfl⟩, rfl⟩ := h
    simp only [fromScaled_val, Nat.mul_comm]
  · next hnonpos =>
    obtain rfl : power = 0 := le_antisymm (not_lt.mp hnonpos) hpower
    rw [if_neg (lt_irrefl _)] at h
    cases h
    simp only [fromScaled_val, Int.natAbs_zero, Nat.mul_zero, Nat.add_zero, Nat.mul_comm]

/-- What a round of the series does: it adds its part of the term, and goes on with the next. -/
theorem lnSeries_succ {zSquared term result y : Decimal} {rounds n : ℕ}
    (h : lnSeries zSquared (rounds + 1) n term result = .ok y) :
    (term.val * zSquared.val / d18 = 0 ∧ y.val = result.val + term.val / (2 * n - 1)) ∨
      (0 < term.val * zSquared.val / d18 ∧
        lnSeries zSquared rounds (n + 1) ⟨term.val * zSquared.val / d18⟩
          ⟨result.val + term.val / (2 * n - 1)⟩ = .ok y) := by
  simp only [lnSeries, bind_eq_ok, div_eq_ok, add_eq_ok, mulD18_eq_ok, fromScaled_val] at h
  obtain ⟨_, ⟨-, rfl⟩, _, ⟨-, rfl⟩, _, ⟨-, rfl⟩, h⟩ := h
  split at h
  · next hlt =>
    cases h
    exact .inl ⟨Nat.lt_one_iff.mp hlt, rfl⟩
  · next hge => exact .inr ⟨Nat.pos_of_ne_zero fun hzero => hge (by simp only [hzero]; decide), h⟩

theorem lnSeries_ge {zSquared term result y : Decimal} {rounds n : ℕ}
    (h : lnSeries zSquared rounds n term result = .ok y) : result.val ≤ y.val := by
  induction rounds generalizing n term result with
  | zero =>
      cases h
      exact le_rfl
  | succ rounds ih =>
      rcases lnSeries_succ h with ⟨-, hy⟩ | ⟨-, hrest⟩
      · exact hy ▸ Nat.le_add_right ..
      · exact (Nat.le_add_right ..).trans (ih hrest)

theorem lnLower_ge {fuel : ℕ} {x y : Decimal} {power power' : ℤ}
    (h : lnLower fuel x power = .ok (y, power')) : power ≤ power' := by
  induction fuel generalizing x power with
  | zero =>
      cases h
      exact le_rfl
  | succ fuel ih =>
      rw [lnLower] at h
      split at h
      · simp only [bind_eq_ok] at h
        obtain ⟨_, -, _, -, h⟩ := h
        have := ih h
        omega
      · cases h
        exact le_rfl

/-- The first round of the series adds `z` itself. -/
theorem le_lnSeries {zSquared z y : Decimal} {rounds : ℕ}
    (h : lnSeries zSquared (rounds + 1) 1 z zero = .ok y) :
    z.val ≤ y.val ∧ (z.val * zSquared.val / d18 = 0 → y.val = z.val) := by
  have hfirst : zero.val + z.val / (2 * 1 - 1) = z.val := by
    rw [zero, Nat.zero_add, Nat.mul_one, Nat.add_one_sub_one, Nat.div_one]
  rcases lnSeries_succ h with ⟨-, hy⟩ | ⟨hpos, hrest⟩
  · rw [hy, hfirst]
    exact ⟨le_rfl, fun _ => rfl⟩
  · rw [hfirst] at hrest
    exact ⟨lnSeries_ge hrest, fun hzero => absurd hzero hpos.ne'⟩

/-- The `z` of a number `k + 1` units above one, while `k` is small. -/
theorem ratio_eq {k : ℕ} (h : k ≤ 10000000) : (k + 1) * d18 / (2 * d18 + (k + 1)) = k / 2 := by
  have hhalf : k / 2 * k ≤ 5000000 * 10000000 := Nat.mul_le_mul (by omega) h
  rw [d18, Nat.div_eq_iff (by omega), Nat.mul_add, Nat.mul_add]
  omega

theorem le_ratio {k : ℕ} (h : 10000000 < k) (hfits : k < 2 * d18) :
    maxAuctionLength ≤ (k + 1) * d18 / (2 * d18 + (k + 1)) := by
  rw [d18] at hfits ⊢
  rw [Nat.le_div_iff_mul_le (by omega), maxAuctionLength]
  omega

/-- The logarithm of a number `δ` units above one is the even number below `δ`, while `δ` is
small; so it is below the seconds of an auction only for about as many units. -/
theorem ln_lt_iff {x y : Decimal} {seconds : ℕ} (hone : d18 ≤ x.val) (hpos : 0 < seconds)
    (hseconds : seconds ≤ maxAuctionLength) (h : x.ln = .ok (some y)) :
    y.val < seconds ↔ x.val ≤ d18 + seconds + seconds % 2 := by
  have hd18 : d18 = 1000000000000000000 := rfl
  have he : e.val = 2718281828459045235 := rfl
  have hweek : maxAuctionLength = 604800 := rfl
  rcases hone.eq_or_lt with heq | hlt
  · obtain ⟨n⟩ := x
    obtain rfl : d18 = n := heq
    rw [ln, if_pos (show (⟨d18⟩ : Decimal) = oneE18 from rfl)] at h
    cases h
    exact iff_of_true hpos (by simp only; omega)
  · obtain ⟨normalized, power, series, hlower, hone', hseries, hy⟩ := ln_spec hlt h
    have hpower := lnLower_ge hlower
    have hy := hy hpower
    rw [show (256 : ℕ) = 255 + 1 from rfl, lnLower] at hlower
    split at hlower
    · next hge =>
      -- above e the logarithm is at least one
      simp only [bind_eq_ok] at hlower
      obtain ⟨_, -, _, -, hlower⟩ := hlower
      have hpower' := lnLower_ge hlower
      have hle : d18 * 1 ≤ d18 * power.natAbs := Nat.mul_le_mul_left _ (by omega)
      refine iff_of_false (by omega) (by omega)
    · next hbelow =>
      cases hlower
      obtain ⟨hfirst, honly⟩ := le_lnSeries hseries
      rw [Int.natAbs_zero, Nat.mul_zero, Nat.add_zero] at hy
      obtain ⟨k, hk⟩ := Nat.exists_eq_add_of_lt hlt
      have hz : (x.val - d18) * d18 / (x.val + d18) = (k + 1) * d18 / (2 * d18 + (k + 1)) := by
        rw [hk, Nat.add_assoc, Nat.add_sub_cancel_left]
        congr 1
        omega
      rw [hz] at hfirst honly
      simp only at hfirst honly
      rcases Nat.lt_or_ge 10000000 k with hlarge | hsmall
      · have := le_ratio hlarge (show k < 2 * d18 by omega)
        exact iff_of_false (by omega) (by omega)
      · rw [ratio_eq hsmall] at honly
        have hsquare : k / 2 * (k / 2) ≤ 5000000 * 5000000 :=
          Nat.mul_le_mul (by omega) (by omega)
        rw [Nat.div_eq_of_lt (show k / 2 * (k / 2) < d18 by omega), Nat.mul_zero,
          Nat.zero_div] at honly
        rw [hy, honly rfl]
        omega

end IndexDtf.Decimal
