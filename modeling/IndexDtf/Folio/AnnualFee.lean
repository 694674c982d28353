import IndexDtf.Folio.PokeTotal
import IndexDtf.Lib.CompoundRate
import IndexDtf.Shared.DecimalReal

/-!
# IndexDtf.Folio.AnnualFee

**What the stored fee charges in a year.** `nth_root` sums three terms of the binomial series of
the root. The third one should have the factor `(n - 1) * (2 * n - 1)`, and has
`(n - 1) * (n - 2)`: for many seconds it is half of what it should be.

Seen from the exponent, `n * f` is the first three terms of the logarithm of `1 - x` with the third
one halved: a sixth of `x ^ 3` is missing, and up to three units of the last place of `f`.
-/

namespace IndexDtf

open Lib Decimal

namespace Decimal

variable {n a : ℕ}

/-- The three terms, before they are rounded. -/
noncomputable def exactDrop (n a : ℕ) : ℝ :=
  a / n + a ^ 2 * (n - 1) / (2 * d18 * n ^ 2)
    + a ^ 3 * ((n - 1) * (n - 2)) / (6 * d18 ^ 2 * n ^ 3)

/-- Each of them loses less than one. -/
theorem rootDrop_bounds (hn : 2 ≤ n) :
    (rootDrop n a : ℝ) ≤ exactDrop n a ∧ exactDrop n a - 3 ≤ rootDrop n a := by
  have hpos : 0 < n := by omega
  have hd18 : 0 < d18 := by decide
  have hsecond : a * a * (n - 1) / d18 / (n * n) / 2 = a * a * (n - 1) / (2 * d18 * n ^ 2) := by
    rw [Nat.div_div_eq_div_mul, Nat.div_div_eq_div_mul]
    congr 1
    ring
  have hthird : a * a * a * ((n - 1) * (n - 2)) / d18 / d18 / (n * n * n) / 6
      = a * a * a * ((n - 1) * (n - 2)) / (6 * d18 ^ 2 * n ^ 3) := by
    rw [Nat.div_div_eq_div_mul, Nat.div_div_eq_div_mul, Nat.div_div_eq_div_mul]
    congr 1
    ring
  obtain ⟨hlow₁, hhigh₁⟩ := cast_div_bounds (a := a) hpos
  obtain ⟨hlow₂, hhigh₂⟩ := cast_div_bounds (a := a * a * (n - 1))
    (show 0 < 2 * d18 * n ^ 2 by positivity)
  obtain ⟨hlow₃, hhigh₃⟩ := cast_div_bounds (a := a * a * a * ((n - 1) * (n - 2)))
    (show 0 < 6 * d18 ^ 2 * n ^ 3 by positivity)
  have hexact : exactDrop n a = a / n + (a * a * (n - 1) : ℕ) / (2 * d18 * n ^ 2 : ℕ)
      + (a * a * a * ((n - 1) * (n - 2)) : ℕ) / (6 * d18 ^ 2 * n ^ 3 : ℕ) := by
    rw [exactDrop]
    push_cast [Nat.cast_sub (show 1 ≤ n by omega), Nat.cast_sub hn]
    ring
  rw [rootDrop, hsecond, hthird, hexact, Nat.cast_add, Nat.cast_add]
  constructor
  · linarith
  · linarith

/-- The exponent of `n` seconds at the exact terms: the logarithm of `1 - x` would go on with a
third of `x ^ 3`. -/
theorem exponent_exactDrop (hn : 2 ≤ n) :
    n * (exactDrop n a / d18 : ℝ) ≤ (a / d18 : ℝ) + (a / d18) ^ 2 / 2 + (a / d18) ^ 3 / 6 ∧
      (a / d18 : ℝ) + (a / d18) ^ 2 / 2 + (a / d18) ^ 3 / 6
        - ((a / d18) ^ 2 + (a / d18) ^ 3) / (2 * n) ≤ n * (exactDrop n a / d18 : ℝ) := by
  have hS := cast_d18_pos
  have hn' : (2 : ℝ) ≤ n := by exact_mod_cast hn
  have hx : (0 : ℝ) ≤ a / d18 := by positivity
  have hterms : n * (exactDrop n a / d18 : ℝ)
      = a / d18 + (a / d18) ^ 2 / 2 + (a / d18) ^ 3 / 6
        - ((a / d18) ^ 2 / (2 * n) + (a / d18) ^ 3 * ((3 * n - 2) / (6 * n ^ 2))) := by
    rw [exactDrop]
    field_simp
    ring
  have hthird : (3 * n - 2 : ℝ) / (6 * n ^ 2) ≤ 1 / (2 * n) := by
    rw [div_le_div_iff₀ (by positivity) (by positivity)]
    linarith
  have hthird' : 0 ≤ (3 * n - 2 : ℝ) / (6 * n ^ 2) := div_nonneg (by linarith) (by positivity)
  have hsquare : 0 ≤ (a / d18 : ℝ) ^ 2 / (2 * n) := by positivity
  have hcube : 0 ≤ (a / d18 : ℝ) ^ 3 := by positivity
  have hlost := mul_nonneg hcube hthird'
  have hlost' := mul_le_mul_of_nonneg_left hthird hcube
  rw [hterms, add_div]
  rw [mul_one_div] at hlost'
  constructor
  · linarith
  · linarith

/-- The exponent of a year at the stored rate. -/
theorem exponent_perSecond (a : ℕ) :
    yearInSeconds * (perSecond a / d18 : ℝ)
        ≤ (a / d18 : ℝ) + (a / d18) ^ 2 / 2 + (a / d18) ^ 3 / 6 ∧
      (a / d18 : ℝ) + (a / d18) ^ 2 / 2 + (a / d18) ^ 3 / 6
        - ((a / d18) ^ 2 + (a / d18) ^ 3) / (2 * yearInSeconds) - yearInSeconds * (3 / d18)
        ≤ yearInSeconds * (perSecond a / d18 : ℝ) := by
  have htwo : 2 ≤ yearInSeconds := by decide
  have hS := cast_d18_pos
  have hN : (0 : ℝ) ≤ yearInSeconds := Nat.cast_nonneg _
  obtain ⟨hhigh, hlow⟩ := rootDrop_bounds (a := a) htwo
  obtain ⟨hhigh', hlow'⟩ := exponent_exactDrop (a := a) htwo
  have hup := mul_le_mul_of_nonneg_left (div_le_div_of_nonneg_right hhigh hS.le) hN
  have hdown := mul_le_mul_of_nonneg_left (div_le_div_of_nonneg_right hlow hS.le) hN
  rw [sub_div, mul_sub] at hdown
  rw [perSecond]
  exact ⟨hup.trans hhigh', by linarith⟩

end Decimal

namespace Folio

variable {folio folio' : Folio} {a : ℕ}

/-- The stored fee charges the annual fee `x` in a year, up to `x ^ 4` and two units of the tenth
digit. -/
def Reproduces (folio : Folio) (a : ℕ) : Prop :=
  |1 - (1 - (folio.tvlFee / d18 : ℝ)) ^ yearInSeconds - a / d18|
    ≤ (a / d18 : ℝ) ^ 4 + 2 / 10 ^ 10

section Shortfall

variable {x D η s : ℝ}

/-- How far the exponent of a year is below the logarithm. -/
theorem exponent_shortfall (ha : a ≤ maxTvlFee) :
    let x : ℝ := a / d18
    let D := -Real.log (1 - x) - yearInSeconds * (perSecond a / d18 : ℝ)
    x ^ 3 / 6 + x ^ 4 / 4 - x ^ 5 / (1 - x) ≤ D ∧
      D ≤ x ^ 3 / 6 + x ^ 4 / 4 + x ^ 5 / (1 - x) + (x ^ 2 + x ^ 3) / 63072000 + 94608000 / 10 ^ 18 := by
  intro x D
  have hx0 : 0 ≤ x := by positivity
  have hx1 : x < 1 := by
    rw [div_lt_one (by rw [cast_d18]; norm_num)]
    exact_mod_cast ha.trans_lt (by decide : maxTvlFee < d18)
  have hN : (yearInSeconds : ℝ) = 31536000 := by norm_num [yearInSeconds, dayInSeconds]
  obtain ⟨hlog, hlog'⟩ := neg_log_one_sub_bounds hx0 hx1
  obtain ⟨hhigh, hlow⟩ := exponent_perSecond a
  have hunits : (yearInSeconds * (3 / d18) : ℝ) = 94608000 / 10 ^ 18 := by
    rw [hN, cast_d18]
    norm_num
  have hterms : (2 * yearInSeconds : ℝ) = 63072000 := by
    rw [hN]
    norm_num
  rw [hunits, hterms] at hlow
  constructor
  · linarith
  · linarith

theorem annual_le_tenth (ha : a ≤ maxTvlFee) : (a / d18 : ℝ) ≤ 1 / 10 := by
  have hle : (a : ℝ) ≤ 100000000000000000 := by exact_mod_cast ha
  rw [cast_d18]
  linarith

/-- The square of the rate is of the size of the granularity. -/
theorem square_rate_le (ha : a ≤ maxTvlFee) :
    2 * yearInSeconds * (perSecond a / d18 : ℝ) ^ 2 ≤ (a / d18 : ℝ) ^ 2 / 12500000 := by
  obtain ⟨hhigh, -⟩ := exponent_perSecond a
  have hx0 : (0 : ℝ) ≤ a / d18 := by positivity
  have hx := annual_le_tenth ha
  have hN : (yearInSeconds : ℝ) = 31536000 := by norm_num [yearInSeconds, dayInSeconds]
  have hy0 : 0 ≤ yearInSeconds * (perSecond a / d18 : ℝ) := by positivity
  generalize (a / d18 : ℝ) = x at hhigh hx0 hx ⊢
  generalize (perSecond a / d18 : ℝ) = f at hhigh hy0 ⊢
  rw [hN] at hhigh hy0 ⊢
  have hsquare : x ^ 2 ≤ x * (1 / 10) := by
    rw [sq]
    exact mul_le_mul_of_nonneg_left hx hx0
  have hcube : x ^ 3 ≤ x * (1 / 10) ^ 2 := by
    rw [pow_succ' x 2]
    exact mul_le_mul_of_nonneg_left (pow_le_pow_left₀ hx0 hx 2) hx0
  have hle : 31536000 * f ≤ 11 / 10 * x := by linarith
  have hsq := pow_le_pow_left₀ hy0 hle 2
  linarith [sq_nonneg x]

/-- Up to 0.0858% a year, what the third term lacks is in the tolerance, together with what all
three lose by rounding. -/
theorem shortfall_within (hx0 : 0 ≤ x) (hx : x ≤ 858 / 10 ^ 6) (hη0 : 0 ≤ η)
    (hη : η ≤ x ^ 2 / 12500000) (hlow : x ^ 3 / 6 + x ^ 4 / 4 - x ^ 5 / (1 - x) ≤ D)
    (hhigh : D ≤ x ^ 3 / 6 + x ^ 4 / 4 + x ^ 5 / (1 - x) + (x ^ 2 + x ^ 3) / 63072000
      + 94608000 / 10 ^ 18)
    (hs : (1 - x) * (D - η) ≤ s) (hs' : |D| ≤ 1 → s ≤ (1 - x) * (D + D ^ 2)) :
    |s| ≤ x ^ 4 + 2 / 10 ^ 10 := by
  have hpos : 0 < 1 - x := by linarith
  have hfifth : x ^ 5 / (1 - x) ≤ x ^ 4 / 4 := by
    rw [div_le_iff₀ hpos]
    have := mul_le_mul_of_nonneg_left hx (pow_nonneg hx0 4)
    linarith [pow_nonneg hx0 4]
  have hsquare : x ^ 2 ≤ (858 / 10 ^ 6) ^ 2 := pow_le_pow_left₀ hx0 hx 2
  have hcube : x ^ 3 ≤ (858 / 10 ^ 6) ^ 3 := pow_le_pow_left₀ hx0 hx 3
  have hfourth : x ^ 4 ≤ (858 / 10 ^ 6) ^ 4 := pow_le_pow_left₀ hx0 hx 4
  have hfourth0 : 0 ≤ x ^ 4 := pow_nonneg hx0 4
  have hD0 : 0 ≤ D := by linarith [pow_nonneg hx0 3]
  have hD : D ≤ 1 / 10 ^ 9 := by
    norm_num at hsquare hcube hfourth hhigh ⊢
    linarith
  have hDsq : D ^ 2 ≤ 1 / 10 ^ 18 := by
    refine (pow_le_pow_left₀ hD0 hD 2).trans_eq ?_
    norm_num
  rw [abs_le]
  constructor
  · -- more than the fee is charged only by the square of the rate
    have hless : (1 - x) * (D - η) ≥ -η := by
      have h₁ := mul_nonneg hpos.le hD0
      have h₂ := mul_nonneg hx0 hη0
      linarith
    norm_num at hsquare ⊢
    linarith
  · have hle := hs' (by rw [abs_of_nonneg hD0]; linarith)
    have hmul : (1 - x) * (D + D ^ 2) ≤ D + D ^ 2 :=
      mul_le_of_le_one_left (by positivity) (by linarith)
    norm_num at hsquare hcube hhigh hDsq ⊢
    linarith

/-- The margin of the missing sixth of the cube over the tolerance, on an interval. -/
theorem margin_pos {u v : ℝ} (hu : 0 ≤ u) (hux : u ≤ x) (hxv : x ≤ v)
    (hv : 0 ≤ 1 / 6 - 11 * v / 12 - 5 * v ^ 2 / 4)
    (h : 2 / 10 ^ 10 < u ^ 2 * (u * (1 / 6 - 11 * v / 12 - 5 * v ^ 2 / 4) - 1 / 12500000))
    (h0 : 0 ≤ u * (1 / 6 - 11 * v / 12 - 5 * v ^ 2 / 4) - 1 / 12500000) :
    2 / 10 ^ 10 < x ^ 2 * (x * (1 / 6 - 11 * x / 12 - 5 * x ^ 2 / 4) - 1 / 12500000) := by
  have hx0 : 0 ≤ x := hu.trans hux
  have hsq : x ^ 2 ≤ v ^ 2 := pow_le_pow_left₀ hx0 hxv 2
  have hfactor : u * (1 / 6 - 11 * v / 12 - 5 * v ^ 2 / 4)
      ≤ x * (1 / 6 - 11 * x / 12 - 5 * x ^ 2 / 4) :=
    mul_le_mul hux (by linarith) hv hx0
  exact h.trans_le (mul_le_mul (pow_le_pow_left₀ hu hux 2) (by linarith) h0 (by positivity))

/-- From 0.1065% a year on, what the third term lacks is more than the tolerance. -/
theorem shortfall_beyond (hx : 1065 / 10 ^ 6 ≤ x) (hx' : x ≤ 1 / 10) (hη : η ≤ x ^ 2 / 12500000)
    (hlow : x ^ 3 / 6 + x ^ 4 / 4 - x ^ 5 / (1 - x) ≤ D) (hs : (1 - x) * (D - η) ≤ s) :
    x ^ 4 + 2 / 10 ^ 10 < s := by
  have hpos : 0 < 1 - x := by linarith
  have hx0 : 0 ≤ x := by linarith
  have hmargin : 2 / 10 ^ 10
      < x ^ 2 * (x * (1 / 6 - 11 * x / 12 - 5 * x ^ 2 / 4) - 1 / 12500000) := by
    rcases le_total x (11 / 10 ^ 4) with hle | hle
    · exact margin_pos (by norm_num) hx hle (by norm_num) (by norm_num) (by norm_num)
    · rcases le_total x (2 / 10 ^ 3) with hle' | hle'
      · exact margin_pos (by norm_num) hle hle' (by norm_num) (by norm_num) (by norm_num)
      · exact margin_pos (by norm_num) hle' hx' (by norm_num) (by norm_num) (by norm_num)
  have hfifth : (1 - x) * (x ^ 5 / (1 - x)) = x ^ 5 := mul_div_cancel₀ _ hpos.ne'
  have hmul := mul_le_mul_of_nonneg_left (sub_le_sub hlow hη) hpos.le
  have hsquare : 0 ≤ x * (x ^ 2 / 12500000) := by positivity
  linarith

end Shortfall

theorem reproduces_iff (h : folio.setTvlFee a = .ok folio') :
    folio'.Reproduces a ↔ |(a / d18 : ℝ) - (1 - (1 - (perSecond a / d18 : ℝ)) ^ yearInSeconds)|
      ≤ (a / d18 : ℝ) ^ 4 + 2 / 10 ^ 10 := by
  obtain ⟨-, rfl, -⟩ := setTvlFee_spec h
  rw [Reproduces, abs_sub_comm]

/-- The shortfall of a year at the stored rate. -/
theorem year_shortfall (ha : a ≤ maxTvlFee) :
    let x : ℝ := a / d18
    let f : ℝ := perSecond a / d18
    let D := -Real.log (1 - x) - yearInSeconds * f
    (1 - x) * (D - 2 * yearInSeconds * f ^ 2) ≤ x - (1 - (1 - f) ^ yearInSeconds) ∧
      (|D| ≤ 1 → x - (1 - (1 - f) ^ yearInSeconds) ≤ (1 - x) * (D + D ^ 2)) := by
  intro x f D
  have hS := cast_d18_pos
  refine compound_shortfall ?_ ?_
  · rw [div_le_iff₀ hS, cast_d18]
    have : (perSecond a : ℝ) ≤ 3400000000 := by exact_mod_cast perSecond_le ha
    linarith
  · rw [div_lt_one hS]
    exact_mod_cast ha.trans_lt (by decide : maxTvlFee < d18)

theorem reproduces_of_le (h : folio.setTvlFee a = .ok folio') (hle : a ≤ 858 * 10 ^ 12) :
    folio'.Reproduces a := by
  obtain ⟨ha, -, -⟩ := setTvlFee_spec h
  obtain ⟨hs, hs'⟩ := year_shortfall ha
  obtain ⟨hlow, hhigh⟩ := exponent_shortfall ha
  have hx : (a / d18 : ℝ) ≤ 858 / 10 ^ 6 := by
    have : (a : ℝ) ≤ 858 * 10 ^ 12 := by exact_mod_cast hle
    rw [cast_d18]
    linarith
  rw [reproduces_iff h]
  exact shortfall_within (by positivity) hx (by positivity) (square_rate_le ha) hlow hhigh hs hs'

theorem not_reproduces_of_ge (h : folio.setTvlFee a = .ok folio') (hge : 1065 * 10 ^ 12 ≤ a) :
    ¬ folio'.Reproduces a := by
  obtain ⟨ha, -, -⟩ := setTvlFee_spec h
  obtain ⟨hs, -⟩ := year_shortfall ha
  obtain ⟨hlow, -⟩ := exponent_shortfall ha
  have hx : (1065 / 10 ^ 6 : ℝ) ≤ a / d18 := by
    have : (1065 * 10 ^ 12 : ℝ) ≤ a := by exact_mod_cast hge
    rw [cast_d18]
    linarith
  rw [reproduces_iff h, not_le]
  exact (shortfall_beyond hx (annual_le_tenth ha) (square_rate_le ha) hlow hs).trans_le (le_abs_self _)

/-- **The stored fee reproduces the annual one** up to 0.0858%, and from 0.1065% on it does not.
In between it depends on what is rounded off. -/
theorem annual_fee_bounds (h : folio.setTvlFee a = .ok folio') :
    (a ≤ 858 * 10 ^ 12 → folio'.Reproduces a) ∧ (1065 * 10 ^ 12 ≤ a → ¬ folio'.Reproduces a) :=
  ⟨reproduces_of_le h, not_reproduces_of_ge h⟩

/-- A folio without a fee. -/
def feeless : Folio := ⟨.Initialized, 0, 0, 0, 0, 0, 0, 60, 0, [], 0⟩

/-- At an annual fee of 0.05%. -/
theorem annual_fee_bounds_small :
    ∃ folio', feeless.setTvlFee 500000000000000 = .ok folio' ∧
      (500000000000000 ≤ 858 * 10 ^ 12 → folio'.Reproduces 500000000000000) ∧
      (1065 * 10 ^ 12 ≤ 500000000000000 → ¬ folio'.Reproduces 500000000000000) := by
  have hok : ∃ folio', feeless.setTvlFee 500000000000000 = .ok folio' ∧ True := by decide +kernel
  obtain ⟨folio', h, -⟩ := hok
  exact ⟨folio', h, annual_fee_bounds h⟩

/-- At the highest annual fee, ten percent. -/
theorem highest_fee_falls_short :
    ∃ folio', feeless.setTvlFee maxTvlFee = .ok folio' ∧ folio'.tvlFee = 3334813116 ∧
      ¬ folio'.Reproduces maxTvlFee := by
  have hok : ∃ folio', feeless.setTvlFee maxTvlFee = .ok folio' ∧ folio'.tvlFee = 3334813116 := by
    decide +kernel
  obtain ⟨folio', h, hfee⟩ := hok
  exact ⟨folio', h, hfee, not_reproduces_of_ge h (by decide)⟩

end Folio

end IndexDtf
