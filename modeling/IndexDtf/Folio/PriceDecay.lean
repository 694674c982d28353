import Mathlib.Analysis.SpecialFunctions.Pow.Real
import IndexDtf.Folio.PriceFall
import IndexDtf.Shared.DecimalReal

/-!
# IndexDtf.Folio.PriceDecay

**How closely the price of an auction follows the exponential decay.** The price is
`start * e ^ (-k * t)`, where the rate `k` is the logarithm of the price ratio over the length of
the auction. In units of the last place

* the logarithm is off by about a thousand, and the rate by one on top of that, which at most
  604800 seconds multiply: the exponent is off by less than `10 ^ 6` (`exponent_error`);
* the inverse of the exponential is off by one, of at least `10 ^ 11` while the prices are apart by
  at most `10 ^ 7`. That is what the bound has to make room for.
-/

namespace IndexDtf

open Lib SlotArray Decimal

namespace Auction

variable {a : Auction} {t : ℕ}

/-- The price of the exponential decay from the start price to the end price. -/
noncomputable def exactPrice (a : Auction) (t : ℕ) : ℝ :=
  a.prices.start * (a.prices.end_ / a.prices.start : ℝ)
    ^ ((t - a.start : ℕ) / (a.end_ - a.start : ℕ) : ℝ)

/-- The exponent of the decay. -/
noncomputable def exactExponent (a : Auction) (t : ℕ) : ℝ :=
  Real.log (a.prices.start / a.prices.end_) * ((t - a.start : ℕ) / (a.end_ - a.start : ℕ))

theorem exactPrice_eq (h : a.prices.Usable) :
    a.exactPrice t = a.prices.start * Real.exp (-a.exactExponent t) := by
  have hend : (0 : ℝ) < a.prices.end_ := by exact_mod_cast h.pos
  have hstart : (0 : ℝ) < a.prices.start := by exact_mod_cast h.pos.trans_le h.falling
  rw [exactPrice, exactExponent, Real.rpow_def_of_pos (by positivity), ← neg_mul, ← Real.log_inv,
    inv_div]

/-- The time that has passed, as a part of the auction. -/
theorem elapsed_le_one (hend : t ≤ a.end_) :
    ((t - a.start : ℕ) / (a.end_ - a.start : ℕ) : ℝ) ≤ 1 := by
  refine div_le_one_of_le₀ ?_ (Nat.cast_nonneg _)
  exact_mod_cast Nat.sub_le_sub_right hend _

theorem log_ratio_nonneg (h : a.prices.Usable) :
    0 ≤ Real.log (a.prices.start / a.prices.end_) := by
  refine Real.log_nonneg ?_
  rw [one_le_div (by exact_mod_cast h.pos)]
  exact_mod_cast h.falling

/-- The exact price is between the end price and the start price. -/
theorem exactPrice_mem (h : a.prices.Usable) (hend : t ≤ a.end_) :
    a.prices.end_ ≤ a.exactPrice t ∧ a.exactPrice t ≤ a.prices.start := by
  have hendPos : (0 : ℝ) < a.prices.end_ := by exact_mod_cast h.pos
  have hstartPos : (0 : ℝ) < a.prices.start := by exact_mod_cast h.pos.trans_le h.falling
  have hlog := log_ratio_nonneg h
  rw [exactPrice_eq h]
  constructor
  · have hle : a.exactExponent t ≤ Real.log (a.prices.start / a.prices.end_) :=
      mul_le_of_le_one_right hlog (elapsed_le_one hend)
    calc (a.prices.end_ : ℝ)
        = a.prices.start * Real.exp (-Real.log (a.prices.start / a.prices.end_)) := by
          rw [Real.exp_neg, Real.exp_log (by positivity)]
          field_simp
      _ ≤ a.prices.start * Real.exp (-a.exactExponent t) :=
          mul_le_mul_of_nonneg_left (Real.exp_le_exp.mpr (neg_le_neg hle)) hstartPos.le
  · refine mul_le_of_le_one_right hstartPos.le (Real.exp_le_one_iff.mpr ?_)
    exact neg_nonpos.mpr (mul_nonneg hlog (by positivity))

/-- The price ratio is rounded down, by less than a unit. -/
theorem log_ratio_error (h : a.prices.Usable) :
    |d18 * Real.log (toReal ⟨a.prices.start * d18 / a.prices.end_⟩)
      - d18 * Real.log (a.prices.start / a.prices.end_)| ≤ 1 := by
  have hd18 := cast_d18_pos
  have hend : (0 : ℝ) < a.prices.end_ := by exact_mod_cast h.pos
  have hstart : (0 : ℝ) < a.prices.start := by exact_mod_cast h.pos.trans_le h.falling
  have hone := one_le_toReal (x := ⟨a.prices.start * d18 / a.prices.end_⟩) h.one_le_ratio
  have hpos := lt_of_lt_of_le one_pos hone
  have hexact : (a.prices.start * d18 : ℕ) / (a.prices.end_ : ℝ) / d18
      = a.prices.start / a.prices.end_ := by
    push_cast
    field_simp
  have hle : toReal ⟨a.prices.start * d18 / a.prices.end_⟩ ≤ a.prices.start / a.prices.end_ := by
    rw [← hexact, toReal]
    exact div_le_div_of_nonneg_right Nat.cast_div_le hd18.le
  have hlost : (a.prices.start / a.prices.end_ : ℝ) - 1 / d18
      ≤ toReal ⟨a.prices.start * d18 / a.prices.end_⟩ := by
    rw [← hexact, toReal, ← sub_div]
    exact div_le_div_of_nonneg_right (div_sub_one_lt_cast_div h.pos).le hd18.le
  have hlog := Real.log_le_log hpos hle
  have hquot : Real.log (a.prices.start / a.prices.end_)
      - Real.log (toReal ⟨a.prices.start * d18 / a.prices.end_⟩) ≤ 1 / d18 := by
    rw [← Real.log_div (by positivity) hpos.ne']
    refine (Real.log_le_sub_one_of_pos (by positivity)).trans ?_
    have hfactor := mul_le_mul_of_nonneg_left hone (one_div_pos.mpr hd18).le
    rw [sub_le_iff_le_add, div_le_iff₀ hpos]
    linarith
  have hunit : (d18 : ℝ) * (1 / d18) = 1 := mul_one_div_cancel hd18.ne'
  have hup := mul_le_mul_of_nonneg_left hlog hd18.le
  have hdown := mul_le_mul_of_nonneg_left hquot hd18.le
  rw [abs_le]
  constructor
  · linarith
  · linarith

/-- The exponent is off by less than a million units. -/
theorem exponent_error {k : ℕ} (h : a.prices.Usable) (hfits : a.prices.start ≤ u128Max)
    (hrunning : a.start < a.end_) (hlength : a.end_ - a.start ≤ maxAuctionLength) (hend : t ≤ a.end_)
    (hk : a.calculateK = .ok k) :
    |toReal ⟨k * (t - a.start)⟩ - a.exactExponent t| ≤ 1 / 10 ^ 12 := by
  have hd18 := cast_d18
  obtain ⟨ln, hln, -, hk'⟩ := calculateK_of h hfits hrunning
  obtain rfl := Except.ok.inj (hk.symm.trans hk')
  obtain ⟨hlow, hhigh⟩ := abs_le.mp (ln_error h.one_le_ratio h.ratio_le hln)
  obtain ⟨hlow', hhigh'⟩ := abs_le.mp (log_ratio_error h)
  have hT : (0 : ℝ) < (a.end_ - a.start : ℕ) := by exact_mod_cast Nat.sub_pos_of_lt hrunning
  have hpart := elapsed_le_one hend
  have hpart0 : (0 : ℝ) ≤ (t - a.start : ℕ) / (a.end_ - a.start : ℕ) := by positivity
  have hweek : ((t - a.start : ℕ) : ℝ) ≤ 604800 := by
    have hle : t - a.start ≤ 604800 := (Nat.sub_le_sub_right hend _).trans hlength
    exact_mod_cast hle
  -- the rate is rounded down, and then multiplied by the time
  have hrate : (ln.val / (a.end_ - a.start : ℕ) : ℝ) - 1 ≤ (ln.val / (a.end_ - a.start) : ℕ) :=
    (div_sub_one_lt_cast_div (Nat.sub_pos_of_lt hrunning)).le
  have hrate' : ((ln.val / (a.end_ - a.start) : ℕ) : ℝ) ≤ ln.val / (a.end_ - a.start : ℕ) :=
    Nat.cast_div_le
  have htime := mul_le_mul_of_nonneg_right hrate (Nat.cast_nonneg (α := ℝ) (t - a.start))
  have htime' := mul_le_mul_of_nonneg_right hrate' (Nat.cast_nonneg (α := ℝ) (t - a.start))
  have hswap : (ln.val / (a.end_ - a.start : ℕ) : ℝ) * (t - a.start : ℕ)
      = ln.val * ((t - a.start : ℕ) / (a.end_ - a.start : ℕ)) := by ring
  have hlnLow : d18 * Real.log (a.prices.start / a.prices.end_) - 1101 ≤ ln.val := by linarith
  have hlnHigh : (ln.val : ℝ) ≤ d18 * Real.log (a.prices.start / a.prices.end_) + 1101 := by
    linarith
  have hscaledLow := mul_le_mul_of_nonneg_right hlnLow hpart0
  have hscaledHigh := mul_le_mul_of_nonneg_right hlnHigh hpart0
  have hexact : (d18 : ℝ) * a.exactExponent t = d18 * Real.log (a.prices.start / a.prices.end_)
      * ((t - a.start : ℕ) / (a.end_ - a.start : ℕ)) := by
    rw [exactExponent]
    ring
  have hcomputed := toReal_mul_d18 ⟨ln.val / (a.end_ - a.start) * (t - a.start)⟩
  push_cast at hcomputed
  rw [hd18] at hexact hcomputed hscaledLow hscaledHigh
  rw [abs_le]
  constructor
  · linarith
  · linarith

/-- The price before it is rounded up and kept from falling below the end price. -/
theorem decayed_error {k : ℕ} {v : Decimal} (h : a.prices.Usable) (hfits : a.prices.start ≤ u128Max)
    (hrunning : a.start < a.end_) (hlength : a.end_ - a.start ≤ maxAuctionLength) (hend : t ≤ a.end_)
    (hk : a.calculateK = .ok k) (hv : exp ⟨k * (t - a.start)⟩ true = .ok (some v)) :
    a.exactPrice t * (1 - 2 / 10 ^ 12) - a.prices.start / d18 - 1
        ≤ (a.prices.start * v.val / d18 : ℕ) ∧
      ((a.prices.start * v.val / d18 : ℕ) : ℝ) ≤ a.exactPrice t * (1 + 3 / 10 ^ 12) := by
  have hd18 := cast_d18_pos
  have hstart : (0 : ℝ) < a.prices.start := by exact_mod_cast h.pos.trans_le h.falling
  have hexponent := exponent_error h hfits hrunning hlength hend hk
  have hsmall : k * (t - a.start) ≤ 24 * d18 :=
    (exponent_le h hfits hrunning hend hk).trans (by decide)
  obtain ⟨hlow, hhigh⟩ := exp_error hsmall hv
  -- the error of the exponent is a factor close to one
  have hfactor := Real.abs_exp_sub_one_le
    (x := -(toReal ⟨k * (t - a.start)⟩ - a.exactExponent t)) (by
      rw [abs_neg]
      exact hexponent.trans (by norm_num))
  rw [abs_neg] at hfactor
  obtain ⟨hfactorLow, hfactorHigh⟩ := abs_le.mp hfactor
  have hsplit : a.prices.start * Real.exp (-toReal ⟨k * (t - a.start)⟩)
      = a.exactPrice t * Real.exp (-(toReal ⟨k * (t - a.start)⟩ - a.exactExponent t)) := by
    rw [exactPrice_eq h, mul_assoc, ← Real.exp_add]
    congr 2
    ring
  have hexact : 0 < a.exactPrice t := by
    rw [exactPrice_eq h]
    positivity
  constructor
  · have hfloor := (div_sub_one_lt_cast_div (a := a.prices.start * v.val) (b := d18) (by decide)).le
    have hquot : a.prices.start * Real.exp (-toReal ⟨k * (t - a.start)⟩) - a.prices.start / d18
        ≤ (a.prices.start * v.val : ℕ) / d18 := by
      have hscaled := mul_le_mul_of_nonneg_left hlow hstart.le
      rw [le_div_iff₀ hd18, sub_mul, div_mul_cancel₀ _ hd18.ne']
      push_cast
      linarith
    have hnear := mul_le_mul_of_nonneg_left
      (show 1 - 2 / 10 ^ 12
        ≤ Real.exp (-(toReal ⟨k * (t - a.start)⟩ - a.exactExponent t)) by linarith) hexact.le
    linarith
  · have hquot : ((a.prices.start * v.val / d18 : ℕ) : ℝ)
        ≤ a.prices.start * Real.exp (-toReal ⟨k * (t - a.start)⟩) * (1 + 1 / 10 ^ 15) := by
      have hscaled := mul_le_mul_of_nonneg_left hhigh hstart.le
      refine Nat.cast_div_le.trans ?_
      rw [div_le_iff₀ hd18]
      push_cast
      linarith
    refine hquot.trans ?_
    rw [hsplit, mul_assoc]
    refine mul_le_mul_of_nonneg_left ?_ hexact.le
    have hnear : Real.exp (-(toReal ⟨k * (t - a.start)⟩ - a.exactExponent t)) ≤ 1 + 2 / 10 ^ 12 := by
      linarith
    calc Real.exp (-(toReal ⟨k * (t - a.start)⟩ - a.exactExponent t)) * (1 + 1 / 10 ^ 15)
        ≤ (1 + 2 / 10 ^ 12) * (1 + 1 / 10 ^ 15) :=
          mul_le_mul_of_nonneg_right hnear (by norm_num)
      _ ≤ 1 + 3 / 10 ^ 12 := by norm_num

/-- Between the start and the end, the price is rounded up and kept from falling below the end
price. -/
theorem getPrice_inside_error {price : ℕ} (h : a.prices.Usable) (hfits : a.prices.start ≤ u128Max)
    (hratio : a.prices.start ≤ 10 ^ 7 * a.prices.end_) (hlength : a.end_ - a.start ≤ maxAuctionLength)
    (hafter : a.start < t) (hbefore : t < a.end_) (hprice : a.getPrice t = .ok price) :
    |(price : ℝ) - a.exactPrice t| ≤ 1 / 10 ^ 9 * a.exactPrice t + 2 := by
  obtain ⟨k, v, hk, hv, hprice'⟩ := getPrice_inside h hfits hafter hbefore
  obtain rfl := Except.ok.inj (hprice'.symm.trans hprice)
  obtain ⟨hexactLow, hexactHigh⟩ := exactPrice_mem h hbefore.le
  obtain ⟨hlow, hhigh⟩ :=
    decayed_error h hfits (hafter.trans hbefore) hlength hbefore.le hk hv
  have hceil : ((ceilTail (a.prices.start * v.val / d18) : ℕ) : ℝ)
      ≤ (a.prices.start * v.val / d18 : ℕ) + 1 := by exact_mod_cast ceilTail_le _
  have hceil' : ((a.prices.start * v.val / d18 : ℕ) : ℝ)
      ≤ (ceilTail (a.prices.start * v.val / d18) : ℕ) := by exact_mod_cast le_ceilTail _
  have hlargest : (a.prices.start : ℝ) ≤ u128Max := by exact_mod_cast hfits
  -- a unit of the exponential is a part of the start price, and little of the end price
  have hunit : (a.prices.start : ℝ) / d18 ≤ a.exactPrice t * (1 / 10 ^ 11) := by
    have hten : (a.prices.start : ℝ) ≤ 10 ^ 7 * a.prices.end_ := by exact_mod_cast hratio
    rw [cast_d18, div_le_iff₀ (by norm_num)]
    linarith
  have hendPos : (0 : ℝ) < a.prices.end_ := by exact_mod_cast h.pos
  have hexactPos : 0 < a.exactPrice t := hendPos.trans_le hexactLow
  push_cast
  rw [abs_le]
  constructor
  · have hmin : a.exactPrice t - (1 / 10 ^ 9 * a.exactPrice t + 2)
        ≤ min ((ceilTail (a.prices.start * v.val / d18) : ℕ) : ℝ) (u128Max : ℕ) := by
      refine le_min ?_ ?_
      · linarith
      · linarith
    have hmax := hmin.trans (le_max_right (a.prices.end_ : ℝ) _)
    linarith
  · rw [sub_le_iff_le_add]
    refine max_le (by linarith) ((min_le_left ..).trans ?_)
    linarith

theorem exactPrice_start : a.exactPrice a.start = a.prices.start := by
  rw [exactPrice, Nat.sub_self, Nat.cast_zero, zero_div, Real.rpow_zero, mul_one]

theorem exactPrice_end (hstart : 0 < a.prices.start) (hrunning : a.start < a.end_) :
    a.exactPrice a.end_ = a.prices.end_ := by
  have hstartPos : (0 : ℝ) < a.prices.start := by exact_mod_cast hstart
  have hT : ((a.end_ - a.start : ℕ) : ℝ) ≠ 0 := by exact_mod_cast (Nat.sub_pos_of_lt hrunning).ne'
  rw [exactPrice, div_self hT, Real.rpow_one]
  field_simp

/-- **The price follows the decay.** While the prices are apart by at most `10 ^ 7`, the price at
any time is off by at most a billionth of the exact one, and two units. -/
theorem getPrice_follows_decay (hpos : 0 < a.prices.end_) (hfalling : a.prices.end_ ≤ a.prices.start)
    (hratio : a.prices.start ≤ 10 ^ 7 * a.prices.end_) (hfits : a.prices.start ≤ u128Max)
    (hone : 1 ≤ a.end_ - a.start) (hlength : a.end_ - a.start ≤ 604800) (hstart : a.start ≤ t)
    (hend : t ≤ a.end_) :
    ∃ price, a.getPrice t = .ok price ∧
      |(price : ℝ) - a.exactPrice t| ≤ 1 / 10 ^ 9 * a.exactPrice t + 2 := by
  have h : a.prices.Usable :=
    ⟨hpos, hfalling, hratio.trans (Nat.mul_le_mul_right _ (by decide))⟩
  have hstartPos : 0 < a.prices.start := hpos.trans_le hfalling
  have hrunning : a.start < a.end_ := Nat.lt_of_sub_pos hone
  rcases hstart.eq_or_lt with rfl | hafter
  · refine ⟨_, getPrice_start hend, ?_⟩
    rw [exactPrice_start, sub_self, abs_zero]
    positivity
  rcases hend.eq_or_lt with rfl | hbefore
  · refine ⟨_, getPrice_end hrunning, ?_⟩
    rw [exactPrice_end hstartPos hrunning, sub_self, abs_zero]
    positivity
  · obtain ⟨k, v, -, -, hprice⟩ := getPrice_inside h hfits hafter hbefore
    exact ⟨_, hprice, getPrice_inside_error h hfits hratio hlength hafter hbefore hprice⟩

/-- A quarter of an hour into an hour, from ten to one. -/
theorem getPrice_follows_decay_hour :
    let a : Auction :=
      ⟨1, 1, 5, 7, 8, 0, 0, 1000, 4600, ⟨10000000000000000000, 1000000000000000000⟩⟩
    ∃ price, a.getPrice 1900 = .ok price ∧
      |(price : ℝ) - a.exactPrice 1900| ≤ 1 / 10 ^ 9 * a.exactPrice 1900 + 2 :=
  getPrice_follows_decay (by decide) (by decide) (by decide) (by decide) (by decide) (by decide)
    (by decide) (by decide)

end Auction

end IndexDtf
