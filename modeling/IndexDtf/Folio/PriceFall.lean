import IndexDtf.Folio.BidRounding

/-!
# IndexDtf.Folio.PriceFall

**Whether the price of an auction falls.** Inside of an auction it does: the exponent grows with
the time, and what is rounded on the way is rounded the same way at all times. At the end it
does too, as no price is below the end price.

At the start it may rise. `to_scaled` rounds up by adding one to any price that is not a whole
number, also to one that was not rounded: when the rate of the curve is zero the price inside
is the start price, plus one.
-/

namespace IndexDtf

open Lib SlotArray Decimal

namespace Auction

variable {a : Auction} {t t₁ t₂ p p₁ p₂ : ℕ}

/-- At all times there is a price, between those of the start and the end, and never above an
earlier one. -/
def PriceFalls (a : Auction) : Prop :=
  ∀ t₁ t₂, a.start ≤ t₁ → t₁ ≤ t₂ → t₂ ≤ a.end_ →
    ∃ p₁ p₂, a.getPrice t₁ = .ok p₁ ∧ a.getPrice t₂ = .ok p₂ ∧
      a.prices.end_ ≤ p₂ ∧ p₂ ≤ p₁ ∧ p₁ ≤ a.prices.start

/-- The rate is zero when the prices are apart by no more than about a unit of the end price a
second. -/
theorem calculateK_eq_zero_iff (h : a.prices.Usable) (hfits : a.prices.start ≤ u128Max)
    (hrunning : a.start < a.end_) (hlength : a.end_ - a.start ≤ maxAuctionLength) :
    a.calculateK = .ok 0 ↔ a.prices.start * d18
      < a.prices.end_ * (d18 + (a.end_ - a.start) + (a.end_ - a.start) % 2 + 1) := by
  obtain ⟨ln, hln, -, hk⟩ := calculateK_of h hfits hrunning
  have hseconds : 0 < a.end_ - a.start := Nat.sub_pos_of_lt hrunning
  rw [hk, Except.ok.injEq, Nat.div_eq_zero_iff_lt hseconds,
    ln_lt_iff h.one_le_ratio hseconds hlength hln, ← Nat.lt_succ_iff,
    Nat.div_lt_iff_lt_mul h.pos, Nat.mul_comm (Nat.succ _)]

/-- Inside of an auction the price does not rise. -/
theorem getPrice_inside_anti (h : a.prices.Usable) (hfits : a.prices.start ≤ u128Max)
    (hstart : a.start < t₁) (hle : t₁ ≤ t₂) (hend : t₂ < a.end_) (h₁ : a.getPrice t₁ = .ok p₁)
    (h₂ : a.getPrice t₂ = .ok p₂) : p₂ ≤ p₁ := by
  obtain ⟨k, v₁, hk, hv₁, hp₁⟩ := getPrice_inside h hfits hstart (hle.trans_lt hend)
  obtain ⟨k', v₂, hk', hv₂, hp₂⟩ := getPrice_inside h hfits (hstart.trans_le hle) hend
  obtain rfl := Except.ok.inj (hk.symm.trans hk')
  have hv : v₂.val ≤ v₁.val :=
    exp_anti (Nat.mul_le_mul_left k (Nat.sub_le_sub_right hle _)) hv₁ hv₂
  rw [h₁, Except.ok.injEq] at hp₁
  rw [h₂, Except.ok.injEq] at hp₂
  rw [hp₁, hp₂]
  exact max_le_max le_rfl (min_le_min_right _
    (ceilTail_mono (Nat.div_le_div_right (Nat.mul_le_mul_left _ hv))))

/-- At a positive rate no price inside is above the start price. -/
theorem getPrice_inside_le {k : ℕ} (h : a.prices.Usable) (hfits : a.prices.start ≤ u128Max)
    (hstart : a.start < t) (hend : t < a.end_) (hk : a.calculateK = .ok k) (hpos : 0 < k)
    (hp : a.getPrice t = .ok p) : p ≤ a.prices.start := by
  obtain ⟨k', v, hk', hv, hp'⟩ := getPrice_inside h hfits hstart hend
  obtain rfl := Except.ok.inj (hk.symm.trans hk')
  rw [hp, Except.ok.injEq] at hp'
  have hone : v.val < d18 := exp_lt_one (Nat.mul_pos hpos (Nat.sub_pos_of_lt hstart)) hv
  have hlt : a.prices.start * v.val / d18 < a.prices.start := by
    rw [Nat.div_lt_iff_lt_mul (by decide)]
    exact Nat.mul_lt_mul_of_pos_left hone (h.pos.trans_le h.falling)
  rw [hp']
  exact max_le h.falling ((min_le_left ..).trans ((ceilTail_le _).trans hlt))

/-- At rate zero the price inside is the start price, rounded up. -/
theorem getPrice_inside_zero (h : a.prices.Usable) (hfits : a.prices.start ≤ u128Max)
    (hstart : a.start < t) (hend : t < a.end_) (hk : a.calculateK = .ok 0) :
    a.getPrice t = .ok (min (ceilTail a.prices.start) u128Max) := by
  obtain ⟨k, v, hk', hv, hp⟩ := getPrice_inside h hfits hstart hend
  obtain rfl := Except.ok.inj (hk.symm.trans hk')
  rw [Nat.zero_mul, exp, if_pos rfl] at hv
  cases hv
  have hwhole : a.prices.start * oneE18.val / d18 = a.prices.start :=
    Nat.mul_div_cancel _ (by decide)
  rw [hp, hwhole, max_eq_right]
  exact le_min (h.falling.trans (le_ceilTail _)) (h.falling.trans hfits)

theorem min_ceilTail_le_iff {n : ℕ} (hfits : n ≤ u128Max) :
    min (ceilTail n) u128Max ≤ n ↔ d18 ∣ n ∨ n = u128Max := by
  rw [min_le_iff, ceilTail, Nat.dvd_iff_mod_eq_zero]
  split <;> omega

/-- No price is above the start price, unless rounding up takes it there. -/
theorem getPrice_le_start {t p : ℕ} (h : a.prices.Usable) (hfits : a.prices.start ≤ u128Max)
    (hstart : a.start ≤ t) (hend : t ≤ a.end_)
    (hmeets : a.end_ = a.start + 1 ∨ d18 ∣ a.prices.start ∨ a.prices.start = u128Max ∨
      ¬ a.calculateK = .ok 0) (hp : a.getPrice t = .ok p) : p ≤ a.prices.start := by
  rcases hstart.eq_or_lt with rfl | hafter
  · exact (Except.ok.inj ((getPrice_start hend).symm.trans hp)).ge
  rcases hend.eq_or_lt with rfl | hbefore
  · exact (Except.ok.inj ((getPrice_end hafter).symm.trans hp)).ge.trans h.falling
  obtain ⟨k, -, hk, -, -⟩ := getPrice_inside h hfits hafter hbefore
  rcases Nat.eq_zero_or_pos k with rfl | hpos
  · obtain rfl := Except.ok.inj ((getPrice_inside_zero h hfits hafter hbefore hk).symm.trans hp)
    refine (min_ceilTail_le_iff hfits).mpr ?_
    rcases hmeets with hnone | hwhole | hmax | hsteep
    · omega
    · exact .inl hwhole
    · exact .inr hmax
    · exact absurd hk hsteep
  · exact getPrice_inside_le h hfits hafter hbefore hk hpos hp

/-- **The price falls.** The prices of an auction are bounded by those of its start and its end
and never rise, exactly when there is no time inside, or the start price is a whole number or the
largest there is, or the rate of the curve is not zero. -/
theorem priceFalls_iff (h : a.prices.Usable) (hfits : a.prices.start ≤ u128Max)
    (hrunning : a.start < a.end_) (hlength : a.end_ - a.start ≤ maxAuctionLength) :
    a.PriceFalls ↔ a.end_ = a.start + 1 ∨ d18 ∣ a.prices.start ∨ a.prices.start = u128Max ∨
      a.prices.end_ * (d18 + (a.end_ - a.start) + (a.end_ - a.start) % 2 + 1)
        ≤ a.prices.start * d18 := by
  rw [← not_lt (b := a.prices.end_ * _), ← calculateK_eq_zero_iff h hfits hrunning hlength]
  constructor
  · intro hfalls
    by_contra hnot
    rw [not_or, not_or, not_or, not_not] at hnot
    obtain ⟨hinside, hwhole, hmax, hflat⟩ := hnot
    have hend : a.start + 1 < a.end_ := by omega
    obtain ⟨p, _, hp, -, -, -, hle⟩ := hfalls (a.start + 1) a.end_ (by omega) hend.le le_rfl
    rw [getPrice_inside_zero h hfits (Nat.lt_succ_self _) hend hflat] at hp
    cases hp
    rcases (min_ceilTail_le_iff hfits).mp hle with hdvd | heq
    · exact hwhole hdvd
    · exact hmax heq
  · intro hmeets t₁ t₂ hstart hle hend
    obtain ⟨p₁, hp₁, hlow₁⟩ := getPrice_total h hfits hstart (hle.trans hend)
    obtain ⟨p₂, hp₂, hlow₂⟩ := getPrice_total h hfits (hstart.trans hle) hend
    have hbelow₁ := getPrice_le_start h hfits hstart (hle.trans hend) hmeets hp₁
    have hbelow₂ := getPrice_le_start h hfits (hstart.trans hle) hend hmeets hp₂
    refine ⟨p₁, p₂, hp₁, hp₂, hlow₂, ?_, hbelow₁⟩
    rcases hstart.eq_or_lt with rfl | hafter
    · obtain rfl := Except.ok.inj ((getPrice_start hrunning.le).symm.trans hp₁)
      exact hbelow₂
    rcases hend.eq_or_lt with rfl | hbefore
    · obtain rfl := Except.ok.inj ((getPrice_end hrunning).symm.trans hp₂)
      exact hlow₁
    · exact getPrice_inside_anti h hfits hafter hle hbefore hp₁ hp₂

/-- From a little more than two to one within a minute. -/
theorem priceFalls_iff_halving :
    let a : Auction :=
      ⟨1, 1, 5, 7, 8, 0, 0, 1000000, 1000060, ⟨2000000000000000001, 1000000000000000000⟩⟩
    a.PriceFalls ↔ 1000060 = 1000000 + 1 ∨ d18 ∣ 2000000000000000001 ∨
      2000000000000000001 = u128Max ∨
        1000000000000000000 * (d18 + (1000060 - 1000000) + (1000060 - 1000000) % 2 + 1)
          ≤ 2000000000000000001 * d18 :=
  priceFalls_iff ⟨by decide, by decide, by decide⟩ (by decide) (by decide) (by decide)

end Auction

namespace World

/-- A flat curve at one and a half is one unit above its start price all the time between the
start and the end. -/
theorem flat_curve_rises :
    sellingDear.Reachable ∧
      ∃ a, sellingDear.rebalancing.auction ⟨5, 1, 1⟩ = some a ∧ a.prices.Usable ∧
        a.prices.start ≤ u128Max ∧ a.start < a.end_ ∧ a.end_ - a.start ≤ maxAuctionLength ∧
        a.getPrice 1000030 = .ok 1500000000000000001 ∧ ¬ a.PriceFalls := by
  have hok : ∃ a, sellingDear.rebalancing.auction ⟨5, 1, 1⟩ = some a ∧
      (a.prices = ⟨1500000000000000000, 1500000000000000000⟩ ∧ a.start = 1000000 ∧
        a.end_ = 1000060) ∧ a.getPrice 1000030 = .ok 1500000000000000001 := by decide +kernel
  obtain ⟨a, ha, ⟨hprices, hstart, hend⟩, hp⟩ := hok
  refine ⟨reachable_genesis .., a, ha, ?_, ?_, ?_, ?_, hp, fun hfalls => ?_⟩
  · rw [hprices]
    exact ⟨by decide, by decide, by decide⟩
  · rw [hprices]
    decide
  · omega
  · rw [hstart, hend]
    decide
  · obtain ⟨p₁, _, hp₁, -, -, -, hle⟩ := hfalls 1000030 a.end_ (by omega) (by omega) le_rfl
    obtain rfl := Except.ok.inj (hp.symm.trans hp₁)
    rw [hprices] at hle
    exact absurd hle (by decide)

end World

end IndexDtf
