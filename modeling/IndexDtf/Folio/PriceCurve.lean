import IndexDtf.Folio.AuctionStep
import IndexDtf.Shared.DecimalExp

/-!
# IndexDtf.Folio.PriceCurve

The price curves of auctions. A curve that falls, by a factor of at most
`MAX_PRICE_RANGE` and not to zero, has a price at all times of its auction. The prices
of the rebalance give such a curve unless the end price is rounded to zero; those that
an auction launcher chooses are not checked.
-/

namespace IndexDtf

open Lib SlotArray Decimal

/-- Prices that fall, by a factor of at most `MAX_PRICE_RANGE` and not to zero. -/
structure PricesInAuction.Usable (prices : PricesInAuction) : Prop where
  pos : 0 < prices.end_
  falling : prices.end_ ≤ prices.start
  range : prices.start ≤ maxPriceRange * prices.end_

namespace PricesInAuction.Usable

variable {prices : PricesInAuction}

theorem one_le_ratio (h : prices.Usable) : d18 ≤ prices.start * d18 / prices.end_ := by
  rw [Nat.le_div_iff_mul_le h.pos, Nat.mul_comm]
  exact Nat.mul_le_mul_right d18 h.falling

theorem ratio_le (h : prices.Usable) : prices.start * d18 / prices.end_ ≤ 10 ^ 27 := by
  refine Nat.div_le_of_le_mul ?_
  calc prices.start * d18 ≤ maxPriceRange * prices.end_ * d18 :=
        Nat.mul_le_mul_right d18 h.range
    _ = prices.end_ * (maxPriceRange * d18) := by ring
    _ = prices.end_ * 10 ^ 27 := rfl

end PricesInAuction.Usable

namespace Auction

variable {a : Auction} {t : ℕ}

/-- The curve has a price at all times of the auction. -/
def HasPrices (a : Auction) : Prop :=
  ∀ t, a.start ≤ t → t ≤ a.end_ → ∃ price, a.getPrice t = .ok price ∧ 0 < price

/-- The rate at which the price falls is the logarithm of the price ratio, per second. -/
theorem calculateK_of (h : a.prices.Usable) (hfits : a.prices.start ≤ u128Max)
    (hrunning : a.start < a.end_) :
    ∃ ln, Decimal.ln ⟨a.prices.start * d18 / a.prices.end_⟩ = .ok (some ln) ∧
      ln.val ≤ 22 * d18 ∧ a.calculateK = .ok (ln.val / (a.end_ - a.start)) := by
  have hpos := h.pos
  have hmul : a.prices.start * d18 < u256Bound :=
    (Nat.mul_le_mul_right d18 hfits).trans_lt (by decide)
  obtain ⟨ln, hln, hle⟩ := ln_total (x := ⟨a.prices.start * d18 / a.prices.end_⟩) h.one_le_ratio
    h.ratio_le
  refine ⟨ln, hln, hle, ?_⟩
  have hsmall : ln.val / (a.end_ - a.start) ≤ u128Max :=
    (Nat.div_le_self ..).trans (hle.trans (by decide))
  rw [calculateK, auctionLength, checkedSub_eq_ok.mpr ⟨hrunning.le, rfl⟩, ok_bind,
    mul_of (x := fromScaled a.prices.start) (y := oneE18) hmul, ok_bind,
    div_of (by exact hpos), ok_bind]
  simp only [fromScaled_val, oneE18]
  rw [hln, ok_bind, okOr, ok_bind, div_of (by simp only [fromScaled_val]; omega), ok_bind,
    toScaled_floor]
  exact congrArg Except.ok (min_eq_left hsmall)

/-- Over the whole auction the exponent is at most the logarithm of the price ratio. -/
theorem exponent_le {k : ℕ} (h : a.prices.Usable) (hfits : a.prices.start ≤ u128Max)
    (hrunning : a.start < a.end_) (hend : t ≤ a.end_) (hk : a.calculateK = .ok k) :
    k * (t - a.start) ≤ 22 * d18 := by
  obtain ⟨ln, -, hln, hk'⟩ := calculateK_of h hfits hrunning
  obtain rfl := Except.ok.inj (hk.symm.trans hk')
  calc ln.val / (a.end_ - a.start) * (t - a.start)
      ≤ ln.val / (a.end_ - a.start) * (a.end_ - a.start) :=
        Nat.mul_le_mul_left _ (Nat.sub_le_sub_right hend _)
    _ ≤ ln.val := Nat.div_mul_le_self ..
    _ ≤ 22 * d18 := hln

/-- The price inside of an auction, from the inverse of the exponential. -/
theorem getPrice_inside (h : a.prices.Usable) (hfits : a.prices.start ≤ u128Max)
    (hstart : a.start < t) (hend : t < a.end_) :
    ∃ k v, a.calculateK = .ok k ∧ exp ⟨k * (t - a.start)⟩ true = .ok (some v) ∧
      a.getPrice t
        = .ok (max a.prices.end_ (min (ceilTail (a.prices.start * v.val / d18)) u128Max)) := by
  obtain ⟨ln, -, -, hk⟩ := calculateK_of h hfits (hstart.trans hend)
  have hexponent := exponent_le h hfits (hstart.trans hend) hend.le hk
  have hsmall : 22 * d18 < u256Bound := by decide
  obtain ⟨v, hv, hone⟩ := exp_total (x := ⟨ln.val / (a.end_ - a.start) * (t - a.start)⟩)
    (hexponent.trans (by decide))
  have hmul : a.prices.start * v.val < u256Bound :=
    (Nat.mul_le_mul hfits hone).trans_lt (by decide)
  have hscaled : a.prices.start * v.val / d18 + 1 < u256Bound := by
    have hle : a.prices.start * v.val / d18 ≤ u128Max :=
      Nat.div_le_of_le_mul ((Nat.mul_le_mul hfits hone).trans (Nat.mul_comm ..).le)
    have hfit : u128Max + 1 < u256Bound := by decide
    omega
  refine ⟨_, v, hk, hv, ?_⟩
  rw [getPrice, checkCondition_of ⟨hstart.le, hend.le⟩, ok_bind, if_neg hstart.ne', if_neg hend.ne,
    checkedSub_eq_ok.mpr ⟨hstart.le, rfl⟩, ok_bind, hk, ok_bind,
    mul_of (by simp only [fromScaled_val]; omega), ok_bind]
  simp only [fromScaled_val]
  rw [hv, ok_bind, okOr, ok_bind, mulD18_eq_ok.mpr ⟨hmul, rfl⟩, ok_bind]
  simp only [fromScaled_val]
  rw [toScaled_of hscaled, ok_bind]
  split
  · next hlt => rw [max_eq_left hlt.le]
  · next hge => rw [max_eq_right (not_lt.mp hge)]

theorem getPrice_start (h : a.start ≤ a.end_) : a.getPrice a.start = .ok a.prices.start := by
  rw [getPrice, checkCondition_of ⟨le_rfl, h⟩, ok_bind, if_pos rfl]

theorem getPrice_end (h : a.start < a.end_) : a.getPrice a.end_ = .ok a.prices.end_ := by
  rw [getPrice, checkCondition_of ⟨h.le, le_rfl⟩, ok_bind, if_neg h.ne', if_pos rfl]

/-- Usable prices have a price at every time of the auction, and none below the end price. -/
theorem getPrice_total (h : a.prices.Usable) (hfits : a.prices.start ≤ u128Max)
    (hstart : a.start ≤ t) (hend : t ≤ a.end_) :
    ∃ price, a.getPrice t = .ok price ∧ a.prices.end_ ≤ price := by
  rcases hstart.eq_or_lt with rfl | hafter
  · exact ⟨_, getPrice_start hend, h.falling⟩
  · rcases hend.eq_or_lt with rfl | hbefore
    · exact ⟨_, getPrice_end hafter, le_rfl⟩
    · obtain ⟨_, v, -, -, hprice⟩ := getPrice_inside h hfits hafter hbefore
      exact ⟨_, hprice, le_max_left ..⟩

theorem hasPrices (h : a.prices.Usable) (hfits : a.prices.start ≤ u128Max) : a.HasPrices := by
  intro t hstart hend
  obtain ⟨price, hprice, hle⟩ := getPrice_total h hfits hstart hend
  exact ⟨price, hprice, h.pos.trans_le hle⟩

/-! ### The prices of the rebalance -/

theorem priceRatio_spec {sellPrice buyPrice price : ℕ}
    (h : priceRatio sellPrice buyPrice = .ok price) :
    0 < buyPrice ∧ price = min (ceilTail (sellPrice * d18 / buyPrice)) u128Max := by
  simp only [priceRatio, bind_eq_ok, mul_eq_ok, div_eq_ok, fromScaled_val] at h
  obtain ⟨_, ⟨-, rfl⟩, _, ⟨hpos, rfl⟩, h⟩ := h
  exact ⟨hpos, toScaled_ceiling h⟩

/-- Prices in their range: the highest is below 101 times the lowest. -/
theorem high_lt_of_valid {prices : PricesInRebalance} (h : prices.Valid) (hlow : prices.low ≠ 0) :
    prices.low ≤ prices.high ∧ prices.high < 101 * prices.low := by
  rcases h with ⟨hzero, -⟩ | ⟨-, -, hle, -, hrange⟩
  · exact absurd hzero hlow
  · refine ⟨hle, ?_⟩
    rw [← Nat.div_lt_iff_lt_mul (Nat.pos_of_ne_zero hlow)]
    exact hrange.trans_lt (by decide)

/-- The price ratios of two tokens of the rebalance are apart by less than a hundredth of
`MAX_PRICE_RANGE`, unless the lower one is rounded to zero. -/
theorem priceRatios_spec {sell buy : PricesInRebalance} {start end_ : ℕ} (hsell : sell.Valid)
    (hbuy : buy.Valid) (hstart : priceRatio sell.high buy.low = .ok start)
    (hend : priceRatio sell.low buy.high = .ok end_) :
    (0 < end_ ↔ buy.high ≤ sell.low * d18) ∧
      (0 < end_ → end_ ≤ start ∧ 100 * start ≤ maxPriceRange * end_) := by
  obtain ⟨hlowPos, rfl⟩ := priceRatio_spec hstart
  obtain ⟨hhighPos, rfl⟩ := priceRatio_spec hend
  have hpos : 0 < min (ceilTail (sell.low * d18 / buy.high)) u128Max ↔
      buy.high ≤ sell.low * d18 := by
    constructor
    · intro hpos
      by_contra hgt
      rw [Nat.div_eq_of_lt (not_le.mp hgt), ceilTail, Nat.zero_mod, if_pos rfl, Nat.zero_min] at hpos
      exact absurd hpos (lt_irrefl 0)
    · intro hle
      exact lt_min ((Nat.div_pos hle hhighPos).trans_le (le_ceilTail _)) (by decide)
  refine ⟨hpos, fun hend => ?_⟩
  have hle := hpos.mp hend
  have hsellLow : sell.low ≠ 0 := by
    rintro hzero
    rw [hzero, Nat.zero_mul] at hle
    omega
  obtain ⟨hsellLe, hsellLt⟩ := high_lt_of_valid hsell hsellLow
  obtain ⟨hbuyLe, hbuyLt⟩ := high_lt_of_valid hbuy hlowPos.ne'
  have hmono : sell.low * d18 / buy.high ≤ sell.high * d18 / buy.low :=
    Nat.div_le_div (Nat.mul_le_mul_right d18 hsellLe) hbuyLe hlowPos.ne'
  have hone : 0 < sell.low * d18 / buy.high := Nat.div_pos hle hhighPos
  -- the ranges of the two prices multiply
  have hrange : sell.high * d18 / buy.low < 10201 * (sell.low * d18 / buy.high + 1) := by
    have hstart : sell.high * d18 / buy.low * buy.low ≤ sell.high * d18 := Nat.div_mul_le_self ..
    have hend : sell.low * d18 < (sell.low * d18 / buy.high + 1) * buy.high :=
      (Nat.div_lt_iff_lt_mul hhighPos).mp (Nat.lt_succ_self _)
    refine Nat.lt_of_mul_lt_mul_right (a := buy.high) ?_
    calc sell.high * d18 / buy.low * buy.high
        ≤ sell.high * d18 / buy.low * (101 * buy.low) := Nat.mul_le_mul_left _ hbuyLt.le
      _ = 101 * (sell.high * d18 / buy.low * buy.low) := by ring
      _ ≤ 101 * (sell.high * d18) := Nat.mul_le_mul_left _ hstart
      _ ≤ 101 * (101 * sell.low * d18) :=
        Nat.mul_le_mul_left _ (Nat.mul_le_mul_right _ hsellLt.le)
      _ = 10201 * (sell.low * d18) := by ring
      _ < 10201 * ((sell.low * d18 / buy.high + 1) * buy.high) :=
        Nat.mul_lt_mul_of_pos_left hend (by decide)
      _ = 10201 * (sell.low * d18 / buy.high + 1) * buy.high := by ring
  have hceil : 100 * ceilTail (sell.high * d18 / buy.low)
      ≤ maxPriceRange * ceilTail (sell.low * d18 / buy.high) := by
    have hstart := ceilTail_le (sell.high * d18 / buy.low)
    have hend := le_ceilTail (sell.low * d18 / buy.high)
    rw [maxPriceRange]
    omega
  refine ⟨min_le_min_right _ (ceilTail_mono hmono), ?_⟩
  calc 100 * min (ceilTail (sell.high * d18 / buy.low)) u128Max
      = min (100 * ceilTail (sell.high * d18 / buy.low)) (100 * u128Max) :=
        (Nat.mul_min_mul_left ..).symm
    _ ≤ min (maxPriceRange * ceilTail (sell.low * d18 / buy.high)) (maxPriceRange * u128Max) :=
        min_le_min hceil (Nat.mul_le_mul_right _ (by decide))
    _ = maxPriceRange * min (ceilTail (sell.low * d18 / buy.high)) u128Max :=
        Nat.mul_min_mul_left ..

/-- When an auction gets usable prices. Those of the rebalance are unless they are rounded to zero;
those of the launcher have to fall, and are only in their range by the check against the rebalance,
if that has prices that are not rounded to zero. -/
def PricesMeet (sell buy : PricesInRebalance) : Option OpenAuctionConfig → Prop
  | none => buy.high ≤ sell.low * d18
  | some config => config.price.end_ ≤ config.price.start ∧
      (buy.low ≠ 0 ∧ buy.high ≤ sell.low * d18 ∨
        0 < config.price.end_ ∧ config.price.start ≤ maxPriceRange * config.price.end_)

theorem auctionPrice_usable_iff {sell buy : PricesInRebalance} {prices : PricesInAuction}
    {config : Option OpenAuctionConfig} (hsell : sell.Valid) (hbuy : buy.Valid)
    (h : auctionPrice sell buy config = .ok prices) :
    prices.Usable ↔ PricesMeet sell buy config := by
  unfold auctionPrice at h
  split at h
  · next hdeferred =>
    cases config with
    | none => cases h
    | some config =>
        cases h
        simp only [PricesMeet, hdeferred, ne_eq, not_true_eq_false, false_and, false_or]
        constructor
        · intro hu
          exact ⟨hu.falling, hu.pos, hu.range⟩
        · rintro ⟨hf, hp, hr⟩
          exact ⟨hp, hf, hr⟩
  · next hlow =>
    simp only [bind_eq_ok] at h
    obtain ⟨start, hstart, end_, hend, h⟩ := h
    obtain ⟨hpos, hrange⟩ := priceRatios_spec hsell hbuy hstart hend
    cases config with
    | none =>
        cases h
        constructor
        · intro hu
          exact hpos.mp hu.pos
        · intro hle
          obtain ⟨hfalling, hratio⟩ := hrange (hpos.mpr hle)
          exact ⟨hpos.mpr hle, hfalling, by simp only; omega⟩
    | some config =>
        simp only [bind_eq_ok, fitting_eq_ok, checkCondition_eq_ok, Except.ok.injEq] at h
        obtain ⟨_, -, _, ⟨-, rfl⟩, _, ⟨hhighest, hlowest⟩, rfl⟩ := h
        constructor
        · intro hu
          exact ⟨hu.falling, .inr ⟨hu.pos, hu.range⟩⟩
        · rintro ⟨hfalling, ⟨-, hle⟩ | ⟨hp, hr⟩⟩
          · have hend := hpos.mpr hle
            obtain ⟨-, hratio⟩ := hrange hend
            have hscaled := Nat.mul_le_mul_left maxPriceRange hlowest
            exact ⟨hend.trans_le hlowest, hfalling, hhighest.trans (hratio.trans hscaled)⟩
          · exact ⟨hp, hfalling, hr⟩

/-- The start price is a `u128`. -/
theorem auctionPrice_fits {sell buy : PricesInRebalance} {prices : PricesInAuction}
    {config : Option OpenAuctionConfig} (hconfig : ∀ c, config = some c → c.price.start ≤ u128Max)
    (h : auctionPrice sell buy config = .ok prices) : prices.start ≤ u128Max := by
  unfold auctionPrice at h
  split at h
  · cases config with
    | none => cases h
    | some config =>
        cases h
        exact hconfig config rfl
  · simp only [bind_eq_ok] at h
    obtain ⟨start, hstart, end_, -, h⟩ := h
    cases config with
    | none =>
        cases h
        rw [(priceRatio_spec hstart).2]
        exact min_le_right ..
    | some config =>
        simp only [bind_eq_ok, Except.ok.injEq] at h
        obtain ⟨_, -, _, -, _, -, rfl⟩ := h
        exact hconfig config rfl

end Auction

namespace World

open Auction

variable {T : TokenProgram} {w w' : World T} {f sellMint buyMint : Pubkey}
  {config : Option OpenAuctionConfig} {rebalance : Rebalance} {a : Auction}

/-- The folio, the mints and the launcher's choices of an instruction that opens an auction. -/
def openedPair : AuctionInstruction T →
    Option (Pubkey × Pubkey × Pubkey × Option OpenAuctionConfig)
  | .openAuction f _ sellMint buyMint config => some (f, sellMint, buyMint, some config)
  | .openAuctionPermissionless f sellMint buyMint => some (f, sellMint, buyMint, none)
  | _ => none

theorem openFor_of_openedPair {i : AuctionInstruction T}
    (hi : openedPair i = some (f, sellMint, buyMint, config)) (h : w.auction i = .ok w') :
    ∃ folio buffer isPermissionless,
      w.openFor f folio sellMint buyMint buffer config isPermissionless = .ok w' := by
  cases i with
  | openAuction f launcher sellMint buyMint config =>
      cases hi
      simp only [auction, openAuction, bind_eq_ok] at h
      obtain ⟨folio, -, h⟩ := h
      exact ⟨folio, _, _, h⟩
  | openAuctionPermissionless f sellMint buyMint =>
      cases hi
      simp only [auction, openAuctionPermissionless, bind_eq_ok] at h
      obtain ⟨folio, -, h⟩ := h
      exact ⟨folio, _, _, h⟩
  | startRebalance | addRebalanceDetails | bid | closeAuction => cases hi

/-- **Usable price curves.** The prices of an opened auction fall by a factor of at most
`MAX_PRICE_RANGE` and not to zero, and the auction has a price at all its times, exactly when the
chosen prices meet the condition. -/
theorem curve_usable_iff {i : AuctionInstruction T} (hw : w.Reachable)
    (hi : openedPair i = some (f, sellMint, buyMint, config))
    (hconfig : ∀ c, config = some c → c.price.start ≤ u128Max)
    (hr : w.rebalancing.rebalance f = some rebalance) (h : w.step (.auction i) = .ok w')
    (ha : w'.rebalancing.auction ⟨f, rebalance.nonce, rebalance.currentAuctionId + 1⟩ = some a) :
    a.prices.Usable ∧ a.HasPrices ↔ PricesMeet (rebalance.details.lookup sellMint).prices
      (rebalance.details.lookup buyMint).prices config := by
  obtain ⟨hbaskets, hdetails⟩ := hw.auctionsWF
  obtain ⟨folio, buffer, isPermissionless, hopen⟩ := openFor_of_openedPair hi h
  obtain ⟨before, after, folio', sell, buy, a', ends, hbefore, -, hopening, hw'⟩ :=
    openFor_spec hbaskets hdetails hopen
  obtain rfl := Option.some.inj (hr.symm.trans hbefore)
  rw [hw'] at ha
  simp only [Function.update_self, Option.some.injEq] at ha
  subst ha
  have hvalid := (hdetails f rebalance hr).prices
  have hiff := auctionPrice_usable_iff (hvalid _ (mem_of_find hopening.sellFound))
    (hvalid _ (mem_of_find hopening.buyFound)) hopening.prices
  have hfits := auctionPrice_fits hconfig hopening.prices
  rw [lookup_of_find hopening.sellFound, lookup_of_find hopening.buyFound, ← hiff]
  exact ⟨fun husable => husable.1, fun husable => ⟨husable, hasPrices husable hfits⟩⟩

/-- Folio 5 before its first auction. -/
def rebalanced : World TokenProgram.simple :=
  run step (genesis SimpleLedger.empty 1000000) (withRebalance 5)

/-- A flat curve. -/
theorem curve_usable_iff_flat :
    ∃ rebalance, rebalanced.rebalancing.rebalance 5 = some rebalance ∧
      ∃ w', rebalanced.step (opening 5 200 400) = .ok w' ∧
        ∃ a, w'.rebalancing.auction ⟨5, rebalance.nonce, rebalance.currentAuctionId + 1⟩ = some a ∧
          (a.prices.Usable ∧ a.HasPrices ↔ PricesMeet (rebalance.details.lookup 7).prices
            (rebalance.details.lookup 8).prices
              (some ⟨⟨d18, d18⟩, 200 * 1000000000, 400 * 1000000000⟩)) := by
  have hok : ∃ rebalance, rebalanced.rebalancing.rebalance 5 = some rebalance ∧
      ∃ w', rebalanced.step (opening 5 200 400) = .ok w' ∧
        ∃ a, w'.rebalancing.auction ⟨5, rebalance.nonce, rebalance.currentAuctionId + 1⟩ = some a ∧
          True := by decide +kernel
  obtain ⟨rebalance, hr, w', h, a, ha, -⟩ := hok
  refine ⟨rebalance, hr, w', h, a, ha, curve_usable_iff (reachable_genesis ..) rfl ?_ hr h ha⟩
  intro c hc
  cases hc
  decide

/-- The launcher's end price may be above the start price: there is no price in between. -/
theorem rising_curve :
    rebalanced.Reachable ∧
      ∃ w', rebalanced.step (.auction (.openAuction 5 4 7 8
          ⟨⟨d18, 2 * d18⟩, 200 * 1000000000, 400 * 1000000000⟩)) = .ok w' ∧
        ∃ a, w'.rebalancing.auction ⟨5, 1, 1⟩ = some a ∧ a.prices.start < a.prices.end_ ∧
          a.start ≤ 1000030 ∧ 1000030 ≤ a.end_ ∧
          a.getPrice 1000030 = .error (.code .MathOverflow) :=
  ⟨reachable_genesis .., by decide +kernel⟩

end World

end IndexDtf
