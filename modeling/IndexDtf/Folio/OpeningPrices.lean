import IndexDtf.Folio.PriceCurve

/-!
# IndexDtf.Folio.OpeningPrices

**Whether the prices of an auction cover those of the rebalance.** An auction starts where the
highest price of the sell token meets the lowest one of the buy token, and ends where the lowest
meets the highest, rounded up: it should never offer less than the approved prices allow.

`to_scaled` goes wrong twice here. It rounds up by the digits of the quotient and not by the
remainder of the division, so that a whole quotient with a remainder is rounded down; and a
quotient above `u128::MAX` is cut off there, and then multiplied by a hundred.
-/

namespace IndexDtf

open Lib SlotArray Decimal

/-- The two prices of an auction are not below the exact ratios. -/
def PricesInAuction.Cover (prices : PricesInAuction) (sell buy : PricesInRebalance) : Prop :=
  sell.high * d18 ≤ prices.start * buy.low ∧ sell.low * d18 ≤ prices.end_ * buy.high

instance (prices : PricesInAuction) (sell buy : PricesInRebalance) :
    Decidable (prices.Cover sell buy) :=
  inferInstanceAs (Decidable (_ ∧ _))

namespace Auction

variable {sell buy : PricesInRebalance} {sellPrice buyPrice : ℕ}

/-- Opening an auction computes the bounds of the launcher's prices without an overflow, and
without a launcher its prices cover those of the rebalance. -/
structure OpensInRange (sell buy : PricesInRebalance) : Prop where
  noPanic : ∀ config : OpenAuctionConfig, config.price.start ≤ u128Max →
    auctionPrice sell buy (some config) ≠ .error .panic
  covers : ∃ prices, auctionPrice sell buy none = .ok prices ∧ prices.Cover sell buy

/-- The rounded-up price ratios are right: a hundred times the higher one is a `u128`, and none of
the two is a whole number unless there is nothing to round. -/
structure RatiosRepresentable (sell buy : PricesInRebalance) : Prop where
  fits : 100 * (sell.high * d18 / buy.low + 1) ≤ u128Max
  start : buy.low ∣ sell.high * d18 ∨ ¬ d18 ∣ sell.high * d18 / buy.low
  end_ : buy.high ∣ sell.low * d18 ∨ ¬ d18 ∣ sell.low * d18 / buy.high

theorem priceRatio_of (hsell : sellPrice ≤ maxTokenPrice) (hbuy : 0 < buyPrice) :
    priceRatio sellPrice buyPrice = .ok (min (ceilTail (sellPrice * d18 / buyPrice)) u128Max) := by
  have hmul : sellPrice * d18 ≤ maxTokenPrice * d18 := Nat.mul_le_mul_right d18 hsell
  have hfits : maxTokenPrice * d18 + 1 < u256Bound := by decide
  have hdiv : sellPrice * d18 / buyPrice ≤ sellPrice * d18 := Nat.div_le_self ..
  rw [priceRatio, mul_of (x := fromScaled sellPrice) (y := oneE18)
    (show sellPrice * d18 < u256Bound by omega), ok_bind, div_of (y := fromScaled buyPrice) hbuy,
    ok_bind]
  exact toScaled_of (show sellPrice * d18 / buyPrice + 1 < u256Bound by omega)

/-- A rounded-up quotient is at least the exact one, unless it is whole and has a remainder. -/
theorem le_ceilTail_mul_iff {n q : ℕ} (hq : 0 < q) :
    n ≤ ceilTail (n / q) * q ↔ q ∣ n ∨ ¬ d18 ∣ n / q := by
  rw [ceilTail, Nat.dvd_iff_mod_eq_zero (n := n / q)]
  split
  · next hwhole => simp only [hwhole, not_true_eq_false, or_false, le_floor_mul_iff]
  · next hpart =>
    exact iff_of_true (Nat.lt_mul_of_div_lt (Nat.lt_succ_self _) hq).le (.inr hpart)

/-- A hundred times the rounded-up quotient fits when there is room for the next one. -/
theorem hundred_ceilTail_le_iff {n : ℕ} : 100 * ceilTail n ≤ u128Max ↔ 100 * (n + 1) ≤ u128Max := by
  have hpart : u128Max / 100 % d18 ≠ 0 := by decide
  rw [ceilTail]
  split
  · next hwhole =>
    have hne : n ≠ u128Max / 100 := fun heq => hpart (heq ▸ hwhole)
    omega
  · exact Iff.rfl

theorem highs_le (h : sell.Valid) : sell.low ≤ sell.high ∧ sell.high ≤ maxTokenPrice := by
  rcases h with ⟨hlow, hhigh⟩ | ⟨-, -, hle, hbounded, -⟩
  · rw [hlow, hhigh]
    exact ⟨le_rfl, Nat.zero_le _⟩
  · exact ⟨hle, hbounded⟩

/-- The prices as `open_auction` computes them, if none are deferred. -/
theorem auctionPrice_none (hsell : sell.Valid) (hbuy : buy.Valid) (hpriced : buy.low ≠ 0) :
    auctionPrice sell buy none = .ok ⟨min (ceilTail (sell.high * d18 / buy.low)) u128Max,
      min (ceilTail (sell.low * d18 / buy.high)) u128Max⟩ := by
  obtain ⟨hsellLe, hsellMax⟩ := highs_le hsell
  have hlow : 0 < buy.low := Nat.pos_of_ne_zero hpriced
  unfold auctionPrice
  rw [if_neg hpriced, priceRatio_of hsellMax hlow, ok_bind,
    priceRatio_of (hsellLe.trans hsellMax) (hlow.trans_le (highs_le hbuy).1), ok_bind]

/-- The product is only computed for a launcher whose start price is not below the rebalance's. -/
theorem auctionPrice_panic_iff (hsell : sell.Valid) (hbuy : buy.Valid) (hpriced : buy.low ≠ 0)
    (config : OpenAuctionConfig) :
    auctionPrice sell buy (some config) = .error .panic ↔
      min (ceilTail (sell.high * d18 / buy.low)) u128Max ≤ config.price.start ∧
        u128Max < 100 * min (ceilTail (sell.high * d18 / buy.low)) u128Max := by
  obtain ⟨hsellLe, hsellMax⟩ := highs_le hsell
  have hlow : 0 < buy.low := Nat.pos_of_ne_zero hpriced
  unfold auctionPrice
  rw [if_neg hpriced, priceRatio_of hsellMax hlow, ok_bind,
    priceRatio_of (hsellLe.trans hsellMax) (hlow.trans_le (highs_le hbuy).1), ok_bind]
  simp only [bind_eq_error, checkCondition_ne_panic, checkCondition_eq_ok, fitting_eq_error,
    reduceCtorEq, false_or, and_false, exists_false, or_false, exists_const]

/-- The launcher may choose the highest start price there is. -/
theorem noPanic_iff (hsell : sell.Valid) (hbuy : buy.Valid) (hpriced : buy.low ≠ 0) :
    (∀ config : OpenAuctionConfig, config.price.start ≤ u128Max →
      auctionPrice sell buy (some config) ≠ .error .panic) ↔
      100 * (sell.high * d18 / buy.low + 1) ≤ u128Max := by
  have hpos : 0 < u128Max := by decide
  simp only [ne_eq, auctionPrice_panic_iff hsell hbuy hpriced, ← hundred_ceilTail_le_iff]
  constructor
  · intro hnever
    have hfits := hnever ⟨⟨u128Max, 0⟩, 0, 0⟩ le_rfl
    simp only [min_le_right, true_and] at hfits
    omega
  · rintro hfits config - ⟨-, hhigh⟩
    omega

/-- **The prices of an auction are in range**, exactly when the price ratios can be represented. -/
theorem opensInRange_iff (hsell : sell.Valid) (hbuy : buy.Valid) (hpriced : buy.low ≠ 0) :
    OpensInRange sell buy ↔ RatiosRepresentable sell buy := by
  obtain ⟨hsellLe, -⟩ := highs_le hsell
  obtain ⟨hbuyLe, -⟩ := highs_le hbuy
  have hlow : 0 < buy.low := Nat.pos_of_ne_zero hpriced
  have hhigh : 0 < buy.high := hlow.trans_le hbuyLe
  have hmono : sell.low * d18 / buy.high ≤ sell.high * d18 / buy.low :=
    Nat.div_le_div (Nat.mul_le_mul_right d18 hsellLe) hbuyLe hpriced
  -- with room for a hundred times the start price, nothing is cut off
  have hcovers (hfits : 100 * (sell.high * d18 / buy.low + 1) ≤ u128Max) :
      (∃ prices, auctionPrice sell buy none = .ok prices ∧ prices.Cover sell buy) ↔
        (buy.low ∣ sell.high * d18 ∨ ¬ d18 ∣ sell.high * d18 / buy.low) ∧
          (buy.high ∣ sell.low * d18 ∨ ¬ d18 ∣ sell.low * d18 / buy.high) := by
    have hstart := ceilTail_le (sell.high * d18 / buy.low)
    have hend := ceilTail_le (sell.low * d18 / buy.high)
    rw [auctionPrice_none hsell hbuy hpriced, min_eq_left (by omega), min_eq_left (by omega)]
    simp only [Except.ok.injEq, exists_eq_left', PricesInAuction.Cover]
    rw [le_ceilTail_mul_iff hlow, le_ceilTail_mul_iff hhigh]
  constructor
  · rintro ⟨hnever, hcover⟩
    have hfits := (noPanic_iff hsell hbuy hpriced).mp hnever
    obtain ⟨hstart, hend⟩ := (hcovers hfits).mp hcover
    exact ⟨hfits, hstart, hend⟩
  · rintro ⟨hfits, hstart, hend⟩
    exact ⟨(noPanic_iff hsell hbuy hpriced).mpr hfits, (hcovers hfits).mpr ⟨hstart, hend⟩⟩

end Auction

namespace World

open Auction

variable {T : TokenProgram} {w : World T} {f sellMint buyMint : Pubkey} {r : Rebalance}
  {sell buy : RebalancePriceAndLimits}

/-- **The opening prices cover the approved ranges.** Of any pair of a rebalance whose prices are
not deferred they do, exactly when the price ratios can be represented. Then those of every auction
that is opened without a launcher do. -/
theorem opening_covers_iff (hw : w.Reachable) (hr : w.rebalancing.rebalance f = some r)
    (hsell : r.details.find sellMint = some sell) (hbuy : r.details.find buyMint = some buy)
    (hpriced : buy.prices.low ≠ 0) :
    (OpensInRange sell.prices buy.prices ↔ RatiosRepresentable sell.prices buy.prices) ∧
      (RatiosRepresentable sell.prices buy.prices → ∀ w' a,
        w.step (.auction (.openAuctionPermissionless f sellMint buyMint)) = .ok w' →
        w'.rebalancing.auction ⟨f, r.nonce, r.currentAuctionId + 1⟩ = some a →
        a.prices.Cover sell.prices buy.prices) := by
  obtain ⟨hbaskets, hdetails⟩ := hw.auctionsWF
  have hvalid := (hdetails f r hr).prices
  have hiff := opensInRange_iff (hvalid _ (mem_of_find hsell)) (hvalid _ (mem_of_find hbuy)) hpriced
  refine ⟨hiff, fun hrepresentable w' a hstep ha => ?_⟩
  obtain ⟨prices, hprices, hcover⟩ := (hiff.mpr hrepresentable).covers
  obtain ⟨folio, buffer, isPermissionless, hopen⟩ := openFor_of_openedPair (i := .openAuctionPermissionless f sellMint buyMint) rfl hstep
  obtain ⟨before, after, folio', sell', buy', a', ends, hbefore, -, hopening, hw'⟩ :=
    openFor_spec hbaskets hdetails hopen
  obtain rfl := Option.some.inj (hr.symm.trans hbefore)
  rw [hw'] at ha
  simp only [Function.update_self, Option.some.injEq] at ha
  subst ha
  obtain rfl := Option.some.inj (hsell.symm.trans hopening.sellFound)
  obtain rfl := Option.some.inj (hbuy.symm.trans hopening.buyFound)
  obtain rfl := Except.ok.inj (hprices.symm.trans hopening.prices)
  exact hcover

/-- Folio 5 with a rebalance of the given prices of tokens 7 and 8, when anybody may open an
auction. -/
def pricedAt (sell buy : PricesInRebalance) : World TokenProgram.simple :=
  run step (genesis SimpleLedger.empty 1000000) (withRebalance 5 ++
    [.auction (.startRebalance 5 4 600 1200 [7, 8]
      [⟨sell, ⟨200000000000, 1, 600000000000⟩⟩,
        ⟨buy, ⟨300000000000, 100000000000, 600000000000⟩⟩] true),
      .elapse 600])

/-- Token 7 at 10 dollars, and token 8 at three. -/
theorem opening_covers_iff_priced :
    ∃ r, (pricedAt ⟨9 * d18, 10 * d18⟩ ⟨3 * d18, 4 * d18⟩).rebalancing.rebalance 5 = some r ∧
      ∃ sell, r.details.find 7 = some sell ∧ ∃ buy, r.details.find 8 = some buy ∧
        (OpensInRange sell.prices buy.prices ↔ RatiosRepresentable sell.prices buy.prices) ∧
          (RatiosRepresentable sell.prices buy.prices → ∀ w' a,
            (pricedAt ⟨9 * d18, 10 * d18⟩ ⟨3 * d18, 4 * d18⟩).step
              (.auction (.openAuctionPermissionless 5 7 8)) = .ok w' →
            w'.rebalancing.auction ⟨5, r.nonce, r.currentAuctionId + 1⟩ = some a →
            a.prices.Cover sell.prices buy.prices) := by
  have hfound : ∃ r,
      (pricedAt ⟨9 * d18, 10 * d18⟩ ⟨3 * d18, 4 * d18⟩).rebalancing.rebalance 5 = some r ∧
      ∃ sell, r.details.find 7 = some sell ∧
        ∃ buy, r.details.find 8 = some buy ∧ buy.prices.low ≠ 0 := by decide +kernel
  obtain ⟨r, hr, sell, hsell, buy, hbuy, hpriced⟩ := hfound
  exact ⟨r, hr, sell, hsell, buy, hbuy,
    opening_covers_iff (reachable_genesis ..) hr hsell hbuy hpriced⟩

/-- The ratio of the highest price to the lowest one is no `u128`. -/
def dearest : World TokenProgram.simple := pricedAt ⟨maxTokenPrice, maxTokenPrice⟩ ⟨1, 1⟩

/-- The ratio of two prices that are a unit apart. -/
def unitApart : World TokenProgram.simple :=
  pricedAt ⟨10 * d18 + 1, 10 * d18 + 1⟩ ⟨10 * d18, 10 * d18⟩

/-- The launcher's auction panics and the start price of anybody else's is cut off; and the start
price of two prices that are a unit apart is rounded down. -/
theorem opening_price_slips :
    (dearest.Reachable ∧
      dearest.step (.auction (.openAuction 5 4 7 8
        ⟨⟨u128Max, u128Max⟩, 200 * 1000000000, 400 * 1000000000⟩)) = .error .panic ∧
      ∃ w', dearest.step (.auction (.openAuctionPermissionless 5 7 8)) = .ok w' ∧
        ∃ a, w'.rebalancing.auction ⟨5, 2, 1⟩ = some a ∧
          a.prices.start * 1 < maxTokenPrice * d18) ∧
    unitApart.Reachable ∧
      ∃ w', unitApart.step (.auction (.openAuctionPermissionless 5 7 8)) = .ok w' ∧
        ∃ a, w'.rebalancing.auction ⟨5, 2, 1⟩ = some a ∧
          a.prices.start * (10 * d18) < (10 * d18 + 1) * d18 :=
  ⟨⟨reachable_genesis .., by decide +kernel, by decide +kernel⟩, reachable_genesis ..,
    by decide +kernel⟩

end World

end IndexDtf
