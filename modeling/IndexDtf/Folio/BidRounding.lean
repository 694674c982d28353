import Mathlib.Algebra.BigOperators.Ring.List
import Mathlib.Algebra.Order.BigOperators.Group.List
import IndexDtf.Folio.BidLimits
import IndexDtf.Folio.PriceCurve

/-!
# IndexDtf.Folio.BidRounding

**What the roundings of a bid do.** `get_bid` rounds the payment down, twice, which is once
from the exact price: the bidder pays the price exactly when nothing is rounded off, and less
otherwise. The auction price and both limits are rounded the other way.

After the bid the handler computes the limit of the sell token the other way round, as a
presence per share, and rejects the bid if that is too low. The two conversions are inverse to
each other up to a rounding that `LimitKept` describes.
-/

namespace IndexDtf

open Lib SlotArray Decimal

namespace Auction

variable {a : Auction} {folio : Folio} {basket : FolioBasket}
  {rawSupply t price rawSellAmount rawMaxBuyAmount bidAmount : ℕ} {supply : Decimal}

/-! ### The payment -/

/-- A bid that an auction accepts at a time, as what it sells and what is paid for it. -/
structure AcceptedBid (a : Auction) (t : ℕ) where
  sold : ℕ
  paid : ℕ
  accepted : ∃ folio basket rawSupply rawMaxBuyAmount supply,
    a.getBid folio basket rawSupply t sold rawMaxBuyAmount = .ok (paid, supply)

/-- The payment is the price, rounded down to raw units. -/
theorem getBid_payment (hprice : a.getPrice t = .ok price)
    (h : a.getBid folio basket rawSupply t rawSellAmount rawMaxBuyAmount
      = .ok (bidAmount, supply)) : bidAmount = rawSellAmount * price / d18 := by
  simp only [getBid, bind_eq_ok, hprice, checkCondition_eq_ok, mulD18_eq_ok, mul_eq_ok, div_eq_ok,
    fromTokenAmount_eq_ok, toTokenAmount_floor, fromScaled_val, Except.ok.injEq,
    Prod.mk.injEq] at h
  obtain ⟨_, rfl, _, -, _, -, _, -, _, -, _, ⟨-, rfl⟩, _, rfl, _, ⟨-, rfl⟩, _, ⟨-, rfl⟩, _,
    ⟨hpos, rfl⟩, _, rfl, _, hroom, _, ⟨-, rfl⟩, _, ⟨-, rfl⟩, _, rfl, -, -, rfl, -⟩ := h
  -- the payment fits the room for the buy token, which is a balance
  have hcost := cost_le_budget hpos ((hroom.trans (min_le_left ..)).trans (min_le_left ..))
  have hfits := hcost.trans ((Nat.sub_le ..).trans (min_le_right ..))
  calc min (rawSellAmount * d9 * price / d18 / d9) u64Max
      = rawSellAmount * d9 * price / d18 / d9 := min_eq_left hfits
    _ = rawSellAmount * price / d18 := payment_eq (by decide)

/-- No price is below the end price but the start price of a curve that rises. -/
theorem end_le_getPrice_iff (hprice : a.getPrice t = .ok price) :
    a.prices.end_ ≤ price ↔ (t = a.start → a.prices.end_ ≤ a.prices.start) := by
  simp only [getPrice, bind_eq_ok] at hprice
  obtain ⟨-, -, hprice⟩ := hprice
  split at hprice
  · next hstart =>
    cases hprice
    exact ⟨fun hle _ => hle, fun hle => hle hstart⟩
  · next hstart =>
    refine ⟨fun _ h => absurd h hstart, fun _ => ?_⟩
    split at hprice
    · cases hprice
      exact le_rfl
    · simp only [bind_eq_ok] at hprice
      obtain ⟨_, -, _, -, _, -, _, -, _, -, _, -, _, -, hprice⟩ := hprice
      split at hprice
      · cases hprice
        exact le_rfl
      · next hge =>
        cases hprice
        exact not_lt.mp hge

/-- What is paid for a bid is at most its price. -/
theorem AcceptedBid.paid_le (bid : a.AcceptedBid t) (hprice : a.getPrice t = .ok price) :
    bid.paid * d18 ≤ bid.sold * price := by
  obtain ⟨_, _, _, _, _, h⟩ := bid.accepted
  rw [getBid_payment hprice h]
  exact Nat.div_mul_le_self ..

theorem AcceptedBid.price_le_paid_iff (bid : a.AcceptedBid t) (hprice : a.getPrice t = .ok price) :
    bid.sold * price ≤ bid.paid * d18 ↔ d18 ∣ bid.sold * price := by
  obtain ⟨_, _, _, _, _, h⟩ := bid.accepted
  rw [getBid_payment hprice h]
  exact le_floor_mul_iff

/-- What is sold by an accepted bid is not nothing. -/
theorem AcceptedBid.sold_pos (bid : a.AcceptedBid t) : 0 < bid.sold := by
  obtain ⟨_, _, _, _, _, h⟩ := bid.accepted
  exact (getBid_spec h).2.1

/-- **The folio is paid the price.** Bids that are accepted at one time each pay at least the
price, and the end price, and together at least the price of all that is sold, exactly when no
payment is rounded and the curve does not start below its end. -/
theorem bids_pay_price_iff {bids : List (a.AcceptedBid t)} (hprice : a.getPrice t = .ok price) :
    (∀ bid ∈ bids, bid.sold * price ≤ bid.paid * d18 ∧
        bid.sold * a.prices.end_ ≤ bid.paid * d18) ∧
      (bids.map (·.sold)).sum * price ≤ (bids.map (·.paid)).sum * d18 ↔
    ∀ bid ∈ bids, d18 ∣ bid.sold * price ∧ (t = a.start → a.prices.end_ ≤ a.prices.start) := by
  constructor
  · rintro ⟨heach, -⟩ bid hbid
    obtain ⟨hpaid, hend⟩ := heach bid hbid
    refine ⟨(bid.price_le_paid_iff hprice).mp hpaid, (end_le_getPrice_iff hprice).mp ?_⟩
    exact Nat.le_of_mul_le_mul_left (hend.trans (bid.paid_le hprice)) bid.sold_pos
  · intro h
    have hpaid : ∀ bid ∈ bids, bid.sold * price ≤ bid.paid * d18 := fun bid hbid =>
      (bid.price_le_paid_iff hprice).mpr (h bid hbid).1
    refine ⟨fun bid hbid => ⟨hpaid bid hbid, ?_⟩, ?_⟩
    · exact (Nat.mul_le_mul_left _ ((end_le_getPrice_iff hprice).mpr (h bid hbid).2)).trans
        (hpaid bid hbid)
    · rw [← List.sum_map_mul_right, ← List.sum_map_mul_right]
      exact List.sum_le_sum hpaid

/-- One for one, up to both limits. -/
theorem bids_pay_price_iff_flat :
    let a : Auction := ⟨1, 1, 5, 7, 8, 200000000000, 400000000000, 1000000, 1000060, ⟨d18, d18⟩⟩
    ∃ bid : a.AcceptedBid 1000010, bid.sold = 400 ∧
      ((∀ b ∈ [bid], b.sold * d18 ≤ b.paid * d18 ∧ b.sold * d18 ≤ b.paid * d18) ∧
          ([bid].map (·.sold)).sum * d18 ≤ ([bid].map (·.paid)).sum * d18 ↔
        ∀ b ∈ [bid], d18 ∣ b.sold * d18 ∧ (1000010 = 1000000 → d18 ≤ d18)) :=
  ⟨⟨400, 400, ⟨.Initialized, 0, 5, 0, 0, 0, 0, 60, 0, [], 0⟩, [⟨7, 600⟩], 1000000000, 400, ⟨d18⟩,
    by decide +kernel⟩, rfl, bids_pay_price_iff (by decide +kernel)⟩

end Auction

namespace World

/-- Folio 5 with an auction at one and a half of token 8 for token 7. -/
def sellingDear : World TokenProgram.simple :=
  run step (genesis SimpleLedger.empty 1000000) (withRebalance 5 ++ [.auction (.openAuction 5 4 7 8
    ⟨⟨1500000000000000000, 1500000000000000000⟩, 200000000000, 400000000000⟩)])

/-- One unit of token 7 is worth one and a half, and sold for one. Three in one bid are sold
for four. -/
theorem bid_below_price :
    sellingDear.Reachable ∧
      (∃ a, sellingDear.rebalancing.auction ⟨5, 1, 1⟩ = some a ∧
        a.getPrice sellingDear.books.now = .ok 1500000000000000000) ∧
      (∃ w', sellingDear.step (.auction (.bid 5 6 ⟨5, 1, 1⟩ 1 1 none)) = .ok w' ∧
        ∃ basket, w'.books.folioBasket 5 = some basket ∧ basket.find 7 = some 599 ∧
          basket.find 8 = some 1) ∧
      (∃ w', sellingDear.step (.auction (.bid 5 6 ⟨5, 1, 1⟩ 3 4 none)) = .ok w' ∧
        ∃ basket, w'.books.folioBasket 5 = some basket ∧ basket.find 7 = some 597 ∧
          basket.find 8 = some 4) ∧
      ¬ 1 * 1500000000000000000 ≤ 1 * d18 ∧ ¬ 3 * 1500000000000000000 ≤ 4 * d18 :=
  ⟨reachable_genesis .., by decide +kernel, by decide +kernel, by decide +kernel, by decide,
    by decide⟩

end World

/-! ### The check after the bid -/

namespace Auction

/-- The limit of the sell token, converted to a balance and back, is not above what is left of
the token. Otherwise what is left is the limit rounded down, and the presence per share computed
from it is too low for the limit: by more than one unit if more was rounded off than there is
supply, or by one that `to_scaled` does not add, as the presence is a whole number. -/
def LimitKept (limit supply left : ℕ) : Prop :=
  left * d9 ≠ limit * supply / d18 ∨ d18 ∣ limit * supply ∨
    limit * supply % d18 ≤ supply ∧ ¬ d18 ∣ limit - 1

/-- The presence that is computed from a balance which covers the limit, rounded down. -/
theorem le_presence_iff {limit supply left : ℕ} (hsupply : 0 < supply)
    (hroom : limit * supply / d18 ≤ left * d9) :
    limit ≤ ceilTail (left * d9 * d18 / supply) ↔ LimitKept limit supply left := by
  have hd18 : 0 < d18 := by decide
  have hcovered : limit * supply ≤ left * d9 * d18 →
      limit ≤ ceilTail (left * d9 * d18 / supply) := fun h =>
    ((Nat.le_div_iff_mul_le hsupply).mpr h).trans (le_ceilTail _)
  have hdiv := Nat.div_add_mod' (limit * supply) d18
  by_cases hexact : left * d9 = limit * supply / d18
  · by_cases hmod : limit * supply % d18 = 0
    · refine iff_of_true (hcovered ?_) (.inr (.inl (Nat.dvd_of_mod_eq_zero hmod)))
      rw [hexact]
      omega
    · -- the presence is below the limit, so the one that may be added has to do
      have hshort : left * d9 * d18 / supply < limit := by
        rw [Nat.div_lt_iff_lt_mul hsupply, hexact]
        omega
      have hone : limit ≤ left * d9 * d18 / supply + 1 ↔ limit * supply % d18 ≤ supply := by
        rw [← Nat.sub_le_iff_le_add, Nat.le_div_iff_mul_le hsupply, Nat.sub_mul, Nat.one_mul, hexact]
        omega
      have hne : left * d9 ≠ limit * supply / d18 ↔ False := by simp [hexact]
      rw [LimitKept, hne, false_or, Nat.dvd_iff_mod_eq_zero, Nat.dvd_iff_mod_eq_zero]
      simp only [hmod, false_or]
      rw [ceilTail, ← hone]
      generalize left * d9 * d18 / supply = presence at hshort
      constructor
      · intro h
        split at h
        · exact absurd h (not_le.mpr hshort)
        · next hwhole =>
          obtain rfl : limit - 1 = presence := by omega
          exact ⟨h, hwhole⟩
      · rintro ⟨hle, hwhole⟩
        obtain rfl : limit - 1 = presence := by omega
        rwa [if_neg hwhole]
  · refine iff_of_true (hcovered ?_) (.inl hexact)
    have hmul := Nat.mul_le_mul_right d18 (show limit * supply / d18 + 1 ≤ left * d9 by omega)
    have hmod := Nat.mod_lt (limit * supply) hd18
    rw [Nat.add_mul] at hmul
    omega

end Auction

namespace World

variable {T : TokenProgram} {a : Auction} {folio : Folio} {basket : FolioBasket}
  {rawSupply t rawSellAmount rawMaxBuyAmount bidAmount : ℕ} {supply : Decimal}

/-- The presence of what the basket has, which fits 64 bits. -/
theorem presence_of {mint : Pubkey} {amount : ℕ} (hamount : basket.lookup mint = amount)
    (hfits : amount ≤ u64Max) (hsupply : 0 < supply.val) :
    basket.getTokenPresencePerShareInBasket mint supply
      = .ok (min (ceilTail (amount * d9 * d18 / supply.val)) u128Max) := by
  have hbound : amount * d9 * d18 < u256Bound :=
    (Nat.mul_le_mul_right _ (Nat.mul_le_mul_right _ hfits)).trans_lt (by decide)
  have hzero : supply.isZero = false := by
    rw [isZero, decide_eq_false_iff_not]
    omega
  simp only [FolioBasket.getTokenPresencePerShareInBasket,
    FolioBasket.getTokenAmountInFolioBasketOrZero, hamount, hzero, Bool.false_eq_true, or_false]
  split
  · next hnone =>
    rw [hnone, Nat.zero_mul, Nat.zero_mul, Nat.zero_div]
    rfl
  · have htoken : fromTokenAmount amount = .ok ⟨amount * d9⟩ :=
      fromTokenAmount_eq_ok.mpr ⟨(Nat.le_mul_of_pos_right _ (by decide)).trans_lt hbound, rfl⟩
    have hone : amount * d9 * d18 / supply.val + 1 < u256Bound := by
      have hle : amount * d9 * d18 / supply.val ≤ u64Max * d9 * d18 :=
        (Nat.div_le_self ..).trans (Nat.mul_le_mul_right _ (Nat.mul_le_mul_right _ hfits))
      have hsmall : u64Max * d9 * d18 + 1 < u256Bound := by decide
      omega
    rw [htoken, ok_bind, mul_of (y := oneE18) hbound, ok_bind, div_of hsupply, ok_bind]
    exact toScaled_of hone

/-- Selling what the basket has only leaves the check of the limit. -/
theorem sellFromBasket_of {balance : ℕ} (hwf : BasketWF basket)
    (hfind : basket.find a.sellMint = some balance) (hpos : 0 < rawSellAmount)
    (hle : rawSellAmount ≤ balance) (hfits : balance ≤ u64Max) (hsupply : 0 < supply.val) :
    ∃ basket' presence,
      presence = min (ceilTail ((balance - rawSellAmount) * d9 * d18 / supply.val)) u128Max ∧
      sellFromBasket basket a rawSellAmount supply
        = if a.sellLimit ≤ presence then .ok (basket', presence)
          else .error (.code .BidInvariantViolated) := by
  have hremove : basket.removeToken ⟨a.sellMint, rawSellAmount⟩
      = .ok (basket.replace a.sellMint ⟨a.sellMint, balance - rawSellAmount⟩) := by
    simp only [FolioBasket.removeToken, hfind]
    rw [checkedSub_eq_ok.mpr ⟨hle, rfl⟩, ok_bind]
  have hself := find_replace_self (v := balance - rawSellAmount)
    (show (basket.find a.sellMint).isSome by rw [hfind]; rfl) (.inl rfl)
  have hmint : a.sellMint ≠ Pubkey.default := by
    intro hdefault
    have hzero : balance = 0 := hwf.vacant _ (mem_of_find hfind) hdefault
    omega
  have hwf' : WF Pubkey.default
      (basket.replace a.sellMint ⟨a.sellMint, balance - rawSellAmount⟩) :=
    hwf.replace (fun e => absurd e hmint) (.inr (.inl rfl))
  have hleft : balance - rawSellAmount ≤ u64Max := (Nat.sub_le ..).trans hfits
  rw [sellFromBasket, FolioBasket.removeTokensFromBasket_single, hremove, ok_bind,
    FolioBasket.getTokenAmountInFolioBasket, hself]
  simp only [okOr, ok_bind]
  by_cases hzero : balance - rawSellAmount = 0
  · have hgone := find_release hwf' hmint
    refine ⟨(basket.replace a.sellMint ⟨a.sellMint, balance - rawSellAmount⟩).replace a.sellMint
      ⟨Pubkey.default, 0⟩, _, rfl, ?_⟩
    rw [if_pos hzero, FolioBasket.removeTokenMintFromBasket, hself]
    simp only [ok_bind]
    rw [presence_of (lookup_of_find_none hgone) (Nat.zero_le _) hsupply, ok_bind, hzero,
      checkCondition, guardOr]
    split <;> rfl
  · refine ⟨basket.replace a.sellMint ⟨a.sellMint, balance - rawSellAmount⟩, _, rfl, ?_⟩
    rw [if_neg hzero, presence_of (lookup_of_find hself) hleft hsupply, ok_bind, checkCondition, guardOr]
    split <;> rfl

/-- **An accepted bid passes the check after it.** What `get_bid` accepts can be taken from the
basket exactly when the limit is kept; else the check of the limit rejects it. -/
theorem sellFromBasket_ok_iff (hwf : BasketWF basket) (hlimit : a.sellLimit ≤ u128Max)
    (hfits : basket.lookup a.sellMint ≤ u64Max) (hsupply : 0 < supply.val)
    (h : a.getBid folio basket rawSupply t rawSellAmount rawMaxBuyAmount
      = .ok (bidAmount, supply)) :
    ((∃ sold, sellFromBasket basket a rawSellAmount supply = .ok sold) ↔
        Auction.LimitKept a.sellLimit supply.val (basket.lookup a.sellMint - rawSellAmount)) ∧
      (sellFromBasket basket a rawSellAmount supply ≠ .error (.code .BidInvariantViolated) ↔
        Auction.LimitKept a.sellLimit supply.val (basket.lookup a.sellMint - rawSellAmount)) := by
  obtain ⟨-, hpos, -, -, ⟨balance, hfind, hroom⟩, -⟩ := Auction.getBid_spec h
  rw [lookup_of_find hfind] at hfits ⊢
  -- a limit balance that is saturated leaves nothing to sell
  have hceil : (a.sellLimit * supply.val / d18 + (d9 - 1)) / d9 ≤ balance - rawSellAmount := by
    rw [Auction.sellLimitBalance] at hroom
    rcases min_choice ((a.sellLimit * supply.val / d18 + (d9 - 1)) / d9) u64Max with hmin | hmin
    · rw [hmin] at hroom
      exact Nat.le_sub_of_add_le' hroom
    · rw [hmin] at hroom
      omega
  have hcover : a.sellLimit * supply.val / d18 ≤ (balance - rawSellAmount) * d9 := by
    have hlt := (Nat.div_lt_iff_lt_mul (by decide)).mp (Nat.lt_succ_of_le hceil)
    rw [Nat.succ_mul] at hlt
    have hd9 : 0 < d9 := by decide
    omega
  obtain ⟨basket', presence, rfl, hsell⟩ := sellFromBasket_of hwf hfind hpos
    ((Nat.le_add_right ..).trans hroom) hfits hsupply
  have hiff := Auction.le_presence_iff hsupply hcover
  rw [← le_min_iff.trans (and_iff_left hlimit)] at hiff
  rw [hsell, ← hiff]
  constructor <;> split <;> simp_all

/-- The 400 that both limits of a flat auction leave. -/
theorem sellFromBasket_ok_iff_flat :
    let a : Auction := ⟨1, 1, 5, 7, 8, 200000000000, 400000000000, 1000000, 1000060, ⟨d18, d18⟩⟩
    ((∃ sold, sellFromBasket [⟨7, 600⟩] a 400 ⟨d18⟩ = .ok sold) ↔
        Auction.LimitKept 200000000000 d18 (600 - 400)) ∧
      (sellFromBasket [⟨7, 600⟩] a 400 ⟨d18⟩ ≠ .error (.code .BidInvariantViolated) ↔
        Auction.LimitKept 200000000000 d18 (600 - 400)) := by
  intro a
  have hbid : a.getBid ⟨.Initialized, 0, 5, 0, 0, 0, 0, 60, 0, [], 0⟩ [⟨7, 600⟩] 1000000000 1000010
      400 400 = .ok (400, ⟨d18⟩) := by decide +kernel
  have hwf : WF Pubkey.default ([⟨7, 600⟩] : FolioBasket) := ⟨by decide, by decide⟩
  exact sellFromBasket_ok_iff hwf (by decide) (by decide) (by decide) hbid

/-- Folio 5 with three tenths of a share and 180 of token 7. The auction may sell the token
down to 0.200000000003 a share. -/
def belowOneShare : World TokenProgram.simple :=
  run step (genesis SimpleLedger.empty 1000000) (withRebalance 5 ++
    [.outside (.issue (.external 3) 7 1),
      .user (.addToPendingBasket 5 3 [⟨7, (.external 3, 7), (.folio 5, 7)⟩] [1]),
      .user (.burnFolioToken 5 3 700000000 []),
      .auction (.openAuction 5 4 7 8 ⟨⟨d18, d18⟩, 200000000003, 400000000000⟩)])

/-- 120 of the 180 may be sold: `get_bid` accepts them and the check after it does not. -/
theorem available_not_sellable :
    belowOneShare.Reachable ∧
      (∃ folio, belowOneShare.books.folio 5 = some folio ∧
        ∃ basket, belowOneShare.books.folioBasket 5 = some basket ∧
        ∃ a, belowOneShare.rebalancing.auction ⟨5, 1, 1⟩ = some a ∧
          a.getBid folio basket (belowOneShare.books.ledger.supply 5) belowOneShare.books.now 120 120
            = .ok (120, ⟨300000000000000000⟩)) ∧
      belowOneShare.step (.auction (.bid 5 6 ⟨5, 1, 1⟩ 120 120 none))
        = .error (.code .BidInvariantViolated) :=
  ⟨reachable_genesis .., by decide +kernel, by decide +kernel⟩

end World

end IndexDtf
