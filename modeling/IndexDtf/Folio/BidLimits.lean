import IndexDtf.Folio.AuctionStep
import IndexDtf.Lib.FixedPoint

/-!
# IndexDtf.Folio.BidLimits

**What a bid moves.** An auction has a limit for each of its tokens, in tokens per share. At
the total supply after the poke the limits are balances of the basket. A bid leaves at least
the balance of the sell token and brings at most that of the buy token, it takes from the
basket what the bidder asked for and adds what she pays, and no other token is touched.

What the bidder may take is the smaller of two amounts, one of which is the room for the buy
token, converted at the price. The payment is converted back; `Lib.cost_le_budget` says that
it fits the room whatever is rounded on the way.
-/

namespace IndexDtf

open Lib SlotArray Decimal

/-! ### The limits as balances -/

namespace Auction

/-- The balance of the sell token at its limit, in raw units, rounded up. -/
def sellLimitBalance (auction : Auction) (supply : ℕ) : ℕ :=
  min ((auction.sellLimit * supply / d18 + (d9 - 1)) / d9) u64Max

/-- The balance of the buy token at its limit, in raw units, rounded down. -/
def buyLimitBalance (auction : Auction) (supply : ℕ) : ℕ :=
  min (auction.buyLimit * supply / d18 / d9) u64Max

variable {auction : Auction} {folio : Folio} {basket : FolioBasket}
  {rawSupply now rawSellAmount rawMaxBuyAmount bidAmount : ℕ} {supply : Decimal}

/-- What a successful `get_bid` leaves room for. -/
theorem getBid_spec (h : auction.getBid folio basket rawSupply now rawSellAmount rawMaxBuyAmount
      = .ok (bidAmount, supply)) :
    folio.getTotalSupply rawSupply = .ok supply ∧ 0 < rawSellAmount ∧
      0 < bidAmount ∧ bidAmount ≤ rawMaxBuyAmount ∧
      (∃ sellBalance, basket.find auction.sellMint = some sellBalance ∧
        rawSellAmount + auction.sellLimitBalance supply.val ≤ sellBalance) ∧
      basket.lookup auction.buyMint + bidAmount ≤ auction.buyLimitBalance supply.val := by
  simp only [getBid, bind_eq_ok, checkCondition_eq_ok, mulD18_eq_ok, mul_eq_ok, div_eq_ok,
    fromTokenAmount_eq_ok, toTokenAmount_floor, fromScaled_val, okOr_eq_ok,
    FolioBasket.getTokenAmountInFolioBasket, FolioBasket.getTokenAmountInFolioBasketOrZero,
    Except.ok.injEq, Prod.mk.injEq] at h
  obtain ⟨price, -, supply, hsupply, sellBalance, hsell, _, ⟨-, rfl⟩, limit, hlimit, _, ⟨-, rfl⟩,
    _, rfl, _, ⟨-, rfl⟩, _, ⟨-, rfl⟩, _, ⟨hprice, rfl⟩, _, rfl, _, hroom, _, ⟨-, rfl⟩, _,
    ⟨-, rfl⟩, _, rfl, _, ⟨hbid, hmax⟩, rfl, rfl⟩ := h
  have hsold : rawSellAmount ≤ sellBalance - limit := hroom.trans (min_le_right ..)
  rw [toTokenAmount_ceiling hlimit] at hsold
  -- the room for the buy token, as the bidder's budget
  have hbudget := (hroom.trans (min_le_left ..)).trans (min_le_left ..)
  have hcost := (min_le_left _ u64Max).trans (cost_le_budget hprice hbudget)
  have hpaid := Nat.pos_of_ne_zero hbid
  have hpos : 0 < rawSellAmount := by
    refine Nat.pos_of_ne_zero fun hzero => hbid ?_
    rw [hzero, Nat.zero_mul, Nat.zero_mul, Nat.zero_div, Nat.zero_div, Nat.zero_min]
  have hsell' := Nat.add_le_of_le_sub (Nat.lt_of_sub_pos (hpos.trans_le hsold)).le hsold
  have hbuy := Nat.add_le_of_le_sub (Nat.lt_of_sub_pos (hpaid.trans_le hcost)).le hcost
  rw [Nat.add_comm] at hbuy
  exact ⟨hsupply, hpos, hpaid, hmax, ⟨sellBalance, hsell, hsell'⟩, hbuy⟩

end Auction

/-! ### The basket -/

namespace World

variable {T : TokenProgram} {w w' : World T} {f bidder : Pubkey}

/-- What is sold leaves the basket, and its entry with it if nothing of it is left. -/
theorem sellFromBasket_find {basket basket' : FolioBasket} {auction : Auction}
    {rawSellAmount sellBalance presence : ℕ} {supply : Decimal} (hwf : BasketWF basket)
    (hfind : basket.find auction.sellMint = some sellBalance) (hpos : 0 < rawSellAmount)
    (h : sellFromBasket basket auction rawSellAmount supply = .ok (basket', presence)) :
    auction.sellMint ≠ Pubkey.default ∧ rawSellAmount ≤ sellBalance ∧
      basket'.find auction.sellMint
        = (if sellBalance = rawSellAmount then none else some (sellBalance - rawSellAmount)) ∧
      ∀ m, m ≠ Pubkey.default → m ≠ auction.sellMint → basket'.find m = basket.find m := by
  simp only [sellFromBasket, FolioBasket.removeTokensFromBasket_single, bind_eq_ok,
    FolioBasket.getTokenAmountInFolioBasket, okOr_eq_ok] at h
  obtain ⟨sold, hremove, left, hleft, h⟩ := h
  obtain ⟨hle, rfl⟩ := FolioBasket.removeToken_of hfind hremove
  simp only at hle hleft
  have hself := find_replace_self (v := sellBalance - rawSellAmount)
    (show (basket.find auction.sellMint).isSome by rw [hfind]; rfl) (.inl rfl)
  obtain rfl : _ = left := Option.some.inj (hself.symm.trans hleft)
  -- the default key is not sold: its slots hold nothing
  have hmint : auction.sellMint ≠ Pubkey.default := by
    intro hdefault
    have hzero : sellBalance = 0 := hwf.vacant _ (mem_of_find hfind) hdefault
    omega
  split at h
  · next hzero =>
    simp only [bind_eq_ok, Except.ok.injEq, Prod.mk.injEq] at h
    obtain ⟨_, hclear, _, -, _, -, rfl, rfl⟩ := h
    obtain rfl := FolioBasket.removeTokenMintFromBasket_of hself hclear
    refine ⟨hmint, hle, ?_, fun m hm hms => ?_⟩
    · rw [if_pos (show sellBalance = rawSellAmount by omega)]
      exact find_release (hwf.replace (fun e => absurd e hmint) (.inr (.inl rfl))) hmint
    · rw [find_replace_of_ne hms hm, find_replace_of_ne hms hms]
  · next hzero =>
    simp only [ok_bind, bind_eq_ok, Except.ok.injEq, Prod.mk.injEq] at h
    obtain ⟨_, -, _, -, rfl, rfl⟩ := h
    refine ⟨hmint, hle, ?_, fun m _ hms => find_replace_of_ne hms hms⟩
    rw [if_neg (show sellBalance ≠ rawSellAmount by omega)]
    exact hself

/-! ### Bids -/

/-- Every auction is of two mints. -/
theorem Reachable.mints_distinct (hw : w.Reachable) :
    ∀ key auction, w.rebalancing.auction key = some auction →
      auction.sellMint ≠ auction.buyMint := by
  obtain ⟨w₀, inputs, h₀, rfl⟩ := hw
  refine h₀.reachable.run_auctions (P := fun _ _ => True) (p := [])
    (I := fun _ r _ => ∀ key auction, r.auction key = some auction →
      auction.sellMint ≠ auction.buyMint)
    (fun _ _ _ _ _ h => h) (fun now r past log r' hr hstep => ?_) (fun i _ => bidsMeet_true i)
    (fun key auction ha => ?_)
  · cases hstep with
    | same | started | added => exact hr
    | opened f before after found folio sellMint buyMint buffer config sell buy auction ends fresh
        opening =>
        refine forall_update_some ?_ hr
        rw [opening.auction]
        exact opening.distinct
    | bid f key allowed rebalance auction auction' ends ends' found foundEnds foundRebalance nonce
        isOpen effect =>
        refine forall_update_some ?_ hr
        rcases effect with ⟨rfl, -⟩ | ⟨-, rfl, -⟩
        · exact hr key auction' found
        · exact hr key auction found
    | closed f key auction ends found => exact forall_update_some (hr key auction found) hr
  · rw [h₀.auction] at ha
    cases ha

/-- **A bid keeps to the limits and moves what it says.** `supply` is the total supply after
the poke. -/
theorem bid_within_limits {key : AuctionKey} {rawSellAmount rawMaxBuyAmount : ℕ}
    {callback : Option (Callback T)} (hw : w.Reachable)
    (h : w.step (.auction (.bid f bidder key rawSellAmount rawMaxBuyAmount callback)) = .ok w') :
    ∃ auction folio basket basket' supply bidAmount,
      w.rebalancing.auction key = some auction ∧
      w'.books.folio f = some folio ∧
      w.books.folioBasket f = some basket ∧ w'.books.folioBasket f = some basket' ∧
      folio.getTotalSupply (T.supply w.books.ledger f) = .ok supply ∧
      auction.getBid folio basket (T.supply w.books.ledger f) w.books.now rawSellAmount
        rawMaxBuyAmount = .ok (bidAmount, supply) ∧
      auction.sellLimitBalance supply.val ≤ basket'.lookup auction.sellMint ∧
      basket'.lookup auction.buyMint ≤ auction.buyLimitBalance supply.val ∧
      1 ≤ bidAmount ∧ bidAmount ≤ rawMaxBuyAmount ∧
      (∃ sellBalance, basket.find auction.sellMint = some sellBalance ∧
        rawSellAmount ≤ sellBalance ∧
        basket'.find auction.sellMint
          = if sellBalance = rawSellAmount then none else some (sellBalance - rawSellAmount)) ∧
      basket'.find auction.buyMint = some (basket.lookup auction.buyMint + bidAmount) ∧
      (∀ m, m ≠ Pubkey.default → m ≠ auction.sellMint → m ≠ auction.buyMint →
        basket'.find m = basket.find m) ∧
      ∀ g, g ≠ f → w'.books.folioBasket g = w.books.folioBasket g := by
  change w.bid f bidder key rawSellAmount rawMaxBuyAmount callback = .ok w' at h
  simp only [bid, bind_eq_ok, Prod.exists, Except.ok.injEq, Books.load_eq_ok] at h
  obtain ⟨auction, hauction, basket, hbasket, _, _, ends, -, folio, -, bidAmount, supply, hbid,
    sold, _, hsell, _, -, _, -, basket', hadd, _, -, _, _, -, rfl⟩ := h
  obtain ⟨hsupply, hpos, hpaid, hmax, ⟨sellBalance, hfind, hroom⟩, hbuy⟩ :=
    Auction.getBid_spec hbid
  have hdistinct := hw.mints_distinct key auction hauction
  obtain ⟨hmint, hle, hself, hothers⟩ :=
    sellFromBasket_find (hw.basketsWF.folioBasket f basket hbasket) hfind hpos hsell
  rw [FolioBasket.addTokensToBasket_single] at hadd
  obtain ⟨hbuyMint, hbought, hkept⟩ := FolioBasket.addToken_find hadd
  rw [lookup, hothers _ hbuyMint hdistinct.symm] at hbought
  rw [← hkept _ hmint hdistinct] at hself
  refine ⟨auction, folio, basket, basket', supply, bidAmount, hauction,
    Function.update_self .., hbasket, Function.update_self .., hsupply, hbid, ?_, ?_, hpaid, hmax,
    ⟨sellBalance, hfind, hle, hself⟩, hbought, fun m hm hms hmb => ?_,
    fun g hg => Function.update_of_ne hg ..⟩
  · rw [lookup, hself]
    split
    · next heq =>
      rw [heq] at hroom
      exact Nat.le_of_add_le_add_left (show rawSellAmount + _ ≤ rawSellAmount + 0 from hroom)
    · exact Nat.le_sub_of_add_le' hroom
  · rw [lookup_of_find hbought]
    exact hbuy
  · rw [hkept m hm hmb, hothers m hm hms]

/-- Up to both limits of the auction of `selling` in one bid: 400 of the 600 of token 7 for 400
of token 8, of which the basket has none. -/
theorem bid_within_limits_selling :
    ∃ w' auction basket', selling.step (.auction (.bid 5 6 ⟨5, 1, 1⟩ 400 400 none)) = .ok w' ∧
      selling.rebalancing.auction ⟨5, 1, 1⟩ = some auction ∧
      w'.books.folioBasket 5 = some basket' ∧
      basket'.find 7 = some 200 ∧ basket'.find 8 = some 400 ∧
      ∃ supply : Decimal, auction.sellLimitBalance supply.val ≤ basket'.lookup auction.sellMint ∧
        basket'.lookup auction.buyMint ≤ auction.buyLimitBalance supply.val := by
  have hreachable : selling.Reachable := reachable_genesis ..
  obtain ⟨w', hw', basket, hbasket, hseven, height⟩ :
      ∃ w', selling.step (.auction (.bid 5 6 ⟨5, 1, 1⟩ 400 400 none)) = .ok w' ∧
        ∃ basket', w'.books.folioBasket 5 = some basket' ∧
          basket'.find 7 = some 200 ∧ basket'.find 8 = some 400 := by
    decide +kernel
  obtain ⟨auction, _, _, basket', supply, _, hauction, -, -, hbasket', -, -, hsell, hbuy, -⟩ :=
    bid_within_limits hreachable hw'
  obtain rfl := Option.some.inj (hbasket.symm.trans hbasket')
  exact ⟨w', auction, basket, hw', hauction, hbasket, hseven, height, supply, hsell, hbuy⟩

end World

end IndexDtf
