import IndexDtf.Folio.Auction
import IndexDtf.Folio.BasketSpec

/-!
# IndexDtf.Folio.RebalanceSpec

The details of a rebalance and what opening an auction does to them.

* `DetailsWF` — the used slots come first, their mints are distinct, and every slot
  has limits and prices that `add_rebalance_details` accepts. Batches keep it.
* `Auction.openAuction_spec` — all that a successful `open_auction` checks and writes.
-/

namespace IndexDtf

open Lib SlotArray Decimal

/-- Prices that are deferred, or in their range. -/
def PricesInRebalance.Valid (prices : PricesInRebalance) : Prop :=
  (prices.low = 0 ∧ prices.high = 0) ∨
    (prices.low ≠ 0 ∧ prices.high ≠ 0 ∧ prices.low ≤ prices.high ∧
      prices.high ≤ maxTokenPrice ∧ prices.high / prices.low ≤ maxTokenPriceRange)

/-- Limits in order and in their range, all zero or none. -/
structure BasketRange.Valid (limits : BasketRange) : Prop where
  ordered : limits.low ≤ limits.spot ∧ limits.spot ≤ limits.high
  bounded : limits.high ≤ maxRate
  nonzero : limits.low ≠ 0 ∨ limits.high = 0

/-- Well-formed details of a rebalance. -/
structure DetailsWF (details : SlotArray Pubkey RebalancePriceAndLimits) : Prop where
  wf : WF Pubkey.default details
  packed : (details.map Slot.key).Pairwise fun k k' => k = Pubkey.default → k' = Pubkey.default
  limits : ∀ s ∈ details, s.value.limits.Valid
  prices : ∀ s ∈ details, s.value.prices.Valid

namespace DetailsWF

variable {details : SlotArray Pubkey RebalancePriceAndLimits} {detail : RebalanceDetailsToken}
  {mint : Pubkey} {value : RebalancePriceAndLimits}

theorem none : DetailsWF Rebalance.noDetails where
  wf := WF.empty _
  packed := by
    rw [Rebalance.noDetails, SlotArray.empty, List.map_replicate]
    exact List.pairwise_replicate.mpr (.inr id)
  limits := fun s hs => by
    rw [List.eq_of_mem_replicate hs]
    exact ⟨⟨Nat.le_refl 0, Nat.le_refl 0⟩, Nat.zero_le _, .inr rfl⟩
  prices := fun s hs => by
    rw [List.eq_of_mem_replicate hs]
    exact .inl ⟨rfl, rfl⟩

theorem tail (h : DetailsWF (detail :: details)) : DetailsWF details where
  wf := h.wf.tail
  packed := (List.pairwise_cons.mp h.packed).2
  limits := fun s hs => h.limits s (List.mem_cons_of_mem _ hs)
  prices := fun s hs => h.prices s (List.mem_cons_of_mem _ hs)

/-- A slot in front that brings a new mint. -/
theorem cons (h : DetailsWF details) (hkey : detail.key ≠ Pubkey.default)
    (hnew : ∀ s ∈ details, s.key ≠ detail.key) (hlimits : detail.value.limits.Valid)
    (hprices : detail.value.prices.Valid) : DetailsWF (detail :: details) where
  wf := by
    refine ⟨fun s hs hfree => ?_, List.pairwise_cons.mpr ⟨fun s hs heq => ?_, h.wf.distinct⟩⟩
    · cases hs with
      | head => exact absurd hfree hkey
      | tail _ hs => exact h.wf.vacant s hs hfree
    · exact absurd heq.symm (hnew s hs)
  packed := List.pairwise_cons.mpr ⟨fun _ _ hfree => absurd hfree hkey, h.packed⟩
  limits := List.forall_mem_cons.mpr ⟨hlimits, h.limits⟩
  prices := List.forall_mem_cons.mpr ⟨hprices, h.prices⟩

/-- Behind a free slot all are free. -/
theorem free_tail (h : DetailsWF (detail :: details)) (hkey : detail.key = Pubkey.default) :
    ∀ s ∈ details, s.key = Pubkey.default := fun s hs =>
  (List.pairwise_cons.mp h.packed).1 s.key (List.mem_map_of_mem hs) hkey

/-- New limits for a token of the details. -/
theorem replace (h : DetailsWF details) (hmint : mint ≠ Pubkey.default)
    (hlimits : value.limits.Valid) (hprices : value.prices.Valid) :
    DetailsWF (details.replace mint ⟨mint, value⟩) where
  wf := h.wf.replace (fun e => absurd e hmint) (.inr (.inl rfl))
  packed := by
    have hkeys := keys_replace (l := details) (rfl : (⟨mint, value⟩ : RebalanceDetailsToken).key = mint)
    rw [hkeys]
    exact h.packed
  limits := fun s hs => by
    cases mem_replace hs with
    | inl heq => exact heq ▸ hlimits
    | inr hs => exact h.limits s hs
  prices := fun s hs => by
    cases mem_replace hs with
    | inl heq => exact heq ▸ hprices
    | inr hs => exact h.prices s hs

end DetailsWF

namespace Rebalance

variable {details details' : SlotArray Pubkey RebalancePriceAndLimits} {r r' : Rebalance}
  {added : List RebalanceDetailsToken} {seen : List Pubkey} {deferred : Bool}

theorem checkLimits_eq_ok {limits : BasketRange} {u : Unit} (h : checkLimits limits = .ok u) :
    limits.Valid := by
  simp only [checkLimits, bind_eq_ok, checkCondition_eq_ok] at h
  obtain ⟨_, ⟨hbounded, hlow, hhigh⟩, hnonzero⟩ := h
  exact ⟨⟨hlow, hhigh⟩, hbounded, hnonzero⟩

theorem checkPrices_eq_ok {prices : PricesInRebalance} {u : Unit}
    (h : checkPrices deferred prices = .ok u) : prices.Valid := by
  cases deferred with
  | true => exact .inl (checkCondition_eq_ok.mp h)
  | false => exact .inr (checkCondition_eq_ok.mp h)

/-- The loop of `add_rebalance_details`. The mints it adds are none of those seen. -/
theorem fillSlots_spec (hwf : DetailsWF details) (hmints : ∀ s ∈ added, s.key ≠ Pubkey.default)
    (h : fillSlots deferred seen added details = .ok details') :
    DetailsWF details' ∧ ∀ s ∈ details', s ∈ details ∨ s.key ∉ seen := by
  induction details generalizing seen added details' with
  | nil =>
      cases h
      exact ⟨hwf, fun s hs => absurd hs List.not_mem_nil⟩
  | cons slot rest ih =>
      cases added with
      | nil =>
          cases h
          exact ⟨hwf, fun s hs => .inl hs⟩
      | cons first more =>
          rw [fillSlots] at h
          split at h
          · next hused =>
            simp only [bind_eq_ok, Except.ok.injEq] at h
            obtain ⟨rest', hrest, rfl⟩ := h
            obtain ⟨hwf', hnew⟩ := ih hwf.tail hmints hrest
            refine ⟨hwf'.cons hused (fun s hs heq => ?_) (hwf.limits slot (List.mem_cons_self ..))
              (hwf.prices slot (List.mem_cons_self ..)), fun s hs => ?_⟩
            · cases hnew s hs with
              | inl hold =>
                  exact hused ((List.pairwise_cons.mp hwf.wf.distinct).1 s hold heq.symm)
              | inr hseen => exact hseen (heq ▸ List.mem_cons_self ..)
            · cases hs with
              | head => exact .inl (List.mem_cons_self ..)
              | tail _ hs =>
                  exact (hnew s hs).imp (List.mem_cons_of_mem _) fun hseen hmem =>
                    hseen (List.mem_cons_of_mem _ hmem)
          · next hfree =>
            have hfree := not_not.mp hfree
            simp only [bind_eq_ok, checkCondition_eq_ok, Except.ok.injEq] at h
            obtain ⟨_, hlimits, _, hseen, _, hprices, rest', hrest, rfl⟩ := h
            have hfirst := hmints first (List.mem_cons_self ..)
            obtain ⟨hwf', hnew⟩ :=
              ih hwf.tail (fun s hs => hmints s (List.mem_cons_of_mem _ hs)) hrest
            refine ⟨hwf'.cons hfirst (fun s hs heq => ?_) (checkLimits_eq_ok hlimits)
              (checkPrices_eq_ok hprices), fun s hs => ?_⟩
            · cases hnew s hs with
              | inl hold => exact hfirst (heq ▸ hwf.free_tail hfree s hold)
              | inr hseen => exact hseen (heq ▸ List.mem_cons_self ..)
            · cases hs with
              | head => exact .inr hseen
              | tail _ hs =>
                  exact (hnew s hs).imp (List.mem_cons_of_mem _) fun hseen hmem =>
                    hseen (List.mem_cons_of_mem _ hmem)

/-- A batch is only taken while the details are open, and changes nothing else. -/
theorem addRebalanceDetails_spec {mints : List Pubkey}
    {pricesAndLimits : List RebalancePriceAndLimits} {allAdded : Bool}
    (hwf : DetailsWF r.details) (hmints : ∀ mint ∈ mints, mint ≠ Pubkey.default)
    (h : r.addRebalanceDetails mints pricesAndLimits allAdded = .ok r') :
    r.allRebalanceDetailsAdded = false ∧ DetailsWF r'.details ∧
      r' = { r with details := r'.details, allRebalanceDetailsAdded := allAdded } := by
  simp only [addRebalanceDetails, bind_eq_ok, checkCondition_eq_ok, Except.ok.injEq] at h
  obtain ⟨_, hopen, _, -, details, hfill, rfl⟩ := h
  refine ⟨hopen, (fillSlots_spec hwf (fun s hs => ?_) hfill).1, rfl⟩
  obtain ⟨i, hi, rfl⟩ := List.mem_iff_getElem.mp hs
  rw [List.getElem_zipWith]
  exact hmints _ (List.getElem_mem _)

/-- A new rebalance has the next nonce, and no auctions yet. -/
theorem startRebalance_spec {now window ttl : ℕ} {mints : List Pubkey}
    {pricesAndLimits : List RebalancePriceAndLimits} {allAdded : Bool}
    (hmints : ∀ mint ∈ mints, mint ≠ Pubkey.default)
    (h : r.startRebalance now window ttl mints pricesAndLimits allAdded = .ok r') :
    DetailsWF r'.details ∧ r'.nonce = r.nonce + 1 ∧ r'.currentAuctionId = 0 := by
  simp only [startRebalance, bind_eq_ok, checkCondition_eq_ok, checkedAddU64_eq_ok] at h
  obtain ⟨_, -, _, -, nonce, ⟨-, rfl⟩, _, -, _, -, h⟩ := h
  obtain ⟨-, hwf, hr'⟩ := addRebalanceDetails_spec DetailsWF.none hmints h
  rw [hr']
  exact ⟨hwf, rfl, rfl⟩

/-! ### Looking up a pair -/

/-- The positions `get_token_details_pair` finds are those of the two mints. -/
theorem findPair_spec {sellMint buyMint : Pubkey} {k : ℕ} {found found' : Option ℕ × Option ℕ}
    (h : findPair sellMint buyMint k details found = found') :
    (∀ i ∈ found'.1, i ∈ found.1 ∨ ∃ m s, i = k + m ∧ details[m]? = some s ∧ s.key = sellMint) ∧
    ∀ j ∈ found'.2, j ∈ found.2 ∨
      ∃ m s, j = k + m ∧ details[m]? = some s ∧ s.key = buyMint ∧ s.key ≠ sellMint := by
  induction details generalizing k found with
  | nil =>
      subst h
      exact ⟨fun i hi => .inl hi, fun j hj => .inl hj⟩
  | cons detail rest ih =>
      obtain ⟨sell, buy⟩ := found
      obtain ⟨hsell, hbuy⟩ := ih h
      constructor
      · intro i hi
        rcases hsell i hi with hi | ⟨m, s, rfl, hs, hkey⟩
        · split at hi
          · next hkey =>
            obtain rfl : k = i := Option.some.inj hi
            exact .inr ⟨0, detail, rfl, rfl, hkey⟩
          · split at hi
            · exact .inl hi
            · exact .inl hi
        · exact .inr ⟨m + 1, s, by omega, hs, hkey⟩
      · intro j hj
        rcases hbuy j hj with hj | ⟨m, s, rfl, hs, hkey⟩
        · split at hj
          · exact .inl hj
          · next hne =>
            split at hj
            · next hkey =>
              obtain rfl : k = j := Option.some.inj hj
              exact .inr ⟨0, detail, rfl, rfl, hkey, hne⟩
            · exact .inl hj
        · exact .inr ⟨m + 1, s, by omega, hs, hkey⟩

theorem getTokenDetailsPair_spec {sellMint buyMint : Pubkey} {i j : ℕ}
    (hi : (r.getTokenDetailsPair sellMint buyMint).1 = some i)
    (hj : (r.getTokenDetailsPair sellMint buyMint).2 = some j) :
    (∃ s, r.details[i]? = some s ∧ s.key = sellMint) ∧
      (∃ s, r.details[j]? = some s ∧ s.key = buyMint) ∧ sellMint ≠ buyMint := by
  obtain ⟨hsell, hbuy⟩ := findPair_spec
    (rfl : findPair sellMint buyMint 0 r.details (none, none) = r.getTokenDetailsPair sellMint buyMint)
  rcases hsell i hi with hi | ⟨m, s, rfl, hs, hkey⟩
  · cases hi
  · rcases hbuy j hj with hj | ⟨m', s', rfl, hs', hkey', hne⟩
    · cases hj
    · rw [Nat.zero_add, Nat.zero_add]
      exact ⟨⟨s, hs, hkey⟩, ⟨s', hs', hkey'⟩, fun e => hne (hkey'.trans e.symm)⟩

end Rebalance

namespace Auction

variable {folio : Folio} {f sellMint buyMint : Pubkey} {basket : FolioBasket}
  {ends ends' : AuctionEnds} {rawSupply now buffer : ℕ} {r r' : Rebalance}
  {config : Option OpenAuctionConfig} {isPermissionless : Bool} {a : Auction}

/-- What a successful `open_auction` found and wrote. -/
structure Opening (folio : Folio) (f : Pubkey) (ends : AuctionEnds) (r : Rebalance)
    (sellMint buyMint : Pubkey) (now buffer : ℕ) (config : Option OpenAuctionConfig)
    (sell buy : RebalancePriceAndLimits) (a : Auction) (r' : Rebalance) (ends' : AuctionEnds) :
    Prop where
  sellFound : r.details.find sellMint = some sell
  buyFound : r.details.find buyMint = some buy
  sellMint_ne : sellMint ≠ Pubkey.default
  buyMint_ne : buyMint ≠ Pubkey.default
  distinct : sellMint ≠ buyMint
  added : r.allRebalanceDetailsAdded = true
  sellLimit : sell.limits.low ≤ a.sellLimit ∧ a.sellLimit ≤ sell.limits.high
  buyLimit : buy.limits.low ≤ a.buyLimit ∧ a.buyLimit ≤ buy.limits.high
  prices : auctionPrice sell.prices buy.prices config = .ok a.prices
  ended : ends.endTime + buffer < now
  auction : a = {
    id := r.currentAuctionId + 1, nonce := r.nonce, folio := f, sellMint, buyMint
    sellLimit := a.sellLimit, buyLimit := a.buyLimit
    start := now, end_ := now + folio.auctionLength, prices := a.prices }
  rebalance : r' = { r with
    details := (r.details.replace sellMint (narrowSell a.sellLimit ⟨sellMint, sell⟩)).replace
      buyMint (narrowBuy a.buyLimit ⟨buyMint, buy⟩)
    currentAuctionId := r.currentAuctionId + 1 }
  ends : ends' = { ends with endTime := now + folio.auctionLength }

/-- The default mint is in no basket, and a limit of zero leaves no deficit. -/
theorem checkBalances_spec {sellLimit buyLimit : ℕ} {u : Unit} (hbasket : BasketWF basket)
    (h : checkBalances folio basket rawSupply sellMint buyMint sellLimit buyLimit = .ok u) :
    sellMint ≠ Pubkey.default ∧ buyLimit ≠ 0 := by
  simp only [checkBalances, bind_eq_ok, mulD18_eq_ok, checkCondition_eq_ok, toTokenAmount_floor,
    FolioBasket.getTokenAmountInFolioBasket, okOr_eq_ok, Except.ok.injEq] at h
  obtain ⟨supply, -, _, -, sellTokens, -, sellBalance, hfind, _, hsurplus, _, ⟨-, rfl⟩, buyTokens,
    hbuy, hdeficit⟩ := h
  constructor
  · rintro rfl
    have hzero := hbasket.lookup_free
    rw [lookup_of_find hfind] at hzero
    omega
  · rintro rfl
    rw [fromScaled_val, Nat.mul_zero, Nat.zero_div, Nat.zero_div, Nat.zero_min] at hbuy
    omega

theorem checkTimes_spec {deferred : Bool} {u : Unit}
    (h : checkTimes r ends now buffer deferred isPermissionless = .ok u) :
    r.allRebalanceDetailsAdded = true ∧ ends.endTime + buffer < now := by
  unfold checkTimes at h
  split at h
  · simp only [bind_eq_ok, checkCondition_eq_ok, addU64_eq_ok] at h
    obtain ⟨_, -, _, -, _, -, _, ⟨-, -, hadded⟩, _, ⟨-, rfl⟩, hended⟩ := h
    exact ⟨hadded, hended⟩
  · simp only [ok_bind, bind_eq_ok, checkCondition_eq_ok, addU64_eq_ok] at h
    obtain ⟨_, -, _, ⟨-, -, hadded⟩, _, ⟨-, rfl⟩, hended⟩ := h
    exact ⟨hadded, hended⟩

theorem openAuction_spec (hdetails : DetailsWF r.details) (hbasket : BasketWF basket)
    (h : openAuction folio f basket ends rawSupply r sellMint buyMint now buffer config
      isPermissionless = .ok (a, r', ends')) :
    ∃ sell buy, Opening folio f ends r sellMint buyMint now buffer config sell buy a r' ends' := by
  simp only [openAuction, bind_eq_ok, checkCondition_eq_ok, okOr_eq_ok, addU64_eq_ok,
    Rebalance.getNextAuctionId, Except.ok.injEq, Prod.mk.injEq] at h
  obtain ⟨_, -, i, hi, j, hj, sell, hsell, buy, hbuy, _, htimes, _, hsellLimit, _, hbuyLimit, _,
    hbalances, prices, hprices, _, ⟨-, rfl⟩, _, ⟨-, rfl⟩, _, ⟨-, rfl⟩, rfl, rfl, rfl⟩ := h
  obtain ⟨⟨_, hi', hsellKey⟩, ⟨_, hj', hbuyKey⟩, hdistinct⟩ :=
    Rebalance.getTokenDetailsPair_spec hi hj
  obtain rfl := Option.some.inj (hsell.symm.trans hi')
  obtain rfl := Option.some.inj (hbuy.symm.trans hj')
  obtain ⟨hadded, hended⟩ := checkTimes_spec htimes
  obtain ⟨hsellMint, hbuyPos⟩ := checkBalances_spec hbasket hbalances
  have hbuyMint : buyMint ≠ Pubkey.default := by
    intro e
    have hzero : buy.value.limits.high = 0 := by
      rw [hdetails.wf.vacant buy (List.mem_of_getElem? hbuy) (hbuyKey.trans e)]
      rfl
    exact hbuyPos (Nat.le_zero.mp (hzero ▸ hbuyLimit.2))
  obtain ⟨sellKey, sell⟩ := sell
  obtain ⟨buyKey, buy⟩ := buy
  obtain rfl : sellKey = sellMint := hsellKey
  obtain rfl : buyKey = buyMint := hbuyKey
  have hij : i ≠ j := by
    rintro rfl
    exact hdistinct (congrArg Slot.key (Option.some.inj (hsell.symm.trans hbuy)))
  refine ⟨sell, buy, hdetails.wf.find_of_mem (List.mem_of_getElem? hsell) hsellMint,
    hdetails.wf.find_of_mem (List.mem_of_getElem? hbuy) hbuyMint, hsellMint, hbuyMint, hdistinct,
    hadded, hsellLimit, hbuyLimit, hprices, hended, rfl, ?_, by rw [Nat.add_sub_cancel_left]⟩
  have hfirst := hdetails.wf.modify_eq_replace hsell hsellMint
  have hwf₁ : WF Pubkey.default (r.details.modify i (narrowSell
      ((config.map (·.sellLimitSpot)).getD sell.limits.spot))) := by
    rw [hfirst]
    exact hdetails.wf.replace (fun e => absurd e hsellMint) (.inr (.inl rfl))
  have hbuy₁ : (r.details.modify i (narrowSell
      ((config.map (·.sellLimitSpot)).getD sell.limits.spot)))[j]? = some ⟨buyKey, buy⟩ := by
    rw [List.getElem?_modify, hbuy]
    simp only [if_neg hij]
    rfl
  rw [hwf₁.modify_eq_replace hbuy₁ hbuyMint, hfirst]

namespace Opening

variable {sell buy : RebalancePriceAndLimits}

/-- The details stay well formed. -/
theorem detailsWF (h : Opening folio f ends r sellMint buyMint now buffer config sell buy a r' ends')
    (hdetails : DetailsWF r.details) : DetailsWF r'.details := by
  have hsell := mem_of_find h.sellFound
  have hbuy := mem_of_find h.buyFound
  have hsellLimits : sell.limits.Valid := hdetails.limits _ hsell
  have hbuyLimits : buy.limits.Valid := hdetails.limits _ hbuy
  have hsellPrices : sell.prices.Valid := hdetails.prices _ hsell
  have hbuyPrices : buy.prices.Valid := hdetails.prices _ hbuy
  obtain ⟨hlow, hhigh⟩ := h.sellLimit
  obtain ⟨hlow', hhigh'⟩ := h.buyLimit
  have hsell' : (narrowSell a.sellLimit ⟨sellMint, sell⟩).value.limits.Valid :=
    ⟨⟨hlow, Nat.le_refl _⟩, Nat.le_trans hhigh hsellLimits.bounded,
      hsellLimits.nonzero.imp_right fun hzero =>
        Nat.le_zero.mp (Nat.le_trans hhigh (Nat.le_of_eq hzero))⟩
  have hbuy' : (narrowBuy a.buyLimit ⟨buyMint, buy⟩).value.limits.Valid :=
    ⟨⟨Nat.le_refl _, hhigh'⟩, hbuyLimits.bounded,
      hbuyLimits.nonzero.imp_left fun hne hzero =>
        hne (Nat.le_zero.mp (Nat.le_trans hlow' (Nat.le_of_eq hzero)))⟩
  rw [h.rebalance]
  exact (hdetails.replace h.sellMint_ne hsell' hsellPrices).replace h.buyMint_ne hbuy' hbuyPrices

/-- What the details say of each mint afterwards. -/
theorem lookup (h : Opening folio f ends r sellMint buyMint now buffer config sell buy a r' ends') :
    (fun m => r'.details.lookup m)
      = Function.update (Function.update (fun m => r.details.lookup m) sellMint
          (narrowSell a.sellLimit ⟨sellMint, sell⟩).value) buyMint
          (narrowBuy a.buyLimit ⟨buyMint, buy⟩).value := by
  have hsell : (r.details.find sellMint).isSome := by rw [h.sellFound]; rfl
  have hbuy : ((r.details.replace sellMint
      (narrowSell a.sellLimit ⟨sellMint, sell⟩)).find buyMint).isSome := by
    rw [find_replace_of_ne h.distinct.symm h.distinct.symm, h.buyFound]
    rfl
  rw [h.rebalance]
  simp only
  have hsecond := lookup_set (v := (narrowBuy a.buyLimit ⟨buyMint, buy⟩).value) hbuy
  have hfirst := lookup_set (v := (narrowSell a.sellLimit ⟨sellMint, sell⟩).value) hsell
  exact hsecond.trans (by rw [← hfirst]; rfl)

end Opening

end Auction

end IndexDtf
