import IndexDtf.Folio.AuctionStep

/-!
# IndexDtf.Folio.Trading

**No double trading.** The limits of a mint in the details of a rebalance are a range
that the auctions of the rebalance narrow: an auction that buys the mint raises the lower
end to its limit, one that sells it lowers the upper end to its limit. So the range lies
between all the mint was bought up to and all it was sold down to, and as its ends stay in
order, no auction sells a mint below what another one bought it up to.
-/

namespace IndexDtf

open Lib SlotArray Auction

variable {P : Pubkey → AuctionKey → Prop} {now : ℕ} {r r' : Rebalancing} {log : List Opened}
  {rebalance rebalance' : Rebalance} {a : Auction} {f : Pubkey}

/-- The limits of every mint are in order. -/
theorem DetailsWF.limits_ordered {details : SlotArray Pubkey RebalancePriceAndLimits}
    (h : DetailsWF details) (m : Pubkey) :
    (details.lookup m).limits.low ≤ (details.lookup m).limits.high := by
  cases hm : details.find m with
  | none =>
      rw [lookup_of_find_none hm]
      exact Nat.le_refl 0
  | some detail =>
      rw [lookup_of_find hm]
      obtain ⟨hlow, hhigh⟩ := (h.limits _ (mem_of_find hm)).ordered
      exact hlow.trans hhigh

/-- The limits of the two mints of an auction are within the limits of the auction. -/
structure Within (rebalance : Rebalance) (a : Auction) : Prop where
  added : rebalance.allRebalanceDetailsAdded = true
  sold : (rebalance.details.lookup a.sellMint).limits.high ≤ a.sellLimit
  bought : a.buyLimit ≤ (rebalance.details.lookup a.buyMint).limits.low

/-- Nothing is sold below what it was bought up to, as long as the limits of both auctions
are kept. -/
theorem Within.apart {a' : Auction} (h : Within rebalance a) (h' : Within rebalance a')
    (hdetails : DetailsWF rebalance.details) (hmint : a.buyMint = a'.sellMint) :
    a.buyLimit ≤ a'.sellLimit := by
  have hordered := hdetails.limits_ordered a'.sellMint
  have hbought := h.bought
  rw [hmint] at hbought
  exact hbought.trans (hordered.trans h'.sold)

section Opening

variable {folio : Folio} {sellMint buyMint : Pubkey} {ends ends' : AuctionEnds} {buffer : ℕ}
  {config : Option OpenAuctionConfig} {sell buy : RebalancePriceAndLimits}

/-- Opening an auction only narrows limits. -/
theorem Auction.Opening.narrows
    (h : Opening folio f ends rebalance sellMint buyMint now buffer config sell buy a rebalance' ends')
    (m : Pubkey) :
    (rebalance.details.lookup m).limits.low ≤ (rebalance'.details.lookup m).limits.low ∧
      (rebalance'.details.lookup m).limits.high ≤ (rebalance.details.lookup m).limits.high := by
  rw [show rebalance'.details.lookup m = _ from congrFun h.lookup m]
  by_cases hbuy : m = buyMint
  · subst hbuy
    rw [Function.update_self, lookup_of_find h.buyFound]
    exact ⟨h.buyLimit.1, le_rfl⟩
  · rw [Function.update_of_ne hbuy]
    by_cases hsell : m = sellMint
    · subst hsell
      rw [Function.update_self, lookup_of_find h.sellFound]
      exact ⟨le_rfl, h.sellLimit.2⟩
    · rw [Function.update_of_ne hsell]
      exact ⟨le_rfl, le_rfl⟩

/-- The limits of an earlier auction are kept. -/
theorem Within.opening {a₀ : Auction} (hwithin : Within rebalance a₀)
    (h : Opening folio f ends rebalance sellMint buyMint now buffer config sell buy a rebalance' ends') :
    Within rebalance' a₀ where
  added := by
    rw [h.rebalance]
    exact h.added
  sold := (h.narrows a₀.sellMint).2.trans hwithin.sold
  bought := hwithin.bought.trans (h.narrows a₀.buyMint).1

/-- The limits are narrowed to those of the new auction. -/
theorem Auction.Opening.within
    (h : Opening folio f ends rebalance sellMint buyMint now buffer config sell buy a rebalance' ends') :
    Within rebalance' a where
  added := by
    rw [h.rebalance]
    exact h.added
  sold := by
    have hsold : a.sellMint = sellMint := by rw [h.auction]
    have hlookup := congrFun h.lookup sellMint
    simp only [Function.update_of_ne h.distinct, Function.update_self] at hlookup
    rw [hsold, hlookup]
    exact le_rfl
  bought := by
    have hbought : a.buyMint = buyMint := by rw [h.auction]
    have hlookup := congrFun h.lookup buyMint
    simp only [Function.update_self] at hlookup
    rw [hbought, hlookup]
    exact le_rfl

end Opening

/-- The auctions of the current rebalance of each folio narrowed its limits, and no two auctions
of a rebalance trade a mint twice. -/
structure Narrowed (r : Rebalancing) : Prop where
  details : ∀ f rebalance, r.rebalance f = some rebalance → DetailsWF rebalance.details
  current : ∀ k a, r.auction k = some a → ∃ rebalance, r.rebalance k.folio = some rebalance ∧
    a.nonce ≤ rebalance.nonce ∧ (a.nonce = rebalance.nonce → Within rebalance a)
  apart : ∀ k k' a a', r.auction k = some a → r.auction k' = some a' → k.folio = k'.folio →
    a.nonce = a'.nonce → a.buyMint = a'.sellMint → a.buyLimit ≤ a'.sellLimit

namespace Narrowed

/-- The ends of auctions do not matter. -/
theorem moveEnds (h : Narrowed r) (hr : r'.rebalance = r.rebalance)
    (ha : ∀ k a', r'.auction k = some a' → ∃ a, r.auction k = some a ∧ a' = { a with end_ := a'.end_ }) :
    Narrowed r' := by
  constructor
  · rw [hr]
    exact h.details
  · intro k a' hk
    obtain ⟨a, hka, ha'⟩ := ha k a' hk
    obtain ⟨rebalance, hrebalance, hle, hwithin⟩ := h.current k a hka
    rw [ha', hr]
    refine ⟨rebalance, hrebalance, hle, fun hnonce => ?_⟩
    have hkept := hwithin hnonce
    exact ⟨hkept.added, hkept.sold, hkept.bought⟩
  · intro k k' a₁ a₂ hk hk' hfolio hnonce hmint
    obtain ⟨a, hka, ha₁⟩ := ha k a₁ hk
    obtain ⟨a', hka', ha₂⟩ := ha k' a₂ hk'
    rw [ha₁, ha₂] at hnonce hmint ⊢
    exact h.apart k k' a a' hka hka' hfolio hnonce hmint

/-- An auction whose end may have moved. -/
theorem moveEnd {key : AuctionKey} {a' : Auction}
    {auctionEnds : AuctionEndsKey → Option AuctionEnds} (h : Narrowed r)
    (ha : r.auction key = some a) (ha' : a' = { a with end_ := a'.end_ }) :
    Narrowed { r with
      auction := Function.update r.auction key (some a')
      auctionEnds } := by
  exact h.moveEnds rfl (forall_update_some ⟨a, ha, ha'⟩ fun k b hk => ⟨b, hk, rfl⟩)

/-- A rebalance whose limits no auction narrowed yet. -/
theorem setRebalance (h : Narrowed r) (hdetails : DetailsWF rebalance.details)
    (hlater : ∀ k a, r.auction k = some a → k.folio = f → a.nonce < rebalance.nonce) :
    Narrowed { r with rebalance := Function.update r.rebalance f (some rebalance) } := by
  constructor
  · exact forall_update_some hdetails h.details
  · intro k a hk
    by_cases hkf : k.folio = f
    · have hlt := hlater k a hk hkf
      rw [hkf]
      refine ⟨rebalance, Function.update_self .., hlt.le, fun heq => ?_⟩
      exact absurd heq hlt.ne
    · simp only [Function.update_of_ne hkf]
      exact h.current k a hk
  · exact h.apart

/-- An auction narrows the limits of its mints. -/
theorem opened {before after : Rebalance} (key : AuctionKey)
    {auctionEnds : AuctionEndsKey → Option AuctionEnds} (h : Narrowed r)
    (found : r.rebalance key.folio = some before) (hdetails : DetailsWF after.details)
    (hnonce : after.nonce = before.nonce) (ha : a.nonce = before.nonce)
    (hkept : ∀ a₀, Within before a₀ → Within after a₀) (hnew : Within after a) :
    Narrowed {
      rebalance := Function.update r.rebalance key.folio (some after)
      auction := Function.update r.auction key (some a)
      auctionEnds } := by
  have hcurrent : ∀ k a', Function.update r.auction key (some a) k = some a' →
      ∃ rebalance, Function.update r.rebalance key.folio (some after) k.folio = some rebalance ∧
        a'.nonce ≤ rebalance.nonce ∧ (a'.nonce = rebalance.nonce → Within rebalance a') := by
    refine forall_update_some
      ⟨after, Function.update_self .., (ha.trans hnonce.symm).le, fun _ => hnew⟩ fun k a' hk => ?_
    obtain ⟨rebalance, hrebalance, hle, hwithin⟩ := h.current k a' hk
    by_cases hfolio : k.folio = key.folio
    · rw [hfolio] at hrebalance ⊢
      obtain rfl := Option.some.inj (found.symm.trans hrebalance)
      refine ⟨after, Function.update_self .., hnonce.symm ▸ hle, fun heq => ?_⟩
      exact hkept a' (hwithin (heq.trans hnonce))
    · exact ⟨rebalance, (Function.update_of_ne hfolio ..).trans hrebalance, hle, hwithin⟩
  -- an auction of the rebalance
  have hafter : ∀ k a', Function.update r.auction key (some a) k = some a' →
      k.folio = key.folio → a'.nonce = before.nonce → Within after a' := by
    intro k a' hk hfolio heq
    obtain ⟨rebalance, hrebalance, -, hwithin⟩ := hcurrent k a' hk
    rw [hfolio, Function.update_self] at hrebalance
    obtain rfl := Option.some.inj hrebalance
    exact hwithin (heq.trans hnonce.symm)
  have hopened : ∀ a', Function.update r.auction key (some a) key = some a' →
      a'.nonce = before.nonce := by
    intro a' hkey
    rw [Function.update_self, Option.some.injEq] at hkey
    rw [← hkey, ha]
  have hapart : ∀ k k' a₁ a₂, Function.update r.auction key (some a) k = some a₁ →
      Function.update r.auction key (some a) k' = some a₂ → k.folio = k'.folio →
      a₁.nonce = a₂.nonce → a₁.buyMint = a₂.sellMint → a₁.buyLimit ≤ a₂.sellLimit := by
    intro k k' a₁ a₂ hk hk' hfolio heq hmint
    by_cases hkey : k = key
    · subst hkey
      have hnonce₁ := hopened a₁ hk
      exact (hafter k a₁ hk rfl hnonce₁).apart
        (hafter k' a₂ hk' hfolio.symm (heq ▸ hnonce₁)) hdetails hmint
    · by_cases hkey' : k' = key
      · subst hkey'
        have hnonce₂ := hopened a₂ hk'
        exact (hafter k a₁ hk hfolio (heq.trans hnonce₂)).apart (hafter k' a₂ hk' rfl hnonce₂)
          hdetails hmint
      · rw [Function.update_of_ne hkey] at hk
        rw [Function.update_of_ne hkey'] at hk'
        exact h.apart k k' a₁ a₂ hk hk' hfolio heq hmint
  exact ⟨forall_update_some hdetails h.details, hcurrent, hapart⟩

theorem step (h : Narrowed r) (hstep : AuctionStep P now r log r') : Narrowed r' := by
  cases hstep with
  | same => exact h
  | started f rebalance details nonce id =>
      refine h.setRebalance details fun k a hk hkf => ?_
      obtain ⟨before, hbefore, hle, -⟩ := h.current k a hk
      rw [hkf] at hbefore
      rw [nonce, hbefore, Option.getD_some]
      exact Nat.lt_succ_of_le hle
  | added f before after found isOpen details nonce id =>
      -- no auction is opened before all details are there
      refine h.setRebalance details fun k a hk hkf => ?_
      obtain ⟨before', hbefore, hle, hwithin⟩ := h.current k a hk
      rw [hkf] at hbefore
      obtain rfl := Option.some.inj (found.symm.trans hbefore)
      rw [nonce]
      refine lt_of_le_of_ne hle fun heq => ?_
      have hadded := (hwithin heq).added
      rw [isOpen] at hadded
      cases hadded
  | bid f key allowed rebalance a a' ends ends' found foundEnds foundRebalance nonce isOpen effect =>
      refine h.moveEnd found ?_
      rcases effect with ⟨rfl, -⟩ | ⟨-, rfl, -⟩
      · rfl
      · rfl
  | closed f key a ends found => exact h.moveEnd found rfl
  | opened f before after found folio sellMint buyMint buffer config sell buy a ends fresh opening =>
      refine h.opened ⟨f, before.nonce, before.currentAuctionId + 1⟩ found
        (opening.detailsWF (h.details f before found)) ?_ ?_
        (fun a₀ hwithin => hwithin.opening opening) opening.within
      · rw [opening.rebalance]
      · rw [opening.auction]

end Narrowed

namespace World

variable {T : TokenProgram} {w : World T}

theorem Fresh.narrowed (h : w.Fresh) : Narrowed w.rebalancing where
  details := h.detailsWF
  current := fun k a ha => by
    rw [h.auction k] at ha
    cases ha
  apart := fun k k' a a' ha => by
    rw [h.auction k] at ha
    cases ha

theorem Reachable.narrowed (hw : w.Reachable) : Narrowed w.rebalancing := by
  obtain ⟨w₀, inputs, h₀, rfl⟩ := hw
  exact h₀.reachable.run_auctions (I := fun _ r _ => Narrowed r) (p := [])
    (P := fun _ _ => True) (fun _ _ _ _ _ h => h) (fun _ _ _ _ _ h hstep => h.step hstep)
    (fun i _ => bidsMeet_true i) h₀.narrowed

/-- **No double trading.** The limits of all details are in order, and no auction of a
rebalance sells a mint below what another one bought it up to, whichever was opened first. -/
theorem no_double_trading (hw : w.Reachable) :
    (∀ f rebalance, w.rebalancing.rebalance f = some rebalance → ∀ detail ∈ rebalance.details,
      detail.value.limits.low ≤ detail.value.limits.spot ∧
        detail.value.limits.spot ≤ detail.value.limits.high) ∧
    ∀ k k' a a', w.rebalancing.auction k = some a → w.rebalancing.auction k' = some a' →
      k.folio = k'.folio → a.nonce = a'.nonce → a.buyMint = a'.sellMint →
      a.buyLimit ≤ a'.sellLimit :=
  ⟨fun f rebalance hf detail hdetail =>
      ((hw.narrowed.details f rebalance hf).limits detail hdetail).ordered,
    hw.narrowed.apart⟩

/-- While an auction runs. -/
theorem no_double_trading_selling :
    (∀ f rebalance, selling.rebalancing.rebalance f = some rebalance →
      ∀ detail ∈ rebalance.details,
        detail.value.limits.low ≤ detail.value.limits.spot ∧
          detail.value.limits.spot ≤ detail.value.limits.high) ∧
    ∀ k k' a a', selling.rebalancing.auction k = some a → selling.rebalancing.auction k' = some a' →
      k.folio = k'.folio → a.nonce = a'.nonce → a.buyMint = a'.sellMint →
      a.buyLimit ≤ a'.sellLimit :=
  no_double_trading (reachable_genesis ..)

end World

end IndexDtf
