import IndexDtf.Folio.FolioStep
import IndexDtf.Folio.RebalanceSpec
import IndexDtf.Folio.Solvency

/-!
# IndexDtf.Folio.AuctionStep

What an instruction can do to the accounts of the auctions. `AuctionStep` has one
case for each of the handlers, with what it checked; `World.auction_step` reads it off
the handlers once, and the invariants of the auctions are proved from it.
-/

namespace IndexDtf

open Lib SlotArray Decimal

/-- An auction that was opened, and where the ends of its pair are kept. -/
structure Opened where
  auction : AuctionKey
  ends : AuctionEndsKey
  deriving DecidableEq, Repr

/-- What a successful instruction at time `now` does to the accounts of the auctions, and
which auction it opens, if bids of a folio on an auction are as `P` says. -/
inductive AuctionStep (P : Pubkey → AuctionKey → Prop) (now : ℕ) (r : Rebalancing) :
    List Opened → Rebalancing → Prop
  /-- Nothing. -/
  | same : AuctionStep P now r [] r
  /-- `start_rebalance`. -/
  | started (f : Pubkey) (rebalance : Rebalance) (details : DetailsWF rebalance.details)
      (nonce : rebalance.nonce = ((r.rebalance f).getD Rebalance.init).nonce + 1)
      (id : rebalance.currentAuctionId = 0) :
      AuctionStep P now r []
        { r with rebalance := Function.update r.rebalance f (some rebalance) }
  /-- `add_rebalance_details`. -/
  | added (f : Pubkey) (before after : Rebalance) (found : r.rebalance f = some before)
      (isOpen : before.allRebalanceDetailsAdded = false) (details : DetailsWF after.details)
      (nonce : after.nonce = before.nonce)
      (id : after.currentAuctionId = before.currentAuctionId) :
      AuctionStep P now r [] { r with rebalance := Function.update r.rebalance f (some after) }
  /-- `open_auction` and `open_auction_permissionless`. -/
  | opened (f : Pubkey) (before after : Rebalance) (found : r.rebalance f = some before)
      (folio : Folio) (sellMint buyMint : Pubkey) (buffer : ℕ)
      (config : Option OpenAuctionConfig) (sell buy : RebalancePriceAndLimits) (auction : Auction)
      (ends : AuctionEnds)
      (fresh : r.auction ⟨f, before.nonce, before.currentAuctionId + 1⟩ = none)
      (opening : Auction.Opening folio f
        (((r.auctionEnds ⟨f, before.nonce, AuctionEnds.keysPairInOrder sellMint buyMint⟩).getD
          AuctionEnds.blank).processInitIfNeeded sellMint buyMint before.nonce)
        before sellMint buyMint now buffer config sell buy auction after ends) :
      AuctionStep P now r
        [⟨⟨f, before.nonce, before.currentAuctionId + 1⟩,
          ⟨f, before.nonce, AuctionEnds.keysPairInOrder sellMint buyMint⟩⟩] {
        rebalance := Function.update r.rebalance f (some after)
        auction := Function.update r.auction ⟨f, before.nonce, before.currentAuctionId + 1⟩
          (some auction)
        auctionEnds := Function.update r.auctionEnds
          ⟨f, before.nonce, AuctionEnds.keysPairInOrder sellMint buyMint⟩ (some ends) }
  /-- `bid`, on an auction that may be of another folio than the bid. -/
  | bid (f : Pubkey) (key : AuctionKey) (allowed : P f key) (rebalance : Rebalance)
      (auction auction' : Auction) (ends ends' : AuctionEnds) (found : r.auction key = some auction)
      (foundEnds : r.auctionEnds (World.endsKeyOf f auction) = some ends)
      (foundRebalance : r.rebalance f = some rebalance)
      (nonce : rebalance.nonce = auction.nonce)
      (isOpen : auction.tryGetStatus now = some .Open)
      (effect : auction' = auction ∧ ends' = ends ∨
        0 < now ∧ auction' = { auction with end_ := now - 1 } ∧
          ends' = { ends with endTime := now - 1 }) :
      AuctionStep P now r [] { r with
        auction := Function.update r.auction key (some auction')
        auctionEnds := Function.update r.auctionEnds (World.endsKeyOf f auction) (some ends') }
  /-- `close_auction`, on an auction that has not ended. -/
  | closed (f : Pubkey) (key : AuctionKey) (auction : Auction) (ends : AuctionEnds)
      (found : r.auction key = some auction) (key_eq : key = ⟨f, auction.nonce, auction.id⟩)
      (foundEnds : r.auctionEnds (World.endsKeyOf f auction) = some ends)
      (running : now < auction.end_) (pos : 0 < now) :
      AuctionStep P now r [] { r with
        auction := Function.update r.auction key (some { auction with end_ := now - 1 })
        auctionEnds := Function.update r.auctionEnds (World.endsKeyOf f auction)
          (some { ends with endTime := now - 1 }) }

/-- Well-formed details stay so. -/
theorem AuctionStep.detailsWF {P : Pubkey → AuctionKey → Prop} {now : ℕ}
    {r r' : Rebalancing} {log : List Opened} (h : AuctionStep P now r log r')
    (hr : ∀ f rebalance, r.rebalance f = some rebalance → IndexDtf.DetailsWF rebalance.details) :
    ∀ f rebalance, r'.rebalance f = some rebalance → IndexDtf.DetailsWF rebalance.details := by
  cases h with
  | same | bid | closed => exact hr
  | started f rebalance details => exact forall_update_some details hr
  | added f before after found isOpen details => exact forall_update_some details hr
  | opened f before after found folio sellMint buyMint buffer config sell buy auction ends fresh
      opening => exact forall_update_some (opening.detailsWF (hr f before found)) hr

namespace World

open Books

variable {T : TokenProgram} {w w' : World T} {f user : Pubkey}
  {P : Pubkey → AuctionKey → Prop}

/-- The details of every rebalance are well formed. -/
def DetailsWF (w : World T) : Prop :=
  ∀ f rebalance, w.rebalancing.rebalance f = some rebalance → IndexDtf.DetailsWF rebalance.details

theorem checkSupported_spec {l : T.Ledger} {mints : List Pubkey} {u : Unit}
    (h : checkSupported l mints = .ok u) : ∀ mint ∈ mints, mint ≠ Pubkey.default :=
  fun mint hmint => (checkCondition_eq_ok.mp h mint hmint).1

/-- The auction a pair is opened for. -/
def openingFor (w : World T) (f sellMint buyMint : Pubkey) : List Opened :=
  match w.rebalancing.rebalance f with
  | none => []
  | some rebalance => [⟨⟨f, rebalance.nonce, rebalance.currentAuctionId + 1⟩,
      ⟨f, rebalance.nonce, AuctionEnds.keysPairInOrder sellMint buyMint⟩⟩]

/-- The auction an instruction opens, if it succeeds. -/
def openings (w : World T) : Instruction T → List Opened
  | .auction (.openAuction f _ sellMint buyMint _) => w.openingFor f sellMint buyMint
  | .auction (.openAuctionPermissionless f sellMint buyMint) => w.openingFor f sellMint buyMint
  | _ => []

/-- What opening an auction found and wrote. -/
theorem openFor_spec {folio : Folio} {sellMint buyMint : Pubkey} {buffer : ℕ}
    {config : Option OpenAuctionConfig} {isPermissionless : Bool}
    (hbaskets : w.books.BasketsWF) (hdetails : w.DetailsWF)
    (h : w.openFor f folio sellMint buyMint buffer config isPermissionless = .ok w') :
    ∃ before after folio' sell buy auction ends, w.rebalancing.rebalance f = some before ∧
      w.rebalancing.auction ⟨f, before.nonce, before.currentAuctionId + 1⟩ = none ∧
      Auction.Opening folio' f
        (((w.rebalancing.auctionEnds
          ⟨f, before.nonce, AuctionEnds.keysPairInOrder sellMint buyMint⟩).getD
          AuctionEnds.blank).processInitIfNeeded sellMint buyMint before.nonce)
        before sellMint buyMint w.books.now buffer config sell buy auction after ends ∧
      w'.rebalancing = {
        rebalance := Function.update w.rebalancing.rebalance f (some after)
        auction := Function.update w.rebalancing.auction
          ⟨f, before.nonce, before.currentAuctionId + 1⟩ (some auction)
        auctionEnds := Function.update w.rebalancing.auctionEnds
          ⟨f, before.nonce, AuctionEnds.keysPairInOrder sellMint buyMint⟩ (some ends) } := by
  simp only [openFor, bind_eq_ok, Prod.exists, Except.ok.injEq, load_eq_ok, guardOr_eq_ok,
    Rebalance.getNextAuctionId, addU64_eq_ok] at h
  obtain ⟨before, hrebalance, basket, hbasket, folio', -, _, ⟨-, rfl⟩, _, hfresh, auction, after,
    ends, hopen, rfl⟩ := h
  obtain ⟨sell, buy, hopening⟩ := Auction.openAuction_spec (hdetails f before hrebalance)
    (hbaskets.folioBasket f basket hbasket) hopen
  exact ⟨before, after, folio', sell, buy, auction, ends, hrebalance, hfresh, hopening, rfl⟩

theorem openFor_step {folio : Folio} {sellMint buyMint : Pubkey} {buffer : ℕ}
    {config : Option OpenAuctionConfig} {isPermissionless : Bool}
    (hbaskets : w.books.BasketsWF) (hdetails : w.DetailsWF)
    (h : w.openFor f folio sellMint buyMint buffer config isPermissionless = .ok w') :
    AuctionStep P w.books.now w.rebalancing (w.openingFor f sellMint buyMint) w'.rebalancing := by
  obtain ⟨before, after, folio', sell, buy, auction, ends, hrebalance, hfresh, hopening, hw'⟩ :=
    openFor_spec hbaskets hdetails h
  rw [openingFor, hrebalance, hw']
  exact .opened f before after hrebalance folio' sellMint buyMint buffer config sell buy auction
    ends hfresh hopening

theorem bid_step {key : AuctionKey} {rawSellAmount rawMaxBuyAmount : ℕ}
    {callback : Option (Callback T)} (allowed : P f key)
    (h : w.bid f user key rawSellAmount rawMaxBuyAmount callback = .ok w') :
    AuctionStep P w.books.now w.rebalancing [] w'.rebalancing := by
  simp only [bid, validateBid, bind_eq_ok, Prod.exists, Except.ok.injEq, load_eq_ok,
    checkCondition_eq_ok, Prod.mk.injEq] at h
  obtain ⟨auction, hauction, _, -, _, _, _, ⟨_, -, _, -, ends, hends, rebalance, hrebalance, _, -, _,
    hnonce, _, hopen, rfl, rfl, rfl⟩, _, -, _, _, -, _, _, -, _, -, _, -, _, -, _, -, auction', ends',
    hend, rfl⟩ := h
  refine .bid f key allowed rebalance auction auction' ends ends' hauction hends hrebalance hnonce
    hopen ?_
  unfold endAtLimits at hend
  split at hend
  · simp only [bind_eq_ok, subPlain_eq_ok, Except.ok.injEq, Prod.mk.injEq] at hend
    obtain ⟨_, ⟨hpos, rfl⟩, rfl, rfl⟩ := hend
    exact .inr ⟨hpos, rfl, rfl⟩
  · cases hend
    exact .inl ⟨rfl, rfl⟩

theorem closeAuction_step {key : AuctionKey} (h : w.closeAuction f user key = .ok w') :
    AuctionStep P w.books.now w.rebalancing [] w'.rebalancing := by
  simp only [closeAuction, bind_eq_ok, load_eq_ok, checkCondition_eq_ok] at h
  obtain ⟨auction, hauction, _, -, _, hkey, ends, hends, h⟩ := h
  split at h
  · next hlt =>
    simp only [bind_eq_ok, checkedSub_eq_ok, Except.ok.injEq] at h
    obtain ⟨_, ⟨hpos, rfl⟩, rfl⟩ := h
    exact .closed f key auction ends hauction hkey hends hlt hpos
  · cases h
    exact .same

/-- A condition on the folio and the auction of a bid. -/
def BidsMeet (P : Pubkey → AuctionKey → Prop) : Instruction T → Prop
  | .auction (.bid f _ key _ _ _) => P f key
  | _ => True

theorem bidsMeet_true (i : Instruction T) : BidsMeet (fun _ _ => True) i := by
  cases i with
  | auction i => cases i <;> trivial
  | user | owner | crank | admin | elapse | outside => trivial

/-- **What an instruction on auctions does.** -/
theorem auction_step {i : AuctionInstruction T} (hbaskets : w.books.BasketsWF)
    (hdetails : w.DetailsWF) (hbids : BidsMeet P (.auction i : Instruction T))
    (h : w.auction i = .ok w') :
    AuctionStep P w.books.now w.rebalancing (w.openings (.auction i)) w'.rebalancing := by
  cases i with
  | startRebalance f manager window ttl mints pricesAndLimits added =>
      simp only [auction, startRebalance, bind_eq_ok, Except.ok.injEq] at h
      obtain ⟨_, -, _, hmints, _, -, rebalance, hstart, rfl⟩ := h
      obtain ⟨hwf, hnonce, hid⟩ := Rebalance.startRebalance_spec (checkSupported_spec hmints) hstart
      exact .started f rebalance hwf hnonce hid
  | addRebalanceDetails f manager mints pricesAndLimits added =>
      simp only [auction, addRebalanceDetails, bind_eq_ok, Except.ok.injEq, load_eq_ok] at h
      obtain ⟨before, hfound, _, -, _, hmints, after, hadd, rfl⟩ := h
      obtain ⟨hopen, hwf, hafter⟩ := Rebalance.addRebalanceDetails_spec (hdetails f before hfound)
        (checkSupported_spec hmints) hadd
      exact .added f before after hfound hopen hwf (by rw [hafter]) (by rw [hafter])
  | openAuction f launcher sellMint buyMint config =>
      simp only [auction, openAuction, bind_eq_ok] at h
      obtain ⟨_, -, h⟩ := h
      exact openFor_step hbaskets hdetails h
  | openAuctionPermissionless f sellMint buyMint =>
      simp only [auction, openAuctionPermissionless, bind_eq_ok] at h
      obtain ⟨_, -, h⟩ := h
      exact openFor_step hbaskets hdetails h
  | bid f bidder key rawSellAmount rawMaxBuyAmount callback => exact bid_step hbids h
  | closeAuction f actor key => exact closeAuction_step h

/-- The clock does not go back. -/
theorem now_mono {i : Instruction T} (h : w.step i = .ok w') : w.books.now ≤ w'.books.now := by
  refine (step_folios h).keeps (I := fun s => w.books.now ≤ s.now) (fun s log s' hs hstep => ?_)
    (show w.books.now ≤ w.books.folios.now from le_rfl)
  cases hstep with
  | elapsed seconds => exact hs.trans (Nat.le_add_right ..)
  | created | changed | recipients | distributed | cranked => exact hs

/-- **What any instruction does to the accounts of the auctions.** -/
theorem rebalancing_step {i : Instruction T} (hbaskets : w.books.BasketsWF)
    (hdetails : w.DetailsWF) (hbids : BidsMeet P i) (h : w.step i = .ok w') :
    AuctionStep P w.books.now w.rebalancing (w.openings i) w'.rebalancing := by
  cases i with
  | auction i => exact auction_step hbaskets hdetails hbids h
  | user | owner | crank | admin | elapse | outside =>
      simp only [step, onBooks_eq_ok] at h
      rw [h.2]
      exact .same

/-! ### Reachable worlds -/

theorem Fresh.reachable (h : w.Fresh) : w.Reachable := ⟨w, [], h, rfl⟩

theorem Fresh.detailsWF (h : w.Fresh) : w.DetailsWF := fun f rebalance hr => by
  rw [h.rebalance f] at hr
  cases hr

theorem Reachable.auctionsWF (h : w.Reachable) : w.books.BasketsWF ∧ w.DetailsWF := by
  refine Lib.Reachable.inv (I := fun w : World T => w.books.BasketsWF ∧ w.DetailsWF)
    (fun _ h₀ => ⟨h₀.basketsWF, h₀.detailsWF⟩) (fun w₁ i w₂ hw₁ hstep => ?_) h
  exact ⟨(step_settled hstep).choose_spec.wf hw₁.1,
    (rebalancing_step hw₁.1 hw₁.2 (bidsMeet_true i) hstep).detailsWF hw₁.2⟩

/-- **The rule for invariants** of the clock, the accounts of the auctions and what was
opened so far. -/
theorem Reachable.run_auctions {I : ℕ → Rebalancing → List Opened → Prop} {p : List Opened}
    {inputs : List (Instruction T)} (hw : w.Reachable)
    (hlater : ∀ now later r past, now ≤ later → I now r past → I later r past)
    (hstep : ∀ now r past log r', I now r past → AuctionStep P now r log r' →
      I now r' (past ++ log))
    (hbids : ∀ i ∈ inputs, BidsMeet P i) (h : I w.books.now w.rebalancing p) :
    I (run step w inputs).books.now (run step w inputs).rebalancing
      (p ++ trace step openings w inputs) := by
  induction inputs generalizing w p with
  | nil => simpa only [run_nil, trace, List.append_nil] using h
  | cons i rest ih =>
      have hrest : ∀ j ∈ rest, BidsMeet P j := fun j hj => hbids j (List.mem_cons_of_mem i hj)
      rw [run_cons, trace, attempt, ← List.append_assoc]
      split
      · next w' hok =>
        obtain ⟨hbaskets, hdetails⟩ := hw.auctionsWF
        have hr := rebalancing_step hbaskets hdetails (hbids i (List.mem_cons_self ..)) hok
        exact ih (Lib.Reachable.step hw hok) hrest
          (hlater _ _ _ _ (now_mono hok) (hstep _ _ _ _ _ h hr))
      · exact ih hw hrest (by simpa only [List.append_nil] using h)

/-! ### Runs -/

/-- Folio `f` with one share and 600 of token 7, and a rebalance by actor 4 that may sell all
of them for token 8, one for one. User 6 has 1000 of token 8. -/
def withRebalance (f : Pubkey) : List (Instruction TokenProgram.simple) :=
  [.admin (.setDaoFeeConfig admin (some 9) (some 0) (some 0)),
    .owner (.initFolio f 3 0 0 60 []),
    .outside (.openAccount (.external 3) 7),
    .outside (.openAccount (.external 3) f),
    .outside (.openAccount (.folio f) 7),
    .outside (.openAccount (.folio f) 8),
    .outside (.openAccount (.external 6) 7),
    .outside (.openAccount (.external 6) 8),
    .outside (.issue (.external 3) 7 600),
    .outside (.issue (.external 6) 8 1000),
    .owner (.addToBasket f 3 [⟨7, (.external 3, 7), (.folio f, 7)⟩] [600] (some 1000000000)),
    .owner (.initOrUpdateActor f 3 4 .RebalanceManager),
    .owner (.initOrUpdateActor f 3 4 .AuctionLauncher),
    .auction (.startRebalance f 4 600 1200 [7, 8]
      [⟨⟨d18, d18⟩, ⟨200000000000, 1, 600000000000⟩⟩,
        ⟨⟨d18, d18⟩, ⟨300000000000, 100000000000, 600000000000⟩⟩] true)]

/-- An auction of token 7 for token 8 at one for one, up to the given balances. -/
def opening (f sellBalance buyBalance : ℕ) : Instruction TokenProgram.simple :=
  .auction (.openAuction f 4 7 8
    ⟨⟨d18, d18⟩, sellBalance * 1000000000, buyBalance * 1000000000⟩)

/-- Folio 5 with an auction that ends after a minute. -/
def selling : World TokenProgram.simple :=
  run step (genesis SimpleLedger.empty 1000000) (withRebalance 5 ++ [opening 5 200 400])

end World

end IndexDtf
