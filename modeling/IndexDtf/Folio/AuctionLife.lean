import Mathlib.Data.Sym.Sym2
import IndexDtf.Folio.AuctionStep

/-!
# IndexDtf.Folio.AuctionLife

Which auctions can be bid on, over whole runs.

* `close_final_iff` — a closed auction stays closed, unless it was closed in its last
  second;
* `one_live_auction` — the account of the ends of a pair follows the auction of the pair
  that was opened last, and all others are over, as long as a folio's bids are on its own
  auctions.
-/

namespace IndexDtf

open Lib SlotArray

namespace Auction

variable {a : Auction} {now : ℕ}

theorem le_end_of_open (h : a.tryGetStatus now = some .Open) : a.start ≤ now ∧ now ≤ a.end_ := by
  unfold tryGetStatus at h
  split at h
  · cases h
  · split at h
    · assumption
    · split at h <;> cases h

theorem not_open_of_ended (h : a.end_ < now) : a.tryGetStatus now ≠ some .Open := by
  intro hopen
  have hle := (le_end_of_open hopen).2
  omega

end Auction

open Auction

variable {P : Pubkey → AuctionKey → Prop} {now : ℕ} {r r' : Rebalancing} {log past : List Opened}

/-! ### Auctions that are over -/

/-- The auction of a key is there, and over. -/
def Over (key : AuctionKey) (now : ℕ) (r : Rebalancing) : Prop :=
  ∃ a, r.auction key = some a ∧ a.end_ ≤ now ∧ a.tryGetStatus now ≠ some .Open

theorem Over.later {key : AuctionKey} {later : ℕ} (hover : Over key now r) (hle : now ≤ later) :
    Over key later r := by
  obtain ⟨a, ha, hend, hclosed⟩ := hover
  refine ⟨a, ha, hend.trans hle, fun hopen => ?_⟩
  obtain rfl : now = later := by
    have := (le_end_of_open hopen).2
    omega
  exact hclosed hopen

/-- An auction that is over is not touched any more. -/
theorem Over.step {key : AuctionKey} (hover : Over key now r) (h : AuctionStep P now r log r') :
    Over key now r' := by
  obtain ⟨a, ha, hend, hclosed⟩ := hover
  cases h with
  | same | started | added => exact ⟨a, ha, hend, hclosed⟩
  | opened f before after found folio sellMint buyMint buffer config sell buy auction ends fresh =>
      refine ⟨a, (Function.update_of_ne (fun e => ?_) ..).trans ha, hend, hclosed⟩
      rw [← e, ha] at fresh
      cases fresh
  | bid f k allowed rebalance auction auction' ends ends' found foundEnds foundRebalance nonce isOpen =>
      refine ⟨a, (Function.update_of_ne (fun e => ?_) ..).trans ha, hend, hclosed⟩
      rw [← e, ha] at found
      cases found
      exact hclosed isOpen
  | closed f k auction ends found key_eq foundEnds running =>
      refine ⟨a, (Function.update_of_ne (fun e => ?_) ..).trans ha, hend, hclosed⟩
      rw [← e, ha] at found
      cases found
      omega

namespace World

open Books

variable {T : TokenProgram} {w w' : World T} {f user : Pubkey} {key : AuctionKey}

/-- The auction of a key takes bids. -/
def IsOpen (w : World T) (key : AuctionKey) : Prop :=
  ∃ a, w.rebalancing.auction key = some a ∧ a.tryGetStatus w.books.now = some .Open

instance (w : World T) (key : AuctionKey) : Decidable (w.IsOpen key) :=
  inferInstanceAs (Decidable (∃ a, w.rebalancing.auction key = some a ∧ _))

/-- A bid is only accepted on an auction that is open. -/
theorem isOpen_of_bid {rawSellAmount rawMaxBuyAmount : ℕ} {callback : Option (Callback T)}
    (h : w.step (.auction (.bid f user key rawSellAmount rawMaxBuyAmount callback)) = .ok w') :
    w.IsOpen key := by
  simp only [step, auction, bid, validateBid, bind_eq_ok, Prod.exists, load_eq_ok,
    checkCondition_eq_ok] at h
  obtain ⟨a, ha, _, -, _, _, _, ⟨_, -, _, -, _, -, _, -, _, -, _, -, _, hopen, -⟩, -⟩ := h
  exact ⟨a, ha, hopen⟩

/-- No bid on the auction is accepted from now on, whatever happens. -/
def ClosedForGood (w : World T) (key : AuctionKey) : Prop :=
  ∀ inputs, ¬ (run step w inputs).IsOpen key ∧
    ∀ f user rawSellAmount rawMaxBuyAmount callback w',
      (run step w inputs).step
        (.auction (.bid f user key rawSellAmount rawMaxBuyAmount callback)) ≠ .ok w'

theorem closedForGood_of_over (hw : w.Reachable) (h : Over key w.books.now w.rebalancing) :
    w.ClosedForGood key := by
  intro inputs
  have hover : Over key (run step w inputs).books.now (run step w inputs).rebalancing :=
    hw.run_auctions (P := fun _ _ => True) (p := [])
      (I := fun now r _ => Over key now r) (fun now later r _ hle hover => hover.later hle)
      (fun now r _ log r' hover hstep => hover.step hstep) (fun i _ => bidsMeet_true i) h
  have hclosed : ¬ (run step w inputs).IsOpen key := by
    rintro ⟨a, ha, hopen⟩
    obtain ⟨a', ha', -, hnot⟩ := hover
    obtain rfl : a = a' := Option.some.inj (ha.symm.trans ha')
    exact hnot hopen
  exact ⟨hclosed, fun _ _ _ _ _ _ hbid => hclosed (isOpen_of_bid hbid)⟩

/-- **Closing an auction is final**, unless the auction is open in its last second: then
nothing happens, and bids are accepted until the second is over. -/
theorem close_final_iff {a : Auction} (hw : w.Reachable)
    (h : w.step (.auction (.closeAuction f user key)) = .ok w')
    (ha : w.rebalancing.auction key = some a) :
    w'.ClosedForGood key ↔ ¬ (w.IsOpen key ∧ a.end_ = w.books.now) := by
  have hw' : w'.Reachable := Lib.Reachable.step hw h
  simp only [step, auction, closeAuction, bind_eq_ok, load_eq_ok] at h
  obtain ⟨_, ha', _, -, _, -, ends, -, h⟩ := h
  obtain rfl := Option.some.inj (ha.symm.trans ha')
  split at h
  · -- the auction is running, and ends a second ago
    next hrunning =>
    simp only [bind_eq_ok, checkedSub_eq_ok, Except.ok.injEq] at h
    obtain ⟨_, ⟨hpos, rfl⟩, rfl⟩ := h
    refine iff_of_true (closedForGood_of_over hw' ⟨_, Function.update_self .., ?_, ?_⟩) ?_
    · exact Nat.sub_le ..
    · exact not_open_of_ended (Nat.sub_one_lt_of_lt hpos)
    · rintro ⟨-, hlast⟩
      omega
  · -- nothing is written
    next hended =>
    cases h
    constructor
    · rintro hclosed ⟨hopen, -⟩
      exact (hclosed []).1 hopen
    · intro hnot
      refine closedForGood_of_over hw ⟨a, ha, Nat.le_of_not_lt hended, fun hopen => hnot ⟨?_, ?_⟩⟩
      · exact ⟨a, ha, hopen⟩
      · have hle := (le_end_of_open hopen).2
        omega

/-- An auction is closed while it runs. -/
theorem close_final_selling :
    ∃ w', selling.step (.auction (.closeAuction 5 4 ⟨5, 1, 1⟩)) = .ok w' ∧
      ∃ a, selling.rebalancing.auction ⟨5, 1, 1⟩ = some a ∧
        (w'.ClosedForGood ⟨5, 1, 1⟩
          ↔ ¬ (selling.IsOpen ⟨5, 1, 1⟩ ∧ a.end_ = selling.books.now)) := by
  have hok : ∃ w', selling.step (.auction (.closeAuction 5 4 ⟨5, 1, 1⟩)) = .ok w' ∧ True := by
    decide +kernel
  have hsome : ∃ a, selling.rebalancing.auction ⟨5, 1, 1⟩ = some a ∧ True := by decide +kernel
  obtain ⟨w', hok, -⟩ := hok
  obtain ⟨a, ha, -⟩ := hsome
  exact ⟨w', hok, a, ha, close_final_iff (reachable_genesis ..) hok ha⟩

/-- An auction is closed in its last second, and a bid is accepted in the same second. -/
theorem bid_after_close :
    let w := run step selling [.elapse 60]
    w.Reachable ∧ ∃ w', w.step (.auction (.closeAuction 5 4 ⟨5, 1, 1⟩)) = .ok w' ∧
      w'.IsOpen ⟨5, 1, 1⟩ ∧
      ∃ w'', w'.step (.auction (.bid 5 6 ⟨5, 1, 1⟩ 100 100 none)) = .ok w'' ∧
        w''.books.ledger.amount (.folio 5, 8) = 100 :=
  ⟨Lib.Reachable.run (reachable_genesis ..) _, by decide +kernel⟩

end World

/-! ### The ends of a pair -/

/-- The auction of a pair that was opened last. -/
def lastOpened (past : List Opened) (e : AuctionEndsKey) : Option AuctionKey :=
  (past.reverse.find? (·.ends = e)).map (·.auction)

@[simp] theorem lastOpened_nil (e : AuctionEndsKey) : lastOpened [] e = none := rfl

theorem lastOpened_opened (past : List Opened) (key : AuctionKey) (e : AuctionEndsKey) :
    lastOpened (past ++ [⟨key, e⟩]) = Function.update (lastOpened past) e (some key) := by
  funext e'
  rw [lastOpened, List.reverse_append, List.reverse_singleton, List.singleton_append]
  by_cases he : e' = e
  · subst he
    rw [List.find?_cons_of_pos (by simp only [decide_true]), Function.update_self]
    rfl
  · rw [List.find?_cons_of_neg (by simp only [Ne.symm he, decide_false, Bool.false_eq_true,
      not_false_eq_true]), Function.update_of_ne he]
    rfl

/-- The accounts of the auctions are in step with those of the ends: of each pair only the
auction that was opened last may still run, and the account of the ends has its end. -/
structure Synced (now : ℕ) (r : Rebalancing) (past : List Opened) : Prop where
  /-- All auctions of a pair but the last one are over. -/
  ended : ∀ k a, r.auction k = some a →
    a.end_ < now ∨ lastOpened past (World.endsKeyOf k.folio a) = some k
  last : ∀ e k, lastOpened past e = some k →
    ∃ a ends, r.auction k = some a ∧ World.endsKeyOf k.folio a = e ∧
      r.auctionEnds e = some ends ∧ ends.endTime = a.end_
  /-- An account of the ends has its mints in order, so it is not made anew. -/
  mints : ∀ e ends, r.auctionEnds e = some ends → e.mints = (ends.tokenMint1, ends.tokenMint2)

namespace Synced

theorem later {later : ℕ} (h : Synced now r past) (hle : now ≤ later) : Synced later r past where
  ended := fun k a ha => (h.ended k a ha).imp_left fun hlt => hlt.trans_le hle
  last := h.last
  mints := h.mints

/-- The auctions and the ends are what matters. -/
theorem congr (h : Synced now r past) (ha : r'.auction = r.auction)
    (he : r'.auctionEnds = r.auctionEnds) : Synced now r' past := by
  constructor
  · rw [ha]
    exact h.ended
  · rw [ha, he]
    exact h.last
  · rw [he]
    exact h.mints

/-- The end of an auction that runs is moved. -/
theorem moveEnd {key : AuctionKey} {a : Auction} {ends : AuctionEnds} (t : ℕ)
    (h : Synced now r past) (ha : r.auction key = some a) (hrunning : ¬ a.end_ < now)
    (hends : r.auctionEnds (World.endsKeyOf key.folio a) = some ends) :
    Synced now { r with
      auction := Function.update r.auction key (some { a with end_ := t })
      auctionEnds := Function.update r.auctionEnds (World.endsKeyOf key.folio a)
        (some { ends with endTime := t }) } past := by
  -- it is the last one of its pair
  have hlast := (h.ended key a ha).resolve_left hrunning
  constructor
  · exact forall_update_some (.inr hlast) h.ended
  · intro e k hk
    obtain ⟨a', ends', ha', he, hends', hend⟩ := h.last e k hk
    by_cases heq : e = World.endsKeyOf key.folio a
    · rw [heq] at hk ⊢
      obtain rfl := Option.some.inj (hlast.symm.trans hk)
      exact ⟨_, _, Function.update_self .., rfl, Function.update_self .., rfl⟩
    · have hne : k ≠ key := by
        rintro rfl
        rw [ha, Option.some.injEq] at ha'
        subst ha'
        exact heq he.symm
      exact ⟨a', ends', (Function.update_of_ne hne ..).trans ha', he,
        (Function.update_of_ne heq ..).trans hends', hend⟩
  · exact forall_update_some (h.mints _ ends hends) h.mints

/-- An account of the ends that is there is not made anew. -/
theorem processInitIfNeeded {f sellMint buyMint : Pubkey} {nonce : ℕ} {ends : AuctionEnds}
    (h : Synced now r past)
    (hends : r.auctionEnds ⟨f, nonce, AuctionEnds.keysPairInOrder sellMint buyMint⟩ = some ends) :
    ends.processInitIfNeeded sellMint buyMint nonce = ends := by
  have hmints : AuctionEnds.keysPairInOrder sellMint buyMint = (ends.tokenMint1, ends.tokenMint2) :=
    h.mints _ ends hends
  rw [AuctionEnds.processInitIfNeeded, if_pos ⟨congrArg Prod.fst hmints, congrArg Prod.snd hmints⟩]

/-- An auction is opened when the last one of the pair is over. -/
theorem opened {rebalance : Pubkey → Option Rebalance} {key : AuctionKey} {e : AuctionEndsKey}
    {a : Auction} {ends : AuctionEnds} (h : Synced now r past) (fresh : r.auction key = none)
    (he : World.endsKeyOf key.folio a = e)
    (hended : ∀ before, r.auctionEnds e = some before → before.endTime < now)
    (hmints : e.mints = (ends.tokenMint1, ends.tokenMint2)) (hend : ends.endTime = a.end_) :
    Synced now {
      rebalance
      auction := Function.update r.auction key (some a)
      auctionEnds := Function.update r.auctionEnds e (some ends) } (past ++ [⟨key, e⟩]) := by
  constructor
  · rw [lastOpened_opened]
    refine forall_update_some (.inr (by rw [he, Function.update_self])) fun k a' ha' => ?_
    by_cases heq : World.endsKeyOf k.folio a' = e
    · -- the account of the ends says when the last one was over
      left
      cases h.ended k a' ha' with
      | inl hlt => exact hlt
      | inr hlast =>
          obtain ⟨a₀, before, ha₀, -, hbefore, hend₀⟩ := h.last _ _ hlast
          obtain rfl := Option.some.inj (ha'.symm.trans ha₀)
          rw [heq] at hbefore
          exact hend₀ ▸ hended before hbefore
    · rw [Function.update_of_ne heq]
      exact h.ended k a' ha'
  · intro e' k hk
    rw [lastOpened_opened] at hk
    by_cases heq : e' = e
    · subst heq
      rw [Function.update_self] at hk
      obtain rfl := Option.some.inj hk
      exact ⟨a, ends, Function.update_self .., he, Function.update_self .., hend⟩
    · rw [Function.update_of_ne heq] at hk
      obtain ⟨a', ends', ha', he', hends', hend'⟩ := h.last e' k hk
      have hne : k ≠ key := by
        rintro rfl
        rw [fresh] at ha'
        cases ha'
      exact ⟨a', ends', (Function.update_of_ne hne ..).trans ha', he',
        (Function.update_of_ne heq ..).trans hends', hend'⟩
  · exact forall_update_some hmints h.mints

/-- A step keeps the accounts in step, if bids are on auctions of their own folio. -/
theorem step (h : Synced now r past)
    (hstep : AuctionStep (fun f key => f = key.folio) now r log r') :
    Synced now r' (past ++ log) := by
  cases hstep with
  | same => simpa only [List.append_nil] using h
  | started | added =>
      rw [List.append_nil]
      exact h.congr rfl rfl
  | bid f key allowed rebalance a a' ends ends' found foundEnds foundRebalance nonce isOpen effect =>
      subst allowed
      have hrunning : ¬ a.end_ < now := not_lt.mpr (le_end_of_open isOpen).2
      rw [List.append_nil]
      rcases effect with ⟨rfl, rfl⟩ | ⟨-, rfl, rfl⟩
      · rw [← found, ← foundEnds, Function.update_eq_self, Function.update_eq_self]
        exact h
      · exact h.moveEnd _ found hrunning foundEnds
  | closed f key a ends found key_eq foundEnds running =>
      obtain rfl : f = key.folio := by rw [key_eq]
      rw [List.append_nil]
      exact h.moveEnd _ found (not_lt.mpr running.le) foundEnds
  | opened f before after found folio sellMint buyMint buffer config sell buy a ends fresh opening =>
      have hends := opening.ends
      have hended := opening.ended
      refine h.opened fresh ?_ (fun before' hbefore => ?_) ?_ ?_
      · rw [opening.auction]
        rfl
      · rw [hbefore, Option.getD_some, h.processInitIfNeeded hbefore] at hended
        omega
      · rw [hends]
        simp only [AuctionEnds.processInitIfNeeded]
        split
        · next hkeys => exact Prod.ext hkeys.1 hkeys.2
        · rfl
      · rw [hends, opening.auction]

end Synced

/-- The order of the mints of a pair does not matter. -/
theorem keysPairInOrder_eq_of_pair {m₁ m₂ m₁' m₂' : Pubkey} (h : s(m₁, m₂) = s(m₁', m₂')) :
    AuctionEnds.keysPairInOrder m₁ m₂ = AuctionEnds.keysPairInOrder m₁' m₂' := by
  rcases Sym2.eq_iff.mp h with ⟨rfl, rfl⟩ | ⟨rfl, rfl⟩
  · rfl
  · unfold AuctionEnds.keysPairInOrder
    rcases Nat.lt_trichotomy m₁ m₂ with hlt | rfl | hlt
    · rw [if_pos hlt, if_neg hlt.not_gt]
    · rfl
    · rw [if_neg hlt.not_gt, if_pos hlt]

namespace World

open Books

variable {T : TokenProgram} {w w' : World T} {w₀ : World T} {inputs : List (Instruction T)}

/-- The auction of a key is open, and one of the current rebalance of its folio. -/
def AcceptsBids (w : World T) (key : AuctionKey) : Prop :=
  ∃ a, w.rebalancing.auction key = some a ∧ a.tryGetStatus w.books.now = some .Open ∧
    ∃ rebalance, w.rebalancing.rebalance key.folio = some rebalance ∧ rebalance.nonce = a.nonce

instance (w : World T) (key : AuctionKey) : Decidable (w.AcceptsBids key) :=
  inferInstanceAs (Decidable (∃ a, w.rebalancing.auction key = some a ∧
    (a.tryGetStatus w.books.now = some .Open ∧
      ∃ rebalance, w.rebalancing.rebalance key.folio = some rebalance ∧ _)))

/-- The two mints of the auction of a key. -/
def pairOf (w : World T) (key : AuctionKey) : Option (Sym2 Pubkey) :=
  (w.rebalancing.auction key).map fun a => s(a.sellMint, a.buyMint)

/-- The bids are on auctions of the folio they are sent to. -/
def BidsOwn : Instruction T → Prop := BidsMeet fun f key => f = key.folio

theorem Fresh.synced (h : w.Fresh) (now : ℕ) : Synced now w.rebalancing [] where
  ended := fun k a ha => by
    rw [h.auction k] at ha
    cases ha
  last := fun e k hk => by cases hk
  mints := fun e ends hends => by
    rw [h.auctionEnds e] at hends
    cases hends

/-- They are in step in every run with such bids. -/
theorem synced_run (h₀ : w₀.Fresh) (hbids : ∀ i ∈ inputs, BidsOwn i) :
    Synced (run step w₀ inputs).books.now (run step w₀ inputs).rebalancing
      (trace step openings w₀ inputs) :=
  h₀.reachable.run_auctions (I := Synced) (p := []) (fun _ _ _ _ hle h => h.later hle)
    (fun _ _ _ _ _ h hstep => h.step hstep) hbids (h₀.synced _)

/-- **One live auction per pair**, and the account of the ends of a pair has the end of the
auction of the pair that was opened last. -/
theorem one_live_auction (h₀ : w₀.Fresh) (hbids : ∀ i ∈ inputs, BidsOwn i) :
    (∀ k k', k.folio = k'.folio → (run step w₀ inputs).pairOf k = (run step w₀ inputs).pairOf k' →
      (run step w₀ inputs).AcceptsBids k → (run step w₀ inputs).AcceptsBids k' → k = k') ∧
    ∀ e k, lastOpened (trace step openings w₀ inputs) e = some k →
      ∃ a ends, (run step w₀ inputs).rebalancing.auction k = some a ∧ endsKeyOf k.folio a = e ∧
        (run step w₀ inputs).rebalancing.auctionEnds e = some ends ∧ ends.endTime = a.end_ := by
  have hsynced := synced_run h₀ hbids
  refine ⟨fun k k' hfolio hpair hlive hlive' => ?_, hsynced.last⟩
  obtain ⟨a, ha, hopen, rebalance, hr, hnonce⟩ := hlive
  obtain ⟨a', ha', hopen', rebalance', hr', hnonce'⟩ := hlive'
  -- both are the last one of the same pair
  have hlast := (hsynced.ended k a ha).resolve_left (not_lt.mpr (le_end_of_open hopen).2)
  have hlast' := (hsynced.ended k' a' ha').resolve_left (not_lt.mpr (le_end_of_open hopen').2)
  rw [hfolio] at hr
  obtain rfl := Option.some.inj (hr.symm.trans hr')
  rw [pairOf, pairOf, ha, ha'] at hpair
  have hkeys := keysPairInOrder_eq_of_pair (Option.some.inj hpair)
  have hends : endsKeyOf k.folio a = endsKeyOf k'.folio a' := by
    rw [endsKeyOf, endsKeyOf, hfolio, hkeys, ← hnonce, ← hnonce']
  rw [hends] at hlast
  exact Option.some.inj (hlast.symm.trans hlast')

/-- An auction that a bid ended, and the next one of the pair in the same second. -/
def reopened : List (Instruction TokenProgram.simple) :=
  withRebalance 5 ++ [opening 5 200 400, .elapse 10, .auction (.bid 5 6 ⟨5, 1, 1⟩ 400 400 none),
    opening 5 100 500]

/-- After a bid up to the limits and a new auction in the same second. -/
theorem one_live_auction_reopened :
    (∀ k k', k.folio = k'.folio →
      (run step (genesis SimpleLedger.empty 1000000) reopened).pairOf k
        = (run step (genesis SimpleLedger.empty 1000000) reopened).pairOf k' →
      (run step (genesis SimpleLedger.empty 1000000) reopened).AcceptsBids k →
      (run step (genesis SimpleLedger.empty 1000000) reopened).AcceptsBids k' → k = k') ∧
    ∀ e k, lastOpened (trace step openings (genesis SimpleLedger.empty 1000000) reopened) e = some k →
      ∃ a ends,
        (run step (genesis SimpleLedger.empty 1000000) reopened).rebalancing.auction k = some a ∧
        endsKeyOf k.folio a = e ∧
        (run step (genesis SimpleLedger.empty 1000000) reopened).rebalancing.auctionEnds e
          = some ends ∧ ends.endTime = a.end_ := by
  refine one_live_auction (genesis_fresh ..) fun i hi => ?_
  simp only [reopened, withRebalance, opening, List.cons_append, List.nil_append, List.mem_cons,
    List.not_mem_nil, or_false] at hi
  rcases hi with rfl | rfl | rfl | rfl | rfl | rfl | rfl | rfl | rfl | rfl | rfl | rfl | rfl | rfl |
    rfl | rfl | rfl | rfl
  all_goals trivial

/-- Two folios with an auction of the same pair each, and a bid to folio 5 on the auction of folio
15 that ends it. -/
def foreignBid : List (Instruction TokenProgram.simple) :=
  withRebalance 5 ++ withRebalance 15 ++ [opening 5 200 400, opening 15 300 300, .elapse 10,
    .auction (.bid 5 6 ⟨15, 1, 1⟩ 300 300 none)]

/-- The account of the ends of the pair of folio 5 says that its auction is over, which is open, and
the next one is opened beside it. -/
theorem two_live_auctions :
    let w := run step (genesis SimpleLedger.empty 1000000) foreignBid
    w.Reachable ∧
      lastOpened (trace step openings (genesis SimpleLedger.empty 1000000) foreignBid)
        ⟨5, 1, (7, 8)⟩ = some ⟨5, 1, 1⟩ ∧
      (∃ a, w.rebalancing.auction ⟨5, 1, 1⟩ = some a ∧ a.end_ = 1000060) ∧
      (∃ ends, w.rebalancing.auctionEnds ⟨5, 1, (7, 8)⟩ = some ends ∧ ends.endTime = 1000009) ∧
      ∃ w', w.step (opening 5 100 500) = .ok w' ∧
        w'.AcceptsBids ⟨5, 1, 1⟩ ∧ w'.AcceptsBids ⟨5, 1, 2⟩ ∧
        w'.pairOf ⟨5, 1, 1⟩ = w'.pairOf ⟨5, 1, 2⟩ :=
  ⟨reachable_genesis .., by decide +kernel⟩

end World

end IndexDtf
