import IndexDtf.Folio.RebalanceSpec
import IndexDtf.Lib.Transition

/-!
# IndexDtf.Folio.RebalanceBatches

**A rebalance in batches.** The details of a rebalance come in over several transactions: one
that starts it and any number that add to it.

* `batches_well_formed` — after any of them the details are well formed, and all prices are
  deferred or none are;
* `no_detail_lost_iff` — a batch is stored as it is, if there is room for it. Else the loop over
  the slots ends before the batch does, and what is left of it is dropped.
-/

namespace IndexDtf

open Lib SlotArray Decimal

/-- Prices as `add_rebalance_details` takes them: deferred, or in their range. -/
def PricesInRebalance.OfMode (prices : PricesInRebalance) : Bool → Prop
  | true => prices.low = 0 ∧ prices.high = 0
  | false => prices.low ≠ 0 ∧ prices.high ≠ 0 ∧ prices.low ≤ prices.high ∧
      prices.high ≤ maxTokenPrice ∧ prices.high / prices.low ≤ maxTokenPriceRange

/-- All prices are deferred or none are. -/
def UniformPrices (details : SlotArray Pubkey RebalancePriceAndLimits) : Prop :=
  ∃ deferred, ∀ s ∈ details, s.key ≠ Pubkey.default → s.value.prices.OfMode deferred

/-- What tells the details of a rebalance: the two instructions that do. -/
inductive RebalanceCall
  | start (currentTime auctionLauncherWindow ttl : ℕ) (mints : List Pubkey)
      (pricesAndLimits : List RebalancePriceAndLimits) (allRebalanceDetailsAdded : Bool)
  | add (mints : List Pubkey) (pricesAndLimits : List RebalancePriceAndLimits)
      (allRebalanceDetailsAdded : Bool)

namespace RebalanceCall

/-- The mints of a batch. -/
def mints : RebalanceCall → List Pubkey
  | start _ _ _ mints _ _ => mints
  | add mints _ _ => mints

/-- Whether it starts a new rebalance. -/
def Starts : RebalanceCall → Prop
  | start .. => True
  | add .. => False

end RebalanceCall

namespace Rebalance

/-- One of the two instructions, on the account. -/
def call (r : Rebalance) : RebalanceCall → Result Rebalance
  | .start currentTime auctionLauncherWindow ttl mints pricesAndLimits added =>
      r.startRebalance currentTime auctionLauncherWindow ttl mints pricesAndLimits added
  | .add mints pricesAndLimits added => r.addRebalanceDetails mints pricesAndLimits added

variable {details details' : SlotArray Pubkey RebalancePriceAndLimits} {r r' : Rebalance}
  {added batch : List RebalanceDetailsToken} {seen : List Pubkey} {deferred : Bool}
  {mints : List Pubkey} {pricesAndLimits : List RebalancePriceAndLimits} {allAdded : Bool}

theorem checkLimits_iff {limits : BasketRange} : checkLimits limits = .ok () ↔ limits.Valid := by
  refine ⟨checkLimits_eq_ok, fun h => ?_⟩
  rw [checkLimits, checkCondition_of ⟨h.bounded, h.ordered⟩, ok_bind, checkCondition_of h.nonzero]

theorem checkPrices_iff {prices : PricesInRebalance} :
    checkPrices deferred prices = .ok () ↔ prices.OfMode deferred := by
  cases deferred with
  | true => exact checkCondition_eq_ok
  | false => exact checkCondition_eq_ok

/-! ### What a batch does to the slots -/

/-- A round of the loop, at a free slot. -/
theorem fillSlots_free {first slot : RebalanceDetailsToken} {more : List RebalanceDetailsToken}
    {rest : SlotArray Pubkey RebalancePriceAndLimits} (hfree : slot.key = Pubkey.default) :
    fillSlots deferred seen (first :: more) (slot :: rest) = .ok details' ↔
      first.value.limits.Valid ∧ first.key ∉ seen ∧ first.value.prices.OfMode deferred ∧
        ∃ rest', fillSlots deferred (first.key :: seen) more rest = .ok rest' ∧
          details' = first :: rest' := by
  rw [fillSlots, if_neg (not_not.mpr hfree)]
  simp only [bind_eq_ok, checkCondition_eq_ok, Except.ok.injEq]
  constructor
  · rintro ⟨_, hlimits, _, hseen, _, hprices, rest', hrest, rfl⟩
    exact ⟨checkLimits_iff.mp hlimits, hseen, checkPrices_iff.mp hprices, rest', hrest, rfl⟩
  · rintro ⟨hlimits, hseen, hprices, rest', hrest, rfl⟩
    exact ⟨_, checkLimits_iff.mpr hlimits, (), hseen, (), checkPrices_iff.mpr hprices, rest', hrest,
      rfl⟩

/-- A round of the loop, at a used slot. -/
theorem fillSlots_used {first slot : RebalanceDetailsToken} {more : List RebalanceDetailsToken}
    {rest : SlotArray Pubkey RebalancePriceAndLimits} (hused : slot.key ≠ Pubkey.default) :
    fillSlots deferred seen (first :: more) (slot :: rest) = .ok details' ↔
      ∃ rest', fillSlots deferred (slot.key :: seen) (first :: more) rest = .ok rest' ∧
        details' = slot :: rest' := by
  rw [fillSlots, if_pos hused]
  simp only [bind_eq_ok, Except.ok.injEq, @eq_comm _ details']

/-- The batch takes the free slots. -/
theorem fillSlots_eq (h : fillSlots deferred seen added details = .ok details') :
    details' = fillFree Pubkey.default added details := by
  induction details generalizing seen added details' with
  | nil =>
      cases h
      rw [fillFree]
  | cons slot rest ih =>
      cases added with
      | nil =>
          cases h
          rfl
      | cons first more =>
          rw [fillFree]
          by_cases hkey : slot.key = Pubkey.default
          · obtain ⟨-, -, -, rest', hrest, rfl⟩ := (fillSlots_free hkey).mp h
            rw [if_neg (not_not.mpr hkey), ih hrest]
          · obtain ⟨rest', hrest, rfl⟩ := (fillSlots_used hkey).mp h
            rw [if_pos hkey, ih hrest]

/-- The prices of the batch are of its mode. -/
theorem fillSlots_mode (hold : ∀ s ∈ details, s.key ≠ Pubkey.default → s.value.prices.OfMode deferred)
    (h : fillSlots deferred seen added details = .ok details') :
    ∀ s ∈ details', s.key ≠ Pubkey.default → s.value.prices.OfMode deferred := by
  induction details generalizing seen added details' with
  | nil =>
      cases h
      exact hold
  | cons slot rest ih =>
      obtain ⟨hslot, hrest⟩ := List.forall_mem_cons.mp hold
      cases added with
      | nil =>
          cases h
          exact hold
      | cons first more =>
          by_cases hkey : slot.key = Pubkey.default
          · obtain ⟨-, -, hprices, rest', hfill, rfl⟩ := (fillSlots_free hkey).mp h
            exact List.forall_mem_cons.mpr ⟨fun _ => hprices, ih hrest hfill⟩
          · obtain ⟨rest', hfill, rfl⟩ := (fillSlots_used hkey).mp h
            exact List.forall_mem_cons.mpr ⟨hslot, ih hrest hfill⟩

/-! ### Any number of batches -/

/-- The mode of a batch is that of the tokens that are there. -/
theorem isPriceDeferred_of (hwf : DetailsWF details) (h : UniformPrices details) :
    ∀ s ∈ details, s.key ≠ Pubkey.default →
      s.value.prices.OfMode (isPriceDeferred details pricesAndLimits) := by
  obtain ⟨mode, hmode⟩ := h
  cases details with
  | nil =>
      intro s hs
      exact absurd hs List.not_mem_nil
  | cons first rest =>
      rw [isPriceDeferred]
      split
      · next hused =>
        have hfirst := hmode first (List.mem_cons_self ..) hused
        have heq : (decide (first.value.prices.low = 0)) = mode := by
          cases mode with
          | true => exact decide_eq_true hfirst.1
          | false => exact decide_eq_false hfirst.1
        rw [heq]
        exact hmode
      · next hfree =>
        have hfree := not_not.mp hfree
        intro s hs hused
        cases hs with
        | head => exact absurd hfree hused
        | tail _ hs => exact absurd (hwf.free_tail hfree s hs) hused

/-- Details as the two instructions leave them. -/
structure Kept (r : Rebalance) : Prop where
  wf : DetailsWF r.details
  uniform : UniformPrices r.details

theorem Kept.init : Kept Rebalance.init where
  wf := DetailsWF.none
  uniform := ⟨true, fun s hs hused => by
    rw [List.eq_of_mem_replicate hs] at hused
    exact absurd rfl hused⟩

theorem Kept.add (hr : Kept r) (hmints : ∀ mint ∈ mints, mint ≠ Pubkey.default)
    (h : r.addRebalanceDetails mints pricesAndLimits allAdded = .ok r') : Kept r' := by
  obtain ⟨-, hwf, -⟩ := addRebalanceDetails_spec hr.wf hmints h
  refine ⟨hwf, ?_⟩
  simp only [addRebalanceDetails, bind_eq_ok, checkCondition_eq_ok, Except.ok.injEq] at h
  obtain ⟨_, -, _, -, details, hfill, rfl⟩ := h
  exact ⟨_, fillSlots_mode (isPriceDeferred_of hr.wf hr.uniform) hfill⟩

/-- A new rebalance is a batch added to no details. -/
theorem startRebalance_add {now window ttl : ℕ}
    (h : r.startRebalance now window ttl mints pricesAndLimits allAdded = .ok r') :
    ∃ r₀ : Rebalance, r₀.details = noDetails ∧
      r₀.addRebalanceDetails mints pricesAndLimits allAdded = .ok r' := by
  simp only [startRebalance, bind_eq_ok] at h
  obtain ⟨_, -, _, -, _, -, _, -, _, -, h⟩ := h
  exact ⟨_, rfl, h⟩

theorem Kept.call {c : RebalanceCall} (hr : Kept r) (hmints : ∀ mint ∈ c.mints, mint ≠ Pubkey.default)
    (h : r.call c = .ok r') : Kept r' := by
  cases c with
  | start now window ttl mints pricesAndLimits allAdded =>
      obtain ⟨r₀, hnone, hadd⟩ := startRebalance_add h
      refine Kept.add ⟨?_, ?_⟩ hmints hadd
      · exact hnone ▸ Kept.init.wf
      · exact hnone ▸ Kept.init.uniform
  | add mints pricesAndLimits allAdded => exact hr.add hmints h

theorem Kept.run {calls : List RebalanceCall}
    (hmints : ∀ c ∈ calls, ∀ mint ∈ c.mints, mint ≠ Pubkey.default) :
    Kept (run Rebalance.call Rebalance.init calls) :=
  run_inv (fun _ c _ hc hr hcall => hr.call (hmints c hc) hcall) Kept.init

/-- Closed details take no more batches. -/
theorem run_add_of_closed (hclosed : r.allRebalanceDetailsAdded = true) {more : List RebalanceCall}
    (hmore : ∀ c ∈ more, ¬ c.Starts) : run call r more = r := by
  refine run_inv (I := (· = r)) ?_ rfl
  rintro _ c r' hc rfl hcall
  cases c with
  | start => exact absurd trivial (hmore _ hc)
  | add mints pricesAndLimits allAdded =>
      simp only [call, addRebalanceDetails, bind_eq_ok, checkCondition_eq_ok] at hcall
      obtain ⟨_, hopen, -⟩ := hcall
      rw [hclosed] at hopen
      cases hopen

theorem call_nonce {c : RebalanceCall} (h : r.call c = .ok r') :
    (c.Starts → r.nonce < r'.nonce) ∧ (¬ c.Starts → r'.nonce = r.nonce) := by
  cases c with
  | start now window ttl mints pricesAndLimits allAdded =>
      simp only [call, startRebalance, addRebalanceDetails, bind_eq_ok, checkCondition_eq_ok,
        checkedAddU64_eq_ok, Except.ok.injEq] at h
      obtain ⟨_, -, _, -, _, ⟨-, rfl⟩, _, -, _, -, _, -, _, -, _, -, rfl⟩ := h
      exact ⟨fun _ => Nat.lt_succ_self _, fun hnot => absurd trivial hnot⟩
  | add mints pricesAndLimits allAdded =>
      simp only [call, addRebalanceDetails, bind_eq_ok, Except.ok.injEq] at h
      obtain ⟨_, -, _, -, _, -, rfl⟩ := h
      exact ⟨False.elim, fun _ => rfl⟩

/-- **Well-formed rebalance details.** After any sequence of batches of supported mints, some of
which may have been refused, the details are well formed and their prices of one mode; closed
details stay as they are until the next rebalance, and every rebalance has a higher nonce. -/
theorem batches_well_formed {calls : List RebalanceCall}
    (hmints : ∀ c ∈ calls, ∀ mint ∈ c.mints, mint ≠ Pubkey.default) :
    DetailsWF (run call Rebalance.init calls).details ∧
      UniformPrices (run call Rebalance.init calls).details ∧
      ((run call Rebalance.init calls).allRebalanceDetailsAdded = true →
        ∀ more : List RebalanceCall, (∀ c ∈ more, ¬ c.Starts) →
          run call Rebalance.init (calls ++ more) = run call Rebalance.init calls) ∧
      ∀ c r', (run call Rebalance.init calls).call c = .ok r' →
        (c.Starts → (run call Rebalance.init calls).nonce < r'.nonce) ∧
          (¬ c.Starts → r'.nonce = (run call Rebalance.init calls).nonce) := by
  have hkept : Kept (run call Rebalance.init calls) := Kept.run hmints
  refine ⟨hkept.wf, hkept.uniform, fun hclosed more hmore => ?_, fun c r' hcall => call_nonce hcall⟩
  rw [run_append]
  exact run_add_of_closed hclosed hmore

/-- A rebalance in two batches, the second of which repeats a mint and is refused, and is then
made without it. -/
theorem batches_well_formed_twice :
    let token : RebalancePriceAndLimits := ⟨⟨1, 2⟩, ⟨1, 1, 1⟩⟩
    let calls : List RebalanceCall := [.start 100 10 20 [7, 8] [token, token] false,
      .add [9, 7] [token, token] true, .add [9] [token] true]
    DetailsWF (run call Rebalance.init calls).details ∧
      UniformPrices (run call Rebalance.init calls).details ∧
      ((run call Rebalance.init calls).allRebalanceDetailsAdded = true →
        ∀ more : List RebalanceCall, (∀ c ∈ more, ¬ c.Starts) →
          run call Rebalance.init (calls ++ more) = run call Rebalance.init calls) ∧
      ∀ c r', (run call Rebalance.init calls).call c = .ok r' →
        (c.Starts → (run call Rebalance.init calls).nonce < r'.nonce) ∧
          (¬ c.Starts → r'.nonce = (run call Rebalance.init calls).nonce) :=
  batches_well_formed (by decide)

/-! ### Whether a batch is stored -/

/-- The tokens of a batch, each with the prices and limits at its position. -/
def batchOf (mints : List Pubkey) (pricesAndLimits : List RebalancePriceAndLimits) :
    List RebalanceDetailsToken :=
  mints.zipWith Slot.mk pricesAndLimits

/-- The mints of the used slots. -/
def usedMints (details : SlotArray Pubkey RebalancePriceAndLimits) : List Pubkey :=
  (details.filter fun s => s.key ≠ Pubkey.default).map Slot.key

theorem usedMints_cons_used {slot : RebalanceDetailsToken} {rest : List RebalanceDetailsToken}
    (hused : slot.key ≠ Pubkey.default) :
    usedMints (slot :: rest) = slot.key :: usedMints rest := by
  rw [usedMints, List.filter_cons_of_pos (by simpa using hused)]
  rfl

theorem usedMints_cons_free {slot : RebalanceDetailsToken} {rest : List RebalanceDetailsToken}
    (hfree : slot.key = Pubkey.default) : usedMints (slot :: rest) = usedMints rest := by
  rw [usedMints, List.filter_cons_of_neg (by simpa using hfree)]
  rfl

/-- Nothing behind a free slot is used. -/
theorem usedMints_eq_nil {rest : List RebalanceDetailsToken}
    (hfree : ∀ s ∈ rest, s.key = Pubkey.default) : usedMints rest = [] := by
  rw [usedMints, List.map_eq_nil_iff, List.filter_eq_nil_iff]
  intro s hs
  simpa using hfree s hs

/-- A batch that passes the checks, where the mints of `seen` are there already. -/
structure BatchValid (deferred : Bool) (seen : List Pubkey) (batch : List RebalanceDetailsToken) :
    Prop where
  limits : ∀ s ∈ batch, s.value.limits.Valid
  prices : ∀ s ∈ batch, s.value.prices.OfMode deferred
  distinct : (batch.map Slot.key).Nodup
  new : ∀ s ∈ batch, s.key ∉ seen

theorem BatchValid.cons_iff {first : RebalanceDetailsToken} :
    BatchValid deferred seen (first :: batch) ↔
      first.value.limits.Valid ∧ first.key ∉ seen ∧ first.value.prices.OfMode deferred ∧
        BatchValid deferred (first.key :: seen) batch := by
  constructor
  · rintro ⟨hlimits, hprices, hdistinct, hnew⟩
    rw [List.forall_mem_cons] at hlimits hprices hnew
    rw [List.map_cons, List.nodup_cons] at hdistinct
    refine ⟨hlimits.1, hnew.1, hprices.1, hlimits.2, hprices.2, hdistinct.2, fun s hs hmem => ?_⟩
    rcases List.mem_cons.mp hmem with heq | hmem
    · exact hdistinct.1 (heq ▸ List.mem_map_of_mem hs)
    · exact hnew.2 s hs hmem
  · rintro ⟨hlimits, hseen, hprices, hrest⟩
    refine ⟨List.forall_mem_cons.mpr ⟨hlimits, hrest.limits⟩,
      List.forall_mem_cons.mpr ⟨hprices, hrest.prices⟩, ?_,
      List.forall_mem_cons.mpr ⟨hseen, fun s hs hmem =>
        hrest.new s hs (List.mem_cons_of_mem _ hmem)⟩⟩
    rw [List.map_cons, List.nodup_cons]
    refine ⟨fun hmem => ?_, hrest.distinct⟩
    obtain ⟨s, hs, heq⟩ := List.mem_map.mp hmem
    exact hrest.new s hs (heq ▸ List.mem_cons_self ..)

theorem BatchValid.nil : BatchValid deferred seen [] where
  limits := nofun
  prices := nofun
  distinct := List.nodup_nil
  new := nofun

/-- Only the mints that are seen matter, not in which order. -/
theorem BatchValid.congr {seen' : List Pubkey} (hsame : ∀ mint, mint ∈ seen ↔ mint ∈ seen') :
    BatchValid deferred seen batch ↔ BatchValid deferred seen' batch :=
  ⟨fun h => ⟨h.limits, h.prices, h.distinct, fun s hs hmem => h.new s hs ((hsame _).mpr hmem)⟩,
    fun h => ⟨h.limits, h.prices, h.distinct, fun s hs hmem => h.new s hs ((hsame _).mp hmem)⟩⟩

/-- The loop succeeds when what it stores passes the checks; it does not look at the rest. -/
theorem fillSlots_ok_iff (hwf : DetailsWF details) :
    (∃ details', fillSlots deferred seen added details = .ok details') ↔
      BatchValid deferred (seen ++ usedMints details)
        (added.take (freeSlots Pubkey.default details)) := by
  induction details generalizing seen added with
  | nil =>
      rw [freeSlots, List.countP_nil, List.take_zero]
      exact iff_of_true ⟨[], by rw [fillSlots]⟩ .nil
  | cons slot rest ih =>
      cases added with
      | nil =>
          rw [List.take_nil]
          exact iff_of_true ⟨slot :: rest, rfl⟩ .nil
      | cons first more =>
          by_cases hkey : slot.key = Pubkey.default
          · have hnone : usedMints rest = [] := usedMints_eq_nil (hwf.free_tail hkey)
            have hrest := @ih more (first.key :: seen) hwf.tail
            rw [hnone, List.append_nil] at hrest
            rw [freeSlots_cons_free hkey, List.take_succ_cons, usedMints_cons_free hkey, hnone,
              List.append_nil, BatchValid.cons_iff, ← hrest]
            simp only [fillSlots_free hkey]
            constructor
            · rintro ⟨_, hlimits, hseen, hprices, rest', hfill, -⟩
              exact ⟨hlimits, hseen, hprices, rest', hfill⟩
            · rintro ⟨hlimits, hseen, hprices, rest', hfill⟩
              exact ⟨_, hlimits, hseen, hprices, rest', hfill, rfl⟩
          · have hrest := @ih (first :: more) (slot.key :: seen) hwf.tail
            have hsame : ∀ mint, mint ∈ seen ++ slot.key :: usedMints rest ↔
                mint ∈ (slot.key :: seen) ++ usedMints rest := by
              intro mint
              simp only [List.mem_append, List.mem_cons]
              tauto
            rw [freeSlots_cons_used hkey, usedMints_cons_used hkey, BatchValid.congr hsame, ← hrest]
            simp only [fillSlots_used hkey]
            constructor
            · rintro ⟨_, rest', hfill, -⟩
              exact ⟨rest', hfill⟩
            · rintro ⟨rest', hfill⟩
              exact ⟨_, rest', hfill, rfl⟩

/-- A batch is stored as it is or refused: every mint has the prices and limits of its own
position, what was stored before stays where it is, and a batch that does not fit fails. -/
def NoDetailLost (r : Rebalance) (mints : List Pubkey)
    (pricesAndLimits : List RebalancePriceAndLimits) (allAdded : Bool) : Prop :=
  (∀ r', r.addRebalanceDetails mints pricesAndLimits allAdded = .ok r' →
    (∀ (i : ℕ) (mint : Pubkey) (value : RebalancePriceAndLimits),
      mints[i]? = some mint → pricesAndLimits[i]? = some value → ⟨mint, value⟩ ∈ r'.details) ∧
    ∀ (i : ℕ) (s : RebalanceDetailsToken), r.details[i]? = some s → s.key ≠ Pubkey.default →
      r'.details[i]? = some s) ∧
  (freeSlots Pubkey.default r.details < mints.length →
    ∀ r', r.addRebalanceDetails mints pricesAndLimits allAdded ≠ .ok r')

/-- A call succeeds if it is given one batch, and what there is room for passes the checks. -/
theorem addRebalanceDetails_ok_iff (hwf : DetailsWF r.details)
    (hopen : r.allRebalanceDetailsAdded = false) :
    (∃ r', r.addRebalanceDetails mints pricesAndLimits allAdded = .ok r') ↔
      mints.length = pricesAndLimits.length ∧
        BatchValid (isPriceDeferred r.details pricesAndLimits) (usedMints r.details)
          ((batchOf mints pricesAndLimits).take (freeSlots Pubkey.default r.details)) := by
  have hfill := @fillSlots_ok_iff r.details (batchOf mints pricesAndLimits) []
    (isPriceDeferred r.details pricesAndLimits) hwf
  rw [List.nil_append] at hfill
  rw [← hfill]
  simp only [addRebalanceDetails, bind_eq_ok, checkCondition_eq_ok, Except.ok.injEq, hopen]
  constructor
  · rintro ⟨_, _, -, _, hlength, details, hdetails, -⟩
    exact ⟨hlength, details, hdetails⟩
  · rintro ⟨hlength, details, hdetails⟩
    exact ⟨_, (), trivial, (), hlength, details, hdetails, rfl⟩

/-- With room for all of it, the batch is stored and the details before it stay. -/
theorem addRebalanceDetails_stores {r' : Rebalance}
    (hroom : mints.length ≤ freeSlots Pubkey.default r.details)
    (h : r.addRebalanceDetails mints pricesAndLimits allAdded = .ok r') :
    (∀ (i : ℕ) (mint : Pubkey) (value : RebalancePriceAndLimits),
      mints[i]? = some mint → pricesAndLimits[i]? = some value → ⟨mint, value⟩ ∈ r'.details) ∧
    ∀ (i : ℕ) (s : RebalanceDetailsToken), r.details[i]? = some s → s.key ≠ Pubkey.default →
      r'.details[i]? = some s := by
  simp only [addRebalanceDetails, bind_eq_ok, Except.ok.injEq] at h
  obtain ⟨_, -, _, -, details, hfill, rfl⟩ := h
  rw [fillSlots_eq hfill]
  constructor
  · intro i mint value hmint hvalue
    apply mem_fillFree
    have hfits : (mints.zipWith Slot.mk pricesAndLimits).length ≤
        freeSlots Pubkey.default r.details := by
      rw [List.length_zipWith]
      exact Nat.le_trans (Nat.min_le_left ..) hroom
    rw [List.take_of_length_le hfits]
    refine List.mem_of_getElem? (i := i) ?_
    rw [List.getElem?_zipWith, hmint, hvalue]
  · intro i s hs hused
    exact fillFree_used hs hused

/-- **No detail is lost**, exactly when there is room for the whole batch, or it is refused for
another reason: it is not one list of mints and one of prices and limits of the same length, or
what there is room for does not pass the checks. -/
theorem no_detail_lost_iff (hwf : DetailsWF r.details) (hopen : r.allRebalanceDetailsAdded = false) :
    r.NoDetailLost mints pricesAndLimits allAdded ↔
      mints.length ≤ freeSlots Pubkey.default r.details ∨ mints.length ≠ pricesAndLimits.length ∨
        ¬ BatchValid (isPriceDeferred r.details pricesAndLimits) (usedMints r.details)
          ((batchOf mints pricesAndLimits).take (freeSlots Pubkey.default r.details)) := by
  have hok := @addRebalanceDetails_ok_iff r mints pricesAndLimits allAdded hwf hopen
  constructor
  · rintro ⟨-, hfull⟩
    by_contra hnot
    rw [not_or, not_or, not_ne_iff, not_not] at hnot
    obtain ⟨hroom, hlength, hvalid⟩ := hnot
    obtain ⟨r', hr'⟩ := hok.mpr ⟨hlength, hvalid⟩
    exact hfull (Nat.lt_of_not_le hroom) r' hr'
  · intro hmeets
    -- a call that succeeds had room
    have hroom (r' : Rebalance) (hr' : r.addRebalanceDetails mints pricesAndLimits allAdded = .ok r') :
        mints.length ≤ freeSlots Pubkey.default r.details := by
      obtain ⟨hlength, hvalid⟩ := hok.mp ⟨r', hr'⟩
      rcases hmeets with hroom | hlength' | hinvalid
      · exact hroom
      · exact absurd hlength hlength'
      · exact absurd hvalid hinvalid
    constructor
    · intro r' hr'
      exact addRebalanceDetails_stores (hroom r' hr') hr'
    · intro hfull r' hr'
      exact absurd hfull (Nat.not_lt.mpr (hroom r' hr'))

/-- Two batches that leave ten of the thirty slots free. -/
def tenSlotsLeft : Rebalance :=
  run call Rebalance.init
    [.start 100 10 20 ((List.range 10).map (· + 1)) (List.replicate 10 ⟨⟨1, 2⟩, ⟨1, 1, 1⟩⟩) false,
      .add ((List.range 10).map (· + 11)) (List.replicate 10 ⟨⟨1, 2⟩, ⟨1, 1, 1⟩⟩) false]

/-- Eleven mints for ten slots. -/
theorem no_detail_lost_iff_eleven :
    let mints := (List.range 11).map (· + 21)
    let pricesAndLimits : List RebalancePriceAndLimits := List.replicate 11 ⟨⟨1, 2⟩, ⟨1, 1, 1⟩⟩
    tenSlotsLeft.NoDetailLost mints pricesAndLimits true ↔
      mints.length ≤ freeSlots Pubkey.default tenSlotsLeft.details ∨
        mints.length ≠ pricesAndLimits.length ∨
        ¬ BatchValid (isPriceDeferred tenSlotsLeft.details pricesAndLimits)
          (usedMints tenSlotsLeft.details)
          ((batchOf mints pricesAndLimits).take
            (freeSlots Pubkey.default tenSlotsLeft.details)) :=
  no_detail_lost_iff (Kept.run (by decide)).wf (by decide +kernel)

/-- The last mint of the batch is not stored, although the call succeeds and closes the details. -/
theorem eleventh_detail_lost :
    let mints := (List.range 11).map (· + 21)
    let pricesAndLimits : List RebalancePriceAndLimits := List.replicate 11 ⟨⟨1, 2⟩, ⟨1, 1, 1⟩⟩
    ¬ tenSlotsLeft.NoDetailLost mints pricesAndLimits true ∧
      ∃ r', tenSlotsLeft.addRebalanceDetails mints pricesAndLimits true = .ok r' ∧
        r'.allRebalanceDetailsAdded = true ∧ ∀ s ∈ r'.details, s.key ≠ 31 := by
  intro mints pricesAndLimits
  have hok : ∃ r', tenSlotsLeft.addRebalanceDetails mints pricesAndLimits true = .ok r' ∧
      r'.allRebalanceDetailsAdded = true ∧ ∀ s ∈ r'.details, s.key ≠ 31 := by
    decide +kernel
  refine ⟨fun hkept => ?_, hok⟩
  obtain ⟨r', hr', -⟩ := hok
  exact hkept.2 (by decide +kernel) r' hr'

end Rebalance

end IndexDtf
