import IndexDtf.Folio.FolioStep
import IndexDtf.Lib.Accounts
import IndexDtf.Lib.Apportion

/-!
# IndexDtf.Folio.Distribution

Fee distributions over their whole life. `distribute_fees` opens one and adds its amount to
the counter of the shares to be minted; cranks pay its slots and take what they minted
off the counter.

* `FeeDistribution.After` — what payments make of a distribution: a slot is paid once;
* `DistributionsWF` and `distributions_step` — the invariant of all distributions;
* `counter_step` — the counter moves with what is owed to the unpaid slots, up to
  what a new distribution loses by rounding.
-/

namespace IndexDtf

open Lib Decimal

/-! ### One distribution -/

namespace FeeRecipient

/-- A slot somebody is still to be paid for. -/
def Unpaid (r : FeeRecipient) : Prop := r.recipient ≠ Pubkey.default

instance : DecidablePred Unpaid := fun r => inferInstanceAs (Decidable (r.recipient ≠ _))

/-- The slot once it is paid. -/
def settled (r : FeeRecipient) : FeeRecipient := { r with recipient := Pubkey.default }

theorem not_unpaid_settled (r : FeeRecipient) : ¬ r.settled.Unpaid := fun h => h rfl

end FeeRecipient

open FeeRecipient

namespace FeeDistribution

variable {d d' d'' : FeeDistribution} {state state' : List FeeRecipient} {indices : List ℕ}
  {payments payments' : List SlotPayment}

/-- What a slot gets of the amount to distribute. -/
def partFor (d : FeeDistribution) (r : FeeRecipient) : ℕ :=
  part d.amountToDistribute maxFeeRecipientsPortion d9 r.portion

/-- What the unpaid slots get. -/
def owed (d : FeeDistribution) : ℕ := sumOver Unpaid d.partFor d.feeRecipientsState

/-- A distribution as `distribute_fees` opens it and cranks leave it. -/
structure Sound (d : FeeDistribution) : Prop where
  portions : (d.feeRecipientsState.map (·.portion)).sum = maxFeeRecipientsPortion
  whole : ∃ n ≤ u64Max, d.amountToDistribute = n * d9

theorem Sound.portion_le (h : d.Sound) {r : FeeRecipient} (hr : r ∈ d.feeRecipientsState) :
    r.portion ≤ maxFeeRecipientsPortion :=
  h.portions ▸ List.le_sum_of_mem (List.mem_map_of_mem hr)

theorem Sound.owed_le (h : d.Sound) : d.owed * d9 ≤ d.amountToDistribute :=
  sumOver_part_le (by decide) h.portions.le

theorem Sound.owed_mul_le (h : d.Sound) : d.owed * d9 ≤ u128Max := by
  obtain ⟨n, hn, heq⟩ := h.whole
  refine h.owed_le.trans ?_
  rw [heq]
  exact (Nat.mul_le_mul_right d9 hn).trans (by decide)

/-- `amountFor` is the part of a portion: nothing of it is cut off. -/
theorem amountFor_eq {r : FeeRecipient} {amount : ℕ} (hd : d.Sound)
    (hr : r.portion ≤ maxFeeRecipientsPortion) (h : d.amountFor r.portion = .ok amount) :
    amount = d.partFor r := by
  simp only [amountFor, bind_eq_ok, mul_eq_ok, div_eq_ok, fromScaled_val, toTokenAmount_floor,
    Except.ok.injEq] at h
  obtain ⟨_, ⟨-, rfl⟩, _, ⟨-, rfl⟩, rfl⟩ := h
  refine Nat.min_eq_left ?_
  obtain ⟨n, hn, heq⟩ := hd.whole
  refine le_trans (Nat.div_le_of_le_mul ?_) hn
  rw [heq, Nat.mul_comm d9]
  refine Nat.div_le_of_le_mul ?_
  rw [Nat.mul_comm maxFeeRecipientsPortion]
  exact Nat.mul_le_mul_left _ hr

theorem owed_eq_zero (h : d.isFullyDistributed = true) : d.owed = 0 := by
  refine sumOver_eq_zero fun r hr hunpaid => hunpaid ?_
  simpa only [isFullyDistributed, List.all_eq_true, decide_eq_true_eq] using
    (List.all_eq_true.mp h) r hr

/-- What payments make of a distribution. -/
structure After (d : FeeDistribution) (payments : List SlotPayment) (d' : FeeDistribution) :
    Prop where
  amount : d'.amountToDistribute = d.amountToDistribute
  portions : d'.feeRecipientsState.map (·.portion) = d.feeRecipientsState.map (·.portion)
  slots : ∀ j, d'.feeRecipientsState[j]? =
    if j ∈ payments.map (·.slot) then (d.feeRecipientsState[j]?).map settled
    else d.feeRecipientsState[j]?
  once : (payments.map (·.slot)).Nodup
  entitled : ∀ p ∈ payments, ∃ r, d.feeRecipientsState[p.slot]? = some r ∧
    r.recipient = p.recipient ∧ r.Unpaid ∧ p.amount = d.partFor r
  owed : d'.owed + paidTotal payments = d.owed

theorem After.refl (d : FeeDistribution) : d.After [] d where
  amount := rfl
  portions := rfl
  slots := fun _ => rfl
  once := .nil
  entitled := nofun
  owed := rfl

theorem paidTotal_append :
    paidTotal (payments ++ payments') = paidTotal payments + paidTotal payments' := by
  simp only [paidTotal, List.map_append, List.sum_append]

/-- A slot that was paid is not paid again. -/
theorem After.trans (h : d.After payments d') (h' : d'.After payments' d'') :
    d.After (payments ++ payments') d'' := by
  have hfresh : ∀ p ∈ payments', p.slot ∉ payments.map (·.slot) := by
    intro p hp hmem
    obtain ⟨r, hr, -, hunpaid, -⟩ := h'.entitled p hp
    rw [h.slots, if_pos hmem, Option.map_eq_some_iff] at hr
    obtain ⟨r₀, -, rfl⟩ := hr
    exact not_unpaid_settled r₀ hunpaid
  refine ⟨h'.amount.trans h.amount, h'.portions.trans h.portions, fun j => ?_, ?_, fun p hp => ?_,
    ?_⟩
  · rw [h'.slots, h.slots, List.map_append]
    simp only [List.mem_append]
    by_cases hj : j ∈ payments.map (·.slot)
    · rw [if_pos hj, if_pos (Or.inl hj)]
      split
      · rw [Option.map_map]
        rfl
      · rfl
    · simp only [if_neg hj, or_iff_right hj]
  · rw [List.map_append]
    refine h.once.append h'.once fun j hj hj' => ?_
    obtain ⟨p, hp, rfl⟩ := List.mem_map.mp hj'
    exact hfresh p hp hj
  · cases List.mem_append.mp hp with
    | inl hp => exact h.entitled p hp
    | inr hp =>
        obtain ⟨r, hr, hrec, hunpaid, hamount⟩ := h'.entitled p hp
        rw [h.slots, if_neg (hfresh p hp)] at hr
        refine ⟨r, hr, hrec, hunpaid, ?_⟩
        rw [hamount, partFor, partFor, h.amount]
  · rw [paidTotal_append, ← h.owed, ← h'.owed]
    omega

theorem After.sound (h : d.After payments d') (hd : d.Sound) : d'.Sound where
  portions := by rw [h.portions, hd.portions]
  whole := by rw [h.amount]; exact hd.whole

/-- One slot is paid. -/
theorem After.slot {r : FeeRecipient} {j : ℕ} (hj : d.feeRecipientsState[j]? = some r)
    (hunpaid : r.Unpaid) :
    d.After [⟨j, r.recipient, d.partFor r⟩]
      { d with feeRecipientsState := d.feeRecipientsState.set j r.settled } := by
  obtain ⟨hlt, -⟩ := List.getElem?_eq_some_iff.mp hj
  refine ⟨rfl, ?_, fun i => ?_, List.nodup_singleton _, ?_, ?_⟩
  · refine List.ext_getElem? fun i => ?_
    rw [List.getElem?_map, List.getElem?_map]
    by_cases hi : i = j
    · subst hi
      rw [List.getElem?_set_self hlt, hj]
      rfl
    · rw [List.getElem?_set_ne (Ne.symm hi)]
  · simp only [List.map_cons, List.map_nil, List.mem_singleton]
    by_cases hi : i = j
    · subst hi
      rw [if_pos rfl, hj, List.getElem?_set_self hlt, Option.map_some]
    · rw [if_neg hi, List.getElem?_set_ne (Ne.symm hi)]
  · intro p hp
    obtain rfl := List.mem_singleton.mp hp
    exact ⟨r, hj, rfl, hunpaid, rfl⟩
  · simp only [paidTotal, List.map_cons, List.map_nil, List.sum_singleton]
    exact sumOver_set hj hunpaid (not_unpaid_settled r)

/-- **What a crank pays.** -/
theorem pay_after (hd : Sound { d with feeRecipientsState := state })
    (h : d.pay state indices = .ok (state', payments)) :
    After { d with feeRecipientsState := state } payments
      { d with feeRecipientsState := state' } := by
  induction indices generalizing state payments with
  | nil =>
      cases h
      exact .refl _
  | cons slot indices ih =>
      simp only [pay, bind_eq_ok, okOr_eq_ok] at h
      obtain ⟨r, hr, h⟩ := h
      split at h
      · exact ih hd h
      · next hunpaid =>
        simp only [bind_eq_ok, Prod.exists, Except.ok.injEq, Prod.mk.injEq] at h
        obtain ⟨amount, hamount, _, rest, hrest, rfl, rfl⟩ := h
        have hslot := After.slot (d := { d with feeRecipientsState := state }) hr hunpaid
        have hpart : amount = partFor { d with feeRecipientsState := state } r :=
          amountFor_eq hd (hd.portion_le (List.mem_of_getElem? hr)) hamount
        rw [hpart]
        exact hslot.trans (ih (hslot.sound hd) hrest)

end FeeDistribution

/-! ### All distributions -/

namespace FolioBooks

open FeeDistribution

/-- The counter of the shares that distributions are to mint. -/
def toBeMinted (s : FolioBooks) (f : Pubkey) : ℕ :=
  (s.folio f).elim 0 (·.feeRecipientsPendingFeeSharesToBeMinted)

/-- The index of the last distribution. -/
def lastIndex (s : FolioBooks) (f : Pubkey) : ℕ := (s.feeRecipients f).elim 0 (·.distributionIndex)

/-- What a distribution that is open owes. -/
def owedAt (s : FolioBooks) (k : Pubkey × ℕ) : ℕ := (s.feeDistribution k).elim 0 owed

/-- What the open distributions of a folio owe altogether. -/
def outstanding (s : FolioBooks) (f : Pubkey) : ℕ :=
  ∑ i ∈ Finset.range (s.lastIndex f + 1), s.owedAt (f, i)

/-- The invariant of the distributions. -/
structure DistributionsWF (s : FolioBooks) : Prop where
  folio : ∀ f r, s.feeRecipients f = some r → s.folio f ≠ none
  recipients : ∀ f r, s.feeRecipients f = some r →
    r.feeRecipients = FeeRecipients.init.feeRecipients ∨ FeeRecipients.Valid r.feeRecipients
  /-- Indices are given out in order, -/
  index : ∀ f i d, s.feeDistribution (f, i) = some d →
    (∃ r, s.feeRecipients f = some r) ∧ i ≤ s.lastIndex f
  sound : ∀ k d, s.feeDistribution k = some d → d.Sound
  /-- and a distribution is closed with its last payment. -/
  pending : ∀ k d, s.feeDistribution k = some d → d.isFullyDistributed = false

variable {s s' : FolioBooks} {log : List FeePayment} {f : Pubkey}

/-- Without fee recipients, the new list is all default. -/
theorem valid_of_not_isEmpty {r : FeeRecipients} (hne : (!r.isEmpty) = true)
    (h : r.feeRecipients = FeeRecipients.init.feeRecipients ∨
      FeeRecipients.Valid r.feeRecipients) : FeeRecipients.Valid r.feeRecipients := by
  cases h with
  | inl hinit =>
      rw [FeeRecipients.isEmpty, hinit] at hne
      exact absurd hne (by decide)
  | inr hvalid => exact hvalid

theorem lastIndex_of {r : FeeRecipients} (h : s.feeRecipients f = some r) :
    s.lastIndex f = r.distributionIndex := by
  rw [lastIndex, h, Option.elim_some]

/-- The distribution that `distribute_fees` opens. -/
theorem sound_of_split {poked : Folio} {recipients : FeeRecipients} {split : FeeSplit}
    {user : Pubkey} {hasFeeRecipients : Bool}
    (hvalid : FeeRecipients.Valid recipients.feeRecipients)
    (hsplit : poked.feeSplit hasFeeRecipients = .ok split) :
    Sound ⟨recipients.distributionIndex + 1, user, split.scaledRecipientsMinusDust,
      recipients.feeRecipients⟩ := by
  obtain ⟨hminus, -, -⟩ := Folio.feeSplit_spec hsplit
  exact ⟨hvalid.total, _, min_le_right .., hminus⟩

/-- The payments out of one distribution. -/
def paymentsOf (k : Pubkey × ℕ) (log : List FeePayment) : List SlotPayment :=
  (log.filter (·.distribution = k)).map (·.payment)

@[simp] theorem paymentsOf_nil (k : Pubkey × ℕ) : paymentsOf k [] = [] := rfl

theorem paymentsOf_append (k : Pubkey × ℕ) (log log' : List FeePayment) :
    paymentsOf k (log ++ log') = paymentsOf k log ++ paymentsOf k log' := by
  simp only [paymentsOf, List.filter_append, List.map_append]

theorem paymentsOf_map (k k' : Pubkey × ℕ) (paid : List SlotPayment) :
    paymentsOf k (paid.map (FeePayment.mk k')) = if k' = k then paid else [] := by
  induction paid with
  | nil => rw [List.map_nil, paymentsOf_nil, ite_self]
  | cons p rest ih =>
      rw [List.map_cons, ← List.singleton_append, paymentsOf_append, ih]
      by_cases hk : k' = k
      · rw [if_pos hk, if_pos hk, paymentsOf, List.filter_cons_of_pos (by simpa using hk)]
        rfl
      · rw [if_neg hk, if_neg hk, paymentsOf, List.filter_cons_of_neg (by simpa using hk)]
        rfl

/-- Indices only grow. -/
theorem lastIndex_mono (h : FolioStep s log s') : s.lastIndex f ≤ s'.lastIndex f := by
  cases h with
  | elapsed | created | changed | cranked => exact le_rfl
  | recipients g after isFolio index valid =>
      by_cases hg : f = g
      · subst hg
        simp only [lastIndex, Function.update_self, Option.elim_some, index]
        cases s.feeRecipients f with
        | none => exact Nat.zero_le _
        | some r => exact le_rfl
      · simp only [lastIndex, Function.update_of_ne hg]
        exact le_rfl
  | distributed g user before poked after recipients split found foundRecipients =>
      by_cases hg : f = g
      · subst hg
        simp only [lastIndex, Function.update_self, Option.elim_some, foundRecipients]
        exact Nat.le_succ _
      · simp only [lastIndex, Function.update_of_ne hg]
        exact le_rfl

/-- A distribution that is opened is sound, and has something to pay. -/
theorem opened_sound {poked : Folio} {recipients : FeeRecipients} {split : FeeSplit} {user : Pubkey}
    {d : FeeDistribution}
    (hvalid : recipients.feeRecipients = FeeRecipients.init.feeRecipients ∨
      FeeRecipients.Valid recipients.feeRecipients)
    (split_eq : poked.feeSplit (!recipients.isEmpty) = .ok split)
    (hd : (if !recipients.isEmpty then
      some (⟨recipients.distributionIndex + 1, user, split.scaledRecipientsMinusDust,
        recipients.feeRecipients⟩ : FeeDistribution) else none) = some d) :
    d.Sound ∧ d.isFullyDistributed = false := by
  by_cases hne : (!recipients.isEmpty) = true
  · rw [if_pos hne, Option.some.injEq] at hd
    subst hd
    exact ⟨sound_of_split (valid_of_not_isEmpty hne hvalid) split_eq, (Bool.not_eq_true' _).mp hne⟩
  · rw [if_neg hne] at hd
    cases hd

/-- So is what is left of one after some payments. -/
theorem left_sound {d d' : FeeDistribution} {indices : List ℕ} {state : List FeeRecipient}
    {paid : List SlotPayment} (hsound : d.Sound)
    (pays : d.pay d.feeRecipientsState indices = .ok (state, paid))
    (hd : (if isFullyDistributed { d with feeRecipientsState := state } then none
      else some { d with feeRecipientsState := state }) = some d') :
    d'.Sound ∧ d'.isFullyDistributed = false := by
  split at hd
  · cases hd
  · next hpending =>
    cases hd
    exact ⟨(pay_after hsound pays).sound hsound, Bool.not_eq_true _ ▸ hpending⟩

/-- **The invariant is kept.** -/
theorem DistributionsWF.step (hwf : s.DistributionsWF) (h : FolioStep s log s') :
    s'.DistributionsWF := by
  have hfolio : ∀ {g}, s.folio g ≠ none → s'.folio g ≠ none := h.isFolio
  have hmono : ∀ g, s.lastIndex g ≤ s'.lastIndex g := fun g => lastIndex_mono h
  cases h with
  | elapsed seconds => exact ⟨hwf.folio, hwf.recipients, hwf.index, hwf.sound, hwf.pending⟩
  | created | changed =>
      exact ⟨fun g r hr => hfolio (hwf.folio g r hr), hwf.recipients, hwf.index, hwf.sound,
        hwf.pending⟩
  | recipients f after isFolio index valid =>
      refine ⟨forall_update_some isFolio hwf.folio, forall_update_some ?_ hwf.recipients,
        fun g i d hd => ?_, hwf.sound, hwf.pending⟩
      · cases valid with
        | inr hvalid => exact .inr hvalid
        | inl hsame =>
            rw [hsame]
            cases hr : s.feeRecipients f with
            | none => exact .inl rfl
            | some r => exact hwf.recipients f r hr
      · obtain ⟨hr, hi⟩ := hwf.index g i d hd
        exact ⟨exists_update hr, hi.trans (hmono g)⟩
  | distributed f user before poked after recipients split found foundRecipients fresh poke status
      split_eq taken =>
      have hvalid := hwf.recipients f recipients foundRecipients
      refine ⟨forall_update_some (hfolio (hwf.folio f recipients foundRecipients))
          fun g r hr => hfolio (hwf.folio g r hr),
        forall_update_some hvalid hwf.recipients, fun g i d hd => ?_,
        forall_update (fun d hd => (opened_sound hvalid split_eq hd).1) fun k d _ => hwf.sound k d,
        forall_update (fun d hd => (opened_sound hvalid split_eq hd).2)
          fun k d _ => hwf.pending k d⟩
      · by_cases hk : (g, i) = (f, recipients.distributionIndex + 1)
        · obtain ⟨rfl, rfl⟩ := Prod.mk.inj hk
          simp only [lastIndex, Function.update_self, Option.elim_some]
          exact ⟨⟨_, rfl⟩, le_rfl⟩
        · simp only [Function.update_of_ne hk] at hd
          obtain ⟨hr, hi⟩ := hwf.index g i d hd
          exact ⟨exists_update hr, hi.trans (hmono g)⟩
  | cranked f index before d indices paid state taken found status foundDistribution pays taken_eq
      covered =>
      have hsound := hwf.sound _ d foundDistribution
      refine ⟨fun g r hr => hfolio (hwf.folio g r hr), hwf.recipients, fun g i d' hd' => ?_,
        forall_update (fun d' hd' => (left_sound hsound pays hd').1) fun k d' _ => hwf.sound k d',
        forall_update (fun d' hd' => (left_sound hsound pays hd').2) fun k d' _ => hwf.pending k d'⟩
      by_cases hk : (g, i) = (f, index)
      · obtain ⟨rfl, rfl⟩ := Prod.mk.inj hk
        exact hwf.index g i d foundDistribution
      · simp only [Function.update_of_ne hk] at hd'
        exact hwf.index g i d' hd'

/-! ### The life of a distribution -/

variable {k : Pubkey × ℕ} {d : FeeDistribution}

/-- An open distribution is paid out of, and closed with its last payment. -/
theorem DistributionsWF.after_step (hwf : s.DistributionsWF) (h : FolioStep s log s')
    (hd : s.feeDistribution k = some d) :
    ∃ d', d.After (paymentsOf k log) d' ∧
      s'.feeDistribution k = if d'.isFullyDistributed then none else some d' := by
  have same : ∃ d', d.After (paymentsOf k []) d' ∧
      s.feeDistribution k = if d'.isFullyDistributed then none else some d' :=
    ⟨d, .refl d, by rw [hwf.pending k d hd]; exact hd⟩
  cases h with
  | elapsed | created | changed | recipients => exact same
  | distributed f user before poked after recipients split found foundRecipients fresh =>
      have hne : k ≠ (f, recipients.distributionIndex + 1) := by
        rintro rfl
        rw [fresh] at hd
        cases hd
      simpa only [Function.update_of_ne hne] using same
  | cranked f index before d₀ indices paid state taken found status foundDistribution pays =>
      rw [paymentsOf_map]
      by_cases hk : (f, index) = k
      · subst hk
        obtain rfl : d₀ = d := Option.some.inj (foundDistribution.symm.trans hd)
        rw [if_pos rfl]
        refine ⟨_, pay_after (hwf.sound _ d₀ foundDistribution) pays, ?_⟩
        simp only [Function.update_self]
      · rw [if_neg hk]
        rw [paymentsOf_nil] at same
        simpa only [Function.update_of_ne (Ne.symm hk)] using same

/-- A distribution that is closed is not opened again, and pays nothing. -/
theorem closed_step (h : FolioStep s log s') (hk : s.feeDistribution k = none)
    (hi : k.2 ≤ s.lastIndex k.1) : s'.feeDistribution k = none ∧ paymentsOf k log = [] := by
  cases h with
  | elapsed | created | changed | recipients => exact ⟨hk, rfl⟩
  | distributed f user before poked after recipients split found foundRecipients fresh =>
      have hne : k ≠ (f, recipients.distributionIndex + 1) := by
        rintro rfl
        rw [lastIndex_of foundRecipients] at hi
        omega
      refine ⟨?_, rfl⟩
      simp only [Function.update_of_ne hne, hk]
  | cranked f index before d₀ indices paid state taken found status foundDistribution pays =>
      have hne : (f, index) ≠ k := by
        rintro rfl
        rw [foundDistribution] at hk
        cases hk
      rw [paymentsOf_map, if_neg hne]
      refine ⟨?_, rfl⟩
      simp only [Function.update_of_ne hne.symm, hk]

/-- What a distribution came to since it was `d`, with the payments since. -/
structure Since (k : Pubkey × ℕ) (d : FeeDistribution) (payments : List SlotPayment)
    (s : FolioBooks) : Prop where
  wf : s.DistributionsWF
  index : k.2 ≤ s.lastIndex k.1
  after : ∃ d', d.After payments d' ∧
    s.feeDistribution k = if d'.isFullyDistributed then none else some d'

theorem Since.step {payments : List SlotPayment} (hs : Since k d payments s)
    (h : FolioStep s log s') : Since k d (payments ++ paymentsOf k log) s' where
  wf := hs.wf.step h
  index := hs.index.trans (lastIndex_mono h)
  after := by
    obtain ⟨d', hafter, hfound⟩ := hs.after
    split at hfound
    · next hclosed =>
      obtain ⟨hnone, hpaid⟩ := closed_step h hfound hs.index
      rw [hpaid, List.append_nil, hnone]
      exact ⟨d', hafter, by rw [if_pos hclosed]⟩
    · obtain ⟨d'', hafter', hfound'⟩ := hs.wf.after_step h hfound
      exact ⟨d'', hafter.trans hafter', hfound'⟩

/-! ### The counter -/

/-- The amount is used up by the parts: every part comes out even, and slots without a
recipient have none. -/
def SplitsEvenly (d : FeeDistribution) : Prop :=
  ∀ r ∈ d.feeRecipientsState, if r.Unpaid
    then maxFeeRecipientsPortion * d9 ∣ d.amountToDistribute * r.portion
    else d.amountToDistribute * r.portion = 0

instance (d : FeeDistribution) : Decidable (SplitsEvenly d) :=
  inferInstanceAs (Decidable (∀ r ∈ d.feeRecipientsState, _))

theorem owed_eq_iff (hd : d.Sound) : d.owed * d9 = d.amountToDistribute ↔ SplitsEvenly d :=
  sumOver_part_eq_iff (by decide) hd.portions

theorem outstanding_congr (hlast : s'.lastIndex f = s.lastIndex f)
    (hsame : ∀ i, s'.feeDistribution (f, i) = s.feeDistribution (f, i)) :
    s'.outstanding f = s.outstanding f := by
  simp only [outstanding, owedAt, hlast, hsame]

/-- Only one distribution changes. -/
theorem outstanding_of_one {i : ℕ} (hi : i ≤ s.lastIndex f) (hlast : s'.lastIndex f = s.lastIndex f)
    (hsame : ∀ j, j ≠ i → s'.owedAt (f, j) = s.owedAt (f, j)) :
    s'.outstanding f + s.owedAt (f, i) = s.outstanding f + s'.owedAt (f, i) := by
  have hmem : i ∈ Finset.range (s.lastIndex f + 1) := Finset.mem_range.mpr (by omega)
  have hrest : ∑ j ∈ (Finset.range (s.lastIndex f + 1)).erase i, s'.owedAt (f, j)
      = ∑ j ∈ (Finset.range (s.lastIndex f + 1)).erase i, s.owedAt (f, j) :=
    Finset.sum_congr rfl fun j hj => hsame j (Finset.ne_of_mem_erase hj)
  rw [outstanding, outstanding, hlast, ← Finset.add_sum_erase _ _ hmem,
    ← Finset.add_sum_erase _ (fun j => s.owedAt (f, j)) hmem, hrest]
  omega

/-- The distributions that are opened split evenly. -/
def OpensEvenly (s s' : FolioBooks) : Prop :=
  ∀ k d, s.feeDistribution k = none → s'.feeDistribution k = some d → SplitsEvenly d

/-- The counter of a folio moves with what its open distributions owe, but for what is
lost by distributions that do not split evenly. -/
def CounterMoves (s s' : FolioBooks) (f : Pubkey) : Prop :=
  ∃ lost, s'.toBeMinted f + s.outstanding f * d9
      = s.toBeMinted f + s'.outstanding f * d9 + lost ∧
    (OpensEvenly s s' → lost = 0)

theorem CounterMoves.of_same (hcounter : s'.toBeMinted f = s.toBeMinted f)
    (hout : s'.outstanding f = s.outstanding f) : CounterMoves s s' f :=
  ⟨0, by rw [hcounter, hout, Nat.add_zero], fun _ => rfl⟩

theorem toBeMinted_update {g : Pubkey} {folio : Folio} :
    toBeMinted { s with folio := Function.update s.folio g (some folio) } f
      = if f = g then folio.feeRecipientsPendingFeeSharesToBeMinted else s.toBeMinted f := by
  by_cases hg : f = g
  · subst hg
    simp only [toBeMinted, Function.update_self, Option.elim_some, if_pos]
  · simp only [toBeMinted, Function.update_of_ne hg, if_neg hg]

/-- A distribution is opened, or only the index moves on. -/
theorem outstanding_opened {opened : Option FeeDistribution} {i : ℕ} (hi : s.lastIndex f + 1 = i)
    (hlast : s'.lastIndex f = i)
    (hd : s'.feeDistribution = Function.update s.feeDistribution (f, i) opened) :
    s'.outstanding f = s.outstanding f + opened.elim 0 owed := by
  subst hi
  have hsame : ∀ j ∈ Finset.range (s.lastIndex f + 1), s'.owedAt (f, j) = s.owedAt (f, j) := by
    intro j hj
    have hne : (f, j) ≠ (f, s.lastIndex f + 1) := fun e =>
      absurd (Finset.mem_range.mp hj) (by rw [(Prod.mk.inj e).2]; omega)
    rw [owedAt, hd, Function.update_of_ne hne, owedAt]
  rw [outstanding, hlast, Finset.sum_range_succ, Finset.sum_congr rfl hsame, owedAt, hd,
    Function.update_self, outstanding]

/-- `distribute_fees` adds the amount of the new distribution. -/
theorem counter_distributed {before poked after : Folio} {recipients : FeeRecipients}
    {split : FeeSplit} {opened : FeeDistribution}
    (found : s.folio f = some before) (foundRecipients : s.feeRecipients f = some recipients)
    (fresh : s.feeDistribution (f, recipients.distributionIndex + 1) = none)
    (poke : FolioChange before poked)
    (taken : poked.takeFees split (!recipients.isEmpty) = .ok after)
    (hamount : opened.amountToDistribute = split.scaledRecipientsMinusDust)
    (hsound : (!recipients.isEmpty) = true → opened.Sound)
    (hfolio : s'.folio f = some after)
    (hlast : s'.lastIndex f = recipients.distributionIndex + 1)
    (hd : s'.feeDistribution = Function.update s.feeDistribution
      (f, recipients.distributionIndex + 1) (if !recipients.isEmpty then some opened else none)) :
    CounterMoves s s' f := by
  have hbefore : s.toBeMinted f = before.feeRecipientsPendingFeeSharesToBeMinted := by
    rw [toBeMinted, found, Option.elim_some]
  have hafter : s'.toBeMinted f = before.feeRecipientsPendingFeeSharesToBeMinted
      + if !recipients.isEmpty then opened.amountToDistribute else 0 := by
    obtain ⟨-, -, rfl⟩ := Folio.takeFees_spec taken
    rw [toBeMinted, hfolio, Option.elim_some, poke.toBeMinted, hamount]
  have hout := outstanding_opened (by rw [lastIndex_of foundRecipients]) hlast hd
  rw [CounterMoves, hbefore, hafter, hout]
  by_cases hne : (!recipients.isEmpty) = true
  · have hle := (hsound hne).owed_le
    rw [if_pos hne, if_pos hne, Option.elim_some, Nat.add_mul]
    refine ⟨opened.amountToDistribute - opened.owed * d9, by omega, fun heven => ?_⟩
    have hsplit : SplitsEvenly opened := by
      refine heven (f, recipients.distributionIndex + 1) opened fresh ?_
      rw [hd, Function.update_self, if_pos hne]
    rw [(owed_eq_iff (hsound hne)).mpr hsplit, Nat.sub_self]
  · rw [if_neg hne, if_neg hne, Option.elim_none, Nat.add_zero, Nat.add_zero]
    exact ⟨0, (Nat.add_zero _).symm, fun _ => rfl⟩

/-- A crank takes off what it pays. -/
theorem DistributionsWF.counter_cranked (hwf : s.DistributionsWF) {index taken : ℕ}
    {before : Folio} {indices : List ℕ} {paid : List SlotPayment} {state : List FeeRecipient}
    (found : s.folio f = some before) (foundDistribution : s.feeDistribution (f, index) = some d)
    (pays : d.pay d.feeRecipientsState indices = .ok (state, paid))
    (taken_eq : taken = min (paidTotal paid * d9) u128Max)
    (covered : taken ≤ before.feeRecipientsPendingFeeSharesToBeMinted)
    (hcounter : s'.toBeMinted f = before.feeRecipientsPendingFeeSharesToBeMinted - taken)
    (hlast : s'.lastIndex f = s.lastIndex f)
    (hd : s'.feeDistribution = Function.update s.feeDistribution (f, index)
      (if isFullyDistributed { d with feeRecipientsState := state } then none
        else some { d with feeRecipientsState := state })) : CounterMoves s s' f := by
  have hsound := hwf.sound _ d foundDistribution
  have hafter := pay_after hsound pays
  have hout := outstanding_of_one (hwf.index f index d foundDistribution).2 hlast fun j hj => by
    have hne : (f, j) ≠ (f, index) := fun e => hj (Prod.mk.inj e).2
    rw [owedAt, hd, Function.update_of_ne hne, owedAt]
  have howed : s.owedAt (f, index) = d.owed := by
    rw [owedAt, foundDistribution, Option.elim_some]
  have howed' : s'.owedAt (f, index) + paidTotal paid = d.owed := by
    rw [owedAt, hd, Function.update_self, ← hafter.owed]
    split
    · rw [Option.elim_none, owed_eq_zero ‹_›]
    · rw [Option.elim_some]
  have hbefore : s.toBeMinted f = before.feeRecipientsPendingFeeSharesToBeMinted := by
    rw [toBeMinted, found, Option.elim_some]
  -- what is paid is owed, so it fits
  have hfits : paidTotal paid * d9 ≤ u128Max :=
    le_trans (Nat.mul_le_mul_right d9 (by omega)) hsound.owed_mul_le
  rw [Nat.min_eq_left hfits] at taken_eq
  have hmoved : s.outstanding f = s'.outstanding f + paidTotal paid := by omega
  refine ⟨0, ?_, fun _ => rfl⟩
  rw [hcounter, hbefore, hmoved, Nat.add_mul]
  omega

/-- **The counter moves with what is owed.** -/
theorem DistributionsWF.counter_step (hwf : s.DistributionsWF) (h : FolioStep s log s') :
    CounterMoves s s' f := by
  cases h with
  | elapsed seconds => exact .of_same rfl rfl
  | created g folio hfresh status lastPoke htbm =>
      refine .of_same (toBeMinted_update.trans ?_) (outstanding_congr rfl fun i => rfl)
      by_cases hg : f = g
      · rw [if_pos hg, htbm, toBeMinted, hg, hfresh, Option.elim_none]
      · rw [if_neg hg]
  | changed g before after found change =>
      refine .of_same (toBeMinted_update.trans ?_) (outstanding_congr rfl fun i => rfl)
      by_cases hg : f = g
      · rw [if_pos hg, change.toBeMinted, toBeMinted, hg, found, Option.elim_some]
      · rw [if_neg hg]
  | recipients g after isFolio index valid =>
      refine .of_same rfl (outstanding_congr ?_ fun i => rfl)
      by_cases hg : f = g
      · subst hg
        simp only [lastIndex, Function.update_self, Option.elim_some, index]
        cases s.feeRecipients f with
        | none => rfl
        | some r => rfl
      · simp only [lastIndex, Function.update_of_ne hg]
  | distributed g user before poked after recipients split found foundRecipients fresh poke status
      split_eq taken =>
      by_cases hg : f = g
      · subst hg
        refine counter_distributed found foundRecipients fresh poke taken rfl (fun hne => ?_)
          ?_ ?_ rfl
        · exact sound_of_split (valid_of_not_isEmpty hne (hwf.recipients f recipients foundRecipients))
            split_eq
        · simp only [Function.update_self]
        · simp only [lastIndex, Function.update_self, Option.elim_some]
      · refine .of_same ?_ (outstanding_congr ?_ fun i => ?_)
        · simp only [toBeMinted, Function.update_of_ne hg]
        · simp only [lastIndex, Function.update_of_ne hg]
        · have hne : (f, i) ≠ (g, recipients.distributionIndex + 1) := fun e =>
            hg (Prod.mk.inj e).1
          simp only [Function.update_of_ne hne]
  | cranked g index before d indices paid state taken found status foundDistribution pays taken_eq
      covered =>
      by_cases hg : f = g
      · subst hg
        refine hwf.counter_cranked found foundDistribution pays taken_eq covered ?_ rfl rfl
        simp only [toBeMinted, Function.update_self, Option.elim_some]
      · refine .of_same ?_ (outstanding_congr rfl fun i => ?_)
        · simp only [toBeMinted, Function.update_of_ne hg]
        · have hne : (f, i) ≠ (g, index) := fun e => hg (Prod.mk.inj e).1
          simp only [Function.update_of_ne hne]

/-! ### Instructions that pay nothing -/

/-- What they leave open is what was open. -/
theorem DistributionsWF.open_steps (hwf : s.DistributionsWF) (h : FolioSteps s log s')
    (hlog : log = []) (hd : s.feeDistribution k = some d) :
    ∃ d', s'.feeDistribution k = some d' ∧ (SplitsEvenly d' ↔ SplitsEvenly d) := by
  have hs : Since k d (paymentsOf k []) s :=
    ⟨hwf, (hwf.index k.1 k.2 d hd).2, d, .refl d, by rw [hwf.pending k d hd]; exact hd⟩
  have hafter := h.inv (I := fun s past => Since k d (paymentsOf k past) s)
    (fun s past log s' hs hstep => by rw [paymentsOf_append]; exact hs.step hstep) hs
  rw [hlog, List.append_nil] at hafter
  obtain ⟨d', hafter, hfound⟩ := hafter.after
  have hstate : d'.feeRecipientsState = d.feeRecipientsState := List.ext_getElem? hafter.slots
  have hpending : d'.isFullyDistributed = false := by
    rw [isFullyDistributed, hstate]
    exact hwf.pending k d hd
  refine ⟨d', by rw [hfound, hpending]; rfl, ?_⟩
  rw [SplitsEvenly, SplitsEvenly, hstate, hafter.amount]

/-- Whatever is opened on the way is still open at the end. -/
theorem OpensEvenly.steps {s₁ : FolioBooks} (heven : OpensEvenly s s') (hwf : s.DistributionsWF)
    (h : FolioStep s [] s₁) (t : FolioSteps s₁ [] s') :
    OpensEvenly s s₁ ∧ OpensEvenly s₁ s' := by
  constructor
  · intro k d hclosed hopened
    obtain ⟨d', hd', hsame⟩ := (hwf.step h).open_steps t rfl hopened
    exact hsame.mp (heven k d' hclosed hd')
  · intro k d hclosed hopened
    cases hd : s.feeDistribution k with
    | none => exact heven k d hd hopened
    | some d₀ =>
        obtain ⟨d', hd', -⟩ := hwf.open_steps (.single h) rfl hd
        rw [hclosed] at hd'
        cases hd'

theorem DistributionsWF.counter_steps (hwf : s.DistributionsWF) (h : FolioSteps s log s')
    (hlog : log = []) : CounterMoves s s' f := by
  induction h with
  | refl s => exact .of_same rfl rfl
  | head h t ih =>
      obtain ⟨rfl, rfl⟩ := List.append_eq_nil_iff.mp hlog
      obtain ⟨lost₁, hmoves₁, hlost₁⟩ := hwf.counter_step (f := f) h
      obtain ⟨lost₂, hmoves₂, hlost₂⟩ := ih (hwf.step h) rfl
      refine ⟨lost₁ + lost₂, by omega, fun heven => ?_⟩
      obtain ⟨heven₁, heven₂⟩ := heven.steps hwf h t
      rw [hlost₁ heven₁, hlost₂ heven₂]

end FolioBooks

end IndexDtf
