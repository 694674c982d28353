import IndexDtf.Folio.Distribution
import IndexDtf.Lib.Transition

/-!
# IndexDtf.Folio.RecipientUpdates

**Changes of the fee recipients.** An update removes some recipients, keeps the others in their
order and adds new ones behind them.

A slot with the default key is an unused one: it is dropped by the next update and never paid. But
the portions are added up over all slots, and the default key may be added: what it is given is
nobody's.
-/

namespace IndexDtf

open Lib FeeRecipient

/-- The arguments of `update_fee_recipients`. -/
structure RecipientsUpdate where
  toAdd : List FeeRecipient
  toRemove : List Pubkey
  deriving DecidableEq, Repr

namespace RecipientsUpdate

variable {u : RecipientsUpdate}

/-- The recipients that the update adds. -/
def added (u : RecipientsUpdate) : List FeeRecipient :=
  u.toAdd.filter fun fr => fr.recipient ∉ u.toRemove

/-- The update does not add the default key, or removes it as well. -/
def AddsNoDefault (u : RecipientsUpdate) : Prop :=
  ∀ fr ∈ u.toAdd, fr.recipient = Pubkey.default → fr.recipient ∈ u.toRemove

theorem filter_added_iff : u.added.filter Unpaid = u.added ↔ u.AddsNoDefault := by
  rw [List.filter_eq_self]
  constructor
  · intro hpaid fr hfr hdefault
    by_contra hkept
    have hadded : fr ∈ u.added := List.mem_filter.mpr ⟨hfr, decide_eq_true hkept⟩
    exact of_decide_eq_true (hpaid fr hadded) hdefault
  · intro hclean fr hfr
    obtain ⟨hfr, hkept⟩ := List.mem_filter.mp hfr
    exact decide_eq_true fun hdefault => of_decide_eq_true hkept (hclean fr hfr hdefault)

end RecipientsUpdate

namespace FeeRecipients

variable {r r' : FeeRecipients} {u : RecipientsUpdate}

/-- `update_fee_recipients`. -/
def update (r : FeeRecipients) (u : RecipientsUpdate) : Result FeeRecipients :=
  r.updateFeeRecipients u.toAdd u.toRemove

/-- The recipients that can be paid. -/
def payable (r : FeeRecipients) : List FeeRecipient := r.feeRecipients.filter Unpaid

/-- The recipients that can be paid get all of the fees, each of them once. -/
structure PaysOut (r : FeeRecipients) : Prop where
  total : (r.payable.map (·.portion)).sum = maxFeeRecipientsPortion
  distinct : (r.payable.map (·.recipient)).Nodup

/-- The recipients after an update are those that it keeps, and then those that it adds. -/
def Follows (r : FeeRecipients) (u : RecipientsUpdate) (r' : FeeRecipients) : Prop :=
  r'.payable = (r.payable.filter fun fr => fr.recipient ∉ u.toRemove) ++ u.added

theorem portions_unused (n : ℕ) :
    ((List.replicate n FeeRecipient.default).map (·.portion)).sum = 0 := by
  rw [List.map_replicate, List.sum_replicate]
  exact Nat.mul_zero n

/-- All that an update checks and writes: the slots behind the recipients are unused. -/
theorem update_spec (h : r.update u = .ok r') :
    ∃ n, r'.feeRecipients = (r.payable.filter fun fr => fr.recipient ∉ u.toRemove) ++ u.added
        ++ List.replicate n FeeRecipient.default ∧ Valid r'.feeRecipients := by
  obtain ⟨-, hvalid⟩ := updateFeeRecipients_spec h
  have hkept : (r.payable.filter fun fr => fr.recipient ∉ u.toRemove)
      = r.feeRecipients.filter fun fr => fr.recipient ∉ u.toRemove ∧ fr.recipient ≠ Pubkey.default := by
    rw [payable, List.filter_filter]
    exact List.filter_congr fun fr _ => (Bool.decide_and ..).symm
  simp only [update, updateFeeRecipients, bind_eq_ok, Except.ok.injEq] at h
  obtain ⟨_, -, _, -, rfl⟩ := h
  rw [hkept]
  exact ⟨_, rfl, hvalid⟩

theorem payable_after (h : r.update u = .ok r') :
    r'.payable = (r.payable.filter fun fr => fr.recipient ∉ u.toRemove) ++ u.added.filter Unpaid := by
  obtain ⟨n, hslots, -⟩ := update_spec h
  have hkept : ∀ fr ∈ r.payable.filter fun fr => fr.recipient ∉ u.toRemove, decide fr.Unpaid = true :=
    fun fr hfr => (List.mem_filter.mp (List.mem_of_mem_filter hfr)).2
  have hunused : ∀ fr ∈ List.replicate n FeeRecipient.default, ¬ decide fr.Unpaid = true := by
    intro fr hfr
    rw [List.eq_of_mem_replicate hfr]
    decide
  rw [payable, hslots, List.filter_append, List.filter_append, List.filter_eq_self.mpr hkept,
    List.filter_eq_nil_iff.mpr hunused, List.append_nil]

/-- **The fees are paid out**, and the recipients follow the update, exactly when it does not add
the default key. -/
theorem update_pays_out_iff (h : r.update u = .ok r') :
    r'.PaysOut ∧ r.Follows u r' ↔ u.AddsNoDefault := by
  have hafter := payable_after h
  obtain ⟨n, hslots, hvalid⟩ := update_spec h
  rw [← RecipientsUpdate.filter_added_iff]
  constructor
  · rintro ⟨-, hfollows⟩
    rw [Follows, hafter, List.append_cancel_left_eq] at hfollows
    exact hfollows
  · intro hadded
    rw [hadded] at hafter
    refine ⟨⟨?_, ?_⟩, hafter⟩
    · have htotal := hvalid.total
      rw [hslots, ← hafter, List.map_append, List.sum_append, portions_unused, Nat.add_zero] at htotal
      exact htotal
    · have hdistinct := hvalid.distinct
      rw [List.filter_map] at hdistinct
      exact hdistinct

/-- **Fee recipients get everything.** After any updates, some of which may have failed: the next
one pays out all of the fees and follows the list before it, exactly when it does not add the
default key. If none does, all states but the initial one pay out. -/
theorem recipients_paid_iff (updates : List RecipientsUpdate) :
    (∀ u r', (run update init updates).update u = .ok r' →
      (r'.PaysOut ∧ (run update init updates).Follows u r' ↔ u.AddsNoDefault)) ∧
    ((∀ u ∈ updates, u.AddsNoDefault) →
      run update init updates = init ∨ (run update init updates).PaysOut) := by
  refine ⟨fun u r' h => update_pays_out_iff h, fun hclean => ?_⟩
  refine run_inv (I := fun r => r = init ∨ r.PaysOut) (fun _ u _ hu _ hstep => ?_) (.inl rfl)
  exact .inr ((update_pays_out_iff hstep).mpr (hclean u hu)).1

/-- Half of the fees go to the default key: the update is accepted, and only half of them are paid
to anybody. -/
theorem half_paid_to_nobody :
    ∃ r', init.update ⟨[⟨7, 500000000000000000⟩, ⟨Pubkey.default, 500000000000000000⟩], []⟩ = .ok r' ∧
      r'.payable = [⟨7, 500000000000000000⟩] ∧
      (r'.payable.map (·.portion)).sum ≠ maxFeeRecipientsPortion := by
  decide +kernel

end FeeRecipients

end IndexDtf
