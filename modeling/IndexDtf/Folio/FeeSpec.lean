import IndexDtf.Folio.Program

/-!
# IndexDtf.Folio.FeeSpec

What the two instructions that hand out fees compute: how `distribute_fees` splits and
takes the pending fees, and which slots a `crank_fee_distribution` pays.

* `FeeDistribution.pay` — the slots that a list of indices pays, with the amounts, as the
  loop of the crank goes through them;
* `Books.payRecipients_spec` — the loop mints exactly these amounts;
* `Books.payments` — the record of a run.
-/

namespace IndexDtf

open Lib Decimal

/-! ### Distributing -/

namespace Folio

variable {folio after : Folio} {split : FeeSplit} {hasFeeRecipients : Bool}

/-- What a D18 amount has of whole raw units, up to the largest. -/
def wholeUnits (scaled : ℕ) : ℕ := min (scaled / d9) u64Max

theorem wholeUnits_mul_le (scaled : ℕ) : wholeUnits scaled * d9 ≤ scaled :=
  (Nat.mul_le_mul_right d9 (min_le_left ..)).trans (Nat.div_mul_le_self ..)

theorem feeSplit_spec (h : folio.feeSplit hasFeeRecipients = .ok split) :
    split.scaledRecipientsMinusDust = wholeUnits folio.feeRecipientsPendingFeeShares * d9 ∧
      split.scaledRecipientsMinusDust ≤ u128Max ∧
      split.rawDao = wholeUnits folio.daoPendingFeeShares
        + if hasFeeRecipients then 0 else wholeUnits folio.feeRecipientsPendingFeeShares := by
  simp only [feeSplit, toTokenAmount_floor, ok_bind, bind_eq_ok, checkedMulU128_eq_ok] at h
  obtain ⟨_, ⟨hle, rfl⟩, h⟩ := h
  cases hasFeeRecipients with
  | true =>
      cases h
      exact ⟨rfl, hle, rfl⟩
  | false =>
      simp only [Bool.false_eq_true, if_false, bind_eq_ok, checkedAddU64_eq_ok, Except.ok.injEq] at h
      obtain ⟨_, ⟨-, rfl⟩, rfl⟩ := h
      exact ⟨rfl, hle, rfl⟩

theorem takeFees_spec (h : folio.takeFees split hasFeeRecipients = .ok after) :
    (hasFeeRecipients → split.rawDao * d9 ≤ folio.daoPendingFeeShares) ∧
      split.scaledRecipientsMinusDust ≤ folio.feeRecipientsPendingFeeShares ∧
      after = { folio with
        daoPendingFeeShares := folio.daoPendingFeeShares - split.rawDao * d9
        feeRecipientsPendingFeeShares :=
          folio.feeRecipientsPendingFeeShares - split.scaledRecipientsMinusDust
        feeRecipientsPendingFeeSharesToBeMinted := folio.feeRecipientsPendingFeeSharesToBeMinted
          + if hasFeeRecipients then split.scaledRecipientsMinusDust else 0 } := by
  cases hasFeeRecipients with
  | true =>
      simp only [takeFees, if_true, bind_eq_ok, checkedMulU128_eq_ok, checkedSub_eq_ok,
        subPlain_eq_ok, checkedAddU128_eq_ok, Except.ok.injEq] at h
      obtain ⟨_, ⟨-, rfl⟩, _, ⟨hdao, rfl⟩, _, ⟨hrec, rfl⟩, _, ⟨-, rfl⟩, rfl⟩ := h
      exact ⟨fun _ => hdao, hrec, rfl⟩
  | false =>
      simp only [takeFees, Bool.false_eq_true, if_false, ok_bind, bind_eq_ok, checkedMulU128_eq_ok,
        subPlain_eq_ok, Except.ok.injEq] at h
      obtain ⟨_, ⟨-, rfl⟩, _, ⟨hrec, rfl⟩, rfl⟩ := h
      exact ⟨Bool.noConfusion, hrec, rfl⟩

end Folio

/-! ### Cranking -/

/-- A slot that a crank pays, and what. -/
structure SlotPayment where
  slot : ℕ
  recipient : Pubkey
  amount : ℕ
  deriving DecidableEq, Repr

/-- A payment out of the distribution of a folio with an index. -/
structure FeePayment where
  distribution : Pubkey × ℕ
  payment : SlotPayment
  deriving DecidableEq, Repr

namespace FeeDistribution

/-- The slots that indices pay out of a distribution, and the slots after that. -/
def pay (d : FeeDistribution) :
    List FeeRecipient → List ℕ → Result (List FeeRecipient × List SlotPayment)
  | state, [] => .ok (state, [])
  | state, slot :: indices => do
      let related ← okOr .panic state[slot]?
      if related.recipient = Pubkey.default then d.pay state indices
      else do
        let amount ← d.amountFor related.portion
        let paid := { related with recipient := Pubkey.default }
        let (state, payments) ← d.pay (state.set slot paid) indices
        .ok (state, ⟨slot, related.recipient, amount⟩ :: payments)

/-- What is paid altogether. -/
def paidTotal (payments : List SlotPayment) : ℕ := (payments.map (·.amount)).sum

end FeeDistribution

namespace Books

variable {T : TokenProgram}

/-- Each payment is minted to the associated account of its recipient. -/
def mintAll (f : Pubkey) : T.Ledger → List SlotPayment → Option T.Ledger
  | ledger, [] => some ledger
  | ledger, p :: payments => do
      let ledger ← T.mintTo ledger (.folio f) f (T.associated (.external p.recipient) f) p.amount
      mintAll f ledger payments

/-- **The loop of `crank_fee_distribution`** mints the payments of its indices and counts
them. -/
theorem payRecipients_spec {f : Pubkey} {d : FeeDistribution} {ledger ledger' : T.Ledger}
    {state state' : List FeeRecipient} {total total' : ℕ} {indices : List ℕ}
    {addresses : List T.Address}
    (h : payRecipients f d ledger state total indices addresses = .ok (ledger', state', total')) :
    ∃ payments, d.pay state indices = .ok (state', payments) ∧
      mintAll f ledger payments = some ledger' ∧
      total' = total + FeeDistribution.paidTotal payments := by
  induction indices generalizing ledger state total addresses with
  | nil =>
      cases h
      exact ⟨[], rfl, rfl, rfl⟩
  | cons slot indices ih =>
      cases addresses with
      | nil => cases h
      | cons address addresses =>
          simp only [payRecipients, bind_eq_ok, okOr_eq_ok] at h
          obtain ⟨related, hrelated, h⟩ := h
          split at h
          · next hpaid =>
            obtain ⟨payments, hpay, hmint, htotal⟩ := ih h
            refine ⟨payments, ?_, hmint, htotal⟩
            rw [FeeDistribution.pay, hrelated]
            simp only [okOr, ok_bind, if_pos hpaid, hpay]
          · next hunpaid =>
            simp only [bind_eq_ok, checkCondition_eq_ok, invoke_eq_ok, checkedAddU128_eq_ok] at h
            obtain ⟨_, rfl, amount, hamount, ledger₁, hmintTo, _, ⟨-, rfl⟩, h⟩ := h
            obtain ⟨payments, hpay, hmint, htotal⟩ := ih h
            refine ⟨⟨slot, related.recipient, amount⟩ :: payments, ?_, ?_, ?_⟩
            · rw [FeeDistribution.pay, hrelated]
              simp only [okOr, ok_bind, if_neg hunpaid, hamount, hpay]
            · simp only [mintAll, hmintTo, Option.bind_eq_bind, Option.bind_some, hmint]
            · simp only [htotal, FeeDistribution.paidTotal, List.map_cons, List.sum_cons,
                Nat.add_assoc]

/-- What an instruction pays out of a distribution, if it succeeds. -/
def payments (b : Books T) : Instruction T → List FeePayment
  | .crank (.crankFeeDistribution f index indices _) =>
      match b.feeDistribution (f, index) with
      | none => []
      | some d =>
          match d.pay d.feeRecipientsState indices with
          | .ok (_, payments) => payments.map (FeePayment.mk (f, index))
          | .error _ => []
  | _ => []

end Books

end IndexDtf
