import IndexDtf.Folio.Account

/-!
# IndexDtf.Folio.FeeRecipients

Who shares the fees of a folio (`utils/accounts/fee_recipients.rs`), and a
distribution to them that is under way (`utils/accounts/fee_distribution.rs`).
-/

namespace IndexDtf

open Lib Decimal

/-- `FeeRecipient`. -/
structure FeeRecipient where
  recipient : Pubkey
  portion : ℕ
  deriving DecidableEq, Repr

/-- `FeeRecipient::default()`, an unused slot. -/
def FeeRecipient.default : FeeRecipient := ⟨Pubkey.default, 0⟩

/-- The `FeeRecipients` account. -/
structure FeeRecipients where
  distributionIndex : ℕ
  feeRecipients : List FeeRecipient
  deriving DecidableEq, Repr

/-- The `FeeDistribution` account. -/
structure FeeDistribution where
  index : ℕ
  cranker : Pubkey
  amountToDistribute : ℕ
  feeRecipientsState : List FeeRecipient
  deriving DecidableEq, Repr

namespace FeeRecipients

/-- A new account. -/
def init : FeeRecipients := ⟨0, List.replicate maxFeeRecipients FeeRecipient.default⟩

/-- `validate_fee_recipient_total_portions_and_check_for_duplicates`. -/
def validateRecipients (feeRecipients : List FeeRecipient) : Result Unit := do
  let total ← fitting u128Max .panic (feeRecipients.map (·.portion)).sum
  checkCondition (total = maxFeeRecipientsPortion) .InvalidFeeRecipientPortion
  checkCondition
    ((feeRecipients.map (·.recipient)).filter (· ≠ Pubkey.default)).Nodup
    .InvalidFeeRecipientContainsDuplicates

/-- `update_fee_recipients`. -/
def updateFeeRecipients (r : FeeRecipients) (toAdd : List FeeRecipient) (toRemove : List Pubkey) :
    Result FeeRecipients := do
  let kept := r.feeRecipients.filter fun fr =>
    fr.recipient ∉ toRemove ∧ fr.recipient ≠ Pubkey.default
  let added := toAdd.filter fun fr => fr.recipient ∉ toRemove
  let new := kept ++ added
  checkCondition (new.length ≤ maxFeeRecipients) .InvalidFeeRecipientCount
  let feeRecipients :=
    new ++ List.replicate (maxFeeRecipients - new.length) FeeRecipient.default
  validateRecipients feeRecipients
  .ok { r with feeRecipients }

/-- `is_empty`. -/
def isEmpty (r : FeeRecipients) : Bool := r.feeRecipients.all (·.recipient = Pubkey.default)

end FeeRecipients

namespace FeeDistribution

/-- `is_fully_distributed`. -/
def isFullyDistributed (d : FeeDistribution) : Bool :=
  d.feeRecipientsState.all (·.recipient = Pubkey.default)

/-- What a recipient with a portion gets of the amount to distribute. -/
def amountFor (d : FeeDistribution) (portion : ℕ) : Result ℕ := do
  let scaled ← (fromScaled d.amountToDistribute).mul (fromScaled portion)
  (← scaled.div (fromScaled maxFeeRecipientsPortion)).toTokenAmount .Floor

end FeeDistribution

/-- What `distribute_fees` finds to hand out. -/
structure FeeSplit where
  /-- The part of the DAO, minted at once. -/
  rawDao : ℕ
  /-- The part of the fee recipients, without the dust. -/
  scaledRecipientsMinusDust : ℕ
  deriving DecidableEq, Repr

namespace Folio

/-- The amounts `distribute_fees` hands out; without fee recipients the DAO gets all. -/
def feeSplit (folio : Folio) (hasFeeRecipients : Bool) : Result FeeSplit := do
  let rawRecipients ← (fromScaled folio.feeRecipientsPendingFeeShares).toTokenAmount .Floor
  let scaledRecipientsMinusDust ← checkedMulU128 rawRecipients d9
  let rawDao ← (fromScaled folio.daoPendingFeeShares).toTokenAmount .Floor
  let rawDao ← if hasFeeRecipients then .ok rawDao else checkedAddU64 rawDao rawRecipients
  .ok ⟨rawDao, scaledRecipientsMinusDust⟩

/-- The pending amounts after `distribute_fees` handed out a split. -/
def takeFees (folio : Folio) (split : FeeSplit) (hasFeeRecipients : Bool) : Result Folio := do
  let scaledDao ← checkedMulU128 split.rawDao d9
  let daoPendingFeeShares ←
    if hasFeeRecipients then checkedSub folio.daoPendingFeeShares scaledDao
    else .ok (folio.daoPendingFeeShares - scaledDao)
  let feeRecipientsPendingFeeShares ←
    subPlain folio.feeRecipientsPendingFeeShares split.scaledRecipientsMinusDust
  let feeRecipientsPendingFeeSharesToBeMinted ←
    if hasFeeRecipients then
      checkedAddU128 folio.feeRecipientsPendingFeeSharesToBeMinted split.scaledRecipientsMinusDust
    else .ok folio.feeRecipientsPendingFeeSharesToBeMinted
  .ok { folio with
    daoPendingFeeShares, feeRecipientsPendingFeeShares, feeRecipientsPendingFeeSharesToBeMinted }

end Folio

end IndexDtf
