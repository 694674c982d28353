import IndexDtf.Folio.World

/-!
# IndexDtf.Folio.Instructions.Crank

The instructions anybody may send (`instructions/crank`), and those of the admin of
the DAO (`programs/folio-admin/src/instructions`): poking a folio, handing out its
fees, and setting how the fees are split with the DAO.
-/

namespace IndexDtf

open Lib Decimal

/-- The permissionless instructions. -/
inductive CrankInstruction (T : TokenProgram)
  | pokeFolio (f : Pubkey)
  | distributeFees (f user : Pubkey) (index : ℕ)
  | crankFeeDistribution (f : Pubkey) (index : ℕ) (indices : List ℕ)
      (recipients : List T.Address)

/-- The instructions of the folio-admin program; the first argument is the signer. -/
inductive AdminInstruction
  | setDaoFeeConfig (signer : Pubkey) (feeRecipient : Option Pubkey)
      (scaledDefaultFeeNumerator scaledDefaultFeeFloor : Option ℕ)
  /-- `feeRecipientsGiven` says whether the `fee_recipients` account passed is that of the
  folio or an empty one; any other account makes the instruction fail. -/
  | setFolioFeeConfig (signer f : Pubkey) (feeRecipientsGiven : Bool)
      (scaledFeeNumerator scaledFeeFloor : Option ℕ)
  | initProgramRegistrar (signer programId : Pubkey)
  | updateProgramRegistrar (signer : Pubkey) (programIds : List Pubkey) (remove : Bool)

namespace Books

variable {T : TokenProgram}

/-- `poke_folio`. -/
def pokeFolio (b : Books T) (f : Pubkey) : Result (Books T) := do
  let folio ← b.validateFolio f [.Initialized, .Killed]
  .ok (b.setFolio f (← b.poked f folio))

/-- `distribute_fees`: poke, mint the DAO's part, and leave the rest in an account the
recipients are paid from. -/
def distributeFees (b : Books T) (f user : Pubkey) (index : ℕ) : Result (Books T) := do
  let folio ← b.validateFolio f [.Initialized, .Killed]
  let recipients ← load (b.feeRecipients f)
  let next ← addU64 recipients.distributionIndex 1
  checkCondition (next = index) .InvalidDistributionIndex
  guardOr .account (b.feeDistribution (f, index) = none)
  let config ← load b.daoFeeConfig
  let folio ← b.poked f folio
  let hasFeeRecipients := !recipients.isEmpty
  let split ← folio.feeSplit hasFeeRecipients
  let ledger ← invoke (T.mintTo b.ledger (.folio f) f
    (T.associated (.external config.feeRecipient) f) split.rawDao)
  let distribution := if hasFeeRecipients then
    some ⟨index, user, split.scaledRecipientsMinusDust, recipients.feeRecipients⟩ else none
  let folio ← folio.takeFees split hasFeeRecipients
  let recipients := { recipients with distributionIndex := index }
  .ok { b.setFolio f folio with
    ledger
    feeDistribution := Function.update b.feeDistribution (f, index) distribution
    feeRecipients := Function.update b.feeRecipients f (some recipients) }

/-- The loop of `crank_fee_distribution`: what is minted to the recipients at the
indices that were not paid yet, and the total of it. -/
def payRecipients (f : Pubkey) (d : FeeDistribution) :
    T.Ledger → List FeeRecipient → ℕ → List ℕ → List T.Address →
      Result (T.Ledger × List FeeRecipient × ℕ)
  | ledger, state, total, [], _ => .ok (ledger, state, total)
  | _, _, _, _ :: _, [] => .error .account
  | ledger, state, total, index :: indices, address :: addresses => do
      let related ← okOr .panic state[index]?
      if related.recipient = Pubkey.default then
        payRecipients f d ledger state total indices addresses
      else do
        checkCondition (address = T.associated (.external related.recipient) f)
          .InvalidFeeRecipient
        let amount ← d.amountFor related.portion
        let ledger ← invoke (T.mintTo ledger (.folio f) f address amount)
        let total ← checkedAddU128 total amount
        let paid := { related with recipient := Pubkey.default }
        payRecipients f d ledger (state.set index paid) total indices addresses

/-- `crank_fee_distribution`. The account is closed once everybody was paid. -/
def crankFeeDistribution (b : Books T) (f : Pubkey) (index : ℕ) (indices : List ℕ)
    (recipients : List T.Address) : Result (Books T) := do
  let d ← load (b.feeDistribution (f, index))
  let folio ← b.validateFolio f [.Initialized, .Killed]
  let (ledger, state, total) ←
    payRecipients f d b.ledger d.feeRecipientsState 0 indices recipients
  let d := { d with feeRecipientsState := state }
  let scaledTotal ← (← fromTokenAmount total).toScaled .Floor
  let feeRecipientsPendingFeeSharesToBeMinted ←
    checkedSub folio.feeRecipientsPendingFeeSharesToBeMinted scaledTotal
  .ok { b.setFolio f { folio with feeRecipientsPendingFeeSharesToBeMinted } with
    ledger
    feeDistribution := Function.update b.feeDistribution (f, index)
      (if d.isFullyDistributed then none else some d) }

/-- A permissionless instruction. -/
def crank (b : Books T) : CrankInstruction T → Result (Books T)
  | .pokeFolio f => b.pokeFolio f
  | .distributeFees f user index => b.distributeFees f user index
  | .crankFeeDistribution f index indices recipients =>
      b.crankFeeDistribution f index indices recipients

/-! ### The admin -/

/-- `set_dao_fee_config`. -/
def setDaoFeeConfig (b : Books T) (signer : Pubkey) (feeRecipient : Option Pubkey)
    (scaledDefaultFeeNumerator scaledDefaultFeeFloor : Option ℕ) : Result (Books T) := do
  checkCondition (signer = admin) .Unauthorized
  checkFeeBounds scaledDefaultFeeNumerator scaledDefaultFeeFloor
  let config ← DaoFeeConfig.initOrUpdate b.daoFeeConfig feeRecipient
    scaledDefaultFeeNumerator scaledDefaultFeeFloor
  .ok { b with daoFeeConfig := some config }

/-- `distribute_fees_cpi`: nothing happens when the account passed is empty. -/
def distributeFeesCpi (b : Books T) (f user : Pubkey) (feeRecipientsGiven : Bool) :
    Result (Books T) :=
  match if feeRecipientsGiven then b.feeRecipients f else none with
  | none => .ok b
  | some recipients => do b.distributeFees f user (← addU64 recipients.distributionIndex 1)

theorem distributeFeesCpi_cases {b b' : Books T} {f user : Pubkey} {given : Bool}
    (h : b.distributeFeesCpi f user given = .ok b') :
    b' = b ∨ ∃ index, b.distributeFees f user index = .ok b' := by
  unfold distributeFeesCpi at h
  split at h
  · cases h
    exact .inl rfl
  · simp only [bind_eq_ok] at h
    obtain ⟨index, -, h⟩ := h
    exact .inr ⟨index, h⟩

/-- `set_folio_fee_config`. -/
def setFolioFeeConfig (b : Books T) (signer f : Pubkey) (feeRecipientsGiven : Bool)
    (scaledFeeNumerator scaledFeeFloor : Option ℕ) : Result (Books T) := do
  checkCondition (signer = admin) .Unauthorized
  checkFeeBounds scaledFeeNumerator scaledFeeFloor
  let daoFeeConfig ← load b.daoFeeConfig
  let b ← b.distributeFeesCpi f signer feeRecipientsGiven
  let config := FolioFeeConfig.initOrUpdate (b.folioFeeConfig f) daoFeeConfig
    scaledFeeNumerator scaledFeeFloor
  .ok { b with folioFeeConfig := Function.update b.folioFeeConfig f (some config) }

/-- An instruction of the folio-admin program. -/
def administer (b : Books T) : AdminInstruction → Result (Books T)
  | .setDaoFeeConfig signer feeRecipient numerator floor =>
      b.setDaoFeeConfig signer feeRecipient numerator floor
  | .setFolioFeeConfig signer f feeRecipientsGiven numerator floor =>
      b.setFolioFeeConfig signer f feeRecipientsGiven numerator floor
  | .initProgramRegistrar signer programId => do
      checkCondition (signer = admin) .Unauthorized
      guardOr .account (b.programRegistrar = none)
      .ok { b with programRegistrar := some (ProgramRegistrar.init programId) }
  | .updateProgramRegistrar signer programIds remove => do
      checkCondition (signer = admin) .Unauthorized
      let registrar ← load b.programRegistrar
      let registrar ← if remove then registrar.removeFromRegistrar programIds
        else registrar.addToRegistrar programIds
      .ok { b with programRegistrar := some registrar }

end Books

end IndexDtf
