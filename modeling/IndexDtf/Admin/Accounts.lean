import IndexDtf.Folio.Account

/-!
# IndexDtf.Admin.Accounts

The accounts of the folio-admin program (`programs/folio-admin/src/utils/accounts`):
the DAO's fee configuration, its override for a single folio, and the registrar of
the programs a folio may migrate to.
-/

namespace IndexDtf

open Lib

/-- `DAOFeeConfig`. -/
structure DaoFeeConfig where
  feeRecipient : Pubkey
  defaultFeeNumerator : ℕ
  defaultFeeFloor : ℕ
  deriving DecidableEq, Repr

/-- `FolioFeeConfig`. -/
structure FolioFeeConfig where
  feeNumerator : ℕ
  feeFloor : ℕ
  deriving DecidableEq, Repr

/-- The checks both setters make on a numerator and a floor. -/
def checkFeeBounds (scaledFeeNumerator scaledFeeFloor : Option ℕ) : Result Unit := do
  checkCondition (∀ n ∈ scaledFeeNumerator, n ≤ maxDaoFee) .InvalidFeeNumerator
  checkCondition (∀ n ∈ scaledFeeFloor, n ≤ maxFeeFloor) .InvalidFeeFloor

namespace DaoFeeConfig

/-- `init_or_update_dao_fee_config`. -/
def initOrUpdate (config : Option DaoFeeConfig) (feeRecipient : Option Pubkey)
    (scaledDefaultFeeNumerator scaledDefaultFeeFloor : Option ℕ) : Result DaoFeeConfig :=
  match config with
  | none => do
      let feeRecipient ← okOr (.code .InvalidFeeRecipient) feeRecipient
      .ok ⟨feeRecipient, scaledDefaultFeeNumerator.getD maxDaoFee,
        scaledDefaultFeeFloor.getD maxFeeFloor⟩
  | some config =>
      .ok ⟨feeRecipient.getD config.feeRecipient,
        scaledDefaultFeeNumerator.getD config.defaultFeeNumerator,
        scaledDefaultFeeFloor.getD config.defaultFeeFloor⟩

/-- `get_fee_details`: the DAO's part of the fees of a folio. The recipient is
always `fee_recipient`. -/
def getFeeDetails (config : DaoFeeConfig) (folioFeeConfig : Option FolioFeeConfig) : DaoFee :=
  match folioFeeConfig with
  | none => ⟨config.defaultFeeNumerator, feeDenominator, config.defaultFeeFloor⟩
  | some own => ⟨own.feeNumerator, feeDenominator, own.feeFloor⟩

end DaoFeeConfig

/-- `init_or_update_folio_fee_config`. -/
def FolioFeeConfig.initOrUpdate (config : Option FolioFeeConfig) (daoFeeConfig : DaoFeeConfig)
    (feeNumerator feeFloor : Option ℕ) : FolioFeeConfig :=
  match config with
  | none =>
      ⟨feeNumerator.getD daoFeeConfig.defaultFeeNumerator,
        feeFloor.getD daoFeeConfig.defaultFeeFloor⟩
  | some config => ⟨feeNumerator.getD config.feeNumerator, feeFloor.getD config.feeFloor⟩

/-- The accepted programs of the `ProgramRegistrar`; the default key is a free slot. -/
abbrev ProgramRegistrar := List Pubkey

namespace ProgramRegistrar

/-- `MAX_ACCEPTED_PROGRAMS`. -/
def maxAcceptedPrograms : ℕ := 10

/-- The registrar of `init_program_registrar`. -/
def init (programId : Pubkey) : ProgramRegistrar :=
  programId :: List.replicate (maxAcceptedPrograms - 1) Pubkey.default

/-- The free slots, filled from the front. -/
def fill : ProgramRegistrar → List Pubkey → ProgramRegistrar
  | slots, [] => slots
  | [], _ => []
  | slot :: rest, id :: ids =>
      if slot = Pubkey.default then id :: fill rest ids else slot :: fill rest (id :: ids)

/-- `add_to_registrar`, which takes the new programs from the back. -/
def addToRegistrar (registrar : ProgramRegistrar) (programIds : List Pubkey) :
    Result ProgramRegistrar := do
  checkCondition (programIds.length ≤ registrar.count Pubkey.default) .InvalidProgramCount
  .ok (fill registrar programIds.reverse)

/-- `remove_from_registrar`. -/
def removeFromRegistrar (registrar : ProgramRegistrar) (programIds : List Pubkey) :
    Result ProgramRegistrar := do
  checkCondition ((registrar.filter (· ∈ programIds)).length = programIds.length)
    .ProgramNotInRegistrar
  .ok (registrar.map fun p => if p ∈ programIds then Pubkey.default else p)

end ProgramRegistrar

end IndexDtf
