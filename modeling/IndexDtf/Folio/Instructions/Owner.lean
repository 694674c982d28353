import IndexDtf.Folio.Instructions.Crank
import IndexDtf.Folio.Instructions.User

/-!
# IndexDtf.Folio.Instructions.Owner

The instructions of the owner of a folio (`instructions/owner`): creating it, its
actors, its first basket and shares, its fees, and its migration to another version
of the program. `create_folio_from_old_program` and
`update_basket_in_new_folio_program` return before they do anything in a deployed
program, so what they are called for is the business of the other version.
-/

namespace IndexDtf

open Lib

/-- The arguments of `update_folio`; a mandate is its bytes. -/
structure FolioUpdate where
  scaledTvlFee : Option ℕ
  indexForFeeDistribution : Option ℕ
  scaledMintFee : Option ℕ
  auctionLength : Option ℕ
  feeRecipientsToAdd : List FeeRecipient
  feeRecipientsToRemove : List Pubkey
  mandate : Option (List ℕ)

/-- The instructions of owners. The folio is the first argument, the signer the second. -/
inductive OwnerInstruction (T : TokenProgram)
  /-- `init_folio` and `init_folio_2022`, which differ in the token program they use. -/
  | initFolio (f owner : Pubkey) (scaledTvlFee scaledMintFee auctionLength : ℕ)
      (mandate : List ℕ)
  | initOrUpdateActor (f owner newAuthority : Pubkey) (role : Role)
  | removeActor (f owner authority : Pubkey) (role : Role) (closeActor : Bool)
  | addToBasket (f owner : Pubkey) (accounts : List (TokenAccounts T)) (rawAmounts : List ℕ)
      (rawInitialShares : Option ℕ)
  | removeFromBasket (f owner tokenMint : Pubkey)
  | killFolio (f owner : Pubkey)
  | updateFolio (f owner : Pubkey) (update : FolioUpdate)
  | startFolioMigration (f owner newProgram : Pubkey) (maxAllowedPendingFees : ℕ)
      (handOver : T.Call)
  /-- Sent by anybody once the owner started the migration. -/
  | migrateFolioTokens (f newProgram newFolio : Pubkey)
      (accounts : List (TokenAccounts T × T.Call))

/-- The program itself, which a folio cannot migrate to. -/
def folioProgramId : Pubkey := 2

/-- `MAX_PADDED_STRING_LENGTH`. -/
def maxPaddedStringLength : ℕ := 128

namespace Books

variable {T : TokenProgram}

/-! ### Creation and actors -/

/-- `auction_length` is in its range. -/
def checkAuctionLength (auctionLength : ℕ) : Result Unit :=
  checkCondition (minAuctionLength ≤ auctionLength ∧ auctionLength ≤ maxAuctionLength)
    .InvalidAuctionLength

/-- `init_folio`. -/
def initFolio (b : Books T) (f owner : Pubkey) (scaledTvlFee scaledMintFee auctionLength : ℕ)
    (mandate : List ℕ) : Result (Books T) := do
  checkCondition (scaledTvlFee ≤ maxTvlFee) .TVLFeeTooHigh
  checkCondition (scaledMintFee ≤ maxMintFee) .InvalidMintFee
  checkAuctionLength auctionLength
  checkCondition (mandate.length ≤ maxPaddedStringLength) .InvalidMandateLength
  guardOr .account (b.folio f = none)
  guardOr .account (b.actor (f, owner) = none)
  let ledger ← invoke (T.createMint b.ledger f)
  let blank : Folio := {
    status := .Initializing, initializedAt := 0, folioTokenMint := f, tvlFee := 0,
    mintFee := scaledMintFee, daoPendingFeeShares := 0, feeRecipientsPendingFeeShares := 0,
    auctionLength, lastPoke := b.now, mandate,
    feeRecipientsPendingFeeSharesToBeMinted := 0 }
  let folio ← blank.setTvlFee scaledTvlFee
  .ok { b.setFolio f folio with
    ledger
    actor := Function.update b.actor (f, owner) (some (Role.addRole 0 .Owner))
    createdAt := Function.update b.createdAt f b.now }

/-- `init_or_update_actor`. The actor of the owner says which folio it is about. -/
def initOrUpdateActor (b : Books T) (f owner newAuthority : Pubkey) (role : Role) :
    Result (Books T) := do
  let _ ← b.validateFolioFor f owner [.Owner] anyStatus
  let roles := (b.actor (f, newAuthority)).getD 0
  .ok { b with
    actor := Function.update b.actor (f, newAuthority) (some (Role.addRole roles role)) }

/-- `remove_actor`. -/
def removeActor (b : Books T) (f owner authority : Pubkey) (role : Role) (closeActor : Bool) :
    Result (Books T) := do
  let roles ← load (b.actor (f, authority))
  let _ ← b.validateFolioFor f owner [.Owner] anyStatus
  .ok { b with
    actor := Function.update b.actor (f, authority)
      (if closeActor then none else some (Role.removeRole roles role)) }

/-! ### The basket -/

/-- A round of `add_to_basket`. -/
def addToBasketRound (f owner : Pubkey) (ledger : T.Ledger) (accounts : TokenAccounts T)
    (rawAmount : ℕ) : Result (T.Ledger × ℕ) := do
  let { mint, sender, recipient } := accounts
  checkCondition (recipient = T.associated (.folio f) mint) .InvalidRecipientTokenAccount
  checkCondition (T.isSupportedMint ledger mint = true ∧ T.isSupportedAccount ledger sender = true)
    .UnsupportedSPLToken
  loadMint mint
  let signer : Authority := if sender = T.associated (.userPendingBasket f owner) mint
    then .userPendingBasket f owner else .external owner
  let ledger ← invoke (T.transferChecked ledger signer sender recipient mint rawAmount)
  .ok (ledger, rawAmount)

/-- `mint_initial_shares`. Only an initializing folio mints; the status and the time of
initialization are set in any case. -/
def mintInitialShares (b : Books T) (f owner : Pubkey) (folio : Folio) (rawInitialShares : ℕ) :
    Result (Books T) := do
  let ledger ← if folio.status = .Initializing then
    invoke (T.mintTo b.ledger (.folio f) f (T.associated (.external owner) f) rawInitialShares)
    else .ok b.ledger
  .ok { b.setFolio f { folio with status := .Initialized, initializedAt := b.now } with ledger }

/-- `add_to_basket`. -/
def addToBasket (b : Books T) (f owner : Pubkey) (accounts : List (TokenAccounts T))
    (rawAmounts : List ℕ) (rawInitialShares : Option ℕ) : Result (Books T) := do
  let folio ← b.validateFolioFor f owner [.Owner] [.Initializing, .Initialized]
  let moves ← pairUp accounts rawAmounts
  let (ledger, moved) ← moveAll (addToBasketRound f owner) b.ledger moves
  let basket ← ((b.folioBasket f).getD FolioBasket.init).addTokensToBasket moved
  let b := { b with
    ledger, folioBasket := Function.update b.folioBasket f (some basket) }
  match rawInitialShares with
  | none => .ok b
  | some rawInitialShares => b.mintInitialShares f owner folio rawInitialShares

/-- `remove_from_basket`. -/
def removeFromBasket (b : Books T) (f owner tokenMint : Pubkey) : Result (Books T) := do
  let basket ← load (b.folioBasket f)
  let folio ← b.validateFolioFor f owner [.Owner] [.Initializing, .Initialized]
  let _ ← folio.getTotalSupply (T.supply b.ledger f)
  let basket ← basket.removeTokenMintFromBasket tokenMint
  .ok { b with folioBasket := Function.update b.folioBasket f (some basket) }

/-- `kill_folio`. -/
def killFolio (b : Books T) (f owner : Pubkey) : Result (Books T) := do
  let folio ← b.validateFolioFor f owner [.Owner] [.Initialized, .Initializing]
  .ok (b.setFolio f { folio with status := .Killed })

/-! ### Updates -/

/-- `UpdateFolio::distribute_fees`. -/
def distributeFeesForUpdate (b : Books T) (f owner : Pubkey) (index : Option ℕ) :
    Result (Books T) := do
  let folio ← load (b.folio f)
  if folio.status = .Killed ∨ folio.status = .Initialized then do
    let index ← okOr (.code .MissingFeeDistributionIndex) index
    b.distributeFees f owner index
  else .ok b

/-- The same, unless it is not to be done or was done before. -/
def distributeOnce (shouldDistribute : Bool) (b : Books T) (f owner : Pubkey)
    (index : Option ℕ) : Result (Books T) :=
  if shouldDistribute then b.distributeFeesForUpdate f owner index else .ok b

/-- The books with a change of the folio account. -/
def modifyFolio (b : Books T) (f : Pubkey) (change : Folio → Result Folio) : Result (Books T) := do
  let folio ← load (b.folio f)
  .ok (b.setFolio f (← change folio))

/-- The books with a `FeeRecipients` account. -/
def initFeeRecipients (b : Books T) (f : Pubkey) : Books T :=
  { b with
    feeRecipients := Function.update b.feeRecipients f
      (some ((b.feeRecipients f).getD FeeRecipients.init)) }

/-- A change of a fee: the fees so far are distributed first. The second component says
whether that is still to be done. -/
def updateFee (b : Books T) (shouldDistribute : Bool) (f owner : Pubkey) (index : Option ℕ)
    (fee : Option ℕ) (check : ℕ → Result Unit) (change : ℕ → Folio → Result Folio) :
    Result (Books T × Bool) :=
  match fee with
  | none => .ok (b, shouldDistribute)
  | some fee => do
      check fee
      let b ← distributeOnce shouldDistribute b f owner index
      .ok (← b.modifyFolio f (change fee), false)

/-- The change of the fee recipients. -/
def updateRecipients (b : Books T) (shouldDistribute : Bool) (f owner : Pubkey)
    (update : FolioUpdate) : Result (Books T) :=
  if update.feeRecipientsToAdd = [] ∧ update.feeRecipientsToRemove = [] then .ok b
  else do
    let b ← distributeOnce shouldDistribute b f owner update.indexForFeeDistribution
    let recipients ← load (b.feeRecipients f)
    let recipients ← recipients.updateFeeRecipients update.feeRecipientsToAdd
      update.feeRecipientsToRemove
    .ok { b with feeRecipients := Function.update b.feeRecipients f (some recipients) }

/-- The changes that concern no fees. -/
def updateSettings (b : Books T) (f : Pubkey) (update : FolioUpdate) : Result (Books T) :=
  b.modifyFolio f fun folio => do
    let folio ← match update.auctionLength with
      | none => .ok folio
      | some auctionLength => do
          checkAuctionLength auctionLength
          .ok { folio with auctionLength }
    match update.mandate with
    | none => .ok folio
    | some mandate => do
        checkCondition (mandate.length ≤ maxPaddedStringLength) .InvalidMandateLength
        .ok { folio with mandate }

/-- `update_folio`. When it creates the `FeeRecipients` account, no fees are distributed. -/
def updateFolio (b : Books T) (f owner : Pubkey) (update : FolioUpdate) : Result (Books T) := do
  let _ ← b.validateFolioFor f owner [.Owner] anyStatus
  let shouldDistribute := (b.feeRecipients f).isSome
  let b := b.initFeeRecipients f
  let (b, shouldDistribute) ← b.updateFee shouldDistribute f owner update.indexForFeeDistribution
    update.scaledTvlFee (fun fee => checkCondition (fee ≤ maxTvlFee) .TVLFeeTooHigh)
    (fun fee folio => folio.setTvlFee fee)
  let (b, shouldDistribute) ← b.updateFee shouldDistribute f owner update.indexForFeeDistribution
    update.scaledMintFee (fun fee => checkCondition (fee ≤ maxMintFee) .InvalidMintFee)
    (fun fee folio => .ok { folio with mintFee := fee })
  let b ← b.updateRecipients shouldDistribute f owner update
  b.updateSettings f update

/-! ### Migration -/

/-- The new program is registered and is not this one. -/
def checkNewProgram (b : Books T) (newProgram : Pubkey) : Result Unit := do
  let registrar ← load b.programRegistrar
  checkCondition (newProgram ∈ registrar) .ProgramNotInRegistrar
  checkCondition (newProgram ≠ folioProgramId) .CantMigrateToSameProgram

/-- `start_folio_migration`. `handOver` stands for the calls that make the new folio the
authority of the share mint and its metadata, and create it. -/
def startFolioMigration (b : Books T) (f owner newProgram : Pubkey)
    (maxAllowedPendingFees : ℕ) (handOver : T.Call) : Result (Books T) := do
  let folio ← b.validateFolioFor f owner [.Owner] [.Initialized, .Killed]
  let accountFeeUntil ← Folio.getAccountFeeUntil b.now
  checkCondition (accountFeeUntil ≤ folio.lastPoke) .MigrationFailedFolioNotPoked
  checkCondition (folio.daoPendingFeeShares < maxAllowedPendingFees)
    .MigrationFailedDaoPendingFeeSharesTooHigh
  checkCondition (folio.feeRecipientsPendingFeeShares < maxAllowedPendingFees)
    .MigrationFailedFeeRecipientsPendingFeeSharesTooHigh
  checkCondition (folio.feeRecipientsPendingFeeSharesToBeMinted < maxAllowedPendingFees)
    .MigrationFailedFeeRecipientsPendingFeeShareToBeMintedTooHigh
  let registrar ← load b.programRegistrar
  checkCondition (folioProgramId ∈ registrar) .ProgramNotInRegistrar
  b.checkNewProgram newProgram
  let ledger ← invoke (T.outside b.ledger handOver)
  .ok { b.setFolio f { folio with status := .Migrating } with ledger }

/-- The loop of `migrate_folio_tokens`: what the basket has of each mint goes to the new
folio, whose program is told of it. -/
def migrateAll (f newFolio : Pubkey) : T.Ledger → FolioBasket →
    List (TokenAccounts T × T.Call) → Result (T.Ledger × FolioBasket)
  | ledger, basket, [] => .ok (ledger, basket)
  | ledger, basket, (⟨mint, sender, recipient⟩, call) :: rest => do
      checkCondition (sender = T.associated (.folio f) mint) .InvalidSenderTokenAccount
      checkCondition (recipient = T.associated (.external newFolio) mint)
        .InvalidRecipientTokenAccount
      let rawMigrateBalance ← basket.getTokenAmountInFolioBasket mint
      loadMint mint
      let ledger ← invoke
        (T.transferChecked ledger (.folio f) sender recipient mint rawMigrateBalance)
      let ledger ← invoke (T.outside ledger call)
      let basket ← basket.removeTokenMintFromBasket mint
      migrateAll f newFolio ledger basket rest

/-- `migrate_folio_tokens`. -/
def migrateFolioTokens (b : Books T) (f newProgram newFolio : Pubkey)
    (accounts : List (TokenAccounts T × T.Call)) : Result (Books T) := do
  let _ ← b.validateFolio f [.Migrating]
  b.checkNewProgram newProgram
  let basket ← load (b.folioBasket f)
  let (ledger, basket) ← migrateAll f newFolio b.ledger basket accounts
  .ok { b with
    ledger, folioBasket := Function.update b.folioBasket f (some basket) }

/-- An instruction of an owner. -/
def owner (b : Books T) : OwnerInstruction T → Result (Books T)
  | .initFolio f owner scaledTvlFee scaledMintFee auctionLength mandate =>
      b.initFolio f owner scaledTvlFee scaledMintFee auctionLength mandate
  | .initOrUpdateActor f owner newAuthority role => b.initOrUpdateActor f owner newAuthority role
  | .removeActor f owner authority role closeActor =>
      b.removeActor f owner authority role closeActor
  | .addToBasket f owner accounts rawAmounts rawInitialShares =>
      b.addToBasket f owner accounts rawAmounts rawInitialShares
  | .removeFromBasket f owner tokenMint => b.removeFromBasket f owner tokenMint
  | .killFolio f owner => b.killFolio f owner
  | .updateFolio f owner update => b.updateFolio f owner update
  | .startFolioMigration f owner newProgram maxAllowedPendingFees handOver =>
      b.startFolioMigration f owner newProgram maxAllowedPendingFees handOver
  | .migrateFolioTokens f newProgram newFolio accounts =>
      b.migrateFolioTokens f newProgram newFolio accounts

end Books

end IndexDtf
