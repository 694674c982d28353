import IndexDtf.Governance.Dao

/-!
# IndexDtf.Governance.Instructions.Records

The instructions on token owner records: deposits, withdrawals and revocations of governing
tokens, delegates, and the locks other programs put on a record.
-/

namespace IndexDtf.Governance

open Lib

/-- The keys that signed the instruction. -/
def RecordInstruction.signers : RecordInstruction → List Pubkey
  | .createTokenOwnerRecord .. => []
  | .depositGoverningTokens _ owner _ _ => if owner.isSigner then [owner.key] else []
  | .withdrawGoverningTokens _ owner _ => if owner.isSigner then [owner.key] else []
  | .revokeGoverningTokens _ _ revokeAuthority _ =>
      if revokeAuthority.isSigner then [revokeAuthority.key] else []
  | .setGovernanceDelegate _ governanceAuthority _ =>
      if governanceAuthority.isSigner then [governanceAuthority.key] else []
  | .setTokenOwnerRecordLock _ lockAuthority _ _ =>
      if lockAuthority.isSigner then [lockAuthority.key] else []
  | .relinquishTokenOwnerRecordLocks _ (some (lockAuthority, _)) =>
      if lockAuthority.isSigner then [lockAuthority.key] else []
  | .relinquishTokenOwnerRecordLocks _ none => []

namespace Dao

/-- `process_create_token_owner_record`. -/
def createTokenOwnerRecord (d : Dao) (mint owner : Pubkey) : Outcome Dao := do
  d.realm.assertIsValidGoverningTokenMint mint
  require .TokenOwnerRecordAlreadyExists (d.tokenOwnerRecords.lookup ⟨mint, owner⟩ = none)
  .ok (d.setTokenOwnerRecord ⟨mint, owner⟩
    { governingTokenMint := mint, governingTokenOwner := owner })

/-- The record a deposit goes to. The owner of a new one must have signed. -/
def recordForDeposit (d : Dao) (mint : Pubkey) (owner : AccountInfo) :
    Outcome TokenOwnerRecordV2 :=
  match d.tokenOwnerRecords.lookup ⟨mint, owner.key⟩ with
  | some t => .ok t
  | none => do
      require .GoverningTokenOwnerMustSign (owner.isSigner = true)
      .ok { governingTokenMint := mint, governingTokenOwner := owner.key }

/-- The tokens of a deposit reach the holding account: they are transferred, or minted. -/
def receive (d : Dao) (mint : Pubkey) (amount : ℕ) : Realm.Source → Outcome Dao
  | .account key => do
      guardOr .external (amount ≤ d.walletOf mint key)
      guardOr .external (d.holding mint + amount ≤ u64Max)
      .ok ((d.setWallet mint key (d.walletOf mint key - amount)).setHolding mint
        (d.holding mint + amount))
  | .mint => do
      guardOr .external (d.supply mint + amount ≤ u64Max)
      .ok ((d.setSupply mint (d.supply mint + amount)).setHolding mint
        (d.holding mint + amount))

/-- `process_deposit_governing_tokens`. -/
def depositGoverningTokens (d : Dao) (mint : Pubkey) (owner : AccountInfo)
    (source : Realm.Source) (amount : ℕ) : Outcome Dao := do
  d.realm.assertIsValidGoverningTokenMint mint
  d.realmConfig.assertCanDepositGoverningToken d.realm mint
  let t ← d.recordForDeposit mint owner
  let d ← d.receive mint amount source
  let governingTokenDepositAmount ← unwrapAdd u64Max t.governingTokenDepositAmount amount
  .ok (d.setTokenOwnerRecord ⟨mint, owner.key⟩ { t with governingTokenDepositAmount })

/-- `process_withdraw_governing_tokens`: the whole deposit, to any account. Sent to the holding
account itself it stays there, but the record is emptied all the same. -/
def withdrawGoverningTokens (d : Dao) (mint : Pubkey) (owner : AccountInfo)
    (destination : GoverningTokenAccount) : Outcome Dao := do
  require .GoverningTokenOwnerMustSign (owner.isSigner = true)
  d.realm.assertIsValidGoverningTokenMint mint
  d.realmConfig.assertCanWithdrawGoverningToken d.realm mint
  let t ← d.getTokenOwnerRecordData ⟨mint, owner.key⟩
  t.assertCanWithdrawGoverningTokens d.unixTimestamp
  guardOr .external (t.governingTokenDepositAmount ≤ d.holding mint)
  let d := d.setHolding mint (d.holding mint - t.governingTokenDepositAmount)
  .ok ((d.credit mint t.governingTokenDepositAmount destination).setTokenOwnerRecord
    ⟨mint, owner.key⟩ { t with governingTokenDepositAmount := 0 })

/-- `assert_spl_token_mint_authority_is_signer`. -/
def assertMintAuthorityIsSigner (d : Dao) (mint : Pubkey) (mintAuthority : AccountInfo) :
    Outcome Unit := do
  require .MintHasNoAuthority (d.mintAuthority mint ≠ none)
  require .InvalidMintAuthority (d.mintAuthority mint = some mintAuthority.key)
  require .MintAuthorityMustSign (mintAuthority.isSigner = true)

/-- A revocation is signed by the owner, or by the authority of the mint. -/
def assertCanRevoke (d : Dao) (mint : Pubkey) (t : TokenOwnerRecordV2)
    (revokeAuthority : AccountInfo) : Outcome Unit :=
  if revokeAuthority.key = t.governingTokenOwner then
    require .GoverningTokenOwnerMustSign (revokeAuthority.isSigner = true)
  else d.assertMintAuthorityIsSigner mint revokeAuthority

/-- `process_revoke_governing_tokens`. -/
def revokeGoverningTokens (d : Dao) (mint : Pubkey) (record : TokenOwnerRecordSeeds)
    (revokeAuthority : AccountInfo) (amount : ℕ) : Outcome Dao := do
  d.realm.assertIsValidGoverningTokenMint mint
  d.realmConfig.assertCanRevokeGoverningToken d.realm mint
  let t ← d.getTokenOwnerRecordDataForGoverningMint record mint
  d.assertCanRevoke mint t revokeAuthority
  require .InvalidRevokeAmount (amount ≤ t.governingTokenDepositAmount)
  guardOr .external (amount ≤ d.holding mint ∧ amount ≤ d.supply mint)
  .ok (((d.setHolding mint (d.holding mint - amount)).setSupply mint
      (d.supply mint - amount)).setTokenOwnerRecord record
    { t with governingTokenDepositAmount := t.governingTokenDepositAmount - amount })

/-- `process_set_governance_delegate`. -/
def setGovernanceDelegate (d : Dao) (record : TokenOwnerRecordSeeds)
    (governanceAuthority : AccountInfo) (newGovernanceDelegate : Option Pubkey) :
    Outcome Dao := do
  let t ← d.getTokenOwnerRecordData record
  t.assertTokenOwnerOrDelegateIsSigner governanceAuthority
  .ok (d.setTokenOwnerRecord record { t with governanceDelegate := newGovernanceDelegate })

/-- `process_set_token_owner_record_lock`. -/
def setTokenOwnerRecordLock (d : Dao) (record : TokenOwnerRecordSeeds)
    (lockAuthority : AccountInfo) (lockId : ℕ) (expiry : Option ℕ) : Outcome Dao := do
  require .TokenOwnerRecordLockAuthorityMustSign (lockAuthority.isSigner = true)
  let lock : TokenOwnerRecordLock := { lockId, authority := lockAuthority.key, expiry }
  require .ExpiredTokenOwnerRecordLock (lock.isExpired d.unixTimestamp = false)
  let t ← d.getTokenOwnerRecordData record
  let tokenConfig ← d.realmConfig.getTokenConfig d.realm t.governingTokenMint
  require .InvalidTokenOwnerRecordLockAuthority (lockAuthority.key ∈ tokenConfig.lockAuthorities)
  .ok (d.setTokenOwnerRecord record ((t.removeExpiredLocks d.unixTimestamp).upsertLock lock))

/-- The locks of an authority that are given up by their ids. An authority that is no longer
configured need not sign. -/
def removeLocks (d : Dao) (t : TokenOwnerRecordV2) :
    Option (AccountInfo × List ℕ) → Outcome TokenOwnerRecordV2
  | some (lockAuthority, lockIds) => do
      let tokenConfig ← d.realmConfig.getTokenConfig d.realm t.governingTokenMint
      require .TokenOwnerRecordLockAuthorityMustSign
        (lockAuthority.key ∈ tokenConfig.lockAuthorities → lockAuthority.isSigner = true)
      lockIds.foldlM (fun t lockId => t.removeLock lockId lockAuthority.key) t
  | none => .ok t

/-- `process_relinquish_token_owner_record_locks`. -/
def relinquishTokenOwnerRecordLocks (d : Dao) (record : TokenOwnerRecordSeeds)
    (locks : Option (AccountInfo × List ℕ)) : Outcome Dao := do
  let t ← d.getTokenOwnerRecordData record
  let t ← d.removeLocks t locks
  .ok (d.setTokenOwnerRecord record (t.removeExpiredLocks d.unixTimestamp))

/-- The instructions on token owner records. -/
def stepRecord (d : Dao) : RecordInstruction → Outcome Dao
  | .createTokenOwnerRecord mint owner => d.createTokenOwnerRecord mint owner
  | .depositGoverningTokens mint owner source amount =>
      d.depositGoverningTokens mint owner source amount
  | .withdrawGoverningTokens mint owner destination =>
      d.withdrawGoverningTokens mint owner destination
  | .revokeGoverningTokens mint record revokeAuthority amount =>
      d.revokeGoverningTokens mint record revokeAuthority amount
  | .setGovernanceDelegate record governanceAuthority newGovernanceDelegate =>
      d.setGovernanceDelegate record governanceAuthority newGovernanceDelegate
  | .setTokenOwnerRecordLock record lockAuthority lockId expiry =>
      d.setTokenOwnerRecordLock record lockAuthority lockId expiry
  | .relinquishTokenOwnerRecordLocks record locks =>
      d.relinquishTokenOwnerRecordLocks record locks

end Dao

end IndexDtf.Governance
