import IndexDtf.Governance.Config

/-!
# IndexDtf.Governance.Records

The records a voter leaves in governance: `TokenOwnerRecordV2` with its locks, and
`VoteRecordV2`, of `governance/program/src/state`.
-/

namespace IndexDtf.Governance

open Lib

/-! ### Plugins -/

/-- `VoterWeightAction`. -/
inductive VoterWeightAction
  | CastVote
  | CommentProposal
  | CreateGovernance
  | CreateProposal
  | SignOffProposal
  deriving DecidableEq, Repr

/-- `VoterWeightRecord`. -/
structure VoterWeightRecord where
  realm : Pubkey
  governingTokenMint : Pubkey
  governingTokenOwner : Pubkey
  voterWeight : ℕ
  voterWeightExpiry : Option ℕ := none
  weightAction : Option VoterWeightAction := none
  weightActionTarget : Option Pubkey := none
  deriving DecidableEq, Repr

/-- `MaxVoterWeightRecord`. -/
structure MaxVoterWeightRecord where
  realm : Pubkey
  governingTokenMint : Pubkey
  maxVoterWeight : ℕ
  maxVoterWeightExpiry : Option ℕ := none
  deriving DecidableEq, Repr

/-- `assert_is_valid_voter_weight`. -/
def assertIsValidVoterWeight (record : VoterWeightRecord) (slot : ℕ)
    (weightAction : VoterWeightAction) (weightActionTarget : Pubkey) : Outcome Unit := do
  require .VoterWeightRecordExpired (∀ expiry ∈ record.voterWeightExpiry, slot ≤ expiry)
  require .VoterWeightRecordInvalidAction (∀ action ∈ record.weightAction, action = weightAction)
  require .VoterWeightRecordInvalidActionTarget
    (∀ target ∈ record.weightActionTarget, target = weightActionTarget)

/-- `assert_is_valid_max_voter_weight`. -/
def assertIsValidMaxVoterWeight (record : MaxVoterWeightRecord) (slot : ℕ) : Outcome Unit :=
  require .MaxVoterWeightRecordExpired (∀ expiry ∈ record.maxVoterWeightExpiry, slot ≤ expiry)

/-- The data of a plugin's account, which must have been passed and belong to the plugin. -/
def getAddinData {α : Type} (addin : Pubkey) (account : Option (AddinAccount α)) : Outcome α := do
  let account ← okOr .account account
  guardOr .account (account.owner = addin)
  .ok account.data

/-! ### Token owner records -/

/-- `TokenOwnerRecordLock`. -/
structure TokenOwnerRecordLock where
  lockId : ℕ
  authority : Pubkey
  expiry : Option ℕ
  deriving DecidableEq, Repr

/-- `is_expired`. -/
def TokenOwnerRecordLock.isExpired (lock : TokenOwnerRecordLock) (currentUnixTimestamp : ℕ) :
    Bool :=
  lock.expiry.any (· < currentUnixTimestamp)

/-- The seeds of a token owner record, next to the realm. -/
structure TokenOwnerRecordSeeds where
  governingTokenMint : Pubkey
  governingTokenOwner : Pubkey
  deriving DecidableEq, Repr

/-- `TokenOwnerRecordV2`. -/
structure TokenOwnerRecordV2 where
  governingTokenMint : Pubkey
  governingTokenOwner : Pubkey
  governingTokenDepositAmount : ℕ := 0
  unrelinquishedVotesCount : ℕ := 0
  outstandingProposalCount : ℕ := 0
  governanceDelegate : Option Pubkey := none
  locks : List TokenOwnerRecordLock := []
  deriving DecidableEq, Repr

namespace TokenOwnerRecordV2

/-- `assert_token_owner_or_delegate_is_signer`. -/
def assertTokenOwnerOrDelegateIsSigner (t : TokenOwnerRecordV2)
    (governanceAuthority : AccountInfo) : Outcome Unit :=
  require .GoverningTokenOwnerOrDelegateMustSign (governanceAuthority.isSigner = true ∧
    (t.governingTokenOwner = governanceAuthority.key ∨
      t.governanceDelegate = some governanceAuthority.key))

/-- What a record of a governing token needs, of two values for the two tokens. -/
def minWeightOf (t : TokenOwnerRecordV2) (r : RealmV2) (community council : ℕ) : Outcome ℕ :=
  if t.governingTokenMint = r.communityMint then .ok community
  else if some t.governingTokenMint = r.config.councilMint then .ok council
  else .error (.error .InvalidGoverningTokenMint)

/-- `assert_can_create_proposal`. -/
def assertCanCreateProposal (t : TokenOwnerRecordV2) (r : RealmV2) (config : GovernanceConfig)
    (voterWeight : ℕ) : Outcome Unit := do
  let minWeightToCreateProposal ← t.minWeightOf r config.minCommunityWeightToCreateProposal
    config.minCouncilWeightToCreateProposal
  require .VoterWeightThresholdDisabled (minWeightToCreateProposal ≠ u64Max)
  require .NotEnoughTokensToCreateProposal (minWeightToCreateProposal ≤ voterWeight)
  require .TooManyOutstandingProposals (t.outstandingProposalCount < 10)

/-- `assert_can_create_governance`. -/
def assertCanCreateGovernance (t : TokenOwnerRecordV2) (r : RealmV2) (voterWeight : ℕ) :
    Outcome Unit := do
  let minWeightToCreateGovernance ←
    t.minWeightOf r r.config.minCommunityWeightToCreateGovernance 1
  require .VoterWeightThresholdDisabled (minWeightToCreateGovernance ≠ u64Max)
  require .NotEnoughTokensToCreateGovernance (minWeightToCreateGovernance ≤ voterWeight)

/-- `assert_can_withdraw_governing_tokens`. -/
def assertCanWithdrawGoverningTokens (t : TokenOwnerRecordV2) (currentUnixTimestamp : ℕ) :
    Outcome Unit := do
  require .AllVotesMustBeRelinquishedToWithdrawGoverningTokens (t.unrelinquishedVotesCount = 0)
  require .AllProposalsMustBeFinalisedToWithdrawGoverningTokens (t.outstandingProposalCount = 0)
  require .TokenOwnerRecordLocked
    (∀ lock ∈ t.locks, lock.isExpired currentUnixTimestamp = true)

/-- `decrease_outstanding_proposal_count`. -/
def decreaseOutstandingProposalCount (t : TokenOwnerRecordV2) : TokenOwnerRecordV2 :=
  { t with outstandingProposalCount := t.outstandingProposalCount - 1 }

/-- The weight of a voter a plugin gives. -/
def addinVoterWeight (t : TokenOwnerRecordV2) (realm : Pubkey) (slot : ℕ) (addin : Pubkey)
    (voterWeightRecord : Option (AddinAccount VoterWeightRecord))
    (weightAction : VoterWeightAction) (weightActionTarget : Pubkey) : Outcome ℕ := do
  let record ← getAddinData addin voterWeightRecord
  require .InvalidVoterWeightRecordForRealm (record.realm = realm)
  require .InvalidVoterWeightRecordForGoverningTokenMint
    (record.governingTokenMint = t.governingTokenMint)
  require .InvalidVoterWeightRecordForTokenOwner
    (record.governingTokenOwner = t.governingTokenOwner)
  assertIsValidVoterWeight record slot weightAction weightActionTarget
  .ok record.voterWeight

/-- `resolve_voter_weight`: the deposit, or what the plugin of the token says. -/
def resolveVoterWeight (t : TokenOwnerRecordV2) (realm : Pubkey) (r : RealmV2)
    (c : RealmConfigAccount) (slot : ℕ)
    (voterWeightRecord : Option (AddinAccount VoterWeightRecord))
    (weightAction : VoterWeightAction) (weightActionTarget : Pubkey) : Outcome ℕ := do
  let tokenConfig ← c.getTokenConfig r t.governingTokenMint
  match tokenConfig.voterWeightAddin with
  | some addin =>
      t.addinVoterWeight realm slot addin voterWeightRecord weightAction weightActionTarget
  | none => .ok t.governingTokenDepositAmount

/-- `remove_expired_locks`. -/
def removeExpiredLocks (t : TokenOwnerRecordV2) (currentUnixTimestamp : ℕ) :
    TokenOwnerRecordV2 :=
  { t with locks := t.locks.filter fun lock => !lock.isExpired currentUnixTimestamp }

/-- Whether a lock is the one an authority issued under an id. -/
def isLock (lockId : ℕ) (lockAuthority : Pubkey) (lock : TokenOwnerRecordLock) : Bool :=
  lock.lockId = lockId ∧ lock.authority = lockAuthority

/-- `remove_lock`: the first lock of that id and authority. -/
def removeLock (t : TokenOwnerRecordV2) (lockId : ℕ) (lockAuthority : Pubkey) :
    Outcome TokenOwnerRecordV2 :=
  if t.locks.any (isLock lockId lockAuthority) then
    .ok { t with locks := t.locks.eraseP (isLock lockId lockAuthority) }
  else .error (.error .TokenOwnerRecordLockNotFound)

/-- Replace the first lock of the same id and authority, or add the lock at the end. -/
def upsert (lock : TokenOwnerRecordLock) : List TokenOwnerRecordLock → List TokenOwnerRecordLock
  | [] => [lock]
  | existingLock :: rest =>
      if isLock lock.lockId lock.authority existingLock then lock :: rest
      else existingLock :: upsert lock rest

/-- `upsert_lock`. -/
def upsertLock (t : TokenOwnerRecordV2) (lock : TokenOwnerRecordLock) : TokenOwnerRecordV2 :=
  { t with locks := upsert lock t.locks }

end TokenOwnerRecordV2

/-! ### Votes -/

/-- `VoteChoice`. -/
structure VoteChoice where
  rank : ℕ
  weightPercentage : ℕ
  deriving DecidableEq, Repr

/-- `get_choice_weight`. -/
def VoteChoice.getChoiceWeight (choice : VoteChoice) (voterWeight : ℕ) : Outcome ℕ :=
  if choice.weightPercentage = 100 then .ok voterWeight
  else if choice.weightPercentage ≤ 99 then .ok (voterWeight * choice.weightPercentage / 100)
  else .error (.error .InvalidVoteChoiceWeightPercentage)

/-- `Vote`. -/
inductive Vote
  | Approve (choices : List VoteChoice)
  | Deny
  | Abstain
  | Veto
  deriving DecidableEq, Repr

/-- `get_vote_kind`. -/
def getVoteKind : Vote → VoteKind
  | .Approve _ | .Deny | .Abstain => .Electorate
  | .Veto => .Veto

/-- The seeds of a vote record. -/
structure VoteRecordSeeds where
  proposal : Pubkey
  tokenOwnerRecord : TokenOwnerRecordSeeds
  deriving DecidableEq, Repr

/-- `VoteRecordV2`. -/
structure VoteRecordV2 where
  proposal : Pubkey
  governingTokenOwner : Pubkey
  isRelinquished : Bool
  voterWeight : ℕ
  vote : Vote
  deriving DecidableEq, Repr

/-- `assert_can_relinquish_vote`. -/
def VoteRecordV2.assertCanRelinquishVote (v : VoteRecordV2) : Outcome Unit :=
  require .VoteAlreadyRelinquished (v.isRelinquished = false)

end IndexDtf.Governance
