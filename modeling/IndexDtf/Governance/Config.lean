import IndexDtf.Shared.Basic

/-!
# IndexDtf.Governance.Config

The configuration a vote depends on: the accounts `RealmV2`, `RealmConfigAccount` and
`GovernanceV2` of `governance/program/src/state`, and the checks and lookups made on them.

Only the current layouts are modelled: the translation of accounts written by older versions of
the program (`legacy.rs`) is not. Which account a key stands for is decided by the seeds it is
derived from, so a record is named by its seeds; distinct seeds have distinct addresses.
-/

namespace IndexDtf.Governance

open Lib

/-! ### Outcomes -/

/-- The errors of `governance/program/src/error.rs` that the modelled code raises. -/
inductive GovernanceError
  | InvalidGoverningTokenMint
  | GoverningTokenOwnerMustSign
  | GoverningTokenOwnerOrDelegateMustSign
  | AllVotesMustBeRelinquishedToWithdrawGoverningTokens
  | InvalidGoverningMintForTokenOwnerRecord
  | InvalidProposalForProposalTransaction
  | InvalidSignatoryAddress
  | SignatoryAlreadySignedOff
  | SignatoryMustSign
  | InvalidProposalOwnerAccount
  | InvalidProposalForVoterRecord
  | InvalidGoverningTokenOwnerForVoteRecord
  | InvalidVoteThresholdPercentage
  | ProposalAlreadyExists
  | VoteAlreadyExists
  | NotEnoughTokensToCreateProposal
  | InvalidStateCannotEditSignatories
  | InvalidStateCannotEditTransactions
  | InvalidStateCannotExecuteTransaction
  | CannotExecuteTransactionWithinHoldUpTime
  | TransactionAlreadyExecuted
  | InvalidTransactionIndex
  | TransactionAlreadyExists
  | InvalidStateCannotSignOff
  | InvalidStateCannotVote
  | InvalidStateCannotFinalize
  | InvalidStateCannotCancelProposal
  | VoteAlreadyRelinquished
  | CannotFinalizeVotingInProgress
  | ProposalVotingTimeExpired
  | InvalidGovernanceForProposal
  | InvalidGoverningMintForProposal
  | MintAuthorityMustSign
  | InvalidMintAuthority
  | MintHasNoAuthority
  | VoteThresholdTypeNotSupported
  | GovernancePdaMustSign
  | InvalidAuthorityForRealm
  | RealmHasNoAuthority
  | RealmAuthorityMustSign
  | RealmCouncilMintChangeIsNotSupported
  | InvalidMaxVoterWeightAbsoluteValue
  | InvalidMaxVoterWeightSupplyFraction
  | NotEnoughTokensToCreateGovernance
  | TooManyOutstandingProposals
  | AllProposalsMustBeFinalisedToWithdrawGoverningTokens
  | InvalidVoterWeightRecordForRealm
  | InvalidVoterWeightRecordForGoverningTokenMint
  | InvalidVoterWeightRecordForTokenOwner
  | VoterWeightRecordExpired
  | TokenOwnerRecordAlreadyExists
  | InvalidVoteChoiceWeightPercentage
  | InvalidProposalOptions
  | ProposalIsNotExecutable
  | DenyVoteIsNotAllowed
  | CannotExecuteDefeatedOption
  | VoterWeightRecordInvalidAction
  | VoterWeightRecordInvalidActionTarget
  | InvalidMaxVoterWeightRecordForRealm
  | InvalidMaxVoterWeightRecordForGoverningTokenMint
  | MaxVoterWeightRecordExpired
  | NotSupportedVoteType
  | AtLeastOneVoteThresholdRequired
  | CannotRelinquishInFinalizingState
  | CannotDepositDormantTokens
  | CannotWithdrawMembershipTokens
  | CannotRevokeGoverningTokens
  | InvalidRevokeAmount
  | CannotChangeCommunityTokenTypeToMembership
  | VoterWeightThresholdDisabled
  | VoteNotAllowedInCoolOffTime
  | CannotRefundProposalDeposit
  | InvalidProposalForProposalDeposit
  | InvalidDepositExemptProposalCount
  | GoverningTokenMintNotAllowedToVote
  | InvalidDepositPayerForProposalDeposit
  | InvalidStateToCompleteProposal
  | InvalidNumberOfVoteChoices
  | RankedVoteIsNotSupported
  | ChoiceWeightMustBe100Percent
  | SingleChoiceOnlyIsAllowed
  | AtLeastSingleChoiceIsRequired
  | TotalVoteWeightMustBe100Percent
  | InvalidMultiChoiceProposalParameters
  | InvalidGovernanceForRequiredSignatory
  | SignatoryRecordAlreadyExists
  | MissingRequiredSignatories
  | TokenOwnerRecordLockAuthorityMustSign
  | ExpiredTokenOwnerRecordLock
  | TokenOwnerRecordLocked
  | InvalidTokenOwnerRecordLockAuthority
  | TokenOwnerRecordLockAuthorityAlreadyExists
  | TokenOwnerRecordLockNotFound
  | TokenOwnerRecordLockAuthorityNotFound
  deriving DecidableEq, Repr

/-- Why an instruction of the governance program fails. -/
inductive Failure
  | error (e : GovernanceError)
  /-- `unwrap` of a failed operation, or an index out of range. -/
  | panic
  /-- An account that is missing, already there, or not of the program. -/
  | account
  /-- A call into another program that failed. -/
  | external
  deriving DecidableEq, Repr

/-- The outcome of a function of the governance program. -/
abbrev Outcome (α : Type) := Except Failure α

/-- Return the error `e` unless `c` holds. -/
def require (e : GovernanceError) (c : Prop) [Decidable c] : Outcome Unit :=
  guardOr (.error e) c

@[simp] theorem require_eq_ok {e : GovernanceError} {c : Prop} [Decidable c] {u : Unit} :
    require e c = .ok u ↔ c :=
  guardOr_eq_ok

/-! ### Machine integers -/

def u8Max : ℕ := 255
def u16Max : ℕ := 65535
def i64Max : ℕ := 9223372036854775807

/-- `checked_add(…).unwrap()`, in a type whose largest value is `max`. -/
def unwrapAdd (max a b : ℕ) : Outcome ℕ := if a + b ≤ max then .ok (a + b) else .error .panic

/-- `checked_sub(…).unwrap()`. -/
def unwrapSub (a b : ℕ) : Outcome ℕ := if b ≤ a then .ok (a - b) else .error .panic

@[simp] theorem unwrapAdd_eq_ok {max a b c : ℕ} :
    unwrapAdd max a b = .ok c ↔ a + b ≤ max ∧ a + b = c := by
  by_cases h : a + b ≤ max <;> simp [unwrapAdd, h]

@[simp] theorem unwrapSub_eq_ok {a b c : ℕ} : unwrapSub a b = .ok c ↔ b ≤ a ∧ a - b = c := by
  by_cases h : b ≤ a <;> simp [unwrapSub, h]

/-- `unwrap()` of a result. -/
def unwrap {α : Type} : Outcome α → Outcome α
  | .ok a => .ok a
  | .error _ => .error .panic

@[simp] theorem unwrap_eq_ok {α : Type} {x : Outcome α} {a : α} :
    unwrap x = .ok a ↔ x = .ok a := by
  cases x <;> simp [unwrap]

/-- An account passed to an instruction: its key, and whether it signed the transaction. -/
structure AccountInfo where
  key : Pubkey
  isSigner : Bool
  deriving DecidableEq, Repr

/-- An account of a plugin: the program that owns it, and its data. -/
structure AddinAccount (α : Type) where
  owner : Pubkey
  data : α
  deriving DecidableEq, Repr

/-! ### Votes and thresholds -/

/-- `VoteThreshold`. -/
inductive VoteThreshold
  | YesVotePercentage (percentage : ℕ)
  | QuorumPercentage (percentage : ℕ)
  | Disabled
  deriving DecidableEq, Repr

/-- `VoteTipping`. -/
inductive VoteTipping
  | Strict
  | Early
  | Disabled
  deriving DecidableEq, Repr

/-- `VoteKind`. -/
inductive VoteKind
  | Electorate
  | Veto
  deriving DecidableEq, Repr

/-- `MintMaxVoterWeightSource`. -/
inductive MintMaxVoterWeightSource
  | SupplyFraction (fraction : ℕ)
  | Absolute (value : ℕ)
  deriving DecidableEq, Repr

/-- `MintMaxVoterWeightSource::SUPPLY_FRACTION_BASE`. -/
def supplyFractionBase : ℕ := 10000000000

/-- `assert_is_valid_vote_threshold`. -/
def assertIsValidVoteThreshold : VoteThreshold → Outcome Unit
  | .YesVotePercentage percentage =>
      require .InvalidVoteThresholdPercentage (1 ≤ percentage ∧ percentage ≤ 100)
  | .QuorumPercentage _ => .error (.error .VoteThresholdTypeNotSupported)
  | .Disabled => .ok ()

/-- `get_min_vote_threshold_weight`: the percentage of the weight, rounded up, cast to `u64`. -/
def getMinVoteThresholdWeight (voteThreshold : VoteThreshold) (maxVoterWeight : ℕ) :
    Outcome ℕ :=
  match voteThreshold with
  | .YesVotePercentage percentage =>
      let numerator := percentage * maxVoterWeight
      let yesVoteThreshold := numerator / 100
      let yesVoteThreshold :=
        if yesVoteThreshold * 100 < numerator then yesVoteThreshold + 1 else yesVoteThreshold
      .ok (yesVoteThreshold % (u64Max + 1))
  | _ => .error (.error .VoteThresholdTypeNotSupported)

/-! ### The realm -/

/-- `GoverningTokenType`. -/
inductive GoverningTokenType
  | Liquid
  | Membership
  | Dormant
  deriving DecidableEq, Repr

/-- `GoverningTokenConfig`. -/
structure GoverningTokenConfig where
  voterWeightAddin : Option Pubkey := none
  maxVoterWeightAddin : Option Pubkey := none
  tokenType : GoverningTokenType := .Liquid
  lockAuthorities : List Pubkey := []
  deriving DecidableEq, Repr

/-- `RealmConfig`. -/
structure RealmConfig where
  minCommunityWeightToCreateGovernance : ℕ
  communityMintMaxVoterWeightSource : MintMaxVoterWeightSource
  councilMint : Option Pubkey
  deriving DecidableEq, Repr

/-- `RealmV2`. -/
structure RealmV2 where
  communityMint : Pubkey
  config : RealmConfig
  authority : Option Pubkey
  deriving DecidableEq, Repr

/-- `RealmConfigAccount`. -/
structure RealmConfigAccount where
  communityTokenConfig : GoverningTokenConfig := {}
  councilTokenConfig : GoverningTokenConfig := {}
  deriving DecidableEq, Repr

namespace RealmV2

/-- `assert_is_valid_governing_token_mint`. -/
def assertIsValidGoverningTokenMint (r : RealmV2) (governingTokenMint : Pubkey) : Outcome Unit :=
  require .InvalidGoverningTokenMint
    (r.communityMint = governingTokenMint ∨ r.config.councilMint = some governingTokenMint)

/-- `get_proposal_governing_token_mint_for_vote`: a veto is cast by the other population. -/
def getProposalGoverningTokenMintForVote (r : RealmV2) (voteGoverningTokenMint : Pubkey) :
    VoteKind → Outcome Pubkey
  | .Electorate => .ok voteGoverningTokenMint
  | .Veto =>
      if r.communityMint = voteGoverningTokenMint then okOr .panic r.config.councilMint
      else if r.config.councilMint = some voteGoverningTokenMint then .ok r.communityMint
      else .error (.error .InvalidGoverningTokenMint)

end RealmV2

namespace RealmConfigAccount

/-- `get_token_config`. -/
def getTokenConfig (c : RealmConfigAccount) (r : RealmV2) (governingTokenMint : Pubkey) :
    Outcome GoverningTokenConfig :=
  if governingTokenMint = r.communityMint then .ok c.communityTokenConfig
  else if some governingTokenMint = r.config.councilMint then .ok c.councilTokenConfig
  else .error (.error .InvalidGoverningTokenMint)

/-- `get_token_config_mut`, with what is written through the reference. -/
def setTokenConfig (c : RealmConfigAccount) (r : RealmV2) (governingTokenMint : Pubkey)
    (tokenConfig : GoverningTokenConfig) : RealmConfigAccount :=
  if governingTokenMint = r.communityMint then { c with communityTokenConfig := tokenConfig }
  else { c with councilTokenConfig := tokenConfig }

/-- `assert_can_revoke_governing_token`. -/
def assertCanRevokeGoverningToken (c : RealmConfigAccount) (r : RealmV2) (mint : Pubkey) :
    Outcome Unit := do
  let tokenConfig ← c.getTokenConfig r mint
  require .CannotRevokeGoverningTokens (tokenConfig.tokenType = .Membership)

/-- `assert_can_deposit_governing_token`. -/
def assertCanDepositGoverningToken (c : RealmConfigAccount) (r : RealmV2) (mint : Pubkey) :
    Outcome Unit := do
  let tokenConfig ← c.getTokenConfig r mint
  require .CannotDepositDormantTokens (tokenConfig.tokenType ≠ .Dormant)

/-- `assert_can_withdraw_governing_token`. -/
def assertCanWithdrawGoverningToken (c : RealmConfigAccount) (r : RealmV2) (mint : Pubkey) :
    Outcome Unit := do
  let tokenConfig ← c.getTokenConfig r mint
  require .CannotWithdrawMembershipTokens (tokenConfig.tokenType ≠ .Membership)

end RealmConfigAccount

/-! ### Governances -/

/-- `GovernanceConfig`. -/
structure GovernanceConfig where
  communityVoteThreshold : VoteThreshold
  minCommunityWeightToCreateProposal : ℕ
  transactionsHoldUpTime : ℕ
  votingBaseTime : ℕ
  communityVoteTipping : VoteTipping
  councilVoteThreshold : VoteThreshold
  councilVetoVoteThreshold : VoteThreshold
  minCouncilWeightToCreateProposal : ℕ
  councilVoteTipping : VoteTipping
  communityVetoVoteThreshold : VoteThreshold
  votingCoolOffTime : ℕ
  depositExemptProposalCount : ℕ
  deriving DecidableEq, Repr

/-- `GovernanceV2`. -/
structure GovernanceV2 where
  config : GovernanceConfig
  requiredSignatoriesCount : ℕ := 0
  activeProposalCount : ℕ := 0
  deriving DecidableEq, Repr

/-- `SECURITY_DEPOSIT_BASE_LAMPORTS`. -/
def securityDepositBaseLamports : ℕ := 100000000

/-- `assert_is_valid_governance_config`. -/
def assertIsValidGovernanceConfig (config : GovernanceConfig) : Outcome Unit := do
  assertIsValidVoteThreshold config.communityVoteThreshold
  assertIsValidVoteThreshold config.communityVetoVoteThreshold
  assertIsValidVoteThreshold config.councilVoteThreshold
  assertIsValidVoteThreshold config.councilVetoVoteThreshold
  require .AtLeastOneVoteThresholdRequired
    (¬ (config.communityVoteThreshold = .Disabled ∧ config.councilVoteThreshold = .Disabled))
  require .InvalidDepositExemptProposalCount (config.depositExemptProposalCount ≠ u8Max)

namespace GovernanceV2

/-- The threshold that is configured for a governing token and a kind of vote. -/
def voteThresholdOf (g : GovernanceV2) (r : RealmV2) (voteGoverningTokenMint : Pubkey)
    (voteKind : VoteKind) : Outcome VoteThreshold :=
  if r.communityMint = voteGoverningTokenMint then
    match voteKind with
    | .Electorate => .ok g.config.communityVoteThreshold
    | .Veto => .ok g.config.communityVetoVoteThreshold
  else if r.config.councilMint = some voteGoverningTokenMint then
    match voteKind with
    | .Electorate => .ok g.config.councilVoteThreshold
    | .Veto => .ok g.config.councilVetoVoteThreshold
  else .error (.error .InvalidGoverningTokenMint)

/-- `resolve_vote_threshold`. -/
def resolveVoteThreshold (g : GovernanceV2) (r : RealmV2) (voteGoverningTokenMint : Pubkey)
    (voteKind : VoteKind) : Outcome VoteThreshold := do
  let voteThreshold ← g.voteThresholdOf r voteGoverningTokenMint voteKind
  require .GoverningTokenMintNotAllowedToVote (voteThreshold ≠ .Disabled)
  .ok voteThreshold

/-- `assert_governing_token_mint_can_vote`. -/
def assertGoverningTokenMintCanVote (g : GovernanceV2) (r : RealmV2)
    (voteGoverningTokenMint : Pubkey) (voteKind : VoteKind) : Outcome Unit := do
  let _ ← g.resolveVoteThreshold r voteGoverningTokenMint voteKind
  .ok ()

/-- `get_vote_tipping`. -/
def getVoteTipping (g : GovernanceV2) (r : RealmV2) (governingTokenMint : Pubkey) :
    Outcome VoteTipping :=
  if governingTokenMint = r.communityMint then .ok g.config.communityVoteTipping
  else if some governingTokenMint = r.config.councilMint then .ok g.config.councilVoteTipping
  else .error (.error .InvalidGoverningTokenMint)

/-- `get_proposal_deposit_amount`, with its saturating operations. -/
def getProposalDepositAmount (g : GovernanceV2) : ℕ :=
  min u64Max ((g.activeProposalCount - g.config.depositExemptProposalCount)
    * securityDepositBaseLamports)

end GovernanceV2

end IndexDtf.Governance
