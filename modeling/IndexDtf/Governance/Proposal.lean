import IndexDtf.Governance.Records

/-!
# IndexDtf.Governance.Proposal

`governance/program/src/state/proposal.rs`: a proposal, the checks that say what may be done
with it in which state, and how the votes cast on it decide it.

A vote is decided either early, when the vote just cast *tips* it (`tryTipVote`), or after the
voting time (`finalizeVote`). Both compare the weights of the options with a threshold that is
a percentage of the weight that can be cast at most.
-/

namespace IndexDtf.Governance

open Lib

/-! ### The account -/

/-- `ProposalState`. -/
inductive ProposalState
  | Draft
  | SigningOff
  | Voting
  | Succeeded
  | Executing
  | Completed
  | Cancelled
  | Defeated
  | ExecutingWithErrors
  | Vetoed
  deriving DecidableEq, Repr

/-- `OptionVoteResult`. -/
inductive OptionVoteResult
  | None
  | Succeeded
  | Defeated
  deriving DecidableEq, Repr

/-- `ProposalOption`. -/
structure ProposalOption where
  voteWeight : ℕ := 0
  voteResult : OptionVoteResult := .None
  transactionsExecutedCount : ℕ := 0
  transactionsCount : ℕ := 0
  transactionsNextIndex : ℕ := 0
  deriving DecidableEq, Repr

/-- `MultiChoiceType`. -/
inductive MultiChoiceType
  | FullWeight
  | Weighted
  deriving DecidableEq, Repr

/-- `VoteType`. -/
inductive VoteType
  | SingleChoice
  | MultiChoice (choiceType : MultiChoiceType)
      (minVoterOptions maxVoterOptions maxWinningOptions : ℕ)
  deriving DecidableEq, Repr

/-- `ProposalV2`. -/
structure ProposalV2 where
  governance : Pubkey
  governingTokenMint : Pubkey
  state : ProposalState := .Draft
  tokenOwnerRecord : TokenOwnerRecordSeeds
  signatoriesCount : ℕ := 0
  signatoriesSignedOffCount : ℕ := 0
  voteType : VoteType
  options : List ProposalOption
  denyVoteWeight : Option ℕ
  vetoVoteWeight : ℕ := 0
  draftAt : ℕ
  signingOffAt : Option ℕ := none
  votingAt : Option ℕ := none
  votingAtSlot : Option ℕ := none
  votingCompletedAt : Option ℕ := none
  executingAt : Option ℕ := none
  closedAt : Option ℕ := none
  maxVoteWeight : Option ℕ := none
  voteThreshold : Option VoteThreshold := none
  deriving DecidableEq, Repr

/-- `TransactionExecutionStatus`. -/
inductive TransactionExecutionStatus
  | None
  | Success
  | Error
  deriving DecidableEq, Repr

/-- `ProposalTransactionV2`, whatever its instructions are. -/
structure ProposalTransactionV2 (ι : Type) where
  proposal : Pubkey
  optionIndex : ℕ
  transactionIndex : ℕ
  instructions : List ι
  executedAt : Option ℕ := none
  executionStatus : TransactionExecutionStatus := .None

namespace ProposalV2

/-! ### Which state admits what -/

/-- `assert_can_edit_signatories`. -/
def assertCanEditSignatories (p : ProposalV2) : Outcome Unit :=
  require .InvalidStateCannotEditSignatories (p.state = .Draft)

/-- `assert_can_sign_off`. -/
def assertCanSignOff (p : ProposalV2) : Outcome Unit :=
  match p.state with
  | .Draft | .SigningOff => .ok ()
  | _ => .error (.error .InvalidStateCannotSignOff)

/-- `assert_can_refund_proposal_deposit`. -/
def assertCanRefundProposalDeposit (p : ProposalV2) : Outcome Unit :=
  match p.state with
  | .Draft | .SigningOff | .Voting => .error (.error .CannotRefundProposalDeposit)
  | _ => .ok ()

/-- `voting_base_time_end`. -/
def votingBaseTimeEnd (p : ProposalV2) (config : GovernanceConfig) : Outcome ℕ := do
  let votingAt ← okOr .panic p.votingAt
  unwrapAdd i64Max votingAt config.votingBaseTime

/-- `has_voting_base_time_ended`. -/
def hasVotingBaseTimeEnded (p : ProposalV2) (config : GovernanceConfig)
    (currentUnixTimestamp : ℕ) : Outcome Bool := do
  let votingBaseTimeEnd ← p.votingBaseTimeEnd config
  .ok (votingBaseTimeEnd < currentUnixTimestamp)

/-- `voting_max_time_end`. -/
def votingMaxTimeEnd (p : ProposalV2) (config : GovernanceConfig) : Outcome ℕ := do
  let votingBaseTimeEnd ← p.votingBaseTimeEnd config
  unwrapAdd i64Max votingBaseTimeEnd config.votingCoolOffTime

/-- `has_voting_max_time_ended`. -/
def hasVotingMaxTimeEnded (p : ProposalV2) (config : GovernanceConfig)
    (currentUnixTimestamp : ℕ) : Outcome Bool := do
  let votingMaxTimeEnd ← p.votingMaxTimeEnd config
  .ok (votingMaxTimeEnd < currentUnixTimestamp)

/-- `assert_can_cast_vote`: in the cool off time only votes against. -/
def assertCanCastVote (p : ProposalV2) (config : GovernanceConfig) (vote : Vote)
    (currentUnixTimestamp : ℕ) : Outcome Unit := do
  require .InvalidStateCannotVote (p.state = .Voting)
  let ended ← p.hasVotingMaxTimeEnded config currentUnixTimestamp
  require .ProposalVotingTimeExpired (ended = false)
  match vote with
  | .Approve _ | .Abstain => do
      let ended ← p.hasVotingBaseTimeEnded config currentUnixTimestamp
      require .VoteNotAllowedInCoolOffTime (ended = false)
  | .Deny | .Veto => .ok ()

/-- `assert_can_finalize_vote`. -/
def assertCanFinalizeVote (p : ProposalV2) (config : GovernanceConfig)
    (currentUnixTimestamp : ℕ) : Outcome Unit := do
  require .InvalidStateCannotFinalize (p.state = .Voting)
  let ended ← p.hasVotingMaxTimeEnded config currentUnixTimestamp
  require .CannotFinalizeVotingInProgress (ended = true)

/-- `assert_can_cancel`. -/
def assertCanCancel (p : ProposalV2) (config : GovernanceConfig) (currentUnixTimestamp : ℕ) :
    Outcome Unit :=
  match p.state with
  | .Draft | .SigningOff => .ok ()
  | .Voting => do
      let ended ← p.hasVotingMaxTimeEnded config currentUnixTimestamp
      require .ProposalVotingTimeExpired (ended = false)
  | _ => .error (.error .InvalidStateCannotCancelProposal)

/-- `assert_can_edit_instructions`: only what can be rejected can be executed. -/
def assertCanEditInstructions (p : ProposalV2) : Outcome Unit := do
  require .InvalidStateCannotEditTransactions (p.state = .Draft)
  require .ProposalIsNotExecutable (p.denyVoteWeight.isSome = true)

/-- `assert_can_execute_transaction`. -/
def assertCanExecuteTransaction {ι : Type} (p : ProposalV2) (t : ProposalTransactionV2 ι)
    (config : GovernanceConfig) (currentUnixTimestamp : ℕ) : Outcome Unit := do
  require .InvalidStateCannotExecuteTransaction
    (p.state = .Succeeded ∨ p.state = .Executing ∨ p.state = .ExecutingWithErrors)
  let option ← okOr .panic p.options[t.optionIndex]?
  require .CannotExecuteDefeatedOption (option.voteResult = .Succeeded)
  let votingCompletedAt ← okOr .panic p.votingCompletedAt
  let holdUpTimeEnd ← unwrapAdd i64Max votingCompletedAt config.transactionsHoldUpTime
  require .CannotExecuteTransactionWithinHoldUpTime (holdUpTimeEnd < currentUnixTimestamp)
  require .TransactionAlreadyExecuted (t.executedAt = none)

/-- `assert_can_complete`. -/
def assertCanComplete (p : ProposalV2) : Outcome Unit := do
  require .InvalidStateToCompleteProposal (p.state = .Succeeded)
  require .InvalidStateToCompleteProposal (∀ o ∈ p.options, o.transactionsCount = 0)

/-! ### Votes -/

/-- One choice of a vote: how many options are chosen so far, and with which percentage. -/
def checkChoice (voteType : VoteType) (acc : ℕ × ℕ) (choice : VoteChoice) : Outcome (ℕ × ℕ) := do
  require .RankedVoteIsNotSupported (choice.rank = 0)
  if choice.weightPercentage = 0 then .ok acc
  else do
    let choiceCount ← unwrapAdd u16Max acc.1 1
    match voteType with
    | .MultiChoice .Weighted _ _ _ => do
        require .TotalVoteWeightMustBe100Percent (acc.2 + choice.weightPercentage ≤ u8Max)
        .ok (choiceCount, acc.2 + choice.weightPercentage)
    | _ => do
        require .ChoiceWeightMustBe100Percent (choice.weightPercentage = 100)
        .ok (choiceCount, acc.2)

/-- What the choices of a vote must come to, given how many options they choose and with which
percentage. -/
def checkChoices : VoteType → ℕ × ℕ → Outcome Unit
  | .SingleChoice, total => require .SingleChoiceOnlyIsAllowed (total.1 = 1)
  | .MultiChoice .FullWeight _ _ _, total =>
      require .AtLeastSingleChoiceIsRequired (total.1 ≠ 0)
  | .MultiChoice .Weighted _ _ _, total => do
      require .AtLeastSingleChoiceIsRequired (total.1 ≠ 0)
      require .TotalVoteWeightMustBe100Percent (total.2 = 100)

/-- `assert_valid_vote`. -/
def assertValidVote (p : ProposalV2) : Vote → Outcome Unit
  | .Approve choices => do
      require .InvalidNumberOfVoteChoices (p.options.length = choices.length)
      let total ← choices.foldlM (checkChoice p.voteType) (0, 0)
      checkChoices p.voteType total
  | .Deny => require .DenyVoteIsNotAllowed (p.denyVoteWeight.isSome = true)
  | .Abstain => .error (.error .NotSupportedVoteType)
  | .Veto => .ok ()

/-- The loop of an approving vote: options and choices are taken in step, and each option's
weight is changed by `op` with the weight of its choice. -/
def approve (op : ℕ → ℕ → Outcome ℕ) (voterWeight : ℕ) :
    List ProposalOption → List VoteChoice → Outcome (List ProposalOption)
  | option :: options, choice :: choices => do
      let choiceWeight ← choice.getChoiceWeight voterWeight
      let voteWeight ← op option.voteWeight choiceWeight
      let rest ← approve op voterWeight options choices
      .ok ({ option with voteWeight } :: rest)
  | options, _ => .ok options

/-- "Calculate Proposal voting weights": what casting a vote adds (`op` is addition) and
relinquishing it takes away (`op` is subtraction). -/
def weigh (op : ℕ → ℕ → Outcome ℕ) (p : ProposalV2) (voterWeight : ℕ) :
    Vote → Outcome ProposalV2
  | .Approve choices => do
      let options ← approve op voterWeight p.options choices
      .ok { p with options }
  | .Deny => do
      let denyVoteWeight ← okOr .panic p.denyVoteWeight
      let denyVoteWeight ← op denyVoteWeight voterWeight
      .ok { p with denyVoteWeight := some denyVoteWeight }
  | .Veto => do
      let vetoVoteWeight ← op p.vetoVoteWeight voterWeight
      .ok { p with vetoVoteWeight }
  | .Abstain => .error (.error .NotSupportedVoteType)

/-! ### How much can be cast -/

/-- `coerce_max_voter_weight`: no less than what was cast. -/
def coerceMaxVoterWeight (p : ProposalV2) (maxVoterWeight : ℕ) : VoteKind → Outcome ℕ
  | .Electorate => do
      let maxOptionVoteWeight ← okOr .panic (p.options.map (·.voteWeight)).max?
      let totalVoteWeight ← unwrapAdd u64Max maxOptionVoteWeight (p.denyVoteWeight.getD 0)
      .ok (max maxVoterWeight totalVoteWeight)
  | .Veto => .ok (max maxVoterWeight p.vetoVoteWeight)

/-- `get_max_voter_weight_from_mint_supply`. -/
def getMaxVoterWeightFromMintSupply (p : ProposalV2) (r : RealmV2)
    (governingTokenMint : Pubkey) (governingTokenMintSupply : ℕ) (voteKind : VoteKind) :
    Outcome ℕ :=
  if some governingTokenMint = r.config.councilMint then .ok governingTokenMintSupply
  else
    match r.config.communityMintMaxVoterWeightSource with
    | .SupplyFraction fraction =>
        if fraction = supplyFractionBase then .ok governingTokenMintSupply
        else p.coerceMaxVoterWeight
          (governingTokenMintSupply * fraction / supplyFractionBase % (u64Max + 1)) voteKind
    | .Absolute value => p.coerceMaxVoterWeight value voteKind

/-- `resolve_max_voter_weight`. -/
def resolveMaxVoterWeight (p : ProposalV2) (realm : Pubkey) (r : RealmV2)
    (c : RealmConfigAccount) (slot : ℕ)
    (maxVoterWeightRecord : Option (AddinAccount MaxVoterWeightRecord))
    (voteGoverningTokenMint : Pubkey) (voteGoverningTokenMintSupply : ℕ)
    (voteKind : VoteKind) : Outcome ℕ := do
  let tokenConfig ← c.getTokenConfig r voteGoverningTokenMint
  match tokenConfig.maxVoterWeightAddin with
  | some addin => do
      let record ← getAddinData addin maxVoterWeightRecord
      require .InvalidMaxVoterWeightRecordForRealm (record.realm = realm)
      require .InvalidMaxVoterWeightRecordForGoverningTokenMint
        (record.governingTokenMint = voteGoverningTokenMint)
      assertIsValidMaxVoterWeight record slot
      p.coerceMaxVoterWeight record.maxVoterWeight voteKind
  | none =>
      p.getMaxVoterWeightFromMintSupply r voteGoverningTokenMint voteGoverningTokenMintSupply
        voteKind

/-! ### Deciding the vote -/

/-- Whether an option reaches the threshold and beats the deny option. -/
def passes (minVoteThresholdWeight denyVoteWeight : ℕ) (option : ProposalOption) : Bool :=
  minVoteThresholdWeight ≤ option.voteWeight ∧ denyVoteWeight < option.voteWeight

/-- The best weight of the options that passed, and the number of options that have it. -/
structure Best where
  weight : ℕ
  count : ℕ
  deriving DecidableEq, Repr

/-- One more option passed. -/
def Best.update (best : Best) (voteWeight : ℕ) : Outcome Best :=
  if best.weight < voteWeight then .ok { weight := voteWeight, count := 1 }
  else if voteWeight = best.weight then do
    let count ← unwrapAdd u16Max best.count 1
    .ok { best with count }
  else .ok best

/-- The first loop of `resolve_final_vote_state`: the result of each option, and the best of
those that passed. -/
def resolveOptions (minVoteThresholdWeight denyVoteWeight : ℕ) :
    Best → List ProposalOption → Outcome (List ProposalOption × Best)
  | best, [] => .ok ([], best)
  | best, option :: rest =>
      if passes minVoteThresholdWeight denyVoteWeight option then do
        let best ← best.update option.voteWeight
        let (rest, best) ← resolveOptions minVoteThresholdWeight denyVoteWeight best rest
        .ok ({ option with voteResult := .Succeeded } :: rest, best)
      else do
        let (rest, best) ← resolveOptions minVoteThresholdWeight denyVoteWeight best rest
        .ok ({ option with voteResult := .Defeated } :: rest, best)

/-- The second loop: only the options with the winning weight succeed. -/
def coerceOptions (winningWeight : ℕ) (options : List ProposalOption) : List ProposalOption :=
  options.map fun option =>
    { option with
      voteResult := if option.voteWeight = winningWeight then .Succeeded else .Defeated }

/-- The rest of it: a single choice proposal with several winners is defeated. -/
def resolveState (voteType : VoteType) (options : List ProposalOption) (best : Best) :
    List ProposalOption × ProposalState :=
  if best.count = 0 then (options, .Defeated)
  else
    match voteType with
    | .SingleChoice =>
        if 1 < best.count then (coerceOptions u64Max options, .Defeated)
        else (coerceOptions best.weight options, .Succeeded)
    | .MultiChoice .. => (options, .Succeeded)

/-- `resolve_final_vote_state`. A proposal without a deny option is a survey, which is completed
in any case. -/
def resolveFinalVoteState (p : ProposalV2) (maxVoteWeight : ℕ) (voteThreshold : VoteThreshold) :
    Outcome (ProposalV2 × ProposalState) := do
  let minVoteThresholdWeight ← unwrap (getMinVoteThresholdWeight voteThreshold maxVoteWeight)
  let (options, best) ← resolveOptions minVoteThresholdWeight (p.denyVoteWeight.getD 0)
    { weight := 0, count := 0 } p.options
  let resolved := resolveState p.voteType options best
  .ok ({ p with options := resolved.1 },
    if p.denyVoteWeight = none then .Completed else resolved.2)

/-- `finalize_vote`. -/
def finalizeVote (p : ProposalV2) (maxVoterWeight : ℕ) (config : GovernanceConfig)
    (currentUnixTimestamp : ℕ) (voteThreshold : VoteThreshold) : Outcome ProposalV2 := do
  p.assertCanFinalizeVote config currentUnixTimestamp
  let (p, state) ← p.resolveFinalVoteState maxVoterWeight voteThreshold
  let votingCompletedAt ← p.votingMaxTimeEnd config
  .ok { p with
    state
    votingCompletedAt := some votingCompletedAt
    maxVoteWeight := some maxVoterWeight
    voteThreshold := some voteThreshold }

/-- `try_get_tipped_electorate_vote_state`, for the yes option and the deny weight of a single
choice proposal. -/
def tippedResult (yesVoteWeight denyVoteWeight maxVoterWeight : ℕ) (voteTipping : VoteTipping)
    (minVoteThresholdWeight : ℕ) : Option OptionVoteResult :=
  let succeeded : Bool :=
    match voteTipping with
    | .Disabled => false
    | .Strict => minVoteThresholdWeight ≤ yesVoteWeight ∧
        maxVoterWeight - yesVoteWeight < yesVoteWeight
    | .Early => minVoteThresholdWeight ≤ yesVoteWeight ∧ denyVoteWeight < yesVoteWeight
  if succeeded then some .Succeeded
  else if voteTipping ≠ .Disabled ∧
      (maxVoterWeight - minVoteThresholdWeight < denyVoteWeight ∨
        maxVoterWeight - denyVoteWeight ≤ denyVoteWeight) then some .Defeated
  else none

/-- The state a proposal with that result of its only option goes to. -/
def stateOfResult : OptionVoteResult → ProposalState
  | .Succeeded => .Succeeded
  | _ => .Defeated

/-- `try_get_tipped_electorate_vote_state`: only for one option with a deny option. -/
def tryGetTippedElectorateVoteState (p : ProposalV2) (maxVoterWeight : ℕ)
    (voteTipping : VoteTipping) (minVoteThresholdWeight : ℕ) :
    Option (ProposalV2 × ProposalState) :=
  match p.voteType, p.denyVoteWeight, p.options with
  | .SingleChoice, some denyVoteWeight, [yesOption] =>
      (tippedResult yesOption.voteWeight denyVoteWeight maxVoterWeight voteTipping
        minVoteThresholdWeight).map fun voteResult =>
          ({ p with options := [{ yesOption with voteResult }] }, stateOfResult voteResult)
  | _, _, _ => none

/-- `try_get_tipped_veto_vote_state`. -/
def tryGetTippedVetoVoteState (p : ProposalV2) (minVoteThresholdWeight : ℕ) :
    Option (ProposalV2 × ProposalState) :=
  if minVoteThresholdWeight ≤ p.vetoVoteWeight then some (p, .Vetoed) else none

/-- `try_get_tipped_vote_state`. -/
def tryGetTippedVoteState (p : ProposalV2) (maxVoterWeight : ℕ) (voteTipping : VoteTipping)
    (voteThreshold : VoteThreshold) (voteKind : VoteKind) :
    Outcome (Option (ProposalV2 × ProposalState)) := do
  let minVoteThresholdWeight ← unwrap (getMinVoteThresholdWeight voteThreshold maxVoterWeight)
  match voteKind with
  | .Electorate =>
      .ok (p.tryGetTippedElectorateVoteState maxVoterWeight voteTipping minVoteThresholdWeight)
  | .Veto => .ok (p.tryGetTippedVetoVoteState minVoteThresholdWeight)

/-- `try_tip_vote`. -/
def tryTipVote (p : ProposalV2) (maxVoterWeight : ℕ) (voteTipping : VoteTipping)
    (currentUnixTimestamp : ℕ) (voteThreshold : VoteThreshold) (voteKind : VoteKind) :
    Outcome (ProposalV2 × Bool) := do
  match ← p.tryGetTippedVoteState maxVoterWeight voteTipping voteThreshold voteKind with
  | some (p, tippedState) =>
      .ok ({ p with
        state := tippedState
        votingCompletedAt := some currentUnixTimestamp
        maxVoteWeight := some maxVoterWeight
        voteThreshold := some voteThreshold }, true)
  | none => .ok (p, false)

end ProposalV2

/-- The limits of a multiple choice, which are not supported yet. -/
def assertValidMultiChoice (count : ℕ) : VoteType → Outcome Unit
  | .MultiChoice _ minVoterOptions maxVoterOptions maxWinningOptions =>
      require .InvalidMultiChoiceProposalParameters (count ≠ 1 ∧
        maxVoterOptions = count ∧ maxWinningOptions = count ∧ minVoterOptions = 1)
  | .SingleChoice => .ok ()

/-- `assert_valid_proposal_options`. -/
def assertValidProposalOptions (options : List String) (voteType : VoteType) : Outcome Unit := do
  require .InvalidProposalOptions (options ≠ [] ∧ options.length ≤ 10)
  assertValidMultiChoice options.length voteType
  require .InvalidProposalOptions (∀ o ∈ options, o ≠ "")

end IndexDtf.Governance
