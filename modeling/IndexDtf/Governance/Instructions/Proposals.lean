import IndexDtf.Governance.Dao

/-!
# IndexDtf.Governance.Instructions.Proposals

The instructions on proposals, from the draft to the execution: signatories, transactions,
votes, and what ends a vote.
-/

namespace IndexDtf.Governance

open Lib

/-- The keys that signed the instruction. -/
def ProposalInstruction.signers : ProposalInstruction → List Pubkey
  | .createProposal _ _ _ _ governanceAuthority _ _ _ _ _ =>
      if governanceAuthority.isSigner then [governanceAuthority.key] else []
  | .addSignatory _ _ _ _ (some (_, governanceAuthority)) =>
      if governanceAuthority.isSigner then [governanceAuthority.key] else []
  | .addSignatory _ _ _ _ none => []
  | .signOffProposal _ _ signatory _ => if signatory.isSigner then [signatory.key] else []
  | .removeTransaction _ _ governanceAuthority _ =>
      if governanceAuthority.isSigner then [governanceAuthority.key] else []
  | .cancelProposal _ _ _ governanceAuthority =>
      if governanceAuthority.isSigner then [governanceAuthority.key] else []
  | .castVote _ _ _ _ governanceAuthority _ _ _ _ =>
      if governanceAuthority.isSigner then [governanceAuthority.key] else []
  | .relinquishVote _ _ _ _ _ (some governanceAuthority) =>
      if governanceAuthority.isSigner then [governanceAuthority.key] else []
  | .relinquishVote _ _ _ _ _ none => []
  | .finalizeVote .. => []
  | .completeProposal _ _ authority => if authority.isSigner then [authority.key] else []
  | .refundProposalDeposit .. => []

namespace Dao

/-! ### The draft -/

/-- The deposit that is taken when too many proposals are active. -/
def takeProposalDeposit (d : Dao) (proposal payer : Pubkey) (lamports : ℕ) : Outcome Dao :=
  if lamports = 0 then .ok d
  else do
    guardOr .external (d.proposalDeposits.lookup ⟨proposal, payer⟩ = none)
    .ok { d with
      proposalDeposits := d.proposalDeposits.insert ⟨proposal, payer⟩
        { proposal, depositPayer := payer, lamports } }

/-- The proposal as it is created. -/
def draftOf (d : Dao) (governance : Pubkey) (owner : TokenOwnerRecordSeeds) (mint : Pubkey)
    (voteType : VoteType) (options : List String) (useDenyOption : Bool) : ProposalV2 where
  governance
  governingTokenMint := mint
  tokenOwnerRecord := owner
  voteType
  options := options.map fun _ => {}
  denyVoteWeight := if useDenyOption then some 0 else none
  draftAt := d.unixTimestamp

/-- `process_create_proposal`. -/
def createProposal (d : Dao) (proposal governance : Pubkey) (owner : TokenOwnerRecordSeeds)
    (mint : Pubkey) (governanceAuthority : AccountInfo) (payer : Pubkey)
    (voterWeightRecord : Option (AddinAccount VoterWeightRecord)) (voteType : VoteType)
    (options : List String) (useDenyOption : Bool) : Outcome Dao := do
  require .ProposalAlreadyExists (d.proposals.lookup proposal = none)
  d.realm.assertIsValidGoverningTokenMint mint
  let g ← d.getGovernanceData governance
  g.assertGoverningTokenMintCanVote d.realm mint .Electorate
  let t ← d.getTokenOwnerRecordData owner
  t.assertTokenOwnerOrDelegateIsSigner governanceAuthority
  let voterWeight ← t.resolveVoterWeight d.realmAddress d.realm d.realmConfig d.slot
    voterWeightRecord .CreateProposal governance
  t.assertCanCreateProposal d.realm g.config voterWeight
  let outstandingProposalCount ← unwrapAdd u8Max t.outstandingProposalCount 1
  assertValidProposalOptions options voteType
  let activeProposalCount ← unwrapAdd u64Max g.activeProposalCount 1
  let g := { g with activeProposalCount }
  (((d.setTokenOwnerRecord owner { t with outstandingProposalCount }).setProposal proposal
      (d.draftOf governance owner mint voteType options useDenyOption)).setGovernance governance
    g).takeProposalDeposit proposal payer g.getProposalDepositAmount

/-- Who may add a signatory: until the required ones are added, anyone, but only one of them;
afterwards the owner of the proposal. -/
def assertCanAddSignatory (d : Dao) (governance signatory : Pubkey) (g : GovernanceV2)
    (p : ProposalV2) (required : Option RequiredSignatorySeeds)
    (owner : Option (TokenOwnerRecordSeeds × AccountInfo)) : Outcome Unit :=
  if p.signatoriesCount < g.requiredSignatoriesCount then do
    let required ← okOr .account required
    let data ← d.getRequiredSignatoryDataForGovernance required governance
    require .InvalidSignatoryAddress (data.signatory = signatory)
  else do
    let (record, governanceAuthority) ← okOr .account owner
    let t ← d.getTokenOwnerRecordDataForProposalOwner record p.tokenOwnerRecord
    t.assertTokenOwnerOrDelegateIsSigner governanceAuthority

/-- `process_add_signatory`. -/
def addSignatory (d : Dao) (governance proposal signatory : Pubkey)
    (required : Option RequiredSignatorySeeds)
    (owner : Option (TokenOwnerRecordSeeds × AccountInfo)) : Outcome Dao := do
  let g ← d.getGovernanceData governance
  let p ← d.getProposalDataForGovernance proposal governance
  p.assertCanEditSignatories
  require .SignatoryRecordAlreadyExists
    (d.signatoryRecords.lookup ⟨proposal, signatory⟩ = none)
  d.assertCanAddSignatory governance signatory g p required owner
  let signatoriesCount ← unwrapAdd u8Max p.signatoriesCount 1
  .ok { d.setProposal proposal { p with signatoriesCount } with
    signatoryRecords := d.signatoryRecords.insert ⟨proposal, signatory⟩
      { proposal, signatory, signedOff := false } }

/-- "If all Signatories signed off we can start voting". -/
def startVoting (d : Dao) (p : ProposalV2) : ProposalV2 :=
  if p.signatoriesSignedOffCount = p.signatoriesCount then
    { p with
      votingAt := some d.unixTimestamp
      votingAtSlot := some d.slot
      state := .Voting }
  else p

/-- The first signatory to sign off moves the proposal on. -/
def beginSignOff (d : Dao) (p : ProposalV2) : ProposalV2 :=
  if p.signatoriesSignedOffCount = 0 then
    { p with signingOffAt := some d.unixTimestamp, state := .SigningOff }
  else p

/-- A signatory signs off the proposal. -/
def signOffBySignatory (d : Dao) (proposal : Pubkey) (p : ProposalV2)
    (signatory : AccountInfo) : Outcome Dao := do
  let s ← okOr .account (d.signatoryRecords.lookup ⟨proposal, signatory.key⟩)
  s.assertCanSignOff signatory
  let p := d.beginSignOff p
  let signatoriesSignedOffCount ← unwrapAdd u8Max p.signatoriesSignedOffCount 1
  .ok { d.setProposal proposal (d.startVoting { p with signatoriesSignedOffCount }) with
    signatoryRecords := d.signatoryRecords.insert ⟨proposal, signatory.key⟩
      { s with signedOff := true } }

/-- The owner of a proposal without signatories signs it off. -/
def signOffByOwner (d : Dao) (proposal : Pubkey) (p : ProposalV2) (signatory : AccountInfo)
    (owner : Option TokenOwnerRecordSeeds) : Outcome Dao := do
  let owner ← okOr .account owner
  let t ← d.getTokenOwnerRecordDataForProposalOwner owner p.tokenOwnerRecord
  t.assertTokenOwnerOrDelegateIsSigner signatory
  .ok (d.setProposal proposal (d.startVoting { p with signingOffAt := some d.unixTimestamp }))

/-- `process_sign_off_proposal`. -/
def signOffProposal (d : Dao) (governance proposal : Pubkey) (signatory : AccountInfo)
    (owner : Option TokenOwnerRecordSeeds) : Outcome Dao := do
  let g ← d.getGovernanceData governance
  let p ← d.getProposalDataForGovernance proposal governance
  p.assertCanSignOff
  require .MissingRequiredSignatories
    (¬ (0 < g.requiredSignatoriesCount ∧ p.signatoriesCount < g.requiredSignatoriesCount))
  if p.signatoriesCount = 0 then d.signOffByOwner proposal p signatory owner
  else d.signOffBySignatory proposal p signatory

/-- Change one option of a proposal. -/
def setOption (p : ProposalV2) (optionIndex : ℕ) (option : ProposalOption) : ProposalV2 :=
  { p with options := p.options.set optionIndex option }

/-- The count of transactions after an insertion at an index: the next one, or a free one. -/
def nextIndexAfter (option : ProposalOption) (instructionIndex : ℕ) : Outcome ℕ :=
  if option.transactionsNextIndex < instructionIndex then
    .error (.error .InvalidTransactionIndex)
  else if instructionIndex = option.transactionsNextIndex then
    unwrapAdd u16Max option.transactionsNextIndex 1
  else .ok option.transactionsNextIndex

/-- `process_insert_transaction`. -/
def insertTransaction (d : Dao) (governance proposal : Pubkey) (owner : TokenOwnerRecordSeeds)
    (governanceAuthority : AccountInfo) (optionIndex instructionIndex : ℕ)
    (instructions : List InstructionData) : Outcome Dao := do
  require .TransactionAlreadyExists
    (d.proposalTransactions.lookup ⟨proposal, optionIndex, instructionIndex⟩ = none)
  let _ ← d.getGovernanceData governance
  let p ← d.getProposalDataForGovernance proposal governance
  p.assertCanEditInstructions
  let t ← d.getTokenOwnerRecordDataForProposalOwner owner p.tokenOwnerRecord
  t.assertTokenOwnerOrDelegateIsSigner governanceAuthority
  let option ← okOr .panic p.options[optionIndex]?
  let transactionsNextIndex ← nextIndexAfter option instructionIndex
  let transactionsCount ← unwrapAdd u16Max option.transactionsCount 1
  .ok { d.setProposal proposal
      (setOption p optionIndex { option with transactionsNextIndex, transactionsCount }) with
    proposalTransactions := d.proposalTransactions.insert ⟨proposal, optionIndex, instructionIndex⟩
      { proposal, optionIndex, transactionIndex := instructionIndex, instructions } }

/-- `process_remove_transaction`. -/
def removeTransaction (d : Dao) (proposal : Pubkey) (owner : TokenOwnerRecordSeeds)
    (governanceAuthority : AccountInfo) (transaction : ProposalTransactionSeeds) :
    Outcome Dao := do
  let p ← d.getProposalData proposal
  p.assertCanEditInstructions
  let t ← d.getTokenOwnerRecordDataForProposalOwner owner p.tokenOwnerRecord
  t.assertTokenOwnerOrDelegateIsSigner governanceAuthority
  let data ← d.getProposalTransactionDataForProposal transaction proposal
  let option ← okOr .panic p.options[data.optionIndex]?
  let transactionsCount ← unwrapSub option.transactionsCount 1
  .ok { d.setProposal proposal
      (setOption p data.optionIndex { option with transactionsCount }) with
    proposalTransactions := d.proposalTransactions.erase transaction }

/-! ### The vote -/

/-- A proposal is no longer active: its owner and its governance have one less. When the voter
who tips the vote is the owner, the record that was just written for the vote is changed. -/
def releaseProposal (d : Dao) (governance : Pubkey) (owner proposalOwner : TokenOwnerRecordSeeds) :
    Outcome Dao := do
  let t ← d.getTokenOwnerRecordDataForProposalOwner owner proposalOwner
  let g ← d.getGovernanceData governance
  .ok ((d.setTokenOwnerRecord owner t.decreaseOutstandingProposalCount).setGovernance governance
    { g with activeProposalCount := g.activeProposalCount - 1 })

/-- `process_cancel_proposal`. -/
def cancelProposal (d : Dao) (governance proposal : Pubkey) (owner : TokenOwnerRecordSeeds)
    (governanceAuthority : AccountInfo) : Outcome Dao := do
  let g ← d.getGovernanceData governance
  let p ← d.getProposalDataForGovernance proposal governance
  p.assertCanCancel g.config d.unixTimestamp
  let t ← d.getTokenOwnerRecordDataForProposalOwner owner p.tokenOwnerRecord
  t.assertTokenOwnerOrDelegateIsSigner governanceAuthority
  (d.setProposal proposal
    { p with state := .Cancelled, closedAt := some d.unixTimestamp }).releaseProposal governance
      owner p.tokenOwnerRecord

/-- `process_cast_vote`. -/
def castVote (d : Dao) (governance proposal : Pubkey) (owner voter : TokenOwnerRecordSeeds)
    (governanceAuthority : AccountInfo) (mint : Pubkey) (vote : Vote)
    (voterWeightRecord : Option (AddinAccount VoterWeightRecord))
    (maxVoterWeightRecord : Option (AddinAccount MaxVoterWeightRecord)) : Outcome Dao := do
  require .VoteAlreadyExists (d.voteRecords.lookup ⟨proposal, voter⟩ = none)
  d.realm.assertIsValidGoverningTokenMint mint
  let g ← d.getGovernanceData governance
  let voteKind := getVoteKind vote
  let proposalMint ← d.realm.getProposalGoverningTokenMintForVote mint voteKind
  let p ← d.getProposalDataForGovernanceAndGoverningMint proposal governance proposalMint
  p.assertCanCastVote g.config vote d.unixTimestamp
  let t ← d.getTokenOwnerRecordDataForGoverningMint voter mint
  t.assertTokenOwnerOrDelegateIsSigner governanceAuthority
  let unrelinquishedVotesCount ← unwrapAdd u64Max t.unrelinquishedVotesCount 1
  let voterWeight ← t.resolveVoterWeight d.realmAddress d.realm d.realmConfig d.slot
    voterWeightRecord .CastVote proposal
  p.assertValidVote vote
  let weighed ← p.weigh (unwrapAdd u64Max) voterWeight vote
  let maxVoterWeight ← weighed.resolveMaxVoterWeight d.realmAddress d.realm d.realmConfig d.slot
    maxVoterWeightRecord mint (d.supply mint) voteKind
  let voteThreshold ← g.resolveVoteThreshold d.realm mint voteKind
  let voteTipping ← g.getVoteTipping d.realm mint
  let (decided, tipped) ← weighed.tryTipVote maxVoterWeight voteTipping d.unixTimestamp
    voteThreshold voteKind
  let d := { (d.setTokenOwnerRecord voter { t with unrelinquishedVotesCount }).setProposal
      proposal decided with
    voteRecords := d.voteRecords.insert ⟨proposal, voter⟩
      { proposal
        governingTokenOwner := t.governingTokenOwner
        isRelinquished := false
        voterWeight
        vote } }
  if tipped then d.releaseProposal governance owner p.tokenOwnerRecord else .ok d

/-- `get_vote_record_data_for_proposal_and_token_owner_record`. -/
def getVoteRecordDataForProposalAndTokenOwnerRecord (d : Dao) (voteRecord : VoteRecordSeeds)
    (proposal : Pubkey) (p : ProposalV2) (t : TokenOwnerRecordV2) : Outcome VoteRecordV2 := do
  let v ← okOr .account (d.voteRecords.lookup voteRecord)
  require .InvalidProposalForVoterRecord (v.proposal = proposal)
  require .InvalidGoverningTokenOwnerForVoteRecord
    (v.governingTokenOwner = t.governingTokenOwner)
  let mint ← d.realm.getProposalGoverningTokenMintForVote t.governingTokenMint (getVoteKind v.vote)
  require .InvalidGoverningMintForProposal (p.governingTokenMint = mint)
  .ok v

/-- A vote is taken back while the vote goes on. -/
def withdrawVote (d : Dao) (g : GovernanceV2) (proposal : Pubkey) (p : ProposalV2)
    (t : TokenOwnerRecordV2) (voteRecord : VoteRecordSeeds) (v : VoteRecordV2)
    (governanceAuthority : Option AccountInfo) : Outcome Dao := do
  let ended ← p.hasVotingMaxTimeEnded g.config d.unixTimestamp
  require .CannotRelinquishInFinalizingState (ended = false)
  let governanceAuthority ← okOr .account governanceAuthority
  t.assertTokenOwnerOrDelegateIsSigner governanceAuthority
  let p ← p.weigh unwrapSub v.voterWeight v.vote
  .ok { d.setProposal proposal p with voteRecords := d.voteRecords.erase voteRecord }

/-- While the vote goes on a vote is withdrawn; once the proposal is decided it is only marked;
in between, when the time is over, it stays. -/
def giveUpVote (d : Dao) (g : GovernanceV2) (proposal : Pubkey) (p : ProposalV2)
    (t : TokenOwnerRecordV2) (voteRecord : VoteRecordSeeds) (v : VoteRecordV2)
    (governanceAuthority : Option AccountInfo) : Outcome Dao :=
  if p.state = .Voting then d.withdrawVote g proposal p t voteRecord v governanceAuthority
  else
    .ok { d with
      voteRecords := d.voteRecords.insert voteRecord { v with isRelinquished := true } }

/-- `process_relinquish_vote`. -/
def relinquishVote (d : Dao) (governance proposal : Pubkey) (record : TokenOwnerRecordSeeds)
    (voteRecord : VoteRecordSeeds) (mint : Pubkey) (governanceAuthority : Option AccountInfo) :
    Outcome Dao := do
  d.realm.assertIsValidGoverningTokenMint mint
  let g ← d.getGovernanceData governance
  let p ← d.getProposalDataForGovernance proposal governance
  let t ← d.getTokenOwnerRecordDataForGoverningMint record mint
  let v ← d.getVoteRecordDataForProposalAndTokenOwnerRecord voteRecord proposal p t
  v.assertCanRelinquishVote
  let d ← d.giveUpVote g proposal p t voteRecord v governanceAuthority
  let unrelinquishedVotesCount ← unwrapSub t.unrelinquishedVotesCount 1
  .ok (d.setTokenOwnerRecord record { t with unrelinquishedVotesCount })

/-- `process_finalize_vote`. -/
def finalizeVote (d : Dao) (governance proposal : Pubkey) (owner : TokenOwnerRecordSeeds)
    (mint : Pubkey) (maxVoterWeightRecord : Option (AddinAccount MaxVoterWeightRecord)) :
    Outcome Dao := do
  d.realm.assertIsValidGoverningTokenMint mint
  let g ← d.getGovernanceData governance
  let p ← d.getProposalDataForGovernanceAndGoverningMint proposal governance mint
  let maxVoterWeight ← p.resolveMaxVoterWeight d.realmAddress d.realm d.realmConfig d.slot
    maxVoterWeightRecord mint (d.supply mint) .Electorate
  let voteThreshold ← g.resolveVoteThreshold d.realm mint .Electorate
  let decided ← p.finalizeVote maxVoterWeight g.config d.unixTimestamp voteThreshold
  (d.setProposal proposal decided).releaseProposal governance owner p.tokenOwnerRecord

/-! ### After the vote -/

/-- `process_complete_proposal`. -/
def completeProposal (d : Dao) (proposal : Pubkey) (owner : TokenOwnerRecordSeeds)
    (authority : AccountInfo) : Outcome Dao := do
  let p ← d.getProposalData proposal
  p.assertCanComplete
  let t ← d.getTokenOwnerRecordDataForProposalOwner owner p.tokenOwnerRecord
  t.assertTokenOwnerOrDelegateIsSigner authority
  .ok (d.setProposal proposal
    { p with closedAt := some d.unixTimestamp, state := .Completed })

/-- `process_refund_proposal_deposit`. -/
def refundProposalDeposit (d : Dao) (proposal : Pubkey) (deposit : ProposalDepositSeeds)
    (depositPayer : Pubkey) : Outcome Dao := do
  let p ← d.getProposalData proposal
  p.assertCanRefundProposalDeposit
  let data ← okOr .account (d.proposalDeposits.lookup deposit)
  require .InvalidProposalForProposalDeposit (data.proposal = proposal)
  require .InvalidDepositPayerForProposalDeposit (data.depositPayer = depositPayer)
  .ok { d with proposalDeposits := d.proposalDeposits.erase deposit }

/-- The proposal after one of its transactions was executed. -/
def afterExecution (d : Dao) (p : ProposalV2) (optionIndex : ℕ) : Outcome ProposalV2 := do
  let p :=
    if p.state = .Succeeded then
      { p with executingAt := some d.unixTimestamp, state := .Executing }
    else p
  let option ← okOr .panic p.options[optionIndex]?
  let transactionsExecutedCount ← unwrapAdd u16Max option.transactionsExecutedCount 1
  let p := setOption p optionIndex { option with transactionsExecutedCount }
  if (p.state = .Executing ∨ p.state = .ExecutingWithErrors) ∧
      ∀ o ∈ p.options, o.voteResult = .Succeeded →
        o.transactionsExecutedCount = o.transactionsCount then
    .ok { p with closedAt := some d.unixTimestamp, state := .Completed }
  else .ok p

/-- The instructions on a proposal. -/
def stepProposal (d : Dao) : ProposalInstruction → Outcome Dao
  | .createProposal proposal governance owner mint governanceAuthority payer voterWeightRecord
      voteType options useDenyOption =>
      d.createProposal proposal governance owner mint governanceAuthority payer
        voterWeightRecord voteType options useDenyOption
  | .addSignatory governance proposal signatory required owner =>
      d.addSignatory governance proposal signatory required owner
  | .signOffProposal governance proposal signatory owner =>
      d.signOffProposal governance proposal signatory owner
  | .removeTransaction proposal owner governanceAuthority transaction =>
      d.removeTransaction proposal owner governanceAuthority transaction
  | .cancelProposal governance proposal owner governanceAuthority =>
      d.cancelProposal governance proposal owner governanceAuthority
  | .castVote governance proposal owner voter governanceAuthority mint vote voterWeightRecord
      maxVoterWeightRecord =>
      d.castVote governance proposal owner voter governanceAuthority mint vote
        voterWeightRecord maxVoterWeightRecord
  | .relinquishVote governance proposal record voteRecord mint governanceAuthority =>
      d.relinquishVote governance proposal record voteRecord mint governanceAuthority
  | .finalizeVote governance proposal owner mint maxVoterWeightRecord =>
      d.finalizeVote governance proposal owner mint maxVoterWeightRecord
  | .completeProposal proposal owner authority => d.completeProposal proposal owner authority
  | .refundProposalDeposit proposal deposit depositPayer =>
      d.refundProposalDeposit proposal deposit depositPayer

end Dao

end IndexDtf.Governance
