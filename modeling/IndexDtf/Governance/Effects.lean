import Mathlib.Logic.Relation
import IndexDtf.Governance.Program
import IndexDtf.Governance.ProposalSpec

/-!
# IndexDtf.Governance.Effects

**What an instruction can do to the proposals and the records around them.** An instruction is a
sequence of effects: most have one, a vote that tips its proposal has two (it is cast, then the
proposal is closed), and the execution of a transaction has those of the instructions it invokes
before its own. What every effect keeps therefore holds of every realm; the invariants of the
following modules are proved effect by effect.

An execution writes back a proposal it has read before. When an invoked instruction has executed
another transaction of the same proposal, that one is overwritten: it remains executed, but is not
counted. `InExecution` says what is still true of the accounts that were read.

* `Frame` — what the effect-free instructions leave as it is;
* `Effect` — the effects, each with everything its instruction has checked;
* `Amendment`, `Execution` — changes of the required signatories, and the execution of a
  transaction, which only some instructions come to;
* `ProposalV2.Proceeds` — what an execution makes of a proposal, also of an outdated one;
* `process_inv` — what the effects and the amendments keep, an instruction keeps.
-/

namespace IndexDtf.Governance

open Lib

namespace Dao

/-! ### Effects -/

/-- A token owner record with the counts it had. -/
def SameCounts (t t' : TokenOwnerRecordV2) : Prop :=
  t'.governingTokenMint = t.governingTokenMint ∧
    t'.governingTokenOwner = t.governingTokenOwner ∧
    t'.unrelinquishedVotesCount = t.unrelinquishedVotesCount ∧
    t'.outstandingProposalCount = t.outstandingProposalCount

theorem SameCounts.refl (t : TokenOwnerRecordV2) : SameCounts t t := ⟨rfl, rfl, rfl, rfl⟩

/-- A token owner record that has nothing to count yet. -/
def CountsNothing (k : TokenOwnerRecordSeeds) (t : TokenOwnerRecordV2) : Prop :=
  t.governingTokenMint = k.governingTokenMint ∧ t.governingTokenOwner = k.governingTokenOwner ∧
    t.unrelinquishedVotesCount = 0 ∧ t.outstandingProposalCount = 0

/-- The records of a realm after an instruction that concerns no proposal. -/
abbrev RecordsKept : (s s' : Store TokenOwnerRecordSeeds TokenOwnerRecordV2) → Prop :=
  Store.Extends SameCounts CountsNothing

/-- A governance with the counters it had. -/
def SameCounters (g g' : GovernanceV2) : Prop :=
  g'.activeProposalCount = g.activeProposalCount ∧
    g'.requiredSignatoriesCount = g.requiredSignatoriesCount

theorem SameCounters.refl (g : GovernanceV2) : SameCounters g g := ⟨rfl, rfl⟩

/-- The governances after it. -/
abbrev GovernancesKept : (s s' : Store Pubkey GovernanceV2) → Prop :=
  Store.Extends SameCounters fun _ g => g.activeProposalCount = 0 ∧ g.requiredSignatoriesCount = 0

/-- An instruction that concerns no proposal: records and governances keep what is counted in
them, and new ones have nothing to count. -/
structure Frame (d d' : Dao) : Prop where
  unixTimestamp_eq : d'.unixTimestamp = d.unixTimestamp := by rfl
  proposals_eq : d'.proposals = d.proposals := by rfl
  voteRecords_eq : d'.voteRecords = d.voteRecords := by rfl
  signatoryRecords_eq : d'.signatoryRecords = d.signatoryRecords := by rfl
  requiredSignatories_eq : d'.requiredSignatories = d.requiredSignatories := by rfl
  proposalTransactions_eq : d'.proposalTransactions = d.proposalTransactions := by rfl
  communityMint_eq : d'.realm.communityMint = d.realm.communityMint := by rfl
  councilMint_eq : d'.realm.config.councilMint = d.realm.config.councilMint ∨
    d'.realm.config.councilMint = none := by exact .inl rfl
  records : RecordsKept d.tokenOwnerRecords d'.tokenOwnerRecords
  governances : GovernancesKept d.governances d'.governances

/-- When a vote is decided: now, or at the end of its time. -/
structure DecidedAt (d : Dao) (p : ProposalV2) (completedAt : ℕ) : Prop where
  le_now : completedAt ≤ d.unixTimestamp
  after_start : ∀ votingAt, p.votingAt = some votingAt → votingAt ≤ d.unixTimestamp →
    votingAt ≤ completedAt

/-- What can become of an active proposal: it is cancelled, or its vote is decided. -/
def Closes (d : Dao) (p p' : ProposalV2) : Prop :=
  (p.state.isActive = true ∧
      p' = { p with state := .Cancelled, closedAt := some d.unixTimestamp }) ∨
    (p.state = .Voting ∧ ∃ completedAt, d.DecidedAt p completedAt ∧ p.Decides completedAt p')

/-- The effects of the instructions on proposals. -/
inductive Effect (d : Dao) : Dao → Prop
  | frame {d' : Dao} (h : Frame d d') : Effect d d'
  | create {proposal governance : Pubkey} {owner : TokenOwnerRecordSeeds} {mint : Pubkey}
      {voteType : VoteType} {options : List String} {useDenyOption : Bool}
      {t : TokenOwnerRecordV2} {g : GovernanceV2} {deposits}
      (hp : d.proposals.lookup proposal = none)
      (hg : d.governances.lookup governance = some g)
      (ht : d.tokenOwnerRecords.lookup owner = some t)
      (houtstanding : t.outstandingProposalCount < 10) :
      Effect d { d with
        proposals := d.proposals.insert proposal
          (d.draftOf governance owner mint voteType options useDenyOption)
        tokenOwnerRecords := d.tokenOwnerRecords.insert owner
          { t with outstandingProposalCount := t.outstandingProposalCount + 1 }
        governances := d.governances.insert governance
          { g with activeProposalCount := g.activeProposalCount + 1 }
        proposalDeposits := deposits }
  | addSignatory {governance proposal signatory : Pubkey} {p : ProposalV2} {g : GovernanceV2}
      (hp : d.proposals.lookup proposal = some p) (hstate : p.state = .Draft)
      (hgovernance : p.governance = governance)
      (hg : d.governances.lookup governance = some g)
      (hrequired : p.signatoriesCount < g.requiredSignatoriesCount →
        ∃ k data, d.requiredSignatories.lookup k = some data ∧ data.governance = governance ∧
          data.signatory = signatory)
      (hnew : d.signatoryRecords.lookup ⟨proposal, signatory⟩ = none) :
      Effect d { d with
        proposals := d.proposals.insert proposal
          { p with signatoriesCount := p.signatoriesCount + 1 }
        signatoryRecords := d.signatoryRecords.insert ⟨proposal, signatory⟩
          { proposal, signatory, signedOff := false } }
  | signOff {proposal signatory : Pubkey} {p : ProposalV2} {s : SignatoryRecordV2}
      {signingOffAt : Option ℕ}
      (hp : d.proposals.lookup proposal = some p)
      (hstate : p.state = .Draft ∨ p.state = .SigningOff)
      (hs : d.signatoryRecords.lookup ⟨proposal, signatory⟩ = some s)
      (hunsigned : s.signedOff = false) :
      Effect d { d with
        proposals := d.proposals.insert proposal { p with
          signingOffAt
          state := if p.signatoriesSignedOffCount = 0 then .SigningOff else p.state
          signatoriesSignedOffCount := p.signatoriesSignedOffCount + 1 }
        signatoryRecords := d.signatoryRecords.insert ⟨proposal, signatory⟩
          { s with signedOff := true } }
  | beginSignOff {proposal : Pubkey} {p : ProposalV2} {signingOffAt : Option ℕ}
      (hp : d.proposals.lookup proposal = some p)
      (hstate : p.state = .Draft ∨ p.state = .SigningOff) :
      Effect d { d with proposals := d.proposals.insert proposal { p with signingOffAt } }
  | startVoting {governance proposal : Pubkey} {p : ProposalV2} {g : GovernanceV2}
      (hp : d.proposals.lookup proposal = some p)
      (hstate : p.state = .Draft ∨ p.state = .SigningOff)
      (hgovernance : p.governance = governance)
      (hg : d.governances.lookup governance = some g)
      (hrequired : g.requiredSignatoriesCount ≤ p.signatoriesCount)
      (hsigned : p.signatoriesSignedOffCount = p.signatoriesCount) :
      Effect d { d with
        proposals := d.proposals.insert proposal { p with
          votingAt := some d.unixTimestamp
          votingAtSlot := some d.slot
          state := .Voting } }
  | insertTransaction {proposal : Pubkey} {p : ProposalV2} {option : ProposalOption}
      {optionIndex index nextIndex : ℕ} {instructions : List InstructionData}
      (hp : d.proposals.lookup proposal = some p) (hstate : p.state = .Draft)
      (hdeny : p.denyVoteWeight.isSome = true)
      (hoption : p.options[optionIndex]? = some option)
      (hindex : index < nextIndex) (hnext : option.transactionsNextIndex ≤ nextIndex)
      (hnew : d.proposalTransactions.lookup ⟨proposal, optionIndex, index⟩ = none)
      (hfits : option.transactionsCount + 1 ≤ u16Max) :
      Effect d { d with
        proposals := d.proposals.insert proposal (setOption p optionIndex { option with
          transactionsNextIndex := nextIndex
          transactionsCount := option.transactionsCount + 1 })
        proposalTransactions := d.proposalTransactions.insert ⟨proposal, optionIndex, index⟩
          { proposal, optionIndex, transactionIndex := index, instructions } }
  | removeTransaction {proposal : Pubkey} {p : ProposalV2} {option : ProposalOption}
      {transaction : ProposalTransactionSeeds} {t : ProposalTransactionV2 InstructionData}
      (hp : d.proposals.lookup proposal = some p) (hstate : p.state = .Draft)
      (ht : d.proposalTransactions.lookup transaction = some t) (hproposal : t.proposal = proposal)
      (hoption : p.options[t.optionIndex]? = some option) (hcount : 1 ≤ option.transactionsCount) :
      Effect d { d with
        proposals := d.proposals.insert proposal (setOption p t.optionIndex
          { option with transactionsCount := option.transactionsCount - 1 })
        proposalTransactions := d.proposalTransactions.erase transaction }
  | cast {proposal : Pubkey} {voter : TokenOwnerRecordSeeds} {p p' : ProposalV2}
      {t : TokenOwnerRecordV2} {vote : Vote} {voterWeight : ℕ}
      {voterWeightRecord : Option (AddinAccount VoterWeightRecord)}
      (hp : d.proposals.lookup proposal = some p) (hstate : p.state = .Voting)
      (ht : d.tokenOwnerRecords.lookup voter = some t)
      (hnew : d.voteRecords.lookup ⟨proposal, voter⟩ = none)
      (hmint : d.realm.getProposalGoverningTokenMintForVote t.governingTokenMint
        (getVoteKind vote) = .ok p.governingTokenMint)
      (hweight : t.resolveVoterWeight d.realmAddress d.realm d.realmConfig d.slot
        voterWeightRecord .CastVote proposal = .ok voterWeight)
      (hvalid : p.assertValidVote vote = .ok ())
      (hadds : p.Adds vote voterWeight p') :
      Effect d { d with
        proposals := d.proposals.insert proposal p'
        tokenOwnerRecords := d.tokenOwnerRecords.insert voter
          { t with unrelinquishedVotesCount := t.unrelinquishedVotesCount + 1 }
        voteRecords := d.voteRecords.insert ⟨proposal, voter⟩
          { proposal
            governingTokenOwner := t.governingTokenOwner
            isRelinquished := false
            voterWeight
            vote } }
  | withdraw {proposal : Pubkey} {record : TokenOwnerRecordSeeds} {k : VoteRecordSeeds}
      {p p' : ProposalV2} {t : TokenOwnerRecordV2} {v : VoteRecordV2}
      (hp : d.proposals.lookup proposal = some p) (hstate : p.state = .Voting)
      (ht : d.tokenOwnerRecords.lookup record = some t)
      (hv : d.voteRecords.lookup k = some v)
      (hproposal : v.proposal = proposal) (howner : v.governingTokenOwner = t.governingTokenOwner)
      (hmint : d.realm.getProposalGoverningTokenMintForVote t.governingTokenMint
        (getVoteKind v.vote) = .ok p.governingTokenMint)
      (hlive : v.isRelinquished = false)
      (hadds : p'.Adds v.vote v.voterWeight p) :
      Effect d { d with
        proposals := d.proposals.insert proposal p'
        tokenOwnerRecords := d.tokenOwnerRecords.insert record
          { t with unrelinquishedVotesCount := t.unrelinquishedVotesCount - 1 }
        voteRecords := d.voteRecords.erase k }
  | relinquish {proposal : Pubkey} {record : TokenOwnerRecordSeeds} {k : VoteRecordSeeds}
      {p : ProposalV2} {t : TokenOwnerRecordV2} {v : VoteRecordV2}
      (hp : d.proposals.lookup proposal = some p) (hstate : p.state ≠ .Voting)
      (ht : d.tokenOwnerRecords.lookup record = some t)
      (hv : d.voteRecords.lookup k = some v)
      (hproposal : v.proposal = proposal) (howner : v.governingTokenOwner = t.governingTokenOwner)
      (hmint : d.realm.getProposalGoverningTokenMintForVote t.governingTokenMint
        (getVoteKind v.vote) = .ok p.governingTokenMint)
      (hlive : v.isRelinquished = false) :
      Effect d { d with
        tokenOwnerRecords := d.tokenOwnerRecords.insert record
          { t with unrelinquishedVotesCount := t.unrelinquishedVotesCount - 1 }
        voteRecords := d.voteRecords.insert k { v with isRelinquished := true } }
  | close {proposal governance : Pubkey} {owner : TokenOwnerRecordSeeds} {p p' : ProposalV2}
      {t : TokenOwnerRecordV2} {g : GovernanceV2}
      (hp : d.proposals.lookup proposal = some p) (hcloses : d.Closes p p')
      (hgovernance : p.governance = governance) (howner : p.tokenOwnerRecord = owner)
      (ht : d.tokenOwnerRecords.lookup owner = some t)
      (hg : d.governances.lookup governance = some g) :
      Effect d { d with
        proposals := d.proposals.insert proposal p'
        tokenOwnerRecords := d.tokenOwnerRecords.insert owner t.decreaseOutstandingProposalCount
        governances := d.governances.insert governance
          { g with activeProposalCount := g.activeProposalCount - 1 } }
  | complete {proposal : Pubkey} {p : ProposalV2}
      (hp : d.proposals.lookup proposal = some p) (hstate : p.state = .Succeeded)
      (hcounts : ∀ o ∈ p.options, o.transactionsCount = 0) :
      Effect d { d with
        proposals := d.proposals.insert proposal
          { p with closedAt := some d.unixTimestamp, state := .Completed } }

/-- A sequence of effects. -/
abbrev Effects : Dao → Dao → Prop := Relation.ReflTransGen Effect

theorem Effects.inv {I : Dao → Prop} (heffect : ∀ d d', I d → Effect d d' → I d') {d d' : Dao}
    (h : Effects d d') (hd : I d) : I d' := by
  induction h with
  | refl => exact hd
  | tail _ h ih => exact heffect _ _ ih h

/-- The required signatories of a governance are changed. -/
inductive Amendment (d : Dao) : Dao → Prop
  | add {governance signatory : Pubkey} {g : GovernanceV2}
      (hg : d.governances.lookup governance = some g)
      (hnew : d.requiredSignatories.lookup ⟨governance, signatory⟩ = none) :
      Amendment d { d with
        governances := d.governances.insert governance
          { g with requiredSignatoriesCount := g.requiredSignatoriesCount + 1 }
        requiredSignatories := d.requiredSignatories.insert ⟨governance, signatory⟩
          { governance, signatory } }
  | remove {governance : Pubkey} {required : RequiredSignatorySeeds} {g : GovernanceV2}
      {data : RequiredSignatory}
      (hg : d.governances.lookup governance = some g)
      (hdata : d.requiredSignatories.lookup required = some data)
      (hgovernance : data.governance = governance) :
      Amendment d { d with
        governances := d.governances.insert governance
          { g with requiredSignatoriesCount := g.requiredSignatoriesCount - 1 }
        requiredSignatories := d.requiredSignatories.erase required }

end Dao

/-! ### Executions -/

/-- An option apart from the count of its executed transactions. -/
def ProposalOption.uncounted (o : ProposalOption) : ProposalOption :=
  { o with transactionsExecutedCount := 0 }

namespace ProposalV2

/-- The number of transactions of an option. -/
def transactionsCountOf (p : ProposalV2) (i : ℕ) : ℕ :=
  (p.options[i]?).elim 0 (·.transactionsCount)

/-- The number of those that are counted as executed. -/
def executedCountOf (p : ProposalV2) (i : ℕ) : ℕ :=
  (p.options[i]?).elim 0 (·.transactionsExecutedCount)

/-- A proposal whose execution has begun, apart from what is counted. -/
def started (now : ℕ) (p : ProposalV2) : ProposalV2 :=
  { p with
    options := p.options.map ProposalOption.uncounted
    executingAt := if p.state = .Succeeded then some now else p.executingAt
    state := if p.state = .Succeeded then .Executing else p.state }

/-- What the execution of a transaction makes of a proposal. -/
structure Proceeds (now : ℕ) (p p' : ProposalV2) : Prop where
  rest_eq : p' = { p with
    options := p'.options
    executingAt := p'.executingAt
    closedAt := p'.closedAt
    state := p'.state }
  options_eq : p'.options.map ProposalOption.uncounted = p.options.map ProposalOption.uncounted
  executingAt_eq : p'.executingAt = (p.started now).executingAt
  stage : p'.state = .Completed ∧ p'.closedAt = some now ∨
    p'.state = (p.started now).state ∧ p'.closedAt = p.closedAt

/-- A proposal that was read before: since then at most other transactions of it were executed,
and it was not completed. -/
def ReadBefore (now : ℕ) (p q : ProposalV2) : Prop := q.started now = p.started now

end ProposalV2

namespace Dao

/-- The number of transactions of an option that were executed. -/
def executedOf
    (transactions : Store ProposalTransactionSeeds (ProposalTransactionV2 InstructionData))
    (proposal : Pubkey) (i : ℕ) : ℕ :=
  Store.total (fun k t =>
    if (k.proposal = proposal ∧ k.optionIndex = i) ∧ t.executedAt.isSome = true then 1 else 0)
    transactions

/-- A transaction is being executed: it and its proposal were read before its instructions were
invoked, and these have executed at most other transactions. -/
structure InExecution (d : Dao) (k : ProposalTransactionSeeds)
    (t : ProposalTransactionV2 InstructionData) (p : ProposalV2) : Prop where
  transaction_eq : d.proposalTransactions.lookup k = some t
  first : t.executedAt = none
  isExecutable : p.state.isExecutable = true
  option_succeeded : ∃ option, p.options[t.optionIndex]? = some option ∧
    option.voteResult = .Succeeded
  after_vote : ∃ completedAt, p.votingCompletedAt = some completedAt ∧
    completedAt < d.unixTimestamp
  counts_le : ∀ i, p.executedCountOf i ≤ executedOf d.proposalTransactions t.proposal i
  proposal_read : ∃ q, d.proposals.lookup t.proposal = some q ∧ p.ReadBefore d.unixTimestamp q

/-- A transaction of a governance has been executed: what is written after its instructions were
invoked. -/
inductive Execution (governance : Pubkey) (k : ProposalTransactionSeeds) (d : Dao) : Dao → Prop
  | execute {p p' : ProposalV2} {t : ProposalTransactionV2 InstructionData}
      (h : d.InExecution k t p) (hgovernance : p.governance = governance)
      (hafter : d.afterExecution p t.optionIndex = .ok p') :
      Execution governance k d { d with
        proposals := d.proposals.insert t.proposal p'
        proposalTransactions := d.proposalTransactions.insert k
          { t with executedAt := some d.unixTimestamp, executionStatus := .Success } }

/-! ### Instructions that concern no proposal -/

end Dao

/-- Whether an instruction changes the required signatories of a governance. -/
def ConfigInstruction.amends : ConfigInstruction → Bool
  | .addRequiredSignatory .. | .removeRequiredSignatory .. => true
  | _ => false

def GovernanceInstruction.amends : GovernanceInstruction → Bool
  | .config i => i.amends
  | _ => false

namespace Dao

theorem RecordsKept.refl (s : Store TokenOwnerRecordSeeds TokenOwnerRecordV2) : RecordsKept s s :=
  Store.Extends.refl SameCounts.refl s

theorem GovernancesKept.refl (s : Store Pubkey GovernanceV2) : GovernancesKept s s :=
  Store.Extends.refl SameCounters.refl s

theorem receive_ok {d d' : Dao} {mint : Pubkey} {amount : ℕ} {source : Realm.Source}
    (h : d.receive mint amount source = .ok d') :
    ∃ holding supply wallets, d' = { d with holding, supply, wallets } := by
  cases source with
  | account key =>
      simp only [receive, bind_eq_ok, guardOr_eq_ok, Except.ok.injEq] at h
      obtain ⟨_, -, _, -, rfl⟩ := h
      exact ⟨_, _, _, rfl⟩
  | mint =>
      simp only [receive, bind_eq_ok, guardOr_eq_ok, Except.ok.injEq] at h
      obtain ⟨_, -, rfl⟩ := h
      exact ⟨_, _, _, rfl⟩

/-- A deposit goes to a record that is there, or opens one. -/
theorem recordForDeposit_ok {d : Dao} {mint : Pubkey} {owner : AccountInfo}
    {t : TokenOwnerRecordV2} (h : d.recordForDeposit mint owner = .ok t) :
    d.tokenOwnerRecords.lookup ⟨mint, owner.key⟩ = some t ∨
      (d.tokenOwnerRecords.lookup ⟨mint, owner.key⟩ = none ∧
        t = { governingTokenMint := mint, governingTokenOwner := owner.key }) := by
  unfold recordForDeposit at h
  split at h
  · next hsome =>
      cases h
      exact .inl hsome
  · next hnone =>
      simp only [bind_eq_ok, require_eq_ok, Except.ok.injEq] at h
      obtain ⟨_, -, rfl⟩ := h
      exact .inr ⟨hnone, rfl⟩

theorem removeLock_ok {t t' : TokenOwnerRecordV2} {lockId : ℕ} {authority : Pubkey}
    (h : t.removeLock lockId authority = .ok t') : ∃ locks, t' = { t with locks } := by
  unfold TokenOwnerRecordV2.removeLock at h
  split at h
  · cases h
    exact ⟨_, rfl⟩
  · cases h

theorem removeLocks_ok {d : Dao} {t t' : TokenOwnerRecordV2}
    {locks : Option (AccountInfo × List ℕ)} (h : d.removeLocks t locks = .ok t') :
    ∃ locks, t' = { t with locks } := by
  cases locks with
  | none =>
      cases h
      exact ⟨_, rfl⟩
  | some locks =>
      simp only [removeLocks, bind_eq_ok, require_eq_ok] at h
      obtain ⟨_, -, _, -, h⟩ := h
      refine foldlM_inv (I := fun t₁ => ∃ locks, t₁ = { t with locks }) ?_ ⟨_, rfl⟩ h
      rintro _ lockId t₂ - ⟨locks, rfl⟩ h
      obtain ⟨locks', rfl⟩ := removeLock_ok h
      exact ⟨locks', rfl⟩

/-- Where tokens arrive, nothing else changes. -/
theorem credit_eq (d : Dao) (mint : Pubkey) (amount : ℕ) (account : GoverningTokenAccount) :
    ∃ holding wallets, d.credit mint amount account = { d with holding, wallets } := by
  cases account with
  | holding => exact ⟨_, _, rfl⟩
  | wallet key => exact ⟨_, _, rfl⟩

/-- The instructions on token owner records. -/
theorem stepRecord_frame {d d' : Dao} {i : RecordInstruction} (h : d.stepRecord i = .ok d') :
    Frame d d' := by
  cases i with
  | createTokenOwnerRecord mint owner =>
      simp only [stepRecord, createTokenOwnerRecord, bind_eq_ok, require_eq_ok,
        Except.ok.injEq] at h
      obtain ⟨_, -, _, hnone, rfl⟩ := h
      exact { records := .openNew SameCounts.refl hnone ⟨rfl, rfl, rfl, rfl⟩
              governances := .refl _ }
  | depositGoverningTokens mint owner source amount =>
      simp only [stepRecord, depositGoverningTokens, bind_eq_ok, unwrapAdd_eq_ok,
        Except.ok.injEq] at h
      obtain ⟨_, -, _, -, t, ht, d₁, hreceive, _, -, rfl⟩ := h
      obtain ⟨holding, supply, wallets, rfl⟩ := receive_ok hreceive
      rcases recordForDeposit_ok ht with hsome | ⟨hnone, rfl⟩
      · exact { records := .write SameCounts.refl hsome ⟨rfl, rfl, rfl, rfl⟩
                governances := .refl _ }
      · exact { records := .openNew SameCounts.refl hnone ⟨rfl, rfl, rfl, rfl⟩
                governances := .refl _ }
  | withdrawGoverningTokens mint owner destination =>
      simp only [stepRecord, withdrawGoverningTokens, getTokenOwnerRecordData, bind_eq_ok,
        require_eq_ok, guardOr_eq_ok, okOr_eq_ok, Except.ok.injEq] at h
      obtain ⟨_, -, _, -, _, -, t, ht, _, -, _, -, rfl⟩ := h
      obtain ⟨_, _, hcredit⟩ := credit_eq (d.setHolding mint
        (d.holding mint - t.governingTokenDepositAmount)) mint t.governingTokenDepositAmount
        destination
      rw [hcredit]
      exact { records := .write SameCounts.refl ht ⟨rfl, rfl, rfl, rfl⟩
              governances := .refl _ }
  | revokeGoverningTokens mint record revokeAuthority amount =>
      simp only [stepRecord, revokeGoverningTokens, getTokenOwnerRecordDataForGoverningMint,
        getTokenOwnerRecordData, bind_eq_ok, require_eq_ok, guardOr_eq_ok, okOr_eq_ok,
        Except.ok.injEq] at h
      obtain ⟨_, -, _, -, t, ⟨_, ht, _, -, rfl⟩, _, -, _, -, _, -, rfl⟩ := h
      exact { records := .write SameCounts.refl ht ⟨rfl, rfl, rfl, rfl⟩
              governances := .refl _ }
  | setGovernanceDelegate record governanceAuthority newGovernanceDelegate =>
      simp only [stepRecord, setGovernanceDelegate, getTokenOwnerRecordData, bind_eq_ok,
        okOr_eq_ok, Except.ok.injEq] at h
      obtain ⟨t, ht, _, -, rfl⟩ := h
      exact { records := .write SameCounts.refl ht ⟨rfl, rfl, rfl, rfl⟩
              governances := .refl _ }
  | setTokenOwnerRecordLock record lockAuthority lockId expiry =>
      simp only [stepRecord, setTokenOwnerRecordLock, getTokenOwnerRecordData, bind_eq_ok,
        require_eq_ok, okOr_eq_ok, Except.ok.injEq] at h
      obtain ⟨_, -, _, -, t, ht, _, -, _, -, rfl⟩ := h
      exact { records := .write SameCounts.refl ht ⟨rfl, rfl, rfl, rfl⟩
              governances := .refl _ }
  | relinquishTokenOwnerRecordLocks record locks =>
      simp only [stepRecord, relinquishTokenOwnerRecordLocks, getTokenOwnerRecordData,
        bind_eq_ok, okOr_eq_ok, Except.ok.injEq] at h
      obtain ⟨t, ht, t₁, hlocks, rfl⟩ := h
      obtain ⟨_, rfl⟩ := removeLocks_ok hlocks
      exact { records := .write SameCounts.refl ht ⟨rfl, rfl, rfl, rfl⟩
              governances := .refl _ }

theorem resolveCouncilMint_ok {d : Dao} {councilMint councilMint' : Option Pubkey}
    (h : d.resolveCouncilMint councilMint = .ok councilMint') :
    councilMint' = d.realm.config.councilMint ∨ councilMint' = none := by
  cases councilMint with
  | none =>
      cases h
      exact .inr rfl
  | some councilMint =>
      simp only [resolveCouncilMint, bind_eq_ok, require_eq_ok, Except.ok.injEq] at h
      obtain ⟨_, -, rfl⟩ := h
      exact .inl rfl

/-- The instructions on the configuration, but for the required signatories. -/
theorem stepConfig_frame {d d' : Dao} {i : ConfigInstruction} (hi : i.amends = false)
    (h : d.stepConfig i = .ok d') : Frame d d' := by
  cases i with
  | createGovernance governance config record createAuthority voterWeightRecord =>
      simp only [stepConfig, createGovernance, bind_eq_ok, guardOr_eq_ok, Except.ok.injEq] at h
      obtain ⟨_, -, _, -, _, hnone, rfl⟩ := h
      exact { records := .refl _
              governances := .openNew SameCounters.refl hnone ⟨rfl, rfl⟩ }
  | setGovernanceConfig governance config =>
      simp only [stepConfig, setGovernanceConfig, getGovernanceData, bind_eq_ok, require_eq_ok,
        okOr_eq_ok, Except.ok.injEq] at h
      obtain ⟨_, -, _, -, g, hg, rfl⟩ := h
      exact { records := .refl _
              governances := .write SameCounters.refl hg ⟨rfl, rfl⟩ }
  | addRequiredSignatory governance signatory => cases hi
  | removeRequiredSignatory governance required => cases hi
  | setRealmConfig realmAuthority args =>
      simp only [stepConfig, setRealmConfig, bind_eq_ok, Except.ok.injEq] at h
      obtain ⟨_, -, _, -, councilMint, hcouncil, _, -, rfl⟩ := h
      exact { records := .refl _
              governances := .refl _
              councilMint_eq := resolveCouncilMint_ok hcouncil }
  | setRealmConfigItem realmAuthority action mint authority =>
      simp only [stepConfig, setRealmConfigItem, bind_eq_ok, Except.ok.injEq] at h
      obtain ⟨_, -, _, -, _, -, rfl⟩ := h
      exact { records := .refl _
              governances := .refl _ }
  | setRealmAuthority realmAuthority action =>
      simp only [stepConfig, setRealmAuthority, bind_eq_ok, Except.ok.injEq] at h
      obtain ⟨_, -, _, -, rfl⟩ := h
      exact { records := .refl _
              governances := .refl _ }

/-- The changes of the required signatories. -/
theorem stepConfig_amendment {d d' : Dao} {i : ConfigInstruction} (hi : i.amends = true)
    (h : d.stepConfig i = .ok d') : Amendment d d' := by
  cases i with
  | addRequiredSignatory governance signatory =>
      simp only [stepConfig, addRequiredSignatory, getGovernanceData, bind_eq_ok, require_eq_ok,
        guardOr_eq_ok, unwrapAdd_eq_ok, okOr_eq_ok, Except.ok.injEq] at h
      obtain ⟨_, -, g, hg, _, ⟨-, rfl⟩, _, hnew, rfl⟩ := h
      exact .add hg hnew
  | removeRequiredSignatory governance required =>
      simp only [stepConfig, removeRequiredSignatory, getGovernanceData,
        getRequiredSignatoryDataForGovernance, bind_eq_ok, require_eq_ok, unwrapSub_eq_ok,
        okOr_eq_ok, Except.ok.injEq] at h
      obtain ⟨_, -, g, hg, _, ⟨data, hdata, _, hgovernance, -⟩, _, ⟨-, rfl⟩, rfl⟩ := h
      exact .remove hg hdata hgovernance
  | createGovernance => cases hi
  | setGovernanceConfig => cases hi
  | setRealmConfig => cases hi
  | setRealmConfigItem => cases hi
  | setRealmAuthority => cases hi

theorem stepToken_frame {d d' : Dao} {i : TokenInstruction} (h : d.stepToken i = .ok d') :
    Frame d d' := by
  cases i with
  | mintTo mint receiver amount =>
      simp only [stepToken, bind_eq_ok, guardOr_eq_ok, Except.ok.injEq] at h
      obtain ⟨_, -, rfl⟩ := h
      obtain ⟨_, _, hcredit⟩ := credit_eq (d.setSupply mint (d.supply mint + amount)) mint amount
        receiver
      rw [hcredit]
      exact { records := .refl _
              governances := .refl _ }
  | transfer mint sender receiver amount =>
      simp only [stepToken, bind_eq_ok, guardOr_eq_ok, Except.ok.injEq] at h
      obtain ⟨_, -, rfl⟩ := h
      obtain ⟨_, _, hcredit⟩ := credit_eq (d.setWallet mint sender
        (d.walletOf mint sender - amount)) mint amount receiver
      rw [hcredit]
      exact { records := .refl _
              governances := .refl _ }
  | burn mint key amount =>
      simp only [stepToken, bind_eq_ok, guardOr_eq_ok, Except.ok.injEq] at h
      obtain ⟨_, -, rfl⟩ := h
      exact { records := .refl _
              governances := .refl _ }

theorem refundProposalDeposit_frame {d d' : Dao} {proposal : Pubkey}
    {deposit : ProposalDepositSeeds} {depositPayer : Pubkey}
    (h : d.refundProposalDeposit proposal deposit depositPayer = .ok d') : Frame d d' := by
  simp only [refundProposalDeposit, bind_eq_ok, Except.ok.injEq] at h
  obtain ⟨_, -, _, -, _, -, _, -, _, -, rfl⟩ := h
  exact { records := .refl _
          governances := .refl _ }

/-! ### Instructions on proposals -/

theorem getProposalData_ok {d : Dao} {proposal : Pubkey} {p : ProposalV2}
    (h : d.getProposalData proposal = .ok p) : d.proposals.lookup proposal = some p :=
  okOr_eq_ok.mp h

theorem getProposalDataForGovernance_ok {d : Dao} {proposal governance : Pubkey}
    {p : ProposalV2} (h : d.getProposalDataForGovernance proposal governance = .ok p) :
    d.proposals.lookup proposal = some p ∧ p.governance = governance := by
  simp only [getProposalDataForGovernance, bind_eq_ok, require_eq_ok, Except.ok.injEq] at h
  obtain ⟨_, hp, _, hgovernance, rfl⟩ := h
  exact ⟨getProposalData_ok hp, hgovernance⟩

theorem getProposalDataForGovernanceAndGoverningMint_ok {d : Dao}
    {proposal governance mint : Pubkey} {p : ProposalV2}
    (h : d.getProposalDataForGovernanceAndGoverningMint proposal governance mint = .ok p) :
    d.proposals.lookup proposal = some p ∧ p.governance = governance ∧
      p.governingTokenMint = mint := by
  simp only [getProposalDataForGovernanceAndGoverningMint, bind_eq_ok, require_eq_ok,
    Except.ok.injEq] at h
  obtain ⟨_, hp, _, hmint, rfl⟩ := h
  obtain ⟨hp, hgovernance⟩ := getProposalDataForGovernance_ok hp
  exact ⟨hp, hgovernance, hmint⟩

theorem getTokenOwnerRecordDataForGoverningMint_ok {d : Dao} {record : TokenOwnerRecordSeeds}
    {mint : Pubkey} {t : TokenOwnerRecordV2}
    (h : d.getTokenOwnerRecordDataForGoverningMint record mint = .ok t) :
    d.tokenOwnerRecords.lookup record = some t ∧ t.governingTokenMint = mint := by
  simp only [getTokenOwnerRecordDataForGoverningMint, getTokenOwnerRecordData, bind_eq_ok,
    okOr_eq_ok, require_eq_ok, Except.ok.injEq] at h
  obtain ⟨_, ht, _, hmint, rfl⟩ := h
  exact ⟨ht, hmint⟩

theorem getTokenOwnerRecordDataForProposalOwner_ok {d : Dao}
    {record owner : TokenOwnerRecordSeeds} {t : TokenOwnerRecordV2}
    (h : d.getTokenOwnerRecordDataForProposalOwner record owner = .ok t) :
    record = owner ∧ d.tokenOwnerRecords.lookup record = some t := by
  simp only [getTokenOwnerRecordDataForProposalOwner, getTokenOwnerRecordData, bind_eq_ok,
    okOr_eq_ok, require_eq_ok] at h
  obtain ⟨_, howner, ht⟩ := h
  exact ⟨howner, ht⟩

theorem getProposalTransactionDataForProposal_ok {d : Dao}
    {transaction : ProposalTransactionSeeds} {proposal : Pubkey}
    {t : ProposalTransactionV2 InstructionData}
    (h : d.getProposalTransactionDataForProposal transaction proposal = .ok t) :
    d.proposalTransactions.lookup transaction = some t ∧ t.proposal = proposal := by
  simp only [getProposalTransactionDataForProposal, bind_eq_ok, okOr_eq_ok, require_eq_ok,
    Except.ok.injEq] at h
  obtain ⟨_, ht, _, hproposal, rfl⟩ := h
  exact ⟨ht, hproposal⟩

/-- `process_create_proposal`. -/
theorem createProposal_effect {d d' : Dao} {proposal governance : Pubkey}
    {owner : TokenOwnerRecordSeeds} {mint : Pubkey} {governanceAuthority : AccountInfo}
    {payer : Pubkey} {voterWeightRecord : Option (AddinAccount VoterWeightRecord)}
    {voteType : VoteType} {options : List String} {useDenyOption : Bool}
    (h : d.createProposal proposal governance owner mint governanceAuthority payer
      voterWeightRecord voteType options useDenyOption = .ok d') : Effect d d' := by
  simp only [createProposal, getGovernanceData, getTokenOwnerRecordData,
    TokenOwnerRecordV2.assertCanCreateProposal, bind_eq_ok, require_eq_ok, okOr_eq_ok,
    unwrapAdd_eq_ok] at h
  obtain ⟨_, hp, _, -, g, hg, _, -, t, ht, _, -, _, -, _, ⟨_, -, _, -, _, -, houtstanding⟩, _,
    ⟨-, rfl⟩, _, -, _, ⟨-, rfl⟩, h⟩ := h
  unfold takeProposalDeposit at h
  split at h
  · cases h
    exact .create hp hg ht houtstanding
  · simp only [bind_eq_ok, guardOr_eq_ok, Except.ok.injEq] at h
    obtain ⟨_, -, rfl⟩ := h
    exact .create hp hg ht houtstanding

/-- `process_add_signatory`. -/
theorem addSignatory_effect {d d' : Dao} {governance proposal signatory : Pubkey}
    {required : Option RequiredSignatorySeeds}
    {owner : Option (TokenOwnerRecordSeeds × AccountInfo)}
    (h : d.addSignatory governance proposal signatory required owner = .ok d') :
    Effect d d' := by
  simp only [addSignatory, getGovernanceData, ProposalV2.assertCanEditSignatories, bind_eq_ok,
    require_eq_ok, okOr_eq_ok, unwrapAdd_eq_ok, Except.ok.injEq] at h
  obtain ⟨g, hg, p, hp, _, hstate, _, hnew, _, hmay, _, ⟨-, rfl⟩, rfl⟩ := h
  obtain ⟨hp, hgovernance⟩ := getProposalDataForGovernance_ok hp
  refine .addSignatory hp hstate hgovernance hg ?_ hnew
  intro hless
  rw [assertCanAddSignatory, if_pos hless] at hmay
  simp only [getRequiredSignatoryDataForGovernance, bind_eq_ok, okOr_eq_ok, require_eq_ok,
    Except.ok.injEq] at hmay
  obtain ⟨k, -, data, ⟨_, hdata, _, hof, rfl⟩, hsignatory⟩ := hmay
  exact ⟨k, _, hdata, hof, hsignatory⟩

/-- A sign-off may start the vote. -/
theorem startVoting_effects {d : Dao} {governance proposal : Pubkey} {p : ProposalV2}
    {g : GovernanceV2} {proposals : Store Pubkey ProposalV2}
    (hp : d.proposals = proposals.insert proposal p)
    (hstate : p.state = .Draft ∨ p.state = .SigningOff) (hgovernance : p.governance = governance)
    (hg : d.governances.lookup governance = some g)
    (hrequired : g.requiredSignatoriesCount ≤ p.signatoriesCount) :
    Effects d { d with proposals := proposals.insert proposal (d.startVoting p) } := by
  have hlookup : d.proposals.lookup proposal = some p := by
    rw [hp, AList.lookup_insert]
  unfold startVoting
  split
  · next hsigned =>
      have heffect := Effect.startVoting hlookup hstate hgovernance hg hrequired hsigned
      rw [hp, AList.insert_insert] at heffect
      exact .single heffect
  · rw [← hp]

theorem beginSignOff_eq (d : Dao) (p : ProposalV2) :
    ∃ signingOffAt, d.beginSignOff p = { p with
      signingOffAt
      state := if p.signatoriesSignedOffCount = 0 then .SigningOff else p.state } := by
  unfold beginSignOff
  split
  · exact ⟨_, rfl⟩
  · exact ⟨p.signingOffAt, rfl⟩

/-- `process_sign_off_proposal`. -/
theorem signOffProposal_effects {d d' : Dao} {governance proposal : Pubkey}
    {signatory : AccountInfo} {owner : Option TokenOwnerRecordSeeds}
    (h : d.signOffProposal governance proposal signatory owner = .ok d') : Effects d d' := by
  simp only [signOffProposal, getGovernanceData, bind_eq_ok, okOr_eq_ok, require_eq_ok] at h
  obtain ⟨g, hg, p, hp, _, hcan, _, hrequired, h⟩ := h
  obtain ⟨hp, hgovernance⟩ := getProposalDataForGovernance_ok hp
  have hstate : p.state = .Draft ∨ p.state = .SigningOff := by
    unfold ProposalV2.assertCanSignOff at hcan
    split at hcan
    · exact .inl ‹_›
    · exact .inr ‹_›
    · cases hcan
  have hrequired : g.requiredSignatoriesCount ≤ p.signatoriesCount := by omega
  split at h
  · simp only [signOffByOwner, bind_eq_ok, Except.ok.injEq] at h
    obtain ⟨_, -, _, -, _, -, rfl⟩ := h
    have hbegin : Effect d { d with
        proposals := d.proposals.insert proposal
          { p with signingOffAt := some d.unixTimestamp } } := .beginSignOff hp hstate
    exact .head hbegin (startVoting_effects rfl hstate hgovernance hg hrequired)
  · simp only [signOffBySignatory, SignatoryRecordV2.assertCanSignOff, bind_eq_ok, okOr_eq_ok,
      require_eq_ok, unwrapAdd_eq_ok, Except.ok.injEq] at h
    obtain ⟨s, hs, _, ⟨_, hunsigned, -⟩, _, ⟨-, rfl⟩, rfl⟩ := h
    obtain ⟨signingOffAt, hbegin⟩ := beginSignOff_eq d p
    rw [hbegin]
    refine .head (.signOff hp hstate hs hunsigned)
      (startVoting_effects (g := g) rfl ?_ hgovernance hg hrequired)
    dsimp only
    split
    · exact .inr rfl
    · exact hstate

/-- The index after an insertion is beyond the inserted one, and no smaller than before. -/
theorem nextIndexAfter_ok {option : ProposalOption} {index nextIndex : ℕ}
    (h : nextIndexAfter option index = .ok nextIndex) :
    index < nextIndex ∧ option.transactionsNextIndex ≤ nextIndex := by
  unfold nextIndexAfter at h
  split at h
  · cases h
  · split at h
    · simp only [unwrapAdd_eq_ok] at h
      omega
    · cases h
      omega

/-- `process_insert_transaction`. -/
theorem insertTransaction_effect {d d' : Dao} {governance proposal : Pubkey}
    {owner : TokenOwnerRecordSeeds} {governanceAuthority : AccountInfo}
    {optionIndex instructionIndex : ℕ} {instructions : List InstructionData}
    (h : d.insertTransaction governance proposal owner governanceAuthority optionIndex
      instructionIndex instructions = .ok d') : Effect d d' := by
  simp only [insertTransaction, ProposalV2.assertCanEditInstructions, bind_eq_ok, okOr_eq_ok,
    require_eq_ok, unwrapAdd_eq_ok, Except.ok.injEq] at h
  obtain ⟨_, hnew, _, -, p, hp, _, ⟨_, hstate, hdeny⟩, _, -, _, -, option, hoption, _, hnext, _,
    ⟨hfits, rfl⟩, rfl⟩ := h
  obtain ⟨hindex, hnext⟩ := nextIndexAfter_ok hnext
  exact .insertTransaction (getProposalDataForGovernance_ok hp).1 hstate hdeny hoption hindex
    hnext hnew hfits

/-- `process_remove_transaction`. -/
theorem removeTransaction_effect {d d' : Dao} {proposal : Pubkey}
    {owner : TokenOwnerRecordSeeds} {governanceAuthority : AccountInfo}
    {transaction : ProposalTransactionSeeds}
    (h : d.removeTransaction proposal owner governanceAuthority transaction = .ok d') :
    Effect d d' := by
  simp only [removeTransaction, ProposalV2.assertCanEditInstructions, bind_eq_ok, okOr_eq_ok,
    require_eq_ok, unwrapSub_eq_ok, Except.ok.injEq] at h
  obtain ⟨p, hp, _, ⟨_, hstate, -⟩, _, -, _, -, t, ht, option, hoption, _, ⟨hcount, rfl⟩,
    rfl⟩ := h
  obtain ⟨ht, hproposal⟩ := getProposalTransactionDataForProposal_ok ht
  exact .removeTransaction (getProposalData_ok hp) hstate ht hproposal hoption hcount

theorem releaseProposal_ok {d d' : Dao} {governance : Pubkey}
    {owner proposalOwner : TokenOwnerRecordSeeds}
    (h : d.releaseProposal governance owner proposalOwner = .ok d') :
    proposalOwner = owner ∧ ∃ t g, d.tokenOwnerRecords.lookup owner = some t ∧
      d.governances.lookup governance = some g ∧
      d' = { d with
        tokenOwnerRecords := d.tokenOwnerRecords.insert owner t.decreaseOutstandingProposalCount
        governances := d.governances.insert governance
          { g with activeProposalCount := g.activeProposalCount - 1 } } := by
  simp only [releaseProposal, getGovernanceData, bind_eq_ok, okOr_eq_ok, Except.ok.injEq] at h
  obtain ⟨t, ht, g, hg, rfl⟩ := h
  obtain ⟨howner, ht⟩ := getTokenOwnerRecordDataForProposalOwner_ok ht
  exact ⟨howner.symm, t, g, ht, hg, rfl⟩

/-- `process_cancel_proposal`. -/
theorem cancelProposal_effect {d d' : Dao} {governance proposal : Pubkey}
    {owner : TokenOwnerRecordSeeds} {governanceAuthority : AccountInfo}
    (h : d.cancelProposal governance proposal owner governanceAuthority = .ok d') :
    Effect d d' := by
  simp only [cancelProposal, bind_eq_ok] at h
  obtain ⟨_, -, p, hp, _, hcan, _, -, _, -, hrelease⟩ := h
  obtain ⟨hp, hgovernance⟩ := getProposalDataForGovernance_ok hp
  obtain ⟨howner, t, g, ht, hg, rfl⟩ := releaseProposal_ok hrelease
  have hactive : p.state.isActive = true := by
    unfold ProposalV2.assertCanCancel at hcan
    split at hcan
    · rw [‹p.state = _›]
      rfl
    · rw [‹p.state = _›]
      rfl
    · rw [‹p.state = _›]
      rfl
    · cases hcan
  exact .close hp (.inl ⟨hactive, rfl⟩) hgovernance howner ht hg

/-- `process_finalize_vote`. -/
theorem finalizeVote_effect {d d' : Dao} {governance proposal : Pubkey}
    {owner : TokenOwnerRecordSeeds} {mint : Pubkey}
    {maxVoterWeightRecord : Option (AddinAccount MaxVoterWeightRecord)}
    (h : d.finalizeVote governance proposal owner mint maxVoterWeightRecord = .ok d') :
    Effect d d' := by
  simp only [finalizeVote, bind_eq_ok] at h
  obtain ⟨_, -, _, -, p, hp, _, -, _, -, decided, hdecided, hrelease⟩ := h
  obtain ⟨hp, hgovernance, -⟩ := getProposalDataForGovernanceAndGoverningMint_ok hp
  obtain ⟨howner, t, g, ht, hg, rfl⟩ := releaseProposal_ok hrelease
  obtain ⟨hvoting, completedAt, hend, hended, hdecides⟩ := ProposalV2.finalizeVote_ok hdecided
  refine .close hp (.inr ⟨hvoting, completedAt, ⟨hended.le, fun votingAt hat _ => ?_⟩, hdecides⟩)
    hgovernance howner ht hg
  simp only [ProposalV2.votingMaxTimeEnd, ProposalV2.votingBaseTimeEnd, hat, bind_eq_ok,
    okOr_eq_ok, unwrapAdd_eq_ok, Option.some.injEq] at hend
  obtain ⟨_, ⟨_, rfl, -, rfl⟩, -, rfl⟩ := hend
  omega

/-- `process_complete_proposal`. -/
theorem completeProposal_effect {d d' : Dao} {proposal : Pubkey} {owner : TokenOwnerRecordSeeds}
    {authority : AccountInfo} (h : d.completeProposal proposal owner authority = .ok d') :
    Effect d d' := by
  simp only [completeProposal, ProposalV2.assertCanComplete, bind_eq_ok, require_eq_ok,
    Except.ok.injEq] at h
  obtain ⟨p, hp, _, ⟨_, hstate, hcounts⟩, _, -, _, -, rfl⟩ := h
  exact .complete (getProposalData_ok hp) hstate hcounts

/-! ### Votes -/

/-- `process_cast_vote`: the vote is cast, and when it tips the proposal, the proposal is
closed. -/
theorem castVote_effects {d d' : Dao} {governance proposal : Pubkey}
    {owner voter : TokenOwnerRecordSeeds} {governanceAuthority : AccountInfo} {mint : Pubkey}
    {vote : Vote} {voterWeightRecord : Option (AddinAccount VoterWeightRecord)}
    {maxVoterWeightRecord : Option (AddinAccount MaxVoterWeightRecord)}
    (h : d.castVote governance proposal owner voter governanceAuthority mint vote
      voterWeightRecord maxVoterWeightRecord = .ok d') : Effects d d' := by
  simp only [castVote, bind_eq_ok, require_eq_ok, unwrapAdd_eq_ok] at h
  obtain ⟨_, hnew, _, -, g, -, proposalMint, hmint, p, hread, _, hcan, t, hrecord, _, -, _,
    ⟨-, rfl⟩, voterWeight, hweight, _, hvalid, weighed, hweigh, maxVoterWeight, -, voteThreshold, -,
    voteTipping, -, ⟨decided, tipped⟩, htip, h⟩ := h
  obtain ⟨hp, hgovernance, rfl⟩ := getProposalDataForGovernanceAndGoverningMint_ok hread
  obtain ⟨ht, rfl⟩ := getTokenOwnerRecordDataForGoverningMint_ok hrecord
  have hstate : p.state = .Voting := by
    simp only [ProposalV2.assertCanCastVote, bind_eq_ok, require_eq_ok] at hcan
    exact hcan.choose_spec.1
  have hadds := ProposalV2.weigh_add hweigh
  have hcast := Effect.cast hp hstate ht hnew hmint hweight hvalid hadds
  rcases ProposalV2.tryTipVote_ok htip with ⟨rfl, hdecides⟩ | ⟨rfl, rfl⟩
  · rw [if_pos rfl] at h
    obtain ⟨howner, t₁, g₁, ht₁, hg₁, rfl⟩ := releaseProposal_ok h
    have hsame : weighed.governance = governance ∧ weighed.tokenOwnerRecord = owner ∧
        weighed.state = .Voting := by
      rw [hadds.rest_eq]
      exact ⟨hgovernance, howner, hstate⟩
    refine .tail (.single hcast) ?_
    have hclose := Effect.close (d := { d with
        proposals := d.proposals.insert proposal weighed
        tokenOwnerRecords := d.tokenOwnerRecords.insert voter
          { t with unrelinquishedVotesCount := t.unrelinquishedVotesCount + 1 }
        voteRecords := d.voteRecords.insert ⟨proposal, voter⟩
          { proposal
            governingTokenOwner := t.governingTokenOwner
            isRelinquished := false
            voterWeight
            vote } }) (AList.lookup_insert _)
      (.inr ⟨hsame.2.2, _, ⟨le_rfl, fun _ _ h => h⟩, hdecides⟩) hsame.1 hsame.2.1 ht₁ hg₁
    rw [AList.insert_insert] at hclose
    exact hclose
  · rw [if_neg Bool.false_ne_true] at h
    cases h
    exact .single hcast

theorem getVoteRecordData_ok {d : Dao} {k : VoteRecordSeeds} {proposal : Pubkey} {p : ProposalV2}
    {t : TokenOwnerRecordV2} {v : VoteRecordV2}
    (h : d.getVoteRecordDataForProposalAndTokenOwnerRecord k proposal p t = .ok v) :
    d.voteRecords.lookup k = some v ∧ v.proposal = proposal ∧
      v.governingTokenOwner = t.governingTokenOwner ∧
      d.realm.getProposalGoverningTokenMintForVote t.governingTokenMint (getVoteKind v.vote) =
        .ok p.governingTokenMint := by
  simp only [getVoteRecordDataForProposalAndTokenOwnerRecord, bind_eq_ok, okOr_eq_ok,
    require_eq_ok, Except.ok.injEq] at h
  obtain ⟨_, hv, _, hproposal, _, howner, mint, hmint, _, rfl, rfl⟩ := h
  exact ⟨hv, hproposal, howner, hmint⟩

/-- `process_relinquish_vote`. -/
theorem relinquishVote_effect {d d' : Dao} {governance proposal : Pubkey}
    {record : TokenOwnerRecordSeeds} {voteRecord : VoteRecordSeeds} {mint : Pubkey}
    {governanceAuthority : Option AccountInfo}
    (h : d.relinquishVote governance proposal record voteRecord mint governanceAuthority =
      .ok d') : Effect d d' := by
  simp only [relinquishVote, VoteRecordV2.assertCanRelinquishVote, bind_eq_ok, require_eq_ok,
    unwrapSub_eq_ok, Except.ok.injEq] at h
  obtain ⟨_, -, g, -, p, hp, t, ht, v, hv, _, hlive, d₁, hgiveUp, _, ⟨-, rfl⟩, rfl⟩ := h
  obtain ⟨hp, -⟩ := getProposalDataForGovernance_ok hp
  obtain ⟨ht, -⟩ := getTokenOwnerRecordDataForGoverningMint_ok ht
  obtain ⟨hv, hproposal, howner, hmint⟩ := getVoteRecordData_ok hv
  unfold giveUpVote at hgiveUp
  split at hgiveUp
  · next hstate =>
      simp only [withdrawVote, bind_eq_ok, require_eq_ok, okOr_eq_ok, Except.ok.injEq] at hgiveUp
      obtain ⟨_, -, _, -, _, -, _, -, p', hweigh, rfl⟩ := hgiveUp
      exact .withdraw hp hstate ht hv hproposal howner hmint hlive (ProposalV2.weigh_sub hweigh)
  · next hstate =>
      cases hgiveUp
      exact .relinquish hp hstate ht hv hproposal howner hmint hlive

/-! ### Any instruction -/

theorem stepProposal_effects {d d' : Dao} {i : ProposalInstruction}
    (h : d.stepProposal i = .ok d') : Effects d d' := by
  cases i with
  | createProposal => exact .single (createProposal_effect h)
  | addSignatory => exact .single (addSignatory_effect h)
  | signOffProposal => exact signOffProposal_effects h
  | removeTransaction => exact .single (removeTransaction_effect h)
  | cancelProposal => exact .single (cancelProposal_effect h)
  | castVote => exact castVote_effects h
  | relinquishVote => exact .single (relinquishVote_effect h)
  | finalizeVote => exact .single (finalizeVote_effect h)
  | completeProposal => exact .single (completeProposal_effect h)
  | refundProposalDeposit => exact .single (.frame (refundProposalDeposit_frame h))

theorem process_effects {d d' : Dao} {i : GovernanceInstruction} (hi : i.amends = false)
    (h : d.process i = .ok d') : Effects d d' := by
  cases i with
  | record i => exact .single (.frame (stepRecord_frame h))
  | config i => exact .single (.frame (stepConfig_frame hi h))
  | proposal i => exact stepProposal_effects h

theorem process_amendment {d d' : Dao} {i : GovernanceInstruction} (hi : i.amends = true)
    (h : d.process i = .ok d') : Amendment d d' := by
  cases i with
  | record i => cases hi
  | config i => exact stepConfig_amendment hi h
  | proposal i => cases hi

/-- **The invariant rule for a governance instruction.** What the effects and the amendments keep,
an instruction keeps. -/
theorem process_inv {I : Dao → Prop} (heffect : ∀ d d', I d → Effect d d' → I d')
    (hamendment : ∀ d d', I d → Amendment d d' → I d') {d d' : Dao} {i : GovernanceInstruction}
    (hd : I d) (h : d.process i = .ok d') : I d' := by
  cases hi : i.amends with
  | false => exact (process_effects hi h).inv heffect hd
  | true => exact hamendment _ _ hd (process_amendment hi h)

/-! ### The execution of a transaction -/

theorem executing_eq (d : Dao) (p : ProposalV2) :
    (if p.state = .Succeeded then
        { p with executingAt := some d.unixTimestamp, state := .Executing }
      else p) =
    { p with
      executingAt := if p.state = .Succeeded then some d.unixTimestamp else p.executingAt
      state := if p.state = .Succeeded then .Executing else p.state } := by
  split
  · rfl
  · rfl

/-- What becomes of a proposal when a transaction of one of its options was executed. -/
theorem afterExecution_ok {d : Dao} {p p' : ProposalV2} {i : ℕ}
    (hstate : p.state.isExecutable = true) (h : d.afterExecution p i = .ok p') :
    ∃ option, p.options[i]? = some option ∧
      p' = { setOption p i { option with
          transactionsExecutedCount := option.transactionsExecutedCount + 1 } with
        executingAt := p'.executingAt
        closedAt := p'.closedAt
        state := p'.state } ∧
      (p'.state = .Completed ∧ (∀ o ∈ p'.options, o.voteResult = .Succeeded →
          o.transactionsExecutedCount = o.transactionsCount) ∨
        p'.state = .Executing ∨ p'.state = .ExecutingWithErrors) := by
  unfold afterExecution at h
  simp only [bind_eq_ok, okOr_eq_ok, unwrapAdd_eq_ok] at h
  obtain ⟨option, hoption, _, ⟨-, rfl⟩, h⟩ := h
  rw [executing_eq] at hoption h
  have hnext : (if p.state = .Succeeded then .Executing else p.state) = .Executing ∨
      (if p.state = .Succeeded then .Executing else p.state) = .ExecutingWithErrors := by
    cases hs : p.state <;> rw [hs] at hstate <;> first
      | exact .inl rfl
      | exact .inr rfl
      | exact absurd hstate (by decide)
  generalize (if p.state = .Succeeded then .Executing else p.state) = state at hoption h hnext
  generalize (if p.state = .Succeeded then some d.unixTimestamp else p.executingAt) =
    executingAt at hoption h
  refine ⟨option, hoption, ?_⟩
  split at h
  · next hall =>
      cases h
      exact ⟨rfl, .inl ⟨rfl, hall.2⟩⟩
  · cases h
    exact ⟨rfl, .inr hnext⟩

/-- The state and the timestamps it gets. -/
theorem afterExecution_stage {d : Dao} {p p' : ProposalV2} {i : ℕ}
    (h : d.afterExecution p i = .ok p') :
    (p'.state = .Completed ∧ p'.closedAt = some d.unixTimestamp ∨
      p'.state = (if p.state = .Succeeded then .Executing else p.state) ∧
        p'.closedAt = p.closedAt) ∧
    p'.executingAt = (if p.state = .Succeeded then some d.unixTimestamp else p.executingAt) := by
  unfold afterExecution at h
  simp only [bind_eq_ok, okOr_eq_ok, unwrapAdd_eq_ok] at h
  obtain ⟨option, -, _, -, h⟩ := h
  rw [executing_eq] at h
  generalize (if p.state = .Succeeded then .Executing else p.state) = state at h ⊢
  generalize (if p.state = .Succeeded then some d.unixTimestamp else p.executingAt) =
    executingAt at h ⊢
  split at h
  · cases h
    exact ⟨.inl ⟨rfl, rfl⟩, rfl⟩
  · cases h
    exact ⟨.inr ⟨rfl, rfl⟩, rfl⟩

end Dao

namespace ProposalV2

theorem options_uncounted_set {p : ProposalV2} {i : ℕ} {option option' : ProposalOption}
    (hoption : p.options[i]? = some option) (h : option'.uncounted = option.uncounted) :
    (p.options.set i option').map ProposalOption.uncounted =
      p.options.map ProposalOption.uncounted := by
  refine List.ext_getElem? fun j => ?_
  rw [List.getElem?_map, List.getElem?_map, List.getElem?_set]
  split
  · next hij =>
      rw [← hij, if_pos (List.getElem?_eq_some_iff.mp hoption).1, hoption, Option.map_some,
        Option.map_some, h]
  · rfl

theorem started_state (now : ℕ) (p : ProposalV2) :
    (p.started now).state = if p.state = .Succeeded then .Executing else p.state := rfl

theorem afterExecution_proceeds {d : Dao} {p p' : ProposalV2} {i : ℕ}
    (hstate : p.state.isExecutable = true) (h : d.afterExecution p i = .ok p') :
    p.Proceeds d.unixTimestamp p' := by
  obtain ⟨option, hoption, heq, -⟩ := Dao.afterExecution_ok hstate h
  obtain ⟨hstage, hexecuting⟩ := Dao.afterExecution_stage h
  refine ⟨?_, ?_, hexecuting, hstage⟩
  · rw [heq]
    rfl
  · rw [heq]
    exact options_uncounted_set hoption rfl

section

variable {p p' : ProposalV2}
  (h : p'.options.map ProposalOption.uncounted = p.options.map ProposalOption.uncounted)

include h

/-- What the count is not part of is the same in options that agree apart from it. -/
theorem option_map_eq {α : Type*} {f : ProposalOption → α} (hf : ∀ o, f o.uncounted = f o)
    (i : ℕ) : (p'.options[i]?).map f = (p.options[i]?).map f := by
  have hmap : f = f ∘ ProposalOption.uncounted := funext fun o => (hf o).symm
  rw [hmap, ← Option.map_map, ← List.getElem?_map, h, List.getElem?_map, Option.map_map]

theorem option_elim_eq {f : ProposalOption → ℕ} (hf : ∀ o, f o.uncounted = f o) (i : ℕ) :
    (p'.options[i]?).elim 0 f = (p.options[i]?).elim 0 f := by
  have hgetD : ∀ o : Option ProposalOption, o.elim 0 f = (o.map f).getD 0 := by
    intro o
    cases o <;> rfl
  rw [hgetD, option_map_eq h hf, ← hgetD]

theorem option_succeeded_iff {i : ℕ} :
    (∃ o, p'.options[i]? = some o ∧ o.voteResult = .Succeeded) ↔
      ∃ o, p.options[i]? = some o ∧ o.voteResult = .Succeeded := by
  rw [← Option.map_eq_some_iff, ← Option.map_eq_some_iff]
  exact Eq.congr_left (option_map_eq h (f := (·.voteResult)) (fun _ => rfl) i)

end

namespace Proceeds

variable {now : ℕ} {p p' : ProposalV2}

theorem transactionsCountOf_eq (h : p.Proceeds now p') (i : ℕ) :
    p'.transactionsCountOf i = p.transactionsCountOf i :=
  option_elim_eq h.options_eq (fun _ => rfl) i

theorem started_state_of_isExecutable (now : ℕ) (h : p.state.isExecutable = true) :
    (p.started now).state = .Executing ∨ (p.started now).state = .ExecutingWithErrors := by
  rw [started_state]
  cases hs : p.state <;> rw [hs] at h <;> first
    | exact .inl rfl
    | exact .inr rfl
    | cases h

theorem isExecuted_or (h : p.Proceeds now p') (hstate : p.state.isExecutable = true) :
    p'.state = .Completed ∨ p'.state = .Executing ∨ p'.state = .ExecutingWithErrors := by
  rcases h.stage with ⟨h, -⟩ | ⟨h, -⟩
  · exact .inl h
  · rw [h]
    exact .inr (started_state_of_isExecutable now hstate)

/-- When it is not completed, only counts have changed after the start. -/
theorem started_eq (h : p.Proceeds now p') (hne : p'.state ≠ .Completed) :
    p'.started now = p.started now := by
  obtain ⟨hstate, hclosed⟩ := h.stage.resolve_left fun hcompleted => hne hcompleted.1
  have hsucceeded : p'.state ≠ .Succeeded := by
    rw [hstate, started_state]
    split
    · nofun
    · assumption
  rw [started, if_neg hsucceeded, if_neg hsucceeded, h.options_eq, h.executingAt_eq, hstate,
    h.rest_eq]
  dsimp only
  rw [hclosed]
  rfl

end Proceeds

namespace ReadBefore

variable {now : ℕ} {p q p' : ProposalV2}

theorem refl (now : ℕ) (p : ProposalV2) : p.ReadBefore now p := rfl

theorem options_eq (h : p.ReadBefore now q) :
    q.options.map ProposalOption.uncounted = p.options.map ProposalOption.uncounted :=
  (congrArg options h :)

theorem votingCompletedAt_eq (h : p.ReadBefore now q) :
    q.votingCompletedAt = p.votingCompletedAt := (congrArg votingCompletedAt h :)

theorem isExecutable (h : p.ReadBefore now q) (hstate : p.state.isExecutable = true) :
    q.state.isExecutable = true := by
  have hstarted := Proceeds.started_state_of_isExecutable now hstate
  rw [← h, started_state] at hstarted
  cases hs : q.state <;> rw [hs] at hstarted <;> first
    | rfl
    | exact absurd hstarted (by decide)

/-- What is written from an outdated proposal is made of the one that is overwritten. -/
theorem proceeds (h : p.ReadBefore now q) (h' : p.Proceeds now p') : q.Proceeds now p' where
  rest_eq := by
    have hrest : ∀ r : ProposalV2, { r with
          options := p'.options
          executingAt := p'.executingAt
          closedAt := p'.closedAt
          state := p'.state } =
        { r.started now with
          options := p'.options
          executingAt := p'.executingAt
          closedAt := p'.closedAt
          state := p'.state } := fun _ => rfl
    rw [hrest, h, ← hrest]
    exact h'.rest_eq
  options_eq := h'.options_eq.trans h.options_eq.symm
  executingAt_eq := by
    rw [h]
    exact h'.executingAt_eq
  stage := by
    have hclosed : q.closedAt = p.closedAt := (congrArg closedAt h :)
    rw [h, hclosed]
    exact h'.stage

/-- Another transaction of the proposal is executed, and it is not the last one. -/
theorem proceed (h : p.ReadBefore now q) (h' : q.Proceeds now p') (hne : p'.state ≠ .Completed) :
    p.ReadBefore now p' :=
  (h'.started_eq hne).trans h

end ReadBefore

end ProposalV2

/-- What an execution overwrites, and what it writes. -/
theorem Dao.InExecution.proceeds {d : Dao} {k : ProposalTransactionSeeds}
    {t : ProposalTransactionV2 InstructionData} {p p' : ProposalV2} (h : d.InExecution k t p)
    (hafter : d.afterExecution p t.optionIndex = .ok p') :
    ∃ q, d.proposals.lookup t.proposal = some q ∧ q.state.isExecutable = true ∧
      q.Proceeds d.unixTimestamp p' := by
  obtain ⟨q, hq, hread⟩ := h.proposal_read
  exact ⟨q, hq, hread.isExecutable h.isExecutable,
    hread.proceeds (ProposalV2.afterExecution_proceeds h.isExecutable hafter)⟩

end IndexDtf.Governance
