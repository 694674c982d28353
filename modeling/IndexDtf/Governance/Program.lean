import IndexDtf.Lib.Transition
import IndexDtf.Governance.Instructions.Records
import IndexDtf.Governance.Instructions.Config
import IndexDtf.Governance.Instructions.Proposals

/-!
# IndexDtf.Governance.Program

**The governance program as a machine**: its accounts, one instruction after the other, in any
order. A governance signs only through the transactions of its proposals: the instructions of a
transaction are invoked with the signature of the governance, and with those of the keys that
signed the transaction it is executed in.

An invoked instruction may execute a transaction itself, of the same proposal or of another one;
the runtime limits how deep such calls go. The calls that move tokens or open accounts are not
counted here, so some are stacked that the runtime refuses. An instruction of another program
changes nothing here when it is invoked: what the token programs do to the accounts of a governing
token is a step of its own, and no other program calls the governance program back, which the
runtime forbids.
-/

namespace IndexDtf.Governance

open Lib

def GovernanceInstruction.signers : GovernanceInstruction → List Pubkey
  | .record i => i.signers
  | .config i => i.signers
  | .proposal i => i.signers

def InstructionData.signers : InstructionData → List Pubkey
  | .governance i => i.signers
  | .insertTransaction _ _ _ governanceAuthority _ _ _ =>
      if governanceAuthority.isSigner then [governanceAuthority.key] else []
  | .executeTransaction _ _ _ signers => signers
  | .external => []

namespace Dao

/-- An instruction a proposal can carry. -/
def process (d : Dao) : GovernanceInstruction → Outcome Dao
  | .record i => d.stepRecord i
  | .config i => d.stepConfig i
  | .proposal i => d.stepProposal i

/-- The accounts after the instructions of a transaction were invoked: the proposal and the
transaction are written as they were read before. -/
def writeBack (d : Dao) (proposal : Pubkey) (transaction : ProposalTransactionSeeds)
    (p : ProposalV2) (t : ProposalTransactionV2 InstructionData) : Outcome Dao := do
  let p ← d.afterExecution p t.optionIndex
  .ok { d.setProposal proposal p with
    proposalTransactions := d.proposalTransactions.insert transaction
      { t with executedAt := some d.unixTimestamp, executionStatus := .Success } }

/-- `process_execute_transaction`, given how the instructions of the transaction are invoked with
the signatures of the governance and of some keys. -/
def executeTransactionBy (invoke : Pubkey → List Pubkey → Dao → InstructionData → Outcome Dao)
    (d : Dao) (governance proposal : Pubkey) (transaction : ProposalTransactionSeeds)
    (signers : List Pubkey) : Outcome Dao := do
  let g ← d.getGovernanceData governance
  let p ← d.getProposalDataForGovernance proposal governance
  let t ← d.getProposalTransactionDataForProposal transaction proposal
  p.assertCanExecuteTransaction t g.config d.unixTimestamp
  let d ← t.instructions.foldlM (invoke governance signers) d
  d.writeBack proposal transaction p t

/-- `invoke_signed`, when the stack has room for so many calls: the governance signs, and the
signatures of the transaction carry over. -/
def invoke : ℕ → Pubkey → List Pubkey → Dao → InstructionData → Outcome Dao
  | 0, _, _, _, _ => .error .external
  | depth + 1, governance, signers, d, i => do
      guardOr .external (∀ key ∈ i.signers, key = governance ∨ key ∈ signers)
      match i with
      | .governance i => d.process i
      | .insertTransaction governance proposal owner governanceAuthority optionIndex
          instructionIndex instructions =>
          d.insertTransaction governance proposal owner governanceAuthority optionIndex
            instructionIndex instructions
      | .executeTransaction governance proposal transaction signers =>
          d.executeTransactionBy (invoke depth) governance proposal transaction signers
      | .external => .ok d

/-- The runtime stacks up to five instructions, the one it was sent included. -/
def maxInvokeDepth : ℕ := 4

/-- `process_execute_transaction`, for an instruction that was sent. -/
def executeTransaction (d : Dao) (governance proposal : Pubkey)
    (transaction : ProposalTransactionSeeds) (signers : List Pubkey) : Outcome Dao :=
  d.executeTransactionBy (invoke maxInvokeDepth) governance proposal transaction signers

/-- The token programs, for those who hold tokens or may mint them. -/
def stepToken (d : Dao) : TokenInstruction → Outcome Dao
  | .mintTo mint receiver amount => do
      guardOr .external (d.supply mint + amount ≤ u64Max)
      .ok ((d.setSupply mint (d.supply mint + amount)).credit mint amount receiver)
  | .transfer mint sender receiver amount => do
      guardOr .external (amount ≤ d.walletOf mint sender)
      .ok ((d.setWallet mint sender (d.walletOf mint sender - amount)).credit mint amount receiver)
  | .burn mint key amount => do
      guardOr .external (amount ≤ d.walletOf mint key ∧ amount ≤ d.supply mint)
      .ok ((d.setSupply mint (d.supply mint - amount)).setWallet mint key
        (d.walletOf mint key - amount))

/-- A transaction is signed by keys that are no governances: nobody holds the key of an address
the program derives. -/
def assertSignedByWallets (d : Dao) (signers : List Pubkey) : Outcome Unit :=
  guardOr .account (∀ key ∈ signers, d.governances.lookup key = none)

/-- One instruction. -/
def step (d : Dao) : Instruction → Outcome Dao
  | .governance i => do
      d.assertSignedByWallets i.signers
      d.process i
  | .insertTransaction governance proposal owner governanceAuthority optionIndex
      instructionIndex instructions => do
      d.assertSignedByWallets
        (if governanceAuthority.isSigner then [governanceAuthority.key] else [])
      d.insertTransaction governance proposal owner governanceAuthority optionIndex
        instructionIndex instructions
  | .executeTransaction governance proposal transaction signers => do
      d.assertSignedByWallets signers
      d.executeTransaction governance proposal transaction signers
  | .token i => d.stepToken i
  | .tick seconds slots =>
      .ok { d with unixTimestamp := d.unixTimestamp + seconds, slot := d.slot + slots }

/-- The tokens of a mint in accounts that are not the realm's. -/
def circulating (d : Dao) (mint : Pubkey) : ℕ :=
  Store.total (fun k amount => if k.mint = mint then amount else 0) d.wallets

/-- `process_create_realm`: a realm in which nothing has happened yet. Its two mints differ, since
each has a holding account of its own. -/
structure Fresh (d : Dao) : Prop where
  governances_eq : d.governances = ∅
  proposals_eq : d.proposals = ∅
  tokenOwnerRecords_eq : d.tokenOwnerRecords = ∅
  voteRecords_eq : d.voteRecords = ∅
  signatoryRecords_eq : d.signatoryRecords = ∅
  requiredSignatories_eq : d.requiredSignatories = ∅
  proposalTransactions_eq : d.proposalTransactions = ∅
  proposalDeposits_eq : d.proposalDeposits = ∅
  councilMint_ne : d.realm.config.councilMint ≠ some d.realm.communityMint
  communityLocks_eq : d.realmConfig.communityTokenConfig.lockAuthorities = []
  councilLocks_eq : d.realmConfig.councilTokenConfig.lockAuthorities = []
  holding_eq : ∀ mint, d.holding mint = 0
  supply_eq : ∀ mint, d.supply mint = d.circulating mint
  supply_le : ∀ mint, d.supply mint ≤ u64Max

/-- The states of a realm: whatever instructions it was given since it was created. -/
def Reachable : Dao → Prop := Lib.Reachable step Fresh

/-! ### An example -/

/-- A realm with a council, whose authority is a wallet. -/
def sample : Dao where
  unixTimestamp := 0
  slot := 0
  realmAddress := 5
  realm :=
    { communityMint := 10
      config :=
        { minCommunityWeightToCreateGovernance := 1
          communityMintMaxVoterWeightSource := .SupplyFraction supplyFractionBase
          councilMint := some 11 }
      authority := some 1 }
  realmConfig := {}
  governances := ∅
  proposals := ∅
  tokenOwnerRecords := ∅
  voteRecords := ∅
  signatoryRecords := ∅
  requiredSignatories := ∅
  proposalTransactions := ∅
  proposalDeposits := ∅
  mintAuthority _ := none
  supply _ := 0
  holding _ := 0
  wallets := ∅

theorem sample_fresh : Fresh sample where
  governances_eq := rfl
  proposals_eq := rfl
  tokenOwnerRecords_eq := rfl
  voteRecords_eq := rfl
  signatoryRecords_eq := rfl
  requiredSignatories_eq := rfl
  proposalTransactions_eq := rfl
  proposalDeposits_eq := rfl
  councilMint_ne := by decide
  communityLocks_eq := rfl
  councilLocks_eq := rfl
  holding_eq _ := rfl
  supply_eq _ := rfl
  supply_le _ := Nat.zero_le _

/-- Its governance decides by a majority of the supply, after ten seconds. -/
def sampleConfig : GovernanceConfig where
  communityVoteThreshold := .YesVotePercentage 50
  minCommunityWeightToCreateProposal := 1
  transactionsHoldUpTime := 5
  votingBaseTime := 10
  communityVoteTipping := .Disabled
  councilVoteThreshold := .YesVotePercentage 50
  councilVetoVoteThreshold := .Disabled
  minCouncilWeightToCreateProposal := 1
  councilVoteTipping := .Disabled
  communityVetoVoteThreshold := .Disabled
  votingCoolOffTime := 0
  depositExemptProposalCount := 10

/-- A proposal to require the second of two members as a signatory is voted on by both, and
executed. -/
def sampleRun : List Instruction :=
  [ .token (.mintTo 10 (.wallet 100) 60),
    .token (.mintTo 10 (.wallet 101) 40),
    .governance (.record (.depositGoverningTokens 10 ⟨100, true⟩ (.account 100) 60)),
    .governance (.record (.depositGoverningTokens 10 ⟨101, true⟩ (.account 101) 40)),
    .governance (.config (.createGovernance 50 sampleConfig ⟨10, 100⟩ ⟨1, true⟩ none)),
    .governance (.proposal (.createProposal 70 50 ⟨10, 100⟩ 10 ⟨100, true⟩ 100 none
      .SingleChoice ["require"] true)),
    .insertTransaction 50 70 ⟨10, 100⟩ ⟨100, true⟩ 0 0
      [.governance (.config (.addRequiredSignatory ⟨50, true⟩ 101))],
    .governance (.proposal (.signOffProposal 50 70 ⟨100, true⟩ (some ⟨10, 100⟩))),
    .governance (.proposal (.castVote 50 70 ⟨10, 100⟩ ⟨10, 100⟩ ⟨100, true⟩ 10
      (.Approve [⟨0, 100⟩]) none none)),
    .governance (.proposal (.castVote 50 70 ⟨10, 100⟩ ⟨10, 101⟩ ⟨101, true⟩ 10 .Deny none none)),
    .tick 11 3,
    .governance (.proposal (.finalizeVote 50 70 ⟨10, 100⟩ 10 none)),
    .tick 11 3,
    .executeTransaction 50 70 ⟨70, 0, 0⟩ [] ]

/-- The realm after some of these instructions. -/
def sampleAfter (n : ℕ) : Dao := run step sample (sampleRun.take n)

theorem sampleAfter_reachable (n : ℕ) : Reachable (sampleAfter n) :=
  ⟨sample, sampleRun.take n, sample_fresh, rfl⟩

example : ((sampleAfter 14).proposals.lookup 70).map (·.state) = some .Completed := by decide

end Dao

end IndexDtf.Governance
