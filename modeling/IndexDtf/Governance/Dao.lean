import IndexDtf.Lib.Store
import IndexDtf.Governance.Proposal
import IndexDtf.Governance.Realm

/-!
# IndexDtf.Governance.Dao

**A realm with everything that is voted on in it**: the accounts of the governance program that
belong to one realm, and the token accounts of its governing tokens. Stakes and rewards are the
subject of `IndexDtf.Governance.Realm`; here the call `accrue_rewards` of a deposit or a
withdrawal, which changes no account of the governance program, is taken to succeed.

A proposal or a governance may be created under any key that is not in use: the model does not
compute addresses. Accounts of other realms are rejected by every instruction and left out.
-/

namespace IndexDtf.Governance

open Lib

/-! ### Further accounts -/

structure SignatoryRecordSeeds where
  proposal : Pubkey
  signatory : Pubkey
  deriving DecidableEq, Repr

/-- `SignatoryRecordV2`. -/
structure SignatoryRecordV2 where
  proposal : Pubkey
  signatory : Pubkey
  signedOff : Bool
  deriving DecidableEq, Repr

/-- `assert_can_sign_off`. -/
def SignatoryRecordV2.assertCanSignOff (s : SignatoryRecordV2) (signatory : AccountInfo) :
    Outcome Unit := do
  require .SignatoryAlreadySignedOff (s.signedOff = false)
  require .SignatoryMustSign (signatory.isSigner = true)

structure RequiredSignatorySeeds where
  governance : Pubkey
  signatory : Pubkey
  deriving DecidableEq, Repr

/-- `RequiredSignatory`. -/
structure RequiredSignatory where
  governance : Pubkey
  signatory : Pubkey
  deriving DecidableEq, Repr

structure ProposalTransactionSeeds where
  proposal : Pubkey
  optionIndex : ℕ
  transactionIndex : ℕ
  deriving DecidableEq, Repr

structure ProposalDepositSeeds where
  proposal : Pubkey
  depositPayer : Pubkey
  deriving DecidableEq, Repr

/-- `ProposalDeposit`, with the lamports that were paid on top of the rent. -/
structure ProposalDeposit where
  proposal : Pubkey
  depositPayer : Pubkey
  lamports : ℕ
  deriving DecidableEq, Repr

/-- A token account that is not the realm's: its mint and its key. -/
structure WalletKey where
  mint : Pubkey
  key : Pubkey
  deriving DecidableEq, Repr

/-- Where tokens of a mint arrive: the account that holds its deposits is an account like any
other for those who send tokens. -/
inductive GoverningTokenAccount
  | holding
  | wallet (key : Pubkey)
  deriving DecidableEq, Repr

/-! ### Instructions -/

/-- `GoverningTokenConfigAccountArgs`. -/
structure GoverningTokenConfigAccountArgs where
  voterWeightAddin : Option Pubkey := none
  maxVoterWeightAddin : Option Pubkey := none
  tokenType : GoverningTokenType := .Liquid
  deriving DecidableEq, Repr

/-- `RealmConfigArgs`, with the accounts its flags announce. -/
structure RealmConfigArgs where
  /-- The council mint, when `use_council_mint` is set. -/
  councilMint : Option Pubkey
  minCommunityWeightToCreateGovernance : ℕ
  communityMintMaxVoterWeightSource : MintMaxVoterWeightSource
  communityTokenConfigArgs : GoverningTokenConfigAccountArgs := {}
  councilTokenConfigArgs : GoverningTokenConfigAccountArgs := {}
  deriving DecidableEq, Repr

/-- `SetConfigItemActionType`. -/
inductive SetConfigItemActionType
  | Add
  | Remove
  deriving DecidableEq, Repr

/-- `SetRealmAuthorityAction`, with the account it names. -/
inductive SetRealmAuthorityAction
  | SetUnchecked (newRealmAuthority : Pubkey)
  | SetChecked (newRealmAuthority : Pubkey)
  | Remove
  deriving DecidableEq, Repr

/-- The instructions on token owner records. -/
inductive RecordInstruction
  | createTokenOwnerRecord (mint owner : Pubkey)
  | depositGoverningTokens (mint : Pubkey) (owner : AccountInfo) (source : Realm.Source)
      (amount : ℕ)
  | withdrawGoverningTokens (mint : Pubkey) (owner : AccountInfo)
      (destination : GoverningTokenAccount)
  | revokeGoverningTokens (mint : Pubkey) (record : TokenOwnerRecordSeeds)
      (revokeAuthority : AccountInfo) (amount : ℕ)
  | setGovernanceDelegate (record : TokenOwnerRecordSeeds) (governanceAuthority : AccountInfo)
      (newGovernanceDelegate : Option Pubkey)
  | setTokenOwnerRecordLock (record : TokenOwnerRecordSeeds) (lockAuthority : AccountInfo)
      (lockId : ℕ) (expiry : Option ℕ)
  | relinquishTokenOwnerRecordLocks (record : TokenOwnerRecordSeeds)
      (locks : Option (AccountInfo × List ℕ))
  deriving DecidableEq, Repr

/-- The instructions on the configuration of the realm and its governances. -/
inductive ConfigInstruction
  | createGovernance (governance : Pubkey) (config : GovernanceConfig)
      (record : TokenOwnerRecordSeeds) (createAuthority : AccountInfo)
      (voterWeightRecord : Option (AddinAccount VoterWeightRecord))
  | setGovernanceConfig (governance : AccountInfo) (config : GovernanceConfig)
  | addRequiredSignatory (governance : AccountInfo) (signatory : Pubkey)
  | removeRequiredSignatory (governance : AccountInfo) (required : RequiredSignatorySeeds)
  | setRealmConfig (realmAuthority : AccountInfo) (args : RealmConfigArgs)
  | setRealmConfigItem (realmAuthority : AccountInfo) (action : SetConfigItemActionType)
      (mint authority : Pubkey)
  | setRealmAuthority (realmAuthority : AccountInfo) (action : SetRealmAuthorityAction)
  deriving DecidableEq, Repr

/-- The instructions on a proposal. -/
inductive ProposalInstruction
  | createProposal (proposal governance : Pubkey) (owner : TokenOwnerRecordSeeds)
      (mint : Pubkey) (governanceAuthority : AccountInfo) (payer : Pubkey)
      (voterWeightRecord : Option (AddinAccount VoterWeightRecord))
      (voteType : VoteType) (options : List String) (useDenyOption : Bool)
  | addSignatory (governance proposal signatory : Pubkey)
      (required : Option RequiredSignatorySeeds)
      (owner : Option (TokenOwnerRecordSeeds × AccountInfo))
  | signOffProposal (governance proposal : Pubkey) (signatory : AccountInfo)
      (owner : Option TokenOwnerRecordSeeds)
  | removeTransaction (proposal : Pubkey) (owner : TokenOwnerRecordSeeds)
      (governanceAuthority : AccountInfo) (transaction : ProposalTransactionSeeds)
  | cancelProposal (governance proposal : Pubkey) (owner : TokenOwnerRecordSeeds)
      (governanceAuthority : AccountInfo)
  | castVote (governance proposal : Pubkey) (owner voter : TokenOwnerRecordSeeds)
      (governanceAuthority : AccountInfo) (mint : Pubkey) (vote : Vote)
      (voterWeightRecord : Option (AddinAccount VoterWeightRecord))
      (maxVoterWeightRecord : Option (AddinAccount MaxVoterWeightRecord))
  | relinquishVote (governance proposal : Pubkey) (record : TokenOwnerRecordSeeds)
      (voteRecord : VoteRecordSeeds) (mint : Pubkey) (governanceAuthority : Option AccountInfo)
  | finalizeVote (governance proposal : Pubkey) (owner : TokenOwnerRecordSeeds) (mint : Pubkey)
      (maxVoterWeightRecord : Option (AddinAccount MaxVoterWeightRecord))
  | completeProposal (proposal : Pubkey) (owner : TokenOwnerRecordSeeds)
      (authority : AccountInfo)
  | refundProposalDeposit (proposal : Pubkey) (deposit : ProposalDepositSeeds)
      (depositPayer : Pubkey)
  deriving DecidableEq, Repr

/-- The instructions a proposal can carry. -/
inductive GovernanceInstruction
  | record (i : RecordInstruction)
  | config (i : ConfigInstruction)
  | proposal (i : ProposalInstruction)
  deriving DecidableEq, Repr

/-- `InstructionData`: an instruction of the governance program, or of another program. It may be
one that inserts or executes a transaction itself. -/
inductive InstructionData
  | governance (i : GovernanceInstruction)
  | insertTransaction (governance proposal : Pubkey) (owner : TokenOwnerRecordSeeds)
      (governanceAuthority : AccountInfo) (optionIndex instructionIndex : ℕ)
      (instructions : List InstructionData)
  | executeTransaction (governance proposal : Pubkey) (transaction : ProposalTransactionSeeds)
      (signers : List Pubkey)
  | external
  deriving Repr

/-- What the token programs do on the request of others. Tokens may arrive in the account that
holds the deposits, but only the realm signs for what is in it. -/
inductive TokenInstruction
  | mintTo (mint : Pubkey) (receiver : GoverningTokenAccount) (amount : ℕ)
  | transfer (mint sender : Pubkey) (receiver : GoverningTokenAccount) (amount : ℕ)
  | burn (mint key : Pubkey) (amount : ℕ)
  deriving DecidableEq, Repr

/-- What happens to a realm. -/
inductive Instruction
  | governance (i : GovernanceInstruction)
  | insertTransaction (governance proposal : Pubkey) (owner : TokenOwnerRecordSeeds)
      (governanceAuthority : AccountInfo) (optionIndex instructionIndex : ℕ)
      (instructions : List InstructionData)
  | executeTransaction (governance proposal : Pubkey) (transaction : ProposalTransactionSeeds)
      (signers : List Pubkey)
  | token (i : TokenInstruction)
  /-- Time passes. -/
  | tick (seconds slots : ℕ)
  deriving Repr

/-! ### The state -/

/-- The accounts of a realm. -/
structure Dao where
  unixTimestamp : ℕ
  slot : ℕ
  realmAddress : Pubkey
  realm : RealmV2
  realmConfig : RealmConfigAccount
  governances : Store Pubkey GovernanceV2
  proposals : Store Pubkey ProposalV2
  tokenOwnerRecords : Store TokenOwnerRecordSeeds TokenOwnerRecordV2
  voteRecords : Store VoteRecordSeeds VoteRecordV2
  signatoryRecords : Store SignatoryRecordSeeds SignatoryRecordV2
  requiredSignatories : Store RequiredSignatorySeeds RequiredSignatory
  proposalTransactions : Store ProposalTransactionSeeds (ProposalTransactionV2 InstructionData)
  proposalDeposits : Store ProposalDepositSeeds ProposalDeposit
  /-- The mint authorities and the supplies of the tokens. -/
  mintAuthority : Pubkey → Option Pubkey
  supply : Pubkey → ℕ
  /-- The account that holds the deposits of a mint, and the other accounts of it. -/
  holding : Pubkey → ℕ
  wallets : Store WalletKey ℕ

namespace Dao

/-! ### Reading accounts -/

/-- `get_governance_data_for_realm`. -/
def getGovernanceData (d : Dao) (governance : Pubkey) : Outcome GovernanceV2 :=
  okOr .account (d.governances.lookup governance)

/-- `get_proposal_data`. -/
def getProposalData (d : Dao) (proposal : Pubkey) : Outcome ProposalV2 :=
  okOr .account (d.proposals.lookup proposal)

/-- `get_proposal_data_for_governance`. -/
def getProposalDataForGovernance (d : Dao) (proposal governance : Pubkey) :
    Outcome ProposalV2 := do
  let p ← d.getProposalData proposal
  require .InvalidGovernanceForProposal (p.governance = governance)
  .ok p

/-- `get_proposal_data_for_governance_and_governing_mint`. -/
def getProposalDataForGovernanceAndGoverningMint (d : Dao)
    (proposal governance governingTokenMint : Pubkey) : Outcome ProposalV2 := do
  let p ← d.getProposalDataForGovernance proposal governance
  require .InvalidGoverningMintForProposal (p.governingTokenMint = governingTokenMint)
  .ok p

/-- `get_token_owner_record_data`. -/
def getTokenOwnerRecordData (d : Dao) (record : TokenOwnerRecordSeeds) :
    Outcome TokenOwnerRecordV2 :=
  okOr .account (d.tokenOwnerRecords.lookup record)

/-- `get_token_owner_record_data_for_realm_and_governing_mint`. -/
def getTokenOwnerRecordDataForGoverningMint (d : Dao) (record : TokenOwnerRecordSeeds)
    (governingTokenMint : Pubkey) : Outcome TokenOwnerRecordV2 := do
  let t ← d.getTokenOwnerRecordData record
  require .InvalidGoverningMintForTokenOwnerRecord (t.governingTokenMint = governingTokenMint)
  .ok t

/-- `get_token_owner_record_data_for_proposal_owner`. -/
def getTokenOwnerRecordDataForProposalOwner (d : Dao)
    (record proposalOwner : TokenOwnerRecordSeeds) : Outcome TokenOwnerRecordV2 := do
  require .InvalidProposalOwnerAccount (record = proposalOwner)
  d.getTokenOwnerRecordData record

/-- `get_required_signatory_data_for_governance`. -/
def getRequiredSignatoryDataForGovernance (d : Dao) (required : RequiredSignatorySeeds)
    (governance : Pubkey) : Outcome RequiredSignatory := do
  let data ← okOr .account (d.requiredSignatories.lookup required)
  require .InvalidGovernanceForRequiredSignatory (data.governance = governance)
  .ok data

/-- `get_proposal_transaction_data_for_proposal`. -/
def getProposalTransactionDataForProposal (d : Dao) (transaction : ProposalTransactionSeeds)
    (proposal : Pubkey) : Outcome (ProposalTransactionV2 InstructionData) := do
  let t ← okOr .account (d.proposalTransactions.lookup transaction)
  require .InvalidProposalForProposalTransaction (t.proposal = proposal)
  .ok t

/-- `get_realm_data_for_authority`, with the check that follows it everywhere. -/
def assertRealmAuthority (d : Dao) (realmAuthority : AccountInfo) : Outcome Unit := do
  require .RealmHasNoAuthority (d.realm.authority ≠ none)
  require .InvalidAuthorityForRealm (d.realm.authority = some realmAuthority.key)
  require .RealmAuthorityMustSign (realmAuthority.isSigner = true)

/-! ### Writing accounts -/

def setProposal (d : Dao) (proposal : Pubkey) (p : ProposalV2) : Dao :=
  { d with proposals := d.proposals.insert proposal p }

def setTokenOwnerRecord (d : Dao) (record : TokenOwnerRecordSeeds) (t : TokenOwnerRecordV2) :
    Dao :=
  { d with tokenOwnerRecords := d.tokenOwnerRecords.insert record t }

def setGovernance (d : Dao) (governance : Pubkey) (g : GovernanceV2) : Dao :=
  { d with governances := d.governances.insert governance g }

/-- The balance of a token account. -/
def walletOf (d : Dao) (mint key : Pubkey) : ℕ := (d.wallets.lookup ⟨mint, key⟩).getD 0

def setWallet (d : Dao) (mint key : Pubkey) (amount : ℕ) : Dao :=
  { d with wallets := d.wallets.insert ⟨mint, key⟩ amount }

def setHolding (d : Dao) (mint : Pubkey) (amount : ℕ) : Dao :=
  { d with holding := Function.update d.holding mint amount }

def setSupply (d : Dao) (mint : Pubkey) (amount : ℕ) : Dao :=
  { d with supply := Function.update d.supply mint amount }

/-- Tokens arrive in an account. -/
def credit (d : Dao) (mint : Pubkey) (amount : ℕ) : GoverningTokenAccount → Dao
  | .holding => d.setHolding mint (d.holding mint + amount)
  | .wallet key => d.setWallet mint key (d.walletOf mint key + amount)

end Dao

end IndexDtf.Governance
