import IndexDtf.Governance.Runs

/-!
# IndexDtf.Governance.Stakes

**What an instruction does to the stakes, the tokens and the settings of a realm.** The effects
of `IndexDtf.Governance.Effects` say what happens to proposals and counters; here it is the other
way round:

* `ProposalsOnly` — an instruction on proposals leaves stakes, tokens and settings alone;
* `Staking` — what an instruction on token owner records does, one case for each;
* `SettingsOnly` — an instruction on the configuration changes nothing else;
* `step_rule` — the invariant rule for what does not depend on proposals.

With it the tokens of a mint are conserved: they are in the holding account or outside of the
realm, and the holding account has at least what the records say was deposited. It may have more:
anybody can send tokens to it, and so does a withdrawal to that account itself.
-/

namespace IndexDtf.Governance

open Lib

namespace Dao

/-! ### Instructions on proposals -/

/-- A record with the stake it had: only its counters have changed. -/
def SameStake (t t' : TokenOwnerRecordV2) : Prop :=
  t' = { t with
    unrelinquishedVotesCount := t'.unrelinquishedVotesCount
    outstandingProposalCount := t'.outstandingProposalCount }

theorem SameStake.refl (t : TokenOwnerRecordV2) : SameStake t t := rfl

/-- A governance with the settings it had. -/
def SameConfig (g g' : GovernanceV2) : Prop :=
  g' = { g with activeProposalCount := g'.activeProposalCount }

theorem SameConfig.refl (g : GovernanceV2) : SameConfig g g := rfl

/-- A valid vote, with the weight its voter has. -/
structure IsCast (d : Dao) (k : VoteRecordSeeds) (v : VoteRecordV2) : Prop where
  weight : ∃ t voterWeightRecord, d.tokenOwnerRecords.lookup k.tokenOwnerRecord = some t ∧
    t.resolveVoterWeight d.realmAddress d.realm d.realmConfig d.slot voterWeightRecord .CastVote
      k.proposal = .ok v.voterWeight
  valid : ∃ p : ProposalV2, p.assertValidVote v.vote = .ok ()

/-- An instruction that concerns proposals and what is counted of them. -/
structure ProposalsOnly (d d' : Dao) : Prop where
  eq : d' = { d with
    governances := d'.governances
    proposals := d'.proposals
    tokenOwnerRecords := d'.tokenOwnerRecords
    voteRecords := d'.voteRecords
    signatoryRecords := d'.signatoryRecords
    proposalTransactions := d'.proposalTransactions
    proposalDeposits := d'.proposalDeposits } := by rfl
  records : Store.Extends SameStake (fun _ _ => False) d.tokenOwnerRecords d'.tokenOwnerRecords
    := by exact .refl SameStake.refl _
  governances : Store.Extends SameConfig (fun _ _ => False) d.governances d'.governances
    := by exact .refl SameConfig.refl _
  votes : ∀ k v, d'.voteRecords.lookup k = some v →
    d.voteRecords.lookup k = some v ∨ v.isRelinquished = true ∨ IsCast d k v
    := by exact fun _ _ hv => .inl hv

theorem createProposal_proposalsOnly {d d' : Dao} {proposal governance : Pubkey}
    {owner : TokenOwnerRecordSeeds} {mint : Pubkey} {governanceAuthority : AccountInfo}
    {payer : Pubkey} {voterWeightRecord : Option (AddinAccount VoterWeightRecord)}
    {voteType : VoteType} {options : List String} {useDenyOption : Bool}
    (h : d.createProposal proposal governance owner mint governanceAuthority payer
      voterWeightRecord voteType options useDenyOption = .ok d') : ProposalsOnly d d' := by
  simp only [createProposal, getGovernanceData, getTokenOwnerRecordData, bind_eq_ok,
    okOr_eq_ok] at h
  obtain ⟨_, -, _, -, g, hg, _, -, t, ht, _, -, _, -, _, -, _, -, _, -, _, -, h⟩ := h
  unfold takeProposalDeposit at h
  split at h
  · cases h
    exact { records := .write .refl ht rfl, governances := .write .refl hg rfl }
  · simp only [bind_eq_ok, guardOr_eq_ok, Except.ok.injEq] at h
    obtain ⟨_, -, rfl⟩ := h
    exact { records := .write .refl ht rfl, governances := .write .refl hg rfl }

theorem signOffProposal_proposalsOnly {d d' : Dao} {governance proposal : Pubkey}
    {signatory : AccountInfo} {owner : Option TokenOwnerRecordSeeds}
    (h : d.signOffProposal governance proposal signatory owner = .ok d') :
    ProposalsOnly d d' := by
  simp only [signOffProposal, bind_eq_ok] at h
  obtain ⟨_, -, _, -, _, -, _, -, h⟩ := h
  split at h
  · simp only [signOffByOwner, bind_eq_ok, Except.ok.injEq] at h
    obtain ⟨_, -, _, -, _, -, rfl⟩ := h
    exact {}
  · simp only [signOffBySignatory, bind_eq_ok, Except.ok.injEq] at h
    obtain ⟨_, -, _, -, _, -, rfl⟩ := h
    exact {}

/-- Releasing a proposal, after accounts of the voter and of the proposal were written. -/
theorem releaseProposal_proposalsOnly {d d₁ d' : Dao} {governance : Pubkey}
    {owner proposalOwner : TokenOwnerRecordSeeds} (hfirst : ProposalsOnly d d₁)
    (h : d₁.releaseProposal governance owner proposalOwner = .ok d') : ProposalsOnly d d' := by
  obtain ⟨-, t, g, ht, hg, rfl⟩ := releaseProposal_ok h
  obtain ⟨heq, hrecords, hgovernances, hvotes⟩ := hfirst
  refine ⟨by rw [heq], ?_, ?_, hvotes⟩
  · exact hrecords.trans (.write .refl ht rfl) (fun _ _ _ h h' => by rw [SameStake, h', h])
  · exact hgovernances.trans (.write .refl hg rfl) (fun _ _ _ h h' => by rw [SameConfig, h', h])

theorem castVote_proposalsOnly {d d' : Dao} {governance proposal : Pubkey}
    {owner voter : TokenOwnerRecordSeeds} {governanceAuthority : AccountInfo} {mint : Pubkey}
    {vote : Vote} {voterWeightRecord : Option (AddinAccount VoterWeightRecord)}
    {maxVoterWeightRecord : Option (AddinAccount MaxVoterWeightRecord)}
    (h : d.castVote governance proposal owner voter governanceAuthority mint vote
      voterWeightRecord maxVoterWeightRecord = .ok d') : ProposalsOnly d d' := by
  simp only [castVote, bind_eq_ok] at h
  obtain ⟨_, -, _, -, _, -, _, -, p, -, _, -, t, hrecord, _, -, _, -, voterWeight, hweight, _,
    hvalid, _, -, _, -, _, -, _, -, ⟨decided, tipped⟩, -, h⟩ := h
  obtain ⟨ht, -⟩ := getTokenOwnerRecordDataForGoverningMint_ok hrecord
  have hvotes : ∀ k v, (d.voteRecords.insert ⟨proposal, voter⟩
        { proposal
          governingTokenOwner := t.governingTokenOwner
          isRelinquished := false
          voterWeight
          vote }).lookup k = some v →
      d.voteRecords.lookup k = some v ∨ v.isRelinquished = true ∨ IsCast d k v :=
    Store.forall_insert (.inr (.inr ⟨⟨t, voterWeightRecord, ht, hweight⟩, p, hvalid⟩))
      fun _ _ _ hv => .inl hv
  split at h
  · refine releaseProposal_proposalsOnly ?_ h
    exact { records := .write .refl ht rfl, votes := hvotes }
  · cases h
    exact { records := .write .refl ht rfl, votes := hvotes }

theorem relinquishVote_proposalsOnly {d d' : Dao} {governance proposal : Pubkey}
    {record : TokenOwnerRecordSeeds} {voteRecord : VoteRecordSeeds} {mint : Pubkey}
    {governanceAuthority : Option AccountInfo}
    (h : d.relinquishVote governance proposal record voteRecord mint governanceAuthority =
      .ok d') : ProposalsOnly d d' := by
  simp only [relinquishVote, bind_eq_ok, Except.ok.injEq] at h
  obtain ⟨_, -, _, -, _, -, t, hrecord, _, -, _, -, d₁, hgiveUp, _, -, rfl⟩ := h
  obtain ⟨ht, -⟩ := getTokenOwnerRecordDataForGoverningMint_ok hrecord
  unfold giveUpVote at hgiveUp
  split at hgiveUp
  · simp only [withdrawVote, bind_eq_ok, Except.ok.injEq] at hgiveUp
    obtain ⟨_, -, _, -, _, -, _, -, _, -, rfl⟩ := hgiveUp
    exact
      { records := .write .refl ht rfl
        votes := Store.forall_erase fun _ _ _ hv => .inl hv }
  · cases hgiveUp
    exact
      { records := .write .refl ht rfl
        votes := Store.forall_insert (.inr (.inl rfl)) fun _ _ _ hv => .inl hv }

theorem stepProposal_proposalsOnly {d d' : Dao} {i : ProposalInstruction}
    (h : d.stepProposal i = .ok d') : ProposalsOnly d d' := by
  cases i with
  | createProposal => exact createProposal_proposalsOnly h
  | addSignatory =>
      simp only [stepProposal, addSignatory, bind_eq_ok, Except.ok.injEq] at h
      obtain ⟨_, -, _, -, _, -, _, -, _, -, _, -, rfl⟩ := h
      exact {}
  | signOffProposal => exact signOffProposal_proposalsOnly h
  | removeTransaction =>
      simp only [stepProposal, removeTransaction, bind_eq_ok, Except.ok.injEq] at h
      obtain ⟨_, -, _, -, _, -, _, -, _, -, _, -, _, -, rfl⟩ := h
      exact {}
  | cancelProposal =>
      simp only [stepProposal, cancelProposal, bind_eq_ok] at h
      obtain ⟨_, -, _, -, _, -, _, -, _, -, h⟩ := h
      exact releaseProposal_proposalsOnly {} h
  | castVote => exact castVote_proposalsOnly h
  | relinquishVote => exact relinquishVote_proposalsOnly h
  | finalizeVote =>
      simp only [stepProposal, finalizeVote, bind_eq_ok] at h
      obtain ⟨_, -, _, -, _, -, _, -, _, -, _, -, h⟩ := h
      exact releaseProposal_proposalsOnly {} h
  | completeProposal =>
      simp only [stepProposal, completeProposal, bind_eq_ok, Except.ok.injEq] at h
      obtain ⟨_, -, _, -, _, -, _, -, rfl⟩ := h
      exact {}
  | refundProposalDeposit =>
      simp only [stepProposal, refundProposalDeposit, bind_eq_ok, Except.ok.injEq] at h
      obtain ⟨_, -, _, -, _, -, _, -, _, -, rfl⟩ := h
      exact {}

theorem insertTransaction_proposalsOnly {d d' : Dao} {governance proposal : Pubkey}
    {owner : TokenOwnerRecordSeeds} {governanceAuthority : AccountInfo}
    {optionIndex instructionIndex : ℕ} {instructions : List InstructionData}
    (h : d.insertTransaction governance proposal owner governanceAuthority optionIndex
      instructionIndex instructions = .ok d') : ProposalsOnly d d' := by
  simp only [insertTransaction, bind_eq_ok, Except.ok.injEq] at h
  obtain ⟨_, -, _, -, _, -, _, -, _, -, _, -, _, -, _, -, _, -, rfl⟩ := h
  exact {}

theorem Execution.proposalsOnly {governance : Pubkey} {k : ProposalTransactionSeeds} {d d' : Dao}
    (h : Execution governance k d d') : ProposalsOnly d d' := by
  cases h with
  | execute => exact {}

end Dao

/-! ### Instructions on token owner records -/

/-- Whether an instruction takes a deposit away. -/
def RecordInstruction.revokes : RecordInstruction → Bool
  | .revokeGoverningTokens .. => true
  | _ => false

namespace Dao

/-- The record a deposit or a creation opens. -/
def newRecord (k : TokenOwnerRecordSeeds) : TokenOwnerRecordV2 where
  governingTokenMint := k.governingTokenMint
  governingTokenOwner := k.governingTokenOwner

/-- What an instruction on records does. -/
inductive Staking (i : RecordInstruction) (d : Dao) : Dao → Prop
  | openRecord {k : TokenOwnerRecordSeeds} (hnew : d.tokenOwnerRecords.lookup k = none) :
      Staking i d { d with tokenOwnerRecords := d.tokenOwnerRecords.insert k (newRecord k) }
  | deposit {mint owner : Pubkey} {amount : ℕ} {source : Realm.Source} {t : TokenOwnerRecordV2}
      {d₁ : Dao}
      (ht : d.tokenOwnerRecords.lookup ⟨mint, owner⟩ = some t ∨
        (d.tokenOwnerRecords.lookup ⟨mint, owner⟩ = none ∧
          t = newRecord ⟨mint, owner⟩))
      (hreceive : d.receive mint amount source = .ok d₁) :
      Staking i d { d₁ with
        tokenOwnerRecords := d.tokenOwnerRecords.insert ⟨mint, owner⟩
          { t with governingTokenDepositAmount := t.governingTokenDepositAmount + amount } }
  | withdraw {mint owner : Pubkey} {destination : GoverningTokenAccount} {t : TokenOwnerRecordV2}
      {holding : Pubkey → ℕ} {wallets : Store WalletKey ℕ}
      (ht : d.tokenOwnerRecords.lookup ⟨mint, owner⟩ = some t) (hsigned : owner ∈ i.signers)
      (hcan : t.assertCanWithdrawGoverningTokens d.unixTimestamp = .ok ())
      (hheld : t.governingTokenDepositAmount ≤ d.holding mint)
      (hpaid : (d.setHolding mint (d.holding mint - t.governingTokenDepositAmount)).credit mint
        t.governingTokenDepositAmount destination = { d with holding, wallets }) :
      Staking i d { d with
        holding
        wallets
        tokenOwnerRecords := d.tokenOwnerRecords.insert ⟨mint, owner⟩
          { t with governingTokenDepositAmount := 0 } }
  | revoke {record : TokenOwnerRecordSeeds} {amount : ℕ} {t : TokenOwnerRecordV2}
      (hi : i.revokes = true) (ht : d.tokenOwnerRecords.lookup record = some t)
      (hmember : d.realmConfig.assertCanRevokeGoverningToken d.realm t.governingTokenMint =
        .ok ())
      (hle : amount ≤ t.governingTokenDepositAmount)
      (hheld : amount ≤ d.holding t.governingTokenMint)
      (hsupply : amount ≤ d.supply t.governingTokenMint) :
      Staking i d { d with
        holding := Function.update d.holding t.governingTokenMint
          (d.holding t.governingTokenMint - amount)
        supply := Function.update d.supply t.governingTokenMint
          (d.supply t.governingTokenMint - amount)
        tokenOwnerRecords := d.tokenOwnerRecords.insert record
          { t with governingTokenDepositAmount := t.governingTokenDepositAmount - amount } }
  | setDelegate {record : TokenOwnerRecordSeeds} {t : TokenOwnerRecordV2}
      {governanceDelegate : Option Pubkey}
      (ht : d.tokenOwnerRecords.lookup record = some t) :
      Staking i d { d with
        tokenOwnerRecords := d.tokenOwnerRecords.insert record { t with governanceDelegate } }
  | setLock {record : TokenOwnerRecordSeeds} {t : TokenOwnerRecordV2}
      {lock : TokenOwnerRecordLock}
      (ht : d.tokenOwnerRecords.lookup record = some t) (hsigned : lock.authority ∈ i.signers)
      (hcurrent : lock.isExpired d.unixTimestamp = false) :
      Staking i d { d with
        tokenOwnerRecords := d.tokenOwnerRecords.insert record
          ((t.removeExpiredLocks d.unixTimestamp).upsertLock lock) }
  | relinquishLocks {record : TokenOwnerRecordSeeds} {t t' : TokenOwnerRecordV2}
      {locks : Option (AccountInfo × List ℕ)}
      (ht : d.tokenOwnerRecords.lookup record = some t)
      (hsigned : ∀ authority lockIds, locks = some (authority, lockIds) →
        authority.isSigner = true → authority.key ∈ i.signers)
      (hlocks : d.removeLocks t locks = .ok t') :
      Staking i d { d with
        tokenOwnerRecords := d.tokenOwnerRecords.insert record
          (t'.removeExpiredLocks d.unixTimestamp) }

theorem stepRecord_staking {d d' : Dao} {i : RecordInstruction} (h : d.stepRecord i = .ok d') :
    Staking i d d' := by
  cases i with
  | createTokenOwnerRecord mint owner =>
      simp only [stepRecord, createTokenOwnerRecord, bind_eq_ok, require_eq_ok,
        Except.ok.injEq] at h
      obtain ⟨_, -, _, hnone, rfl⟩ := h
      exact .openRecord hnone
  | depositGoverningTokens mint owner source amount =>
      simp only [stepRecord, depositGoverningTokens, bind_eq_ok, unwrapAdd_eq_ok,
        Except.ok.injEq] at h
      obtain ⟨_, -, _, -, t, ht, d₁, hreceive, _, ⟨-, rfl⟩, rfl⟩ := h
      have hdeposit := Staking.deposit (i := .depositGoverningTokens mint owner source amount)
        (recordForDeposit_ok ht) hreceive
      obtain ⟨holding, supply, wallets, rfl⟩ := receive_ok hreceive
      exact hdeposit
  | withdrawGoverningTokens mint owner destination =>
      simp only [stepRecord, withdrawGoverningTokens, getTokenOwnerRecordData, bind_eq_ok,
        require_eq_ok, guardOr_eq_ok, okOr_eq_ok, Except.ok.injEq] at h
      obtain ⟨_, hsigner, _, -, _, -, t, ht, _, hcan, _, hheld, rfl⟩ := h
      obtain ⟨holding, wallets, hpaid⟩ := credit_eq (d.setHolding mint
        (d.holding mint - t.governingTokenDepositAmount)) mint t.governingTokenDepositAmount
        destination
      rw [hpaid]
      refine .withdraw ht ?_ hcan hheld hpaid
      rw [RecordInstruction.signers, if_pos hsigner]
      exact List.mem_singleton.mpr rfl
  | revokeGoverningTokens mint record revokeAuthority amount =>
      simp only [stepRecord, revokeGoverningTokens, bind_eq_ok, require_eq_ok, guardOr_eq_ok,
        Except.ok.injEq] at h
      obtain ⟨_, -, _, hmember, t, hrecord, _, -, _, hle, _, ⟨hheld, hsupply⟩, rfl⟩ := h
      obtain ⟨ht, rfl⟩ := getTokenOwnerRecordDataForGoverningMint_ok hrecord
      exact .revoke rfl ht hmember hle hheld hsupply
  | setGovernanceDelegate record governanceAuthority newGovernanceDelegate =>
      simp only [stepRecord, setGovernanceDelegate, getTokenOwnerRecordData, bind_eq_ok,
        okOr_eq_ok, Except.ok.injEq] at h
      obtain ⟨t, ht, _, -, rfl⟩ := h
      exact .setDelegate ht
  | setTokenOwnerRecordLock record lockAuthority lockId expiry =>
      simp only [stepRecord, setTokenOwnerRecordLock, getTokenOwnerRecordData, bind_eq_ok,
        require_eq_ok, okOr_eq_ok, Except.ok.injEq] at h
      obtain ⟨_, hsigner, _, hcurrent, t, ht, _, -, _, -, rfl⟩ := h
      refine .setLock ht ?_ hcurrent
      rw [RecordInstruction.signers, if_pos hsigner]
      exact List.mem_singleton.mpr rfl
  | relinquishTokenOwnerRecordLocks record locks =>
      simp only [stepRecord, relinquishTokenOwnerRecordLocks, getTokenOwnerRecordData,
        bind_eq_ok, okOr_eq_ok, Except.ok.injEq] at h
      obtain ⟨t, ht, t₁, hlocks, rfl⟩ := h
      refine .relinquishLocks ht ?_ hlocks
      rintro authority lockIds rfl hsigner
      rw [RecordInstruction.signers, if_pos hsigner]
      exact List.mem_singleton.mpr rfl

theorem Staking.realmConfig_eq {i : RecordInstruction} {d d' : Dao} (h : Staking i d d') :
    d'.realmConfig = d.realmConfig := by
  cases h with
  | deposit ht hreceive =>
      obtain ⟨_, _, _, rfl⟩ := receive_ok hreceive
      rfl
  | _ => rfl

/-- The token programs. -/
theorem stepToken_ok {d d' : Dao} {i : TokenInstruction} (h : d.stepToken i = .ok d') :
    ∃ holding supply wallets, d' = { d with holding, supply, wallets } := by
  cases i with
  | mintTo mint receiver amount =>
      simp only [stepToken, bind_eq_ok, Except.ok.injEq] at h
      obtain ⟨_, -, rfl⟩ := h
      obtain ⟨_, _, hcredit⟩ := credit_eq (d.setSupply mint (d.supply mint + amount)) mint amount
        receiver
      exact ⟨_, _, _, hcredit⟩
  | transfer mint sender receiver amount =>
      simp only [stepToken, bind_eq_ok, Except.ok.injEq] at h
      obtain ⟨_, -, rfl⟩ := h
      obtain ⟨_, _, hcredit⟩ := credit_eq (d.setWallet mint sender
        (d.walletOf mint sender - amount)) mint amount receiver
      exact ⟨_, _, _, hcredit⟩
  | burn =>
      simp only [stepToken, bind_eq_ok, Except.ok.injEq] at h
      obtain ⟨_, -, rfl⟩ := h
      exact ⟨_, _, _, rfl⟩

/-! ### Instructions on the configuration -/

/-- An instruction that concerns the configuration. -/
def SettingsOnly (d d' : Dao) : Prop :=
  d' = { d with
    realm := d'.realm
    realmConfig := d'.realmConfig
    governances := d'.governances
    requiredSignatories := d'.requiredSignatories }

theorem stepConfig_settingsOnly {d d' : Dao} {i : ConfigInstruction}
    (h : d.stepConfig i = .ok d') : SettingsOnly d d' := by
  cases i with
  | createGovernance =>
      simp only [stepConfig, createGovernance, bind_eq_ok, Except.ok.injEq] at h
      obtain ⟨_, -, _, -, _, -, rfl⟩ := h
      rfl
  | setGovernanceConfig =>
      simp only [stepConfig, setGovernanceConfig, bind_eq_ok, Except.ok.injEq] at h
      obtain ⟨_, -, _, -, _, -, rfl⟩ := h
      rfl
  | addRequiredSignatory =>
      simp only [stepConfig, addRequiredSignatory, bind_eq_ok, Except.ok.injEq] at h
      obtain ⟨_, -, _, -, _, -, _, -, rfl⟩ := h
      rfl
  | removeRequiredSignatory =>
      simp only [stepConfig, removeRequiredSignatory, bind_eq_ok, Except.ok.injEq] at h
      obtain ⟨_, -, _, -, _, -, _, -, rfl⟩ := h
      rfl
  | setRealmConfig =>
      simp only [stepConfig, setRealmConfig, bind_eq_ok, Except.ok.injEq] at h
      obtain ⟨_, -, _, -, _, -, _, -, rfl⟩ := h
      rfl
  | setRealmConfigItem =>
      simp only [stepConfig, setRealmConfigItem, bind_eq_ok, Except.ok.injEq] at h
      obtain ⟨_, -, _, -, _, -, rfl⟩ := h
      rfl
  | setRealmAuthority =>
      simp only [stepConfig, setRealmAuthority, bind_eq_ok, Except.ok.injEq] at h
      obtain ⟨_, -, _, -, rfl⟩ := h
      rfl

/-! ### The invariant rule -/

/-- The instructions of the governance program an instruction comes to. -/
def invoked (d : Dao) (i : Instruction) : List GovernanceInstruction :=
  (d.events i).filterMap Event.processed

/-- The invariant rule for what an instruction invokes. -/
theorem process_rule {I : Dao → Prop} {C : GovernanceInstruction → Prop}
    (hproposals : ∀ d d', Consistent d → I d → ProposalsOnly d d' → I d')
    (hrecord : ∀ d i d', C (.record i) → Consistent d → I d → Staking i d d' → I d')
    (hconfig : ∀ d i d', C (.config i) → Consistent d → I d → d.stepConfig i = .ok d' → I d')
    {d d' : Dao} {i : GovernanceInstruction} (hC : C i) (hd : Consistent d) (hI : I d)
    (h : d.process i = .ok d') : I d' := by
  cases i with
  | record i => exact hrecord d i d' hC hd hI (stepRecord_staking h)
  | config i => exact hconfig d i d' hC hd hI h
  | proposal i => exact hproposals d d' hd hI (stepProposal_proposalsOnly h)

/-- **The invariant rule for stakes and settings.** What holds of them is kept by an instruction,
when the instructions on records and on the configuration it comes to keep it, and the token
programs. -/
theorem step_rule {I : Dao → Prop} {C : GovernanceInstruction → Prop}
    (hproposals : ∀ d d', Consistent d → I d → ProposalsOnly d d' → I d')
    (hrecord : ∀ d i d', C (.record i) → Consistent d → I d → Staking i d d' → I d')
    (hconfig : ∀ d i d', C (.config i) → Consistent d → I d → d.stepConfig i = .ok d' → I d')
    (htoken : ∀ d i d', I d → d.stepToken i = .ok d' → I d')
    (htick : ∀ d seconds slots, I d → I { d with
      unixTimestamp := d.unixTimestamp + seconds
      slot := d.slot + slots })
    {d d' : Dao} {i : Instruction} (hd : Consistent d) (hC : ∀ j ∈ d.invoked i, C j) (hI : I d)
    (h : d.step i = .ok d') : I d' := by
  rcases step_steps hd h with hsteps | ⟨-, houtside⟩
  · refine (hsteps.keeps_of_mem (I := fun d => Consistent d ∧ I d) ?_ ⟨hd, hI⟩).2
    rintro d₁ past d₂ hpast ⟨hd₁, hI₁⟩ hstep
    refine ⟨hstep.changes.consistent hd₁, ?_⟩
    cases hstep with
    | @process j _ hprocess =>
        have hj : j ∈ d.invoked i :=
          List.mem_filterMap.mpr ⟨_, hpast _ (List.mem_singleton.mpr rfl), rfl⟩
        exact process_rule hproposals hrecord hconfig (hC j hj) hd₁ hI₁ hprocess
    | insertTransaction hinsert =>
        exact hproposals d₁ d₂ hd₁ hI₁ (insertTransaction_proposalsOnly hinsert)
    | execute hexecution => exact hproposals d₁ d₂ hd₁ hI₁ hexecution.proposalsOnly
  · cases houtside with
    | @token j _ htransfer => exact htoken d j d' hI htransfer
    | tick seconds slots => exact htick d seconds slots hI

/-- The same for a run whose instructions only come to admitted ones. -/
theorem run_rule {I : Dao → Prop} {C : GovernanceInstruction → Prop}
    (hproposals : ∀ d d', Consistent d → I d → ProposalsOnly d d' → I d')
    (hrecord : ∀ d i d', C (.record i) → Consistent d → I d → Staking i d d' → I d')
    (hconfig : ∀ d i d', C (.config i) → Consistent d → I d → d.stepConfig i = .ok d' → I d')
    (htoken : ∀ d i d', I d → d.stepToken i = .ok d' → I d')
    (htick : ∀ d seconds slots, I d → I { d with
      unixTimestamp := d.unixTimestamp + seconds
      slot := d.slot + slots })
    {d : Dao} {inputs : List Instruction} (hd : Consistent d)
    (hC : RunMeets step (fun d i => ∀ j ∈ d.invoked i, C j) d inputs) (hI : I d) :
    I (run step d inputs) := by
  have hrun : Consistent (run step d inputs) ∧ I (run step d inputs) := by
    refine hC.inv (I := fun d => Consistent d ∧ I d) ?_ ⟨hd, hI⟩
    rintro d₁ i d₂ hC₁ ⟨hd₁, hI₁⟩ h
    exact ⟨(step_changes hd₁ h).consistent hd₁,
      step_rule hproposals hrecord hconfig htoken htick hd₁ hC₁ hI₁ h⟩
  exact hrun.2

/-! ### Tokens -/

/-- What the records of a mint say was deposited. -/
def depositsOf (records : Store TokenOwnerRecordSeeds TokenOwnerRecordV2) (mint : Pubkey) : ℕ :=
  Store.total (fun k t => if k.governingTokenMint = mint then t.governingTokenDepositAmount else 0)
    records

/-- The tokens of a mint in a list of accounts. -/
def tokensOf (wallets : Store WalletKey ℕ) (mint : Pubkey) : ℕ :=
  Store.total (fun k amount => if k.mint = mint then amount else 0) wallets

/-- The tokens of a mint are in the accounts there are, and those that were deposited are in the
one that holds the deposits. -/
structure Conserved (holding supply : Pubkey → ℕ) (wallets : Store WalletKey ℕ)
    (records : Store TokenOwnerRecordSeeds TokenOwnerRecordV2) : Prop where
  deposits_le : ∀ mint, depositsOf records mint ≤ holding mint
  supply_eq : ∀ mint, supply mint = holding mint + tokensOf wallets mint
  supply_le : ∀ mint, supply mint ≤ u64Max

section

variable {holding holding' supply supply' : Pubkey → ℕ} {wallets wallets' : Store WalletKey ℕ}
  {records records' : Store TokenOwnerRecordSeeds TokenOwnerRecordV2}

/-- One balance is written. -/
theorem tokensOf_insert (wallets : Store WalletKey ℕ) (mint key : Pubkey) (amount : ℕ) :
    (∀ m, m ≠ mint → tokensOf (wallets.insert ⟨mint, key⟩ amount) m = tokensOf wallets m) ∧
      tokensOf (wallets.insert ⟨mint, key⟩ amount) mint + (wallets.lookup ⟨mint, key⟩).getD 0 =
        tokensOf wallets mint + amount := by
  refine ⟨fun m hm => Store.total_insert_of_ne (Ne.symm hm), ?_⟩
  have hmint : WalletKey.mint ⟨mint, key⟩ = mint := rfl
  have hadd := Store.total_insert_of_group (s := wallets) (a := amount) (w := fun _ a => a) hmint
  cases hlookup : wallets.lookup ⟨mint, key⟩ with
  | none =>
      rw [hlookup] at hadd
      exact hadd
  | some a =>
      rw [hlookup] at hadd
      exact hadd

/-- One record is written. -/
theorem depositsOf_insert (records : Store TokenOwnerRecordSeeds TokenOwnerRecordV2)
    (k : TokenOwnerRecordSeeds) (t' : TokenOwnerRecordV2) :
    (∀ m, m ≠ k.governingTokenMint → depositsOf (records.insert k t') m = depositsOf records m) ∧
      depositsOf (records.insert k t') k.governingTokenMint +
          (records.lookup k).elim 0 (·.governingTokenDepositAmount) =
        depositsOf records k.governingTokenMint + t'.governingTokenDepositAmount :=
  ⟨fun _ hm => Store.total_insert_of_ne (Ne.symm hm), Store.total_insert_of_group rfl⟩

/-- Tokens arrive in one of the accounts of a mint. -/
theorem credit_spec (d : Dao) (mint : Pubkey) (amount : ℕ) (account : GoverningTokenAccount) :
    (∀ m, m ≠ mint → (d.credit mint amount account).holding m = d.holding m ∧
      tokensOf (d.credit mint amount account).wallets m = tokensOf d.wallets m) ∧
    d.holding mint ≤ (d.credit mint amount account).holding mint ∧
    (d.credit mint amount account).holding mint +
        tokensOf (d.credit mint amount account).wallets mint =
      d.holding mint + tokensOf d.wallets mint + amount := by
  cases account with
  | holding =>
      dsimp only [credit, setHolding]
      rw [Function.update_self]
      exact ⟨fun m hm => ⟨Function.update_of_ne hm .., rfl⟩, Nat.le_add_right .., by omega⟩
  | wallet key =>
      obtain ⟨hothers, htokens⟩ := tokensOf_insert d.wallets mint key
        (d.walletOf mint key + amount)
      have hwallet : (d.wallets.lookup ⟨mint, key⟩).getD 0 = d.walletOf mint key := rfl
      dsimp only [credit, setWallet]
      exact ⟨fun m hm => ⟨rfl, hothers m hm⟩, le_rfl, by omega⟩

/-- A record is written that has the deposit it had. -/
theorem Conserved.write (hc : Conserved holding supply wallets records)
    {k : TokenOwnerRecordSeeds} {t' : TokenOwnerRecordV2}
    (ht : t'.governingTokenDepositAmount =
      (records.lookup k).elim 0 (·.governingTokenDepositAmount)) :
    Conserved holding supply wallets (records.insert k t') where
  deposits_le mint := by
    obtain ⟨hothers, hmint⟩ := depositsOf_insert records k t'
    rw [← ht] at hmint
    by_cases hm : mint = k.governingTokenMint
    · rw [hm, Nat.add_right_cancel hmint]
      exact hc.deposits_le _
    · rw [hothers mint hm]
      exact hc.deposits_le mint
  supply_eq := hc.supply_eq
  supply_le := hc.supply_le

/-- The tokens and the deposits of one mint change, and agree again. -/
theorem Conserved.change (hc : Conserved holding supply wallets records) (mint : Pubkey)
    (hothers : ∀ m, m ≠ mint → holding' m = holding m ∧ supply' m = supply m ∧
      tokensOf wallets' m = tokensOf wallets m ∧ depositsOf records' m = depositsOf records m)
    (hdeposits : depositsOf records' mint ≤ holding' mint)
    (hsupply : supply' mint = holding' mint + tokensOf wallets' mint)
    (hle : supply' mint ≤ u64Max) : Conserved holding' supply' wallets' records' where
  deposits_le m := by
    by_cases hm : m = mint
    · rw [hm]
      exact hdeposits
    · obtain ⟨hholding, -, -, hrecords⟩ := hothers m hm
      rw [hholding, hrecords]
      exact hc.deposits_le m
  supply_eq m := by
    by_cases hm : m = mint
    · rw [hm]
      exact hsupply
    · obtain ⟨hholding, hsupply', htokens, -⟩ := hothers m hm
      rw [hholding, hsupply', htokens]
      exact hc.supply_eq m
  supply_le m := by
    by_cases hm : m = mint
    · rw [hm]
      exact hle
    · rw [(hothers m hm).2.1]
      exact hc.supply_le m

end

theorem ProposalsOnly.conserved {d d' : Dao} (h : ProposalsOnly d d')
    (hc : Conserved d.holding d.supply d.wallets d.tokenOwnerRecords) :
    Conserved d'.holding d'.supply d'.wallets d'.tokenOwnerRecords := by
  have hdeposits : ∀ mint, depositsOf d'.tokenOwnerRecords mint =
      depositsOf d.tokenOwnerRecords mint :=
    fun mint => h.records.total_eq fun k t t' hsame => by rw [hsame]
  rw [h.eq]
  exact
    { hc with
      deposits_le := fun mint => (hdeposits mint).trans_le (hc.deposits_le mint) }

/-- A deposit reaches the holding account. -/
theorem receive_conserved {d d₁ : Dao} {mint owner : Pubkey} {amount : ℕ}
    {source : Realm.Source} {t : TokenOwnerRecordV2}
    (hc : Conserved d.holding d.supply d.wallets d.tokenOwnerRecords)
    (ht : t.governingTokenDepositAmount =
      (d.tokenOwnerRecords.lookup ⟨mint, owner⟩).elim 0 (·.governingTokenDepositAmount))
    (h : d.receive mint amount source = .ok d₁) :
    Conserved d₁.holding d₁.supply d₁.wallets (d.tokenOwnerRecords.insert ⟨mint, owner⟩
      { t with governingTokenDepositAmount := t.governingTokenDepositAmount + amount }) := by
  obtain ⟨hothers, hdeposits⟩ := depositsOf_insert d.tokenOwnerRecords ⟨mint, owner⟩
    { t with governingTokenDepositAmount := t.governingTokenDepositAmount + amount }
  rw [← ht] at hdeposits
  simp only at hothers hdeposits
  have hholding := hc.deposits_le mint
  have hsupply := hc.supply_eq mint
  have hle := hc.supply_le mint
  cases source with
  | account key =>
      simp only [receive, bind_eq_ok, guardOr_eq_ok, Except.ok.injEq] at h
      obtain ⟨_, hpaid, _, -, rfl⟩ := h
      obtain ⟨hothers', htokens⟩ := tokensOf_insert d.wallets mint key
        (d.walletOf mint key - amount)
      have hwallet : (d.wallets.lookup ⟨mint, key⟩).getD 0 = d.walletOf mint key := rfl
      dsimp only [setWallet, setHolding]
      refine hc.change mint (fun m hm => ⟨Function.update_of_ne hm .., rfl, hothers' m hm,
        hothers m hm⟩) ?_ ?_ hle
      · rw [Function.update_self]
        omega
      · rw [Function.update_self]
        omega
  | mint =>
      simp only [receive, bind_eq_ok, guardOr_eq_ok, Except.ok.injEq] at h
      obtain ⟨_, hfits, rfl⟩ := h
      dsimp only [setSupply, setHolding]
      refine hc.change mint (fun m hm => ⟨Function.update_of_ne hm .., Function.update_of_ne hm ..,
        rfl, hothers m hm⟩) ?_ ?_ ?_
      · rw [Function.update_self]
        omega
      · rw [Function.update_self, Function.update_self]
        omega
      · rwa [Function.update_self]

theorem removeLocks_deposit {d : Dao} {t t' : TokenOwnerRecordV2}
    {locks : Option (AccountInfo × List ℕ)} (h : d.removeLocks t locks = .ok t') :
    t'.governingTokenDepositAmount = t.governingTokenDepositAmount := by
  obtain ⟨_, rfl⟩ := removeLocks_ok h
  rfl

theorem Staking.conserved {i : RecordInstruction} {d d' : Dao} (hd : Linked d)
    (hc : Conserved d.holding d.supply d.wallets d.tokenOwnerRecords)
    (h : Staking i d d') :
    Conserved d'.holding d'.supply d'.wallets d'.tokenOwnerRecords := by
  cases h with
  | openRecord hnew => exact hc.write (by rw [hnew]; rfl)
  | @deposit mint owner amount source t d₁ ht hreceive =>
      have hdeposit : t.governingTokenDepositAmount =
          (d.tokenOwnerRecords.lookup ⟨mint, owner⟩).elim 0 (·.governingTokenDepositAmount) := by
        rcases ht with ht | ⟨hnone, rfl⟩
        · rw [ht]
          rfl
        · rw [hnone]
          rfl
      have hreceived := receive_conserved hc hdeposit hreceive
      exact hreceived
  | @withdraw mint owner destination t holding wallets ht hsigned hcan hheld hpaid =>
      obtain ⟨hothers, hdeposits⟩ := depositsOf_insert d.tokenOwnerRecords ⟨mint, owner⟩
        { t with governingTokenDepositAmount := 0 }
      obtain ⟨hothers', hkept, htokens⟩ := credit_spec (d.setHolding mint
        (d.holding mint - t.governingTokenDepositAmount)) mint t.governingTokenDepositAmount
        destination
      rw [hpaid] at hothers' hkept htokens
      simp only [setHolding, Function.update_self] at hothers' hkept htokens
      rw [ht, Option.elim_some] at hdeposits
      simp only at hothers hdeposits
      have hholding := hc.deposits_le mint
      have hsupply := hc.supply_eq mint
      dsimp only
      refine hc.change mint (fun m hm => ?_) (by omega) (by omega) (hc.supply_le mint)
      obtain ⟨hsame, htokens⟩ := hothers' m hm
      exact ⟨hsame.trans (Function.update_of_ne hm ..), rfl, htokens, hothers m hm⟩
  | @revoke record amount t hi ht hmember hle hheld hsupply =>
      obtain ⟨hmint, -⟩ := hd.records record t ht
      obtain ⟨hothers, hdeposits⟩ := depositsOf_insert d.tokenOwnerRecords record
        { t with governingTokenDepositAmount := t.governingTokenDepositAmount - amount }
      rw [ht, Option.elim_some, ← hmint] at hdeposits
      rw [← hmint] at hothers
      simp only at hdeposits
      have hholding := hc.deposits_le t.governingTokenMint
      have hsupply' := hc.supply_eq t.governingTokenMint
      have hle' := hc.supply_le t.governingTokenMint
      dsimp only
      refine hc.change t.governingTokenMint (fun m hm => ⟨Function.update_of_ne hm ..,
        Function.update_of_ne hm .., rfl, hothers m hm⟩) ?_ ?_ ?_
      · rw [Function.update_self]
        omega
      · rw [Function.update_self, Function.update_self]
        omega
      · rw [Function.update_self]
        omega
  | setDelegate ht => exact hc.write (by rw [ht]; rfl)
  | setLock ht => exact hc.write (by rw [ht]; rfl)
  | relinquishLocks ht hsigned hlocks =>
      have hdeposit := removeLocks_deposit hlocks
      refine hc.write ?_
      rw [ht]
      exact hdeposit

theorem stepToken_conserved {d d' : Dao} {i : TokenInstruction}
    (hc : Conserved d.holding d.supply d.wallets d.tokenOwnerRecords)
    (h : d.stepToken i = .ok d') :
    Conserved d'.holding d'.supply d'.wallets d'.tokenOwnerRecords := by
  cases i with
  | mintTo mint receiver amount =>
      simp only [stepToken, bind_eq_ok, guardOr_eq_ok, Except.ok.injEq] at h
      obtain ⟨_, hle, rfl⟩ := h
      obtain ⟨hothers, hkept, htokens⟩ := credit_spec
        (d.setSupply mint (d.supply mint + amount)) mint amount receiver
      obtain ⟨holding, wallets, hcredit⟩ := credit_eq
        (d.setSupply mint (d.supply mint + amount)) mint amount receiver
      rw [hcredit] at hothers hkept htokens ⊢
      dsimp only [setSupply] at hothers hkept htokens ⊢
      have hdeposits := hc.deposits_le mint
      have hsupply := hc.supply_eq mint
      refine hc.change mint (fun m hm => ⟨(hothers m hm).1, Function.update_of_ne hm ..,
        (hothers m hm).2, rfl⟩) (by omega) ?_ ?_
      · rw [Function.update_self]
        omega
      · rwa [Function.update_self]
  | transfer mint sender receiver amount =>
      simp only [stepToken, bind_eq_ok, guardOr_eq_ok, Except.ok.injEq] at h
      obtain ⟨_, hle, rfl⟩ := h
      obtain ⟨hothers, hsent⟩ := tokensOf_insert d.wallets mint sender
        (d.walletOf mint sender - amount)
      obtain ⟨hothers', hkept, htokens⟩ := credit_spec
        (d.setWallet mint sender (d.walletOf mint sender - amount)) mint amount receiver
      obtain ⟨holding, wallets, hcredit⟩ := credit_eq
        (d.setWallet mint sender (d.walletOf mint sender - amount)) mint amount receiver
      rw [hcredit] at hothers' hkept htokens ⊢
      dsimp only [setWallet, walletOf] at hle hothers hsent hothers' hkept htokens ⊢
      have hdeposits := hc.deposits_le mint
      have hsupply := hc.supply_eq mint
      exact hc.change mint (fun m hm => ⟨(hothers' m hm).1, rfl,
        (hothers' m hm).2.trans (hothers m hm), rfl⟩) (by omega) (by omega) (hc.supply_le mint)
  | burn mint key amount =>
      simp only [stepToken, bind_eq_ok, guardOr_eq_ok, Except.ok.injEq] at h
      obtain ⟨_, ⟨hle, hburnt⟩, rfl⟩ := h
      obtain ⟨hothers, htokens⟩ := tokensOf_insert d.wallets mint key
        (d.walletOf mint key - amount)
      dsimp only [setSupply, setWallet, walletOf] at hle hothers htokens ⊢
      have hdeposits := hc.deposits_le mint
      have hsupply := hc.supply_eq mint
      refine hc.change mint (fun m hm => ⟨rfl, Function.update_of_ne hm .., hothers m hm, rfl⟩)
        hdeposits ?_ ?_
      · rw [Function.update_self]
        omega
      · rw [Function.update_self]
        exact (Nat.sub_le ..).trans (hc.supply_le mint)

/-- It holds in every state of a realm. -/
theorem Reachable.conserved {d : Dao} (h : Reachable d) :
    Conserved d.holding d.supply d.wallets d.tokenOwnerRecords := by
  obtain ⟨d₀, inputs, hfresh, rfl⟩ := h
  have hstart : Conserved d₀.holding d₀.supply d₀.wallets d₀.tokenOwnerRecords := by
    refine ⟨fun mint => ?_, fun mint => ?_, hfresh.supply_le⟩
    · rw [hfresh.tokenOwnerRecords_eq]
      exact Nat.zero_le _
    · rw [hfresh.holding_eq, hfresh.supply_eq, Nat.zero_add]
      rfl
  refine run_rule (C := fun _ => True) (I := fun d =>
    Conserved d.holding d.supply d.wallets d.tokenOwnerRecords) ?_ ?_ ?_ ?_ ?_ hfresh.consistent
    (.of_forall (fun _ _ _ _ => trivial) _ _) hstart
  · exact fun _ _ _ hc h => h.conserved hc
  · exact fun _ _ _ _ hd hc h => h.conserved hd.linked hc
  · intro d i d' _ _ hc h
    rw [stepConfig_settingsOnly h]
    exact hc
  · exact fun _ _ _ hc h => stepToken_conserved hc h
  · exact fun _ _ _ hc => hc

/-- **Tokens are conserved.** The holding account of a mint has at least what its records say was
deposited, and the rest of the supply is outside of the realm; so every record can be paid what it
says. -/
theorem deposits_le_holding {d : Dao} (hd : Reachable d) :
    (∀ mint, depositsOf d.tokenOwnerRecords mint ≤ d.holding mint ∧
      d.supply mint = d.holding mint + tokensOf d.wallets mint ∧ d.supply mint ≤ u64Max) ∧
    ∀ k t, d.tokenOwnerRecords.lookup k = some t →
      t.governingTokenDepositAmount ≤ d.holding k.governingTokenMint := by
  have hc := hd.conserved
  refine ⟨fun mint => ⟨hc.deposits_le mint, hc.supply_eq mint, hc.supply_le mint⟩,
    fun k t ht => ?_⟩
  have hle := Store.le_total (f := fun (k' : TokenOwnerRecordSeeds) (t : TokenOwnerRecordV2) =>
    if k'.governingTokenMint = k.governingTokenMint then t.governingTokenDepositAmount else 0) ht
  rw [if_pos rfl] at hle
  exact hle.trans (hc.deposits_le _)

theorem deposits_le_holding_sample :
    depositsOf (sampleAfter 10).tokenOwnerRecords 10 ≤ (sampleAfter 10).holding 10 ∧
      depositsOf (sampleAfter 10).tokenOwnerRecords 10 = 100 :=
  ⟨((deposits_le_holding (sampleAfter_reachable 10)).1 10).1, by decide⟩

/-- A withdrawal to the holding account empties the record and moves nothing. -/
example : (run step (sampleAfter 4) [.governance (.record
      (.withdrawGoverningTokens 10 ⟨101, true⟩ .holding))]).holding 10 = 100 ∧
    depositsOf (run step (sampleAfter 4) [.governance (.record
      (.withdrawGoverningTokens 10 ⟨101, true⟩ .holding))]).tokenOwnerRecords 10 = 60 := by
  decide

end Dao

end IndexDtf.Governance
