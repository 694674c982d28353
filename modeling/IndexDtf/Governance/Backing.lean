import IndexDtf.Governance.Stakes

/-!
# IndexDtf.Governance.Backing

**No token votes twice.** Without plugins a voter has the weight of her deposit. She can neither
withdraw it while a vote of hers is counted nor cast two votes on one proposal, so what is counted
for and against an option is deposited, at the same time and by different voters. It is never more
than the supply of the token, which is what thresholds are percentages of.

Two things are excluded: plugins, which give weights of their own, and the revocation of
memberships, which takes a deposit away and leaves the votes cast with it.
-/

namespace IndexDtf.Governance

open Lib

/-- Whether an instruction neither revokes tokens nor asks for a plugin. -/
def GovernanceInstruction.isPlain : GovernanceInstruction → Bool
  | .record i => !i.revokes
  | .config (.setRealmConfig _ args) => args.communityTokenConfigArgs.voterWeightAddin = none ∧
      args.councilTokenConfigArgs.voterWeightAddin = none
  | _ => true

/-- Voter weights are deposits. -/
def RealmConfigAccount.NoPlugins (c : RealmConfigAccount) : Prop :=
  c.communityTokenConfig.voterWeightAddin = none ∧ c.councilTokenConfig.voterWeightAddin = none

instance (c : RealmConfigAccount) : Decidable c.NoPlugins := inferInstanceAs (Decidable (_ ∧ _))

theorem RealmConfigAccount.NoPlugins.getTokenConfig {c : RealmConfigAccount} {r : RealmV2}
    (h : c.NoPlugins) {mint : Pubkey} {tokenConfig : GoverningTokenConfig}
    (hconfig : c.getTokenConfig r mint = .ok tokenConfig) :
    tokenConfig.voterWeightAddin = none := by
  unfold RealmConfigAccount.getTokenConfig at hconfig
  split at hconfig
  · cases hconfig
    exact h.1
  · split at hconfig
    · cases hconfig
      exact h.2
    · cases hconfig

theorem RealmConfigAccount.NoPlugins.resolveVoterWeight {c : RealmConfigAccount} {r : RealmV2}
    (h : c.NoPlugins) {t : TokenOwnerRecordV2} {realm target : Pubkey} {slot : ℕ}
    {voterWeightRecord : Option (AddinAccount VoterWeightRecord)} {action : VoterWeightAction}
    {voterWeight : ℕ} (hweight : t.resolveVoterWeight realm r c slot voterWeightRecord action
      target = .ok voterWeight) : voterWeight = t.governingTokenDepositAmount := by
  simp only [TokenOwnerRecordV2.resolveVoterWeight, bind_eq_ok] at hweight
  obtain ⟨tokenConfig, hconfig, hweight⟩ := hweight
  rw [h.getTokenConfig hconfig] at hweight
  cases hweight
  rfl

/-! ### The choices of a valid vote -/

/-- Whether the choices of a vote share its weight. -/
def VoteType.isWeighted : VoteType → Bool
  | .MultiChoice .Weighted _ _ _ => true
  | _ => false

namespace ProposalV2

/-- A choice that was checked is of at most the whole weight, or counted in the total. -/
theorem checkChoice_ok {voteType : VoteType} {acc acc' : ℕ × ℕ} {choice : VoteChoice}
    (h : checkChoice voteType acc choice = .ok acc') :
    acc.2 ≤ acc'.2 ∧ (choice.weightPercentage ≤ 100 ∨
      voteType.isWeighted = true ∧ choice.weightPercentage ≤ acc'.2) := by
  simp only [checkChoice, bind_eq_ok] at h
  obtain ⟨_, -, h⟩ := h
  split at h
  · next hzero =>
      cases h
      exact ⟨le_rfl, .inl (hzero ▸ Nat.zero_le _)⟩
  · simp only [bind_eq_ok] at h
    obtain ⟨_, -, h⟩ := h
    split at h
    · simp only [bind_eq_ok, Except.ok.injEq] at h
      obtain ⟨_, -, rfl⟩ := h
      exact ⟨Nat.le_add_right _ _, .inr ⟨rfl, Nat.le_add_left _ _⟩⟩
    · simp only [bind_eq_ok, require_eq_ok, Except.ok.injEq] at h
      obtain ⟨_, hfull, rfl⟩ := h
      exact ⟨le_rfl, .inl hfull.le⟩

theorem foldlM_checkChoice_ok {voteType : VoteType} {acc acc' : ℕ × ℕ} {choices : List VoteChoice}
    (h : choices.foldlM (checkChoice voteType) acc = .ok acc') :
    acc.2 ≤ acc'.2 ∧ ∀ choice ∈ choices, choice.weightPercentage ≤ 100 ∨
      voteType.isWeighted = true ∧ choice.weightPercentage ≤ acc'.2 := by
  induction choices generalizing acc with
  | nil =>
      simp only [List.foldlM_nil, pure_eq_ok, Except.ok.injEq] at h
      exact ⟨h ▸ le_rfl, nofun⟩
  | cons choice rest ih =>
      rw [List.foldlM_cons, bind_eq_ok] at h
      obtain ⟨acc₁, hfirst, hrest⟩ := h
      obtain ⟨hle, hchoice⟩ := checkChoice_ok hfirst
      obtain ⟨hle', hothers⟩ := ih hrest
      refine ⟨hle.trans hle', List.forall_mem_cons.mpr ⟨?_, hothers⟩⟩
      exact hchoice.imp_right fun h => ⟨h.1, h.2.trans hle'⟩

/-- Choices that share the weight share all of it. -/
theorem checkChoices_isWeighted {voteType : VoteType} {total : ℕ × ℕ}
    (hweighted : voteType.isWeighted = true) (h : checkChoices voteType total = .ok ()) :
    total.2 = 100 := by
  match voteType with
  | .SingleChoice => cases hweighted
  | .MultiChoice .FullWeight _ _ _ => cases hweighted
  | .MultiChoice .Weighted _ _ _ =>
      simp only [checkChoices, bind_eq_ok, require_eq_ok] at h
      exact h.choose_spec.2

/-- No choice of a valid vote is for more than the whole weight. -/
theorem choices_le_of_valid {p : ProposalV2} {vote : Vote} (h : p.assertValidVote vote = .ok ()) :
    ∀ choices, vote = .Approve choices → ∀ choice ∈ choices, choice.weightPercentage ≤ 100 := by
  rintro choices rfl choice hchoice
  simp only [assertValidVote, bind_eq_ok] at h
  obtain ⟨_, -, total, htotal, hcheck⟩ := h
  rcases (foldlM_checkChoice_ok htotal).2 choice hchoice with hle | ⟨hweighted, hle⟩
  · exact hle
  · rwa [checkChoices_isWeighted hweighted hcheck] at hle

end ProposalV2

/-- An option gets no more than the weight of the voter. -/
theorem Vote.approvalOn_le {vote : Vote}
    (h : ∀ choices, vote = .Approve choices → ∀ choice ∈ choices, choice.weightPercentage ≤ 100)
    (voterWeight i : ℕ) : vote.approvalOn voterWeight i ≤ voterWeight := by
  cases vote with
  | Approve choices =>
      rw [approvalOn]
      cases hi : choices[i]? with
      | none => exact Nat.zero_le _
      | some choice =>
          exact VoteChoice.choiceWeight_le (h choices rfl choice (List.mem_of_getElem? hi)) _
  | Deny => exact Nat.zero_le _
  | Abstain => exact Nat.zero_le _
  | Veto => exact Nat.zero_le _

namespace Dao

/-- The plugins of a realm change only when the whole configuration is set. -/
theorem stepConfig_noPlugins {d d' : Dao} {i : ConfigInstruction} (hd : d.realmConfig.NoPlugins)
    (hi : GovernanceInstruction.isPlain (.config i) = true) (h : d.stepConfig i = .ok d') :
    d'.realmConfig.NoPlugins := by
  cases i with
  | createGovernance =>
      simp only [stepConfig, createGovernance, bind_eq_ok, Except.ok.injEq] at h
      obtain ⟨_, -, _, -, _, -, rfl⟩ := h
      exact hd
  | setGovernanceConfig =>
      simp only [stepConfig, setGovernanceConfig, bind_eq_ok, Except.ok.injEq] at h
      obtain ⟨_, -, _, -, _, -, rfl⟩ := h
      exact hd
  | addRequiredSignatory =>
      simp only [stepConfig, addRequiredSignatory, bind_eq_ok, Except.ok.injEq] at h
      obtain ⟨_, -, _, -, _, -, _, -, rfl⟩ := h
      exact hd
  | removeRequiredSignatory =>
      simp only [stepConfig, removeRequiredSignatory, bind_eq_ok, Except.ok.injEq] at h
      obtain ⟨_, -, _, -, _, -, _, -, rfl⟩ := h
      exact hd
  | setRealmConfig =>
      simp only [stepConfig, setRealmConfig, bind_eq_ok, Except.ok.injEq] at h
      obtain ⟨_, -, _, -, _, -, _, -, rfl⟩ := h
      have hnone := of_decide_eq_true hi
      exact hnone
  | setRealmConfigItem realmAuthority action mint authority =>
      simp only [stepConfig, setRealmConfigItem, bind_eq_ok, Except.ok.injEq] at h
      obtain ⟨_, -, tokenConfig, hconfig, _, -, rfl⟩ := h
      have hnone := hd.getTokenConfig hconfig
      by_cases hmint : mint = d.realm.communityMint
      · simp only [RealmConfigAccount.setTokenConfig, if_pos hmint]
        exact ⟨hnone, hd.2⟩
      · simp only [RealmConfigAccount.setTokenConfig, if_neg hmint]
        exact ⟨hd.1, hnone⟩
  | setRealmAuthority =>
      simp only [stepConfig, setRealmAuthority, bind_eq_ok, Except.ok.injEq] at h
      obtain ⟨_, -, _, -, rfl⟩ := h
      exact hd

/-! ### Votes are backed by deposits -/

/-- Every vote that counts has no more weight than the deposit it was cast with, and gives no
option more than that. -/
def VotesBacked (votes : Store VoteRecordSeeds VoteRecordV2)
    (records : Store TokenOwnerRecordSeeds TokenOwnerRecordV2) : Prop :=
  ∀ k v, votes.lookup k = some v → v.isRelinquished = false →
    (∀ i, v.vote.approvalOn v.voterWeight i ≤ v.voterWeight) ∧
    ∃ t, records.lookup k.tokenOwnerRecord = some t ∧ v.voterWeight ≤ t.governingTokenDepositAmount

/-- A record is written that has at least the deposit it had, or that backs no vote. -/
theorem VotesBacked.write {votes : Store VoteRecordSeeds VoteRecordV2}
    {records : Store TokenOwnerRecordSeeds TokenOwnerRecordV2} {k : TokenOwnerRecordSeeds}
    {t' : TokenOwnerRecordV2} (h : VotesBacked votes records)
    (hk : ∀ t, records.lookup k = some t →
      t.governingTokenDepositAmount ≤ t'.governingTokenDepositAmount ∨
        ∀ kv v, votes.lookup kv = some v → kv.tokenOwnerRecord = k → v.isRelinquished = true) :
    VotesBacked votes (records.insert k t') := by
  intro kv v hv hlive
  obtain ⟨hvote, t, ht, hle⟩ := h kv v hv hlive
  by_cases hkv : kv.tokenOwnerRecord = k
  · rcases hk t (hkv ▸ ht) with hmore | hnone
    · exact ⟨hvote, t', by rw [hkv, AList.lookup_insert], hle.trans hmore⟩
    · rw [hnone kv v hv hkv] at hlive
      cases hlive
  · exact ⟨hvote, t, by rw [AList.lookup_insert_ne hkv]; exact ht, hle⟩

/-- With a record that counts no votes none is live. -/
theorem relinquished_of_count_eq_zero {d : Dao} (hd : Consistent d) {k : TokenOwnerRecordSeeds}
    {t : TokenOwnerRecordV2} (ht : d.tokenOwnerRecords.lookup k = some t)
    (hzero : t.unrelinquishedVotesCount = 0) :
    ∀ kv v, d.voteRecords.lookup kv = some v → kv.tokenOwnerRecord = k →
      v.isRelinquished = true := by
  intro kv v hv hkv
  have hcount := hd.counted.votes.eq_count ht
  rw [hzero] at hcount
  have hnot := Store.count_eq_zero_iff.mp hcount.symm kv v hv
  cases hrelinquished : v.isRelinquished with
  | true => rfl
  | false => exact absurd ⟨hkv, hrelinquished⟩ hnot

theorem Staking.votesBacked {i : RecordInstruction} {d d' : Dao} (hd : Consistent d)
    (hi : i.revokes = false) (hb : VotesBacked d.voteRecords d.tokenOwnerRecords)
    (h : Staking i d d') : VotesBacked d'.voteRecords d'.tokenOwnerRecords := by
  cases h with
  | openRecord hnew =>
      refine hb.write fun t ht => ?_
      rw [hnew] at ht
      cases ht
  | deposit ht hreceive =>
      obtain ⟨_, _, _, rfl⟩ := receive_ok hreceive
      refine hb.write fun t₁ ht₁ => .inl ?_
      rcases ht with ht | ⟨hnone, -⟩
      · rw [ht] at ht₁
        cases ht₁
        exact Nat.le_add_right _ _
      · rw [hnone] at ht₁
        cases ht₁
  | withdraw ht hsigned hcan hheld =>
      refine hb.write fun t₁ ht₁ => .inr ?_
      simp only [TokenOwnerRecordV2.assertCanWithdrawGoverningTokens, bind_eq_ok,
        require_eq_ok] at hcan
      exact relinquished_of_count_eq_zero hd ht hcan.choose_spec.1
  | revoke hrevokes =>
      rw [hi] at hrevokes
      cases hrevokes
  | setDelegate ht =>
      refine hb.write fun t₁ ht₁ => .inl ?_
      rw [ht] at ht₁
      cases ht₁
      exact le_rfl
  | setLock ht =>
      refine hb.write fun t₁ ht₁ => .inl ?_
      rw [ht] at ht₁
      cases ht₁
      exact le_rfl
  | relinquishLocks ht hsigned hlocks =>
      refine hb.write fun t₁ ht₁ => .inl ?_
      rw [ht] at ht₁
      cases ht₁
      exact (removeLocks_deposit hlocks).ge

theorem ProposalsOnly.votesBacked {d d' : Dao} (hplugins : d.realmConfig.NoPlugins)
    (hb : VotesBacked d.voteRecords d.tokenOwnerRecords) (h : ProposalsOnly d d') :
    VotesBacked d'.voteRecords d'.tokenOwnerRecords := by
  intro k v hv hlive
  have hkept : ∀ t, d.tokenOwnerRecords.lookup k.tokenOwnerRecord = some t →
      v.voterWeight ≤ t.governingTokenDepositAmount →
      ∃ t, d'.tokenOwnerRecords.lookup k.tokenOwnerRecord = some t ∧
        v.voterWeight ≤ t.governingTokenDepositAmount := by
    intro t ht hle
    obtain ⟨t', ht', hsame⟩ := h.records.keeps _ t ht
    rw [hsame] at ht'
    exact ⟨_, ht', hle⟩
  rcases h.votes k v hv with hold | hrelinquished | ⟨⟨t, _, ht, hweight⟩, p, hvalid⟩
  · obtain ⟨hvote, t, ht, hle⟩ := hb k v hold hlive
    exact ⟨hvote, hkept t ht hle⟩
  · rw [hrelinquished] at hlive
    cases hlive
  · exact ⟨fun i => Vote.approvalOn_le (ProposalV2.choices_le_of_valid hvalid) v.voterWeight i,
      hkept t ht (hplugins.resolveVoterWeight hweight).le⟩

/-- A realm without plugins in which votes are backed. -/
def Backed (d : Dao) : Prop :=
  d.realmConfig.NoPlugins ∧ VotesBacked d.voteRecords d.tokenOwnerRecords

/-- A run without plugins and revocations. -/
def RunsPlain (d : Dao) (inputs : List Instruction) : Prop :=
  RunMeets step (fun d i => ∀ j ∈ d.invoked i, j.isPlain = true) d inputs

instance (d : Dao) (inputs : List Instruction) : Decidable (RunsPlain d inputs) :=
  RunMeets.instDecidable _ _ _ _

theorem run_backed {d : Dao} {inputs : List Instruction} (hd : Consistent d) (hb : Backed d)
    (hplain : RunsPlain d inputs) : Backed (run step d inputs) := by
  refine run_rule (C := fun j => j.isPlain = true) ?_ ?_ ?_ ?_ ?_ hd hplain hb
  · rintro d d' - ⟨hplugins, hb⟩ h
    refine ⟨?_, h.votesBacked hplugins hb⟩
    rw [h.eq]
    exact hplugins
  · rintro d i d' hi hd ⟨hplugins, hb⟩ h
    refine ⟨?_, h.votesBacked hd (Bool.not_eq_true' _ ▸ hi) hb⟩
    rw [h.realmConfig_eq]
    exact hplugins
  · rintro d i d' hi - ⟨hplugins, hb⟩ h
    refine ⟨stepConfig_noPlugins hplugins hi h, ?_⟩
    rw [stepConfig_settingsOnly h]
    exact hb
  · rintro d i d' ⟨hplugins, hb⟩ h
    obtain ⟨_, _, _, rfl⟩ := stepToken_ok h
    exact ⟨hplugins, hb⟩
  · exact fun _ _ _ h => h

end Dao

/-! ### What is counted on a proposal -/

namespace VoteRecordV2

/-- A vote is for an option or against the proposal. -/
theorem weightOn_option_add_deny_le {v : VoteRecordV2} {i : ℕ}
    (h : v.vote.approvalOn v.voterWeight i ≤ v.voterWeight) :
    v.weightOn (.option i) + v.weightOn .deny ≤ v.voterWeight := by
  rw [weightOn, weightOn]
  cases hvote : v.vote with
  | Approve choices =>
      rw [hvote] at h
      exact h
  | Deny => exact (Nat.zero_add _).le
  | Abstain => exact Nat.zero_le _
  | Veto => exact Nat.zero_le _

theorem weightOn_veto_le (v : VoteRecordV2) : v.weightOn .veto ≤ v.voterWeight := by
  rw [weightOn]
  cases v.vote with
  | Veto => exact le_rfl
  | Approve choices => exact Nat.zero_le _
  | Deny => exact Nat.zero_le _
  | Abstain => exact Nat.zero_le _

theorem electorate_of_weightOn_ne_zero {v : VoteRecordV2} {i : ℕ}
    (h : v.weightOn (.option i) + v.weightOn .deny ≠ 0) : getVoteKind v.vote = .Electorate := by
  rw [weightOn, weightOn] at h
  cases hvote : v.vote with
  | Veto =>
      rw [hvote] at h
      exact absurd rfl h
  | _ => rfl

theorem veto_of_weightOn_ne_zero {v : VoteRecordV2} (h : v.weightOn .veto ≠ 0) :
    getVoteKind v.vote = .Veto := by
  rw [weightOn] at h
  cases hvote : v.vote with
  | Veto => rfl
  | Approve choices =>
      rw [hvote] at h
      exact absurd rfl h
  | Deny =>
      rw [hvote] at h
      exact absurd rfl h
  | Abstain =>
      rw [hvote] at h
      exact absurd rfl h

end VoteRecordV2

namespace Dao

/-- What the votes of one kind on a proposal count is deposited with its mint. -/
theorem Backed.total_le {d : Dao} (hb : Backed d) (hd : Consistent d)
    {k : Pubkey} {p : ProposalV2} (hp : d.proposals.lookup k = some p) (hvoting : p.state = .Voting)
    {kind : VoteKind} {mint : Pubkey}
    (hmint : d.realm.getProposalGoverningTokenMintForVote mint kind = .ok p.governingTokenMint)
    {f : VoteRecordV2 → ℕ}
    (hle : ∀ v : VoteRecordV2, (∀ i, v.vote.approvalOn v.voterWeight i ≤ v.voterWeight) →
      f v ≤ v.voterWeight)
    (hkind : ∀ v, f v ≠ 0 → getVoteKind v.vote = kind) :
    Store.total (fun kv v => if kv.proposal = k then f v else 0) d.voteRecords ≤
      depositsOf d.tokenOwnerRecords mint := by
  -- a vote on the proposal is mapped to the record it was cast with
  refine Store.total_le_of_injOn (φ := fun kv => kv.tokenOwnerRecord) ?_ ?_
  · intro kv v hv hne
    by_cases hkv : kv.proposal = k
    · rw [if_pos hkv] at hne ⊢
      have hlive := (hd.votesLive kv v hv p (hkv ▸ hp)).2 hvoting
      obtain ⟨hvote, t, ht, hweight⟩ := hb.2 kv v hv hlive
      obtain ⟨-, -, -, q, hq, hvotes⟩ := hd.linked.votes kv v hv
      rw [hkv, hp] at hq
      cases hq
      rw [hkind v hne] at hvotes
      have hsame := hvotes.eq_of_ok hd.linked.councilMint_ne hmint
      refine ⟨t, ht, ?_⟩
      rw [if_pos hsame]
      exact (hle v hvote).trans hweight
    · rw [if_neg hkv] at hne
      exact absurd rfl hne
  · rintro kv kv' v v' - - hne hne' heq
    obtain ⟨proposal, record⟩ := kv
    obtain ⟨proposal', record'⟩ := kv'
    have hproposal : proposal = k := by
      by_contra hother
      exact hne (if_neg hother)
    have hproposal' : proposal' = k := by
      by_contra hother
      exact hne' (if_neg hother)
    rw [hproposal, hproposal']
    exact congrArg _ heq

/-- **No token votes twice.** In a run without plugins and revocations, what is counted for an
option and against the proposal is deposited together, and no more than the supply; and so is
what is counted for a veto, with the other mint. -/
theorem run_votes_le_supply {d : Dao} (hfresh : Fresh d) (hplugins : d.realmConfig.NoPlugins)
    {inputs : List Instruction} (hplain : RunsPlain d inputs) {k : Pubkey} {p : ProposalV2}
    (hp : (run step d inputs).proposals.lookup k = some p) (hvoting : p.state = .Voting) :
    (∀ i, p.weightOf (.option i) + p.weightOf .deny ≤
        depositsOf (run step d inputs).tokenOwnerRecords p.governingTokenMint ∧
      depositsOf (run step d inputs).tokenOwnerRecords p.governingTokenMint ≤
        (run step d inputs).supply p.governingTokenMint) ∧
    ∀ mint, (run step d inputs).realm.getProposalGoverningTokenMintForVote mint .Veto =
        .ok p.governingTokenMint →
      p.weightOf .veto ≤ depositsOf (run step d inputs).tokenOwnerRecords mint ∧
        depositsOf (run step d inputs).tokenOwnerRecords mint ≤
          (run step d inputs).supply mint := by
  have hreachable : Reachable (run step d inputs) := ⟨d, inputs, hfresh, rfl⟩
  have hd := hreachable.consistent
  have hc := hreachable.conserved
  have hb : Backed (run step d inputs) := by
    refine run_backed hfresh.consistent ⟨hplugins, ?_⟩ hplain
    rw [hfresh.voteRecords_eq]
    exact Store.forall_empty
  have hsupply : ∀ mint, depositsOf (run step d inputs).tokenOwnerRecords mint ≤
      (run step d inputs).supply mint := fun mint => by
    rw [hc.supply_eq]
    exact (hc.deposits_le mint).trans (Nat.le_add_right ..)
  generalize run step d inputs = d' at hp hd hb hsupply ⊢
  have htally : ∀ b, p.weightOf b =
      Store.total (fun kv v => if kv.proposal = k then v.weightOn b else 0) d'.voteRecords :=
    fun b => hd.tallied b k p hp
  refine ⟨fun i => ⟨?_, hsupply _⟩, fun mint hmint => ⟨?_, hsupply mint⟩⟩
  · have hmint : d'.realm.getProposalGoverningTokenMintForVote p.governingTokenMint .Electorate =
        .ok p.governingTokenMint := rfl
    have hle := hb.total_le hd hp hvoting hmint
      (f := fun v => v.weightOn (.option i) + v.weightOn .deny)
      (fun v hvote => VoteRecordV2.weightOn_option_add_deny_le (hvote i))
      fun v hne => VoteRecordV2.electorate_of_weightOn_ne_zero hne
    rw [htally, htally, ← Store.total_add]
    refine le_trans (Store.total_mono fun kv v _ => ?_) hle
    split
    · exact le_rfl
    · exact le_rfl
  · rw [htally]
    exact hb.total_le hd hp hvoting hmint (fun v _ => VoteRecordV2.weightOn_veto_le v)
      fun v hne => VoteRecordV2.veto_of_weightOn_ne_zero hne

theorem run_votes_le_supply_sample :
    ProposalV2.weightOf (((sampleAfter 10).proposals.lookup 70).get (by decide)) (.option 0) +
        ProposalV2.weightOf (((sampleAfter 10).proposals.lookup 70).get (by decide)) .deny ≤
      depositsOf (sampleAfter 10).tokenOwnerRecords 10 :=
  ((run_votes_le_supply sample_fresh (by decide)
    (by decide : RunsPlain sample (sampleRun.take 10)) (Option.some_get _).symm
    (by decide)).1 0).1

end Dao

end IndexDtf.Governance
