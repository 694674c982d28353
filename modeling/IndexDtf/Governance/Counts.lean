import IndexDtf.Governance.Links

/-!
# IndexDtf.Governance.Counts

**The counters are counts.** A token owner record counts the votes that were cast with it and
not relinquished, and the proposals its owner has active; a governance counts its active
proposals. Withdrawals and the deposit a new proposal costs depend on these counters and on
nothing else, so it matters that they never drift from what they count.
-/

namespace IndexDtf.Governance

open Lib

namespace Dao

/-- Every record counts its live votes, the votes that are not relinquished. -/
abbrev VotesCounted : Store TokenOwnerRecordSeeds TokenOwnerRecordV2 →
    Store VoteRecordSeeds VoteRecordV2 → Prop :=
  Store.Counts (·.unrelinquishedVotesCount) (fun k _ => k.tokenOwnerRecord)
    fun _ v => v.isRelinquished = false

/-- Every record counts the active proposals of its owner. -/
abbrev OwnedCounted : Store TokenOwnerRecordSeeds TokenOwnerRecordV2 →
    Store Pubkey ProposalV2 → Prop :=
  Store.Counts (·.outstandingProposalCount) (fun _ p => p.tokenOwnerRecord)
    fun _ p => p.state.isActive = true

/-- Every governance counts its active proposals. -/
abbrev GovernedCounted : Store Pubkey GovernanceV2 → Store Pubkey ProposalV2 → Prop :=
  Store.Counts (·.activeProposalCount) (fun _ p => p.governance)
    fun _ p => p.state.isActive = true

/-- Nobody has more than ten active proposals. -/
def OutstandingBounded (records : Store TokenOwnerRecordSeeds TokenOwnerRecordV2) : Prop :=
  ∀ k t, records.lookup k = some t → t.outstandingProposalCount ≤ 10

/-- The counters of a realm. -/
structure Counted (d : Dao) : Prop where
  votes : VotesCounted d.tokenOwnerRecords d.voteRecords
  owned : OwnedCounted d.tokenOwnerRecords d.proposals
  governed : GovernedCounted d.governances d.proposals
  outstanding_le : OutstandingBounded d.tokenOwnerRecords

/-! ### Votes -/

theorem Effect.votesCounted {d d' : Dao} (hd : Linked d)
    (hc : VotesCounted d.tokenOwnerRecords d.voteRecords) (h : Effect d d') :
    VotesCounted d'.tokenOwnerRecords d'.voteRecords := by
  cases h with
  | frame h =>
      rw [h.voteRecords_eq]
      exact hc.of_extends h.records (fun _ _ h => h.2.2.1) (fun _ _ h => h.2.2.1)
        fun k v hv => (hd.votes k v hv).record_mem
  | create hp hg ht => exact hc.write ht rfl
  | close hp hcloses hgovernance howner ht => exact hc.write ht rfl
  | cast hp hstate ht hnew => exact hc.openNew hnew rfl rfl ht rfl
  | withdraw hp hstate ht hv hproposal howner hmint hlive =>
      obtain rfl := hd.record_eq hv (hproposal ▸ hp) ht howner hmint
      exact hc.erase hv hlive rfl ht rfl
  | relinquish hp hstate ht hv hproposal howner hmint hlive =>
      obtain rfl := hd.record_eq hv (hproposal ▸ hp) ht howner hmint
      exact hc.lose hv hlive nofun rfl rfl ht rfl
  | _ => exact hc

/-! ### Active proposals -/

/-- A token owner record with as many active proposals as it had. -/
def SameOutstanding (t t' : TokenOwnerRecordV2) : Prop :=
  t'.outstandingProposalCount = t.outstandingProposalCount

theorem SameOutstanding.refl (t : TokenOwnerRecordV2) : SameOutstanding t t := rfl

/-- At most one proposal is written, which stays active, or inactive. -/
inductive Rewritten (s : Store Pubkey ProposalV2) : Store Pubkey ProposalV2 → Prop
  | same : Rewritten s s
  | write {proposal : Pubkey} {p p' : ProposalV2} (hp : s.lookup proposal = some p)
      (hsame : SameProposal p p') (hactive : p'.state.isActive = p.state.isActive) :
      Rewritten s (s.insert proposal p')

/-- What an effect does to the active proposals: it opens one, closes one, or leaves them
active. -/
theorem Effect.active_cases {d d' : Dao} (h : Effect d d') :
    (∃ proposal p t g, d.proposals.lookup proposal = none ∧ p.state.isActive = true ∧
      d.tokenOwnerRecords.lookup p.tokenOwnerRecord = some t ∧
      t.outstandingProposalCount < 10 ∧ d.governances.lookup p.governance = some g ∧
      d'.proposals = d.proposals.insert proposal p ∧
      d'.tokenOwnerRecords = d.tokenOwnerRecords.insert p.tokenOwnerRecord
        { t with outstandingProposalCount := t.outstandingProposalCount + 1 } ∧
      d'.governances = d.governances.insert p.governance
        { g with activeProposalCount := g.activeProposalCount + 1 }) ∨
    (∃ proposal p p' t g, d.proposals.lookup proposal = some p ∧ SameProposal p p' ∧
      p.state.isActive = true ∧ p'.state.isActive = false ∧
      d.tokenOwnerRecords.lookup p.tokenOwnerRecord = some t ∧
      d.governances.lookup p.governance = some g ∧
      d'.proposals = d.proposals.insert proposal p' ∧
      d'.tokenOwnerRecords = d.tokenOwnerRecords.insert p.tokenOwnerRecord
        t.decreaseOutstandingProposalCount ∧
      d'.governances = d.governances.insert p.governance
        { g with activeProposalCount := g.activeProposalCount - 1 }) ∨
    (Rewritten d.proposals d'.proposals ∧
      Store.Extends SameOutstanding (fun _ t => t.outstandingProposalCount = 0)
        d.tokenOwnerRecords d'.tokenOwnerRecords ∧
      GovernancesKept d.governances d'.governances) := by
  cases h with
  | frame h =>
      refine .inr (.inr ⟨?_, h.records.mono (fun _ _ h => h.2.2.2) fun _ _ h => h.2.2.2,
        h.governances⟩)
      rw [h.proposals_eq]
      exact .same
  | create hp hg ht houtstanding =>
      exact .inl ⟨_, _, _, _, hp, rfl, ht, houtstanding, hg, rfl, rfl, rfl⟩
  | close hp hcloses hgovernance howner ht hg =>
      subst hgovernance howner
      exact .inr (.inl ⟨_, _, _, _, _, hp, hcloses.sameProposal, hcloses.isActive.1,
        hcloses.isActive.2, ht, hg, rfl, rfl, rfl⟩)
  | addSignatory hp =>
      exact .inr (.inr ⟨.write hp {} rfl, .refl SameOutstanding.refl _, .refl _⟩)
  | signOff hp hstate =>
      refine .inr (.inr ⟨.write hp {} ?_, .refl SameOutstanding.refl _, .refl _⟩)
      dsimp only
      split
      · rcases hstate with h | h
        · rw [h]
          rfl
        · rw [h]
      · rfl
  | beginSignOff hp =>
      exact .inr (.inr ⟨.write hp {} rfl, .refl SameOutstanding.refl _, .refl _⟩)
  | startVoting hp hstate =>
      refine .inr (.inr ⟨.write hp {} ?_, .refl SameOutstanding.refl _, .refl _⟩)
      rcases hstate with h | h <;> rw [h] <;> rfl
  | insertTransaction hp =>
      exact .inr (.inr ⟨.write hp (sameProposal_setOption ..) rfl,
        .refl SameOutstanding.refl _, .refl _⟩)
  | removeTransaction hp =>
      exact .inr (.inr ⟨.write hp (sameProposal_setOption ..) rfl,
        .refl SameOutstanding.refl _, .refl _⟩)
  | cast hp hstate ht hnew hmint hweight hvalid hadds =>
      exact .inr (.inr ⟨.write hp hadds.sameProposal (by rw [hadds.state_eq]),
        .write SameOutstanding.refl ht rfl, .refl _⟩)
  | withdraw hp hstate ht hv hproposal howner hmint hlive hadds =>
      exact .inr (.inr ⟨.write hp hadds.sameProposal.symm (by rw [hadds.state_eq]),
        .write SameOutstanding.refl ht rfl, .refl _⟩)
  | relinquish hp hstate ht =>
      exact .inr (.inr ⟨.same, .write SameOutstanding.refl ht rfl, .refl _⟩)
  | complete hp hstate =>
      refine .inr (.inr ⟨.write hp {} ?_, .refl SameOutstanding.refl _, .refl _⟩)
      rw [hstate]
      rfl

theorem Effect.ownedCounted {d d' : Dao} (hd : Linked d)
    (hc : OwnedCounted d.tokenOwnerRecords d.proposals) (h : Effect d d') :
    OwnedCounted d'.tokenOwnerRecords d'.proposals := by
  rcases h.active_cases with ⟨_, p, t, g, hp, hactive, ht, -, -, hproposals, hrecords, -⟩ |
    ⟨_, p, p', t, g, hp, hsame, hactive, hclosed, ht, -, hproposals, hrecords, -⟩ |
    ⟨hproposals, hrecords, -⟩
  · rw [hproposals, hrecords]
    exact hc.openNew hp hactive rfl ht rfl
  · rw [hproposals, hrecords]
    exact hc.lose hp hactive (by rw [hclosed]; nofun) rfl hsame.tokenOwnerRecord_eq ht rfl
  · have hkept := hc.of_extends hrecords (fun _ _ h => h) (fun _ _ h => h)
      fun k p hp => (hd.proposals k p hp).1
    generalize d'.proposals = proposals at hproposals ⊢
    cases hproposals with
    | same => exact hkept
    | write hp hsame hactive =>
        exact Store.Counts.keep hkept hp hsame.tokenOwnerRecord_eq (by rw [hactive])

theorem Effect.governedCounted {d d' : Dao} (hd : Linked d)
    (hc : GovernedCounted d.governances d.proposals) (h : Effect d d') :
    GovernedCounted d'.governances d'.proposals := by
  rcases h.active_cases with ⟨_, p, t, g, hp, hactive, -, -, hg, hproposals, -, hgovernances⟩ |
    ⟨_, p, p', t, g, hp, hsame, hactive, hclosed, -, hg, hproposals, -, hgovernances⟩ |
    ⟨hproposals, -, hgovernances⟩
  · rw [hproposals, hgovernances]
    exact hc.openNew hp hactive rfl hg rfl
  · rw [hproposals, hgovernances]
    exact hc.lose hp hactive (by rw [hclosed]; nofun) rfl hsame.governance_eq hg rfl
  · have hkept := hc.of_extends hgovernances (fun _ _ h => h.1) (fun _ _ h => h.1)
      fun k p hp => (hd.proposals k p hp).2
    generalize d'.proposals = proposals at hproposals ⊢
    cases hproposals with
    | same => exact hkept
    | write hp hsame hactive =>
        exact Store.Counts.keep hkept hp hsame.governance_eq (by rw [hactive])

theorem Effect.outstandingBounded {d d' : Dao} (hc : OutstandingBounded d.tokenOwnerRecords)
    (h : Effect d d') : OutstandingBounded d'.tokenOwnerRecords := by
  rcases h.active_cases with ⟨_, p, t, g, -, -, ht, hless, -, -, hrecords, -⟩ |
    ⟨_, p, p', t, g, -, -, -, -, ht, -, -, hrecords, -⟩ | ⟨-, hrecords, -⟩
  · rw [hrecords]
    exact Store.forall_insert hless fun k t _ => hc k t
  · rw [hrecords]
    exact Store.forall_insert ((Nat.sub_le _ _).trans (hc _ _ ht)) fun k t _ => hc k t
  · intro k t' ht'
    rcases hrecords.cases ht' with ⟨t, ht, hsame⟩ | ⟨-, hzero⟩
    · exact le_of_eq_of_le hsame (hc k t ht)
    · exact hzero ▸ Nat.zero_le _

/-! ### The invariant -/

theorem Effect.counted {d d' : Dao} (hd : Linked d) (hc : Counted d) (h : Effect d d') :
    Counted d' where
  votes := h.votesCounted hd hc.votes
  owned := h.ownedCounted hd hc.owned
  governed := h.governedCounted hd hc.governed
  outstanding_le := h.outstandingBounded hc.outstanding_le

theorem Amendment.counted {d d' : Dao} (hc : Counted d) (h : Amendment d d') : Counted d' := by
  cases h with
  | add hg => exact { hc with governed := hc.governed.write hg rfl }
  | remove hg => exact { hc with governed := hc.governed.write hg rfl }

theorem Execution.counted {governance : Pubkey} {k : ProposalTransactionSeeds} {d d' : Dao}
    (hc : Counted d) (h : Execution governance k d d') : Counted d' := by
  cases h with
  | execute h hgovernance hafter =>
      obtain ⟨q, hq, hstate, hproceeds⟩ := h.proceeds hafter
      have hsame := hproceeds.sameProposal
      have hactive := hproceeds.isActive_eq hstate
      exact { votes := hc.votes
              owned := hc.owned.keep hq hsame.tokenOwnerRecord_eq (by rw [hactive])
              governed := hc.governed.keep hq hsame.governance_eq (by rw [hactive])
              outstanding_le := hc.outstanding_le }

theorem Fresh.counted {d : Dao} (h : Fresh d) : Counted d where
  votes := by
    rw [h.tokenOwnerRecords_eq]
    exact Store.forall_empty
  owned := by
    rw [h.tokenOwnerRecords_eq]
    exact Store.forall_empty
  governed := by
    rw [h.governances_eq]
    exact Store.forall_empty
  outstanding_le := by
    rw [h.tokenOwnerRecords_eq]
    exact Store.forall_empty

end Dao

end IndexDtf.Governance
