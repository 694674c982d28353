import IndexDtf.Governance.Links

/-!
# IndexDtf.Governance.Signatories

**A proposal is signed off before it is voted on.** Signatories are added to a draft; the first
one to sign moves it on, so that no others are added, and the last one opens the vote. The
program compares two counters for this. They are the numbers of signatory records and of those
that are signed, so the vote opens when every signatory has signed and not before.

A governance can require signatories of its proposals, and counts them as well.
-/

namespace IndexDtf.Governance

open Lib

/-- What the counters of a proposal say about the stage of its sign-off. -/
structure ProposalV2.SignOffStage (p : ProposalV2) : Prop where
  draft : p.state = .Draft → p.signatoriesSignedOffCount = 0
  signingOff : p.state = .SigningOff → 0 < p.signatoriesSignedOffCount
  votingAt_eq : p.state.isPending = true → p.votingAt = none
  voting : p.votingAt ≠ none → p.signatoriesSignedOffCount = p.signatoriesCount

/-- After the sign-off nothing changes its counters. -/
theorem ProposalV2.SignOffStage.past {p p' : ProposalV2} (h : p.SignOffStage)
    (hpending : p'.state.isPending = false) (hcount : p'.signatoriesCount = p.signatoriesCount)
    (hsigned : p'.signatoriesSignedOffCount = p.signatoriesSignedOffCount)
    (hvoting : p'.votingAt = p.votingAt) : p'.SignOffStage where
  draft hstate := by
    rw [hstate] at hpending
    cases hpending
  signingOff hstate := by
    rw [hstate] at hpending
    cases hpending
  votingAt_eq hstate := by
    rw [hstate] at hpending
    cases hpending
  voting hsome := by
    rw [hsigned, hcount]
    exact h.voting (hvoting ▸ hsome)

namespace Dao

/-- The sign-off of the proposals of a realm. -/
structure SignOffs (proposals : Store Pubkey ProposalV2)
    (signatories : Store SignatoryRecordSeeds SignatoryRecordV2) : Prop where
  /-- A proposal counts its signatories. -/
  counted : Store.Counts (fun p : ProposalV2 => p.signatoriesCount)
    (fun (k : SignatoryRecordSeeds) _ => k.proposal) (fun _ _ => True) proposals signatories
  /-- And those that have signed. -/
  signed : Store.Counts (fun p : ProposalV2 => p.signatoriesSignedOffCount)
    (fun (k : SignatoryRecordSeeds) _ => k.proposal) (fun _ s => s.signedOff = true) proposals
    signatories
  stage : ∀ k p, proposals.lookup k = some p → p.SignOffStage

section

variable {proposals : Store Pubkey ProposalV2}
  {signatories : Store SignatoryRecordSeeds SignatoryRecordV2} {proposal : Pubkey}
  {p p' : ProposalV2}

/-- A write to a proposal that leaves the counters of the sign-off. -/
theorem SignOffs.write (h : SignOffs proposals signatories)
    (hp : proposals.lookup proposal = some p)
    (hcount : p'.signatoriesCount = p.signatoriesCount)
    (hsigned : p'.signatoriesSignedOffCount = p.signatoriesSignedOffCount)
    (hstage : p.SignOffStage → p'.SignOffStage) :
    SignOffs (proposals.insert proposal p') signatories where
  counted := h.counted.write hp hcount
  signed := h.signed.write hp hsigned
  stage := Store.forall_insert (hstage (h.stage _ _ hp)) fun k p _ => h.stage k p

/-- A write after the sign-off. -/
theorem SignOffs.write_past (h : SignOffs proposals signatories)
    (hp : proposals.lookup proposal = some p) (hpending : p'.state.isPending = false)
    (hcount : p'.signatoriesCount = p.signatoriesCount)
    (hsigned : p'.signatoriesSignedOffCount = p.signatoriesSignedOffCount)
    (hvoting : p'.votingAt = p.votingAt) :
    SignOffs (proposals.insert proposal p') signatories :=
  h.write hp hcount hsigned fun hstage => hstage.past hpending hcount hsigned hvoting

/-- A write that leaves the stage as it is. -/
theorem SignOffs.write_same (h : SignOffs proposals signatories)
    (hp : proposals.lookup proposal = some p) (hstate : p'.state = p.state)
    (hcount : p'.signatoriesCount = p.signatoriesCount)
    (hsigned : p'.signatoriesSignedOffCount = p.signatoriesSignedOffCount)
    (hvoting : p'.votingAt = p.votingAt) :
    SignOffs (proposals.insert proposal p') signatories := by
  refine h.write hp hcount hsigned fun hstage => ?_
  constructor
  · rw [hstate, hsigned]
    exact hstage.draft
  · rw [hstate, hsigned]
    exact hstage.signingOff
  · rw [hstate, hvoting]
    exact hstage.votingAt_eq
  · rw [hcount, hsigned, hvoting]
    exact hstage.voting

/-- A signatory is added to a draft. -/
theorem SignOffs.add {signatory : Pubkey} {s : SignatoryRecordV2}
    (h : SignOffs proposals signatories) (hp : proposals.lookup proposal = some p)
    (hstate : p.state = .Draft) (hnew : signatories.lookup ⟨proposal, signatory⟩ = none)
    (hs : s.signedOff = false) :
    SignOffs (proposals.insert proposal { p with signatoriesCount := p.signatoriesCount + 1 })
      (signatories.insert ⟨proposal, signatory⟩ s) where
  counted := h.counted.openNew hnew trivial rfl hp rfl
  signed := (h.signed.open_zero hnew (by simp [hs])).write hp rfl
  stage := by
    have hstage := h.stage _ _ hp
    have hpending := hstage.votingAt_eq (by rw [hstate]; rfl)
    exact Store.forall_insert
      { draft := hstage.draft
        signingOff := hstage.signingOff
        votingAt_eq := hstage.votingAt_eq
        voting := fun hvoting => absurd hpending hvoting } fun k p _ => h.stage k p

/-- A signatory signs. -/
theorem SignOffs.sign {signatory : Pubkey} {s : SignatoryRecordV2} {signingOffAt : Option ℕ}
    (h : SignOffs proposals signatories) (hp : proposals.lookup proposal = some p)
    (hstate : p.state = .Draft ∨ p.state = .SigningOff)
    (hs : signatories.lookup ⟨proposal, signatory⟩ = some s) (hunsigned : s.signedOff = false) :
    SignOffs (proposals.insert proposal { p with
        signingOffAt
        state := if p.signatoriesSignedOffCount = 0 then .SigningOff else p.state
        signatoriesSignedOffCount := p.signatoriesSignedOffCount + 1 })
      (signatories.insert ⟨proposal, signatory⟩ { s with signedOff := true }) where
  counted := (h.counted.write_item hs rfl rfl).write hp rfl
  signed := h.signed.gain hs (by rw [hunsigned]; nofun) rfl rfl rfl hp rfl
  stage := by
    have hstage := h.stage _ _ hp
    have hpending := hstage.votingAt_eq (ProposalState.isPending_eq_true.mpr hstate)
    have hnotDraft :
        (if p.signatoriesSignedOffCount = 0 then .SigningOff else p.state) ≠ .Draft := by
      split
      · nofun
      · next hne => exact fun hdraft => hne (hstage.draft hdraft)
    exact Store.forall_insert
      { draft := fun hdraft => absurd hdraft hnotDraft
        signingOff := fun _ => Nat.succ_pos _
        votingAt_eq := fun _ => hpending
        voting := fun hvoting => absurd hpending hvoting } fun k p _ => h.stage k p

end

theorem Effect.signOffs {d d' : Dao} (hd : Linked d)
    (hs : SignOffs d.proposals d.signatoryRecords) (h : Effect d d') :
    SignOffs d'.proposals d'.signatoryRecords := by
  cases h with
  | frame h => rwa [h.proposals_eq, h.signatoryRecords_eq]
  | create hp =>
      exact {
        counted := hs.counted.open_account hp rfl hd.signatories
        signed := hs.signed.open_account hp rfl hd.signatories
        stage := Store.forall_insert
          { draft := fun _ => rfl
            signingOff := nofun
            votingAt_eq := fun _ => rfl
            voting := fun h => absurd rfl h } fun k p _ => hs.stage k p }
  | addSignatory hp hstate hgovernance hg hrequired hnew => exact hs.add hp hstate hnew rfl
  | signOff hp hstate hsignatory hunsigned => exact hs.sign hp hstate hsignatory hunsigned
  | beginSignOff hp => exact hs.write_same hp rfl rfl rfl rfl
  | startVoting hp hstate hgovernance hg hrequired hsigned =>
      exact hs.write hp rfl rfl fun _ => ⟨nofun, nofun, nofun, fun _ => hsigned⟩
  | insertTransaction hp => exact hs.write_same hp rfl rfl rfl rfl
  | removeTransaction hp => exact hs.write_same hp rfl rfl rfl rfl
  | cast hp hstate ht hnew hmint hweight hvalid hadds =>
      rw [hadds.rest_eq]
      exact hs.write_same hp rfl rfl rfl rfl
  | withdraw hp hstate ht hv hproposal howner hmint hlive hadds =>
      have heq := hadds.rest_eq
      exact hs.write_same hp (by rw [heq]) (by rw [heq]) (by rw [heq]) (by rw [heq])
  | relinquish => exact hs
  | close hp hcloses =>
      have hpending := (ProposalState.past_of_not_isActive hcloses.isActive.2).1
      rcases hcloses with ⟨-, rfl⟩ | ⟨-, _, -, hdecides⟩
      · exact hs.write_past hp hpending rfl rfl rfl
      · have heq := hdecides.rest_eq
        exact hs.write_past hp hpending (by rw [heq]) (by rw [heq]) (by rw [heq])
  | complete hp hstate => exact hs.write_past hp rfl rfl rfl rfl

theorem Execution.signOffs {governance : Pubkey} {k : ProposalTransactionSeeds} {d d' : Dao}
    (hs : SignOffs d.proposals d.signatoryRecords) (h : Execution governance k d d') :
    SignOffs d'.proposals d'.signatoryRecords := by
  cases h with
  | execute h hgovernance hafter =>
      obtain ⟨q, hq, hstate, hproceeds⟩ := h.proceeds hafter
      have hactive := hproceeds.isActive_eq hstate
      rw [ProposalState.not_isActive_of_isExecutable hstate] at hactive
      have hpending := (ProposalState.past_of_not_isActive hactive).1
      have heq := hproceeds.rest_eq
      exact hs.write_past hq hpending (by rw [heq]) (by rw [heq]) (by rw [heq])

theorem Fresh.signOffs {d : Dao} (h : Fresh d) : SignOffs d.proposals d.signatoryRecords := by
  rw [h.proposals_eq]
  exact ⟨Store.forall_empty, Store.forall_empty, Store.forall_empty⟩

end Dao

end IndexDtf.Governance
