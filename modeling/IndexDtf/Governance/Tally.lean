import IndexDtf.Governance.Links

/-!
# IndexDtf.Governance.Tally

**The weights of a proposal are the votes that were cast on it.** The program keeps running
totals: a vote adds to them, a vote that is withdrawn while the voting goes on is subtracted. The
vote records say what was cast, so at any time the totals can be counted again from them.

A vote that is relinquished after the decision is only marked. Its record stays, and so does its
weight in the result.
-/

namespace IndexDtf.Governance

open Lib

/-! ### What a vote counts for -/

/-- Where the weight of a vote goes: to an option, the rejection, or the veto. -/
inductive Ballot
  | option (i : ℕ)
  | deny
  | veto
  deriving DecidableEq, Repr

/-- The weight a proposal has recorded. -/
def ProposalV2.weightOf (p : ProposalV2) : Ballot → ℕ
  | .option i => (p.options[i]?).elim 0 (·.voteWeight)
  | .deny => p.denyVoteWeight.getD 0
  | .veto => p.vetoVoteWeight

/-- The weight a vote carries. -/
def VoteRecordV2.weightOn (v : VoteRecordV2) : Ballot → ℕ
  | .option i => v.vote.approvalOn v.voterWeight i
  | .deny => v.vote.denyOn v.voterWeight
  | .veto => v.vote.vetoOn v.voterWeight

/-- Whether a proposal records such a weight at all. -/
def ProposalV2.HasPlace (p : ProposalV2) : Ballot → Prop
  | .option i => i < p.options.length
  | .deny => p.denyVoteWeight.isSome = true
  | .veto => True

theorem SameProposal.hasPlace_iff {p p' : ProposalV2} (h : SameProposal p p') {b : Ballot} :
    p'.HasPlace b ↔ p.HasPlace b := by
  cases b with
  | option i => rw [ProposalV2.HasPlace, ProposalV2.HasPlace, h.length_eq]
  | deny => rw [ProposalV2.HasPlace, ProposalV2.HasPlace, h.isSome_deny_eq]
  | veto => rfl

namespace ProposalV2

theorem weightOf_eq_zero {p : ProposalV2} {b : Ballot} (h : ¬ p.HasPlace b) :
    p.weightOf b = 0 := by
  cases b with
  | option i => rw [weightOf, List.getElem?_eq_none (not_lt.mp h), Option.elim_none]
  | deny =>
      rw [HasPlace, Option.not_isSome_iff_eq_none] at h
      rw [weightOf, h, Option.getD_none]
  | veto => exact absurd trivial h

/-- A vote adds its weight, unless the proposal has no place for it. -/
theorem Adds.weightOf_eq {p p' : ProposalV2} {v : VoteRecordV2}
    (h : p.Adds v.vote v.voterWeight p') {b : Ballot}
    (hplace : ¬ p.HasPlace b → v.weightOn b = 0) :
    p'.weightOf b = p.weightOf b + v.weightOn b := by
  by_cases hb : p.HasPlace b
  · cases b with
    | option i =>
        rw [weightOf, h.options_eq, weightOf, List.getElem?_eq_getElem hb]
        rfl
    | deny =>
        obtain ⟨w, hw⟩ := Option.isSome_iff_exists.mp hb
        rw [weightOf, h.deny_eq, weightOf, hw]
        rfl
    | veto => exact h.veto_eq
  · have hb' : ¬ p'.HasPlace b := h.sameProposal.hasPlace_iff.not.mpr hb
    rw [weightOf_eq_zero hb, weightOf_eq_zero hb', hplace hb]

/-- A vote that was found valid has no weight the proposal has no place for. -/
theorem weightOn_eq_zero {p : ProposalV2} {v : VoteRecordV2}
    (h : p.assertValidVote v.vote = .ok ()) {b : Ballot} (hb : ¬ p.HasPlace b) :
    v.weightOn b = 0 := by
  cases b with
  | option i =>
      simp only [VoteRecordV2.weightOn, Vote.approvalOn]
      split
      · next choices hvote =>
          rw [hvote] at h
          simp only [assertValidVote, bind_eq_ok, require_eq_ok] at h
          obtain ⟨_, hlength, -⟩ := h
          have hnone : choices[i]? = none := List.getElem?_eq_none (hlength ▸ not_lt.mp hb)
          rw [hnone, Option.elim_none]
      · rfl
  | deny =>
      simp only [VoteRecordV2.weightOn, Vote.denyOn]
      split
      · next hvote =>
          rw [hvote] at h
          simp only [assertValidVote, require_eq_ok] at h
          exact absurd h hb
      · rfl
  | veto => exact absurd trivial hb

/-- A decision leaves the weights. -/
theorem Decides.weightOf_eq {p p' : ProposalV2} {completedAt : ℕ}
    (h : p.Decides completedAt p') (b : Ballot) : p'.weightOf b = p.weightOf b := by
  cases b with
  | option i =>
      obtain ⟨r, hr⟩ := h.options_eq i
      rw [weightOf, hr, weightOf]
      cases p.options[i]? <;> rfl
  | deny =>
      rw [weightOf, h.rest_eq]
      rfl
  | veto =>
      rw [weightOf, h.rest_eq]
      rfl

theorem weightOf_setOption {p : ProposalV2} {i : ℕ} {option : ProposalOption}
    (hoption : p.options[i]? = some option) (option' : ProposalOption)
    (h : option'.voteWeight = option.voteWeight) (b : Ballot) :
    (Dao.setOption p i option').weightOf b = p.weightOf b := by
  cases b with
  | option j =>
      simp only [weightOf, Dao.setOption, List.getElem?_set]
      split
      · next heq =>
          subst heq
          rw [if_pos (List.getElem?_eq_some_iff.mp hoption).1, hoption]
          exact h
      · rfl
  | deny => rfl
  | veto => rfl

/-- An execution leaves the weights. -/
theorem Proceeds.weightOf_eq {now : ℕ} {p p' : ProposalV2} (h : p.Proceeds now p') (b : Ballot) :
    p'.weightOf b = p.weightOf b := by
  cases b with
  | option i => exact option_elim_eq h.options_eq (fun _ => rfl) i
  | deny =>
      rw [weightOf, h.rest_eq]
      rfl
  | veto =>
      rw [weightOf, h.rest_eq]
      rfl

end ProposalV2

namespace Dao

theorem Closes.weightOf_eq {d : Dao} {p p' : ProposalV2} (h : d.Closes p p') (b : Ballot) :
    p'.weightOf b = p.weightOf b := by
  rcases h with ⟨-, rfl⟩ | ⟨-, _, -, hdecides⟩
  · cases b <;> rfl
  · exact hdecides.weightOf_eq b

/-! ### The invariants -/

/-- Every weight of a proposal is the sum over the votes that were cast on it. -/
def Tallied (proposals : Store Pubkey ProposalV2) (votes : Store VoteRecordSeeds VoteRecordV2) :
    Prop :=
  ∀ b, Store.Sums (fun p : ProposalV2 => p.weightOf b) (fun (k : VoteRecordSeeds) _ => k.proposal)
    (fun _ v => v.weightOn b) proposals votes

/-- A proposal that was voted on has left the draft, and while the voting goes on none of its
votes is relinquished. -/
def VotesLive (proposals : Store Pubkey ProposalV2)
    (votes : Store VoteRecordSeeds VoteRecordV2) : Prop :=
  ∀ k v, votes.lookup k = some v → ∀ p, proposals.lookup k.proposal = some p →
    p.state.isPending = false ∧ (p.state = .Voting → v.isRelinquished = false)

theorem Tallied.write {proposals : Store Pubkey ProposalV2}
    {votes : Store VoteRecordSeeds VoteRecordV2} {proposal : Pubkey} {p p' : ProposalV2}
    (h : Tallied proposals votes) (hp : proposals.lookup proposal = some p)
    (hweight : ∀ b, p'.weightOf b = p.weightOf b) :
    Tallied (proposals.insert proposal p') votes :=
  fun b => (h b).write hp (hweight b)

theorem Effect.tallied {d d' : Dao} (hd : Linked d) (ht : Tallied d.proposals d.voteRecords)
    (h : Effect d d') : Tallied d'.proposals d'.voteRecords := by
  cases h with
  | frame h => rwa [h.proposals_eq, h.voteRecords_eq]
  | @create proposal governance owner mint voteType options useDenyOption t g deposits hp =>
      intro b
      refine (ht b).open_account hp ?_ fun k v hv => ?_
      · cases b with
        | option i =>
            simp only [ProposalV2.weightOf, draftOf, List.getElem?_map]
            cases options[i]? <;> rfl
        | deny => cases useDenyOption <;> rfl
        | veto => rfl
      · obtain ⟨p, hp, -⟩ := (hd.votes k v hv).votesOn
        exact Store.mem_of_lookup hp
  | addSignatory hp => exact ht.write hp fun b => by cases b <;> rfl
  | signOff hp => exact ht.write hp fun b => by cases b <;> rfl
  | beginSignOff hp => exact ht.write hp fun b => by cases b <;> rfl
  | startVoting hp => exact ht.write hp fun b => by cases b <;> rfl
  | insertTransaction hp hstate hdeny hoption =>
      exact ht.write hp (ProposalV2.weightOf_setOption hoption _ rfl)
  | removeTransaction hp hstate htransaction hproposal hoption =>
      exact ht.write hp (ProposalV2.weightOf_setOption hoption _ rfl)
  | cast hp hstate hrecord hnew hmint hweight hvalid hadds =>
      intro b
      exact (ht b).openNew hnew rfl hp
        (hadds.weightOf_eq fun hb => ProposalV2.weightOn_eq_zero hvalid hb)
  | withdraw hp hstate hrecord hv hproposal howner hmint hlive hadds =>
      intro b
      obtain rfl := (hd.votes _ _ hv).proposal_eq.symm.trans hproposal
      refine (ht b).erase hv rfl hp (hadds.weightOf_eq fun hb => ?_).symm
      -- the proposal has recorded at least this weight, and has no place for any
      have hle := (ht b).le_of_lookup hv rfl hp
      rw [ProposalV2.weightOf_eq_zero (hadds.sameProposal.hasPlace_iff.not.mpr hb)] at hle
      exact Nat.le_zero.mp hle
  | relinquish hp hstate hrecord hv =>
      intro b
      refine (ht b).write_item hv rfl ?_
      cases b <;> rfl
  | close hp hcloses => exact ht.write hp hcloses.weightOf_eq
  | complete hp => exact ht.write hp fun b => by cases b <;> rfl

theorem Execution.tallied {governance : Pubkey} {k : ProposalTransactionSeeds} {d d' : Dao}
    (ht : Tallied d.proposals d.voteRecords) (h : Execution governance k d d') :
    Tallied d'.proposals d'.voteRecords := by
  cases h with
  | execute h hgovernance hafter =>
      obtain ⟨q, hq, -, hproceeds⟩ := h.proceeds hafter
      exact ht.write hq hproceeds.weightOf_eq

theorem Fresh.tallied {d : Dao} (h : Fresh d) : Tallied d.proposals d.voteRecords := by
  rw [h.proposals_eq]
  exact fun b => Store.forall_empty

/-! ### Live votes -/

theorem VotesLive.write {proposals : Store Pubkey ProposalV2}
    {votes : Store VoteRecordSeeds VoteRecordV2} {proposal : Pubkey} {p p' : ProposalV2}
    (h : VotesLive proposals votes) (hp : proposals.lookup proposal = some p)
    (hleft : p.state.isPending = false →
      p'.state.isPending = false ∧ (p'.state = .Voting → p.state = .Voting)) :
    VotesLive (proposals.insert proposal p') votes := by
  intro k v hv
  refine fun q hq => ?_
  rw [Store.lookup_insert_eq] at hq
  split at hq
  · next heq =>
      cases hq
      obtain ⟨hpending, hlive⟩ := h k v hv p (heq ▸ hp)
      obtain ⟨hpending', hvoting⟩ := hleft hpending
      exact ⟨hpending', fun hstate => hlive (hvoting hstate)⟩
  · exact h k v hv q hq

/-- A proposal before the vote has no votes, and may become anything. -/
theorem VotesLive.write_pending {proposals : Store Pubkey ProposalV2}
    {votes : Store VoteRecordSeeds VoteRecordV2} {proposal : Pubkey} {p p' : ProposalV2}
    (h : VotesLive proposals votes) (hp : proposals.lookup proposal = some p)
    (hstate : p.state = .Draft ∨ p.state = .SigningOff) :
    VotesLive (proposals.insert proposal p') votes := by
  refine h.write hp fun hpending => ?_
  rw [ProposalState.isPending_eq_true.mpr hstate] at hpending
  cases hpending

theorem Effect.votesLive {d d' : Dao} (hd : Linked d) (hl : VotesLive d.proposals d.voteRecords)
    (h : Effect d d') : VotesLive d'.proposals d'.voteRecords := by
  cases h with
  | frame h => rwa [h.proposals_eq, h.voteRecords_eq]
  | create hp =>
      intro k v hv q hq
      rw [Store.lookup_insert_eq] at hq
      split at hq
      · next heq =>
          obtain ⟨p, hp', -⟩ := (hd.votes k v hv).votesOn
          rw [heq, hp] at hp'
          cases hp'
      · exact hl k v hv q hq
  | addSignatory hp hstate => exact hl.write_pending hp (.inl hstate)
  | signOff hp hstate => exact hl.write_pending hp hstate
  | beginSignOff hp hstate => exact hl.write_pending hp hstate
  | startVoting hp hstate => exact hl.write_pending hp hstate
  | insertTransaction hp hstate => exact hl.write_pending hp (.inl hstate)
  | removeTransaction hp hstate => exact hl.write_pending hp (.inl hstate)
  | @cast proposal voter p p' t vote voterWeight voterWeightRecord hp hstate hrecord hnew hmint
      hweight hvalid hadds =>
      have hstate' := hadds.state_eq.trans hstate
      refine Store.forall_insert ?_ fun k v _ => hl.write hp (fun hpending => ?_) k v
      · intro q hq
        rw [AList.lookup_insert] at hq
        cases hq
        exact ⟨by rw [hstate']; rfl, fun _ => rfl⟩
      · rw [hadds.state_eq]
        exact ⟨hpending, id⟩
  | withdraw hp hstate hrecord hv hproposal howner hmint hlive hadds =>
      refine Store.forall_erase fun k v _ => hl.write hp (fun hpending => ?_) k v
      rw [hadds.state_eq] at hpending ⊢
      exact ⟨hpending, id⟩
  | relinquish hp hstate hrecord hv hproposal =>
      refine Store.forall_insert (fun q hq => ?_) fun k v _ => hl k v
      rw [← (hd.votes _ _ hv).proposal_eq, hproposal, hp] at hq
      cases hq
      exact ⟨(hl _ _ hv _ ((hd.votes _ _ hv).proposal_eq ▸ hproposal ▸ hp)).1,
        fun hvoting => absurd hvoting hstate⟩
  | close hp hcloses =>
      obtain ⟨hpending, hvoting⟩ := ProposalState.past_of_not_isActive hcloses.isActive.2
      exact hl.write hp fun _ => ⟨hpending, fun h => absurd h hvoting⟩
  | complete hp hstate => exact hl.write hp fun _ => ⟨rfl, nofun⟩

theorem Execution.votesLive {governance : Pubkey} {k : ProposalTransactionSeeds} {d d' : Dao}
    (hl : VotesLive d.proposals d.voteRecords) (h : Execution governance k d d') :
    VotesLive d'.proposals d'.voteRecords := by
  cases h with
  | execute h hgovernance hafter =>
      obtain ⟨q, hq, hstate, hproceeds⟩ := h.proceeds hafter
      have hactive := hproceeds.isActive_eq hstate
      rw [ProposalState.not_isActive_of_isExecutable hstate] at hactive
      obtain ⟨hpending, hvoting⟩ := ProposalState.past_of_not_isActive hactive
      exact hl.write hq fun _ => ⟨hpending, fun h => absurd h hvoting⟩

theorem Fresh.votesLive {d : Dao} (h : Fresh d) : VotesLive d.proposals d.voteRecords := by
  rw [h.voteRecords_eq]
  exact Store.forall_empty

end Dao

end IndexDtf.Governance
