import IndexDtf.Governance.Resolution

/-!
# IndexDtf.Governance.ProposalSpec

What the functions on a proposal do, one lemma for each: a vote is added to the weights or taken
off again (`Adds`), and a decision sets the state and the results and leaves the weights alone
(`Decides`).
-/

namespace IndexDtf.Governance

open Lib

/-- The states in which a proposal counts as active. -/
def ProposalState.isActive : ProposalState → Bool
  | .Draft | .SigningOff | .Voting => true
  | _ => false

/-- The states before the vote. -/
def ProposalState.isPending : ProposalState → Bool
  | .Draft | .SigningOff => true
  | _ => false

/-- The states a vote ends in. -/
def ProposalState.isDecided : ProposalState → Bool
  | .Succeeded | .Defeated | .Vetoed | .Completed => true
  | _ => false

/-- The states in which transactions are executed. -/
def ProposalState.isExecutable : ProposalState → Bool
  | .Succeeded | .Executing | .ExecutingWithErrors => true
  | _ => false

theorem ProposalState.not_isActive_of_isDecided {s : ProposalState} (h : s.isDecided = true) :
    s.isActive = false := by
  cases s <;> first | rfl | cases h

theorem ProposalState.not_isActive_of_isExecutable {s : ProposalState}
    (h : s.isExecutable = true) : s.isActive = false := by
  cases s <;> first | rfl | cases h

theorem ProposalState.isPending_eq_true {s : ProposalState} :
    s.isPending = true ↔ s = .Draft ∨ s = .SigningOff := by
  cases s <;> simp [isPending]

/-- A proposal that is not active is past the vote. -/
theorem ProposalState.past_of_not_isActive {s : ProposalState} (h : s.isActive = false) :
    s.isPending = false ∧ s ≠ .Voting := by
  cases s <;> simp_all [isActive, isPending]

/-! ### The weight of a vote -/

/-- The weight a choice carries, when its percentage is valid. -/
def VoteChoice.choiceWeight (choice : VoteChoice) (voterWeight : ℕ) : ℕ :=
  if choice.weightPercentage = 100 then voterWeight
  else voterWeight * choice.weightPercentage / 100

theorem VoteChoice.getChoiceWeight_ok {choice : VoteChoice} {voterWeight weight : ℕ}
    (h : choice.getChoiceWeight voterWeight = .ok weight) :
    choice.weightPercentage ≤ 100 ∧ weight = choice.choiceWeight voterWeight := by
  unfold getChoiceWeight at h
  unfold choiceWeight
  split at h
  · next h100 =>
      cases h
      exact ⟨le_of_eq h100, (if_pos h100).symm⟩
  · next h100 =>
      split at h
      · next h99 =>
          cases h
          exact ⟨by omega, (if_neg h100).symm⟩
      · cases h

/-- No choice carries more than the voter's weight. -/
theorem VoteChoice.choiceWeight_le {choice : VoteChoice} (h : choice.weightPercentage ≤ 100)
    (voterWeight : ℕ) : choice.choiceWeight voterWeight ≤ voterWeight := by
  unfold choiceWeight
  split
  · exact le_rfl
  · have := Nat.mul_le_mul_left voterWeight h
    omega

namespace Vote

/-- What a vote adds to the weight of an option. -/
def approvalOn (vote : Vote) (voterWeight i : ℕ) : ℕ :=
  match vote with
  | .Approve choices => (choices[i]?).elim 0 fun choice => choice.choiceWeight voterWeight
  | _ => 0

/-- What it adds to the weight of the rejection. -/
def denyOn (vote : Vote) (voterWeight : ℕ) : ℕ :=
  match vote with
  | .Deny => voterWeight
  | _ => 0

/-- What it adds to the weight of the veto. -/
def vetoOn (vote : Vote) (voterWeight : ℕ) : ℕ :=
  match vote with
  | .Veto => voterWeight
  | _ => 0

end Vote

/-- An option with more weight. -/
def ProposalOption.addWeight (o : ProposalOption) (weight : ℕ) : ProposalOption :=
  { o with voteWeight := o.voteWeight + weight }

@[simp] theorem ProposalOption.addWeight_zero (o : ProposalOption) : o.addWeight 0 = o := rfl

namespace ProposalV2

/-- `p'` is `p` with a vote added to its weights. -/
structure Adds (vote : Vote) (voterWeight : ℕ) (p p' : ProposalV2) : Prop where
  options_eq : ∀ i : ℕ, p'.options[i]? =
    (p.options[i]?).map (·.addWeight (vote.approvalOn voterWeight i))
  deny_eq : p'.denyVoteWeight = p.denyVoteWeight.map (· + vote.denyOn voterWeight)
  veto_eq : p'.vetoVoteWeight = p.vetoVoteWeight + vote.vetoOn voterWeight
  rest_eq : p' = { p with
    options := p'.options
    denyVoteWeight := p'.denyVoteWeight
    vetoVoteWeight := p'.vetoVoteWeight }

theorem Adds.state_eq {vote : Vote} {voterWeight : ℕ} {p p' : ProposalV2}
    (h : Adds vote voterWeight p p') : p'.state = p.state := by
  rw [h.rest_eq]

/-- The loop over the choices, when it adds. -/
theorem approve_add {voterWeight : ℕ} {options options' : List ProposalOption}
    {choices : List VoteChoice} (h : approve (unwrapAdd u64Max) voterWeight options choices =
      .ok options') (i : ℕ) :
    options'[i]? =
      (options[i]?).map (·.addWeight ((Vote.Approve choices).approvalOn voterWeight i)) := by
  induction options generalizing choices options' i with
  | nil =>
      cases h
      simp
  | cons o rest ih =>
      cases choices with
      | nil =>
          cases h
          simp [Vote.approvalOn]
      | cons c cs =>
          simp only [approve, bind_eq_ok, unwrapAdd_eq_ok, Except.ok.injEq] at h
          obtain ⟨weight, hweight, voteWeight, ⟨-, rfl⟩, rest', hrest, rfl⟩ := h
          obtain ⟨-, rfl⟩ := VoteChoice.getChoiceWeight_ok hweight
          cases i with
          | zero => simp [Vote.approvalOn, ProposalOption.addWeight]
          | succ i =>
              rw [List.getElem?_cons_succ, List.getElem?_cons_succ, ih hrest]
              simp [Vote.approvalOn]

/-- The loop over the choices, when it subtracts. -/
theorem approve_sub {voterWeight : ℕ} {options options' : List ProposalOption}
    {choices : List VoteChoice}
    (h : approve unwrapSub voterWeight options choices = .ok options') (i : ℕ) :
    options[i]? =
      (options'[i]?).map (·.addWeight ((Vote.Approve choices).approvalOn voterWeight i)) := by
  induction options generalizing choices options' i with
  | nil =>
      cases h
      simp
  | cons o rest ih =>
      cases choices with
      | nil =>
          cases h
          simp [Vote.approvalOn]
      | cons c cs =>
          simp only [approve, bind_eq_ok, unwrapSub_eq_ok, Except.ok.injEq] at h
          obtain ⟨weight, hweight, voteWeight, ⟨hle, rfl⟩, rest', hrest, rfl⟩ := h
          obtain ⟨-, rfl⟩ := VoteChoice.getChoiceWeight_ok hweight
          cases i with
          | zero => simp [Vote.approvalOn, ProposalOption.addWeight, Nat.sub_add_cancel hle]
          | succ i =>
              rw [List.getElem?_cons_succ, List.getElem?_cons_succ, ih hrest]
              simp [Vote.approvalOn]

/-- Casting a vote adds it. -/
theorem weigh_add {p p' : ProposalV2} {voterWeight : ℕ} {vote : Vote}
    (h : p.weigh (unwrapAdd u64Max) voterWeight vote = .ok p') : Adds vote voterWeight p p' := by
  cases vote with
  | Approve choices =>
      simp only [weigh, bind_eq_ok, Except.ok.injEq] at h
      obtain ⟨options, hoptions, rfl⟩ := h
      exact ⟨approve_add hoptions, by simp [Vote.denyOn], by simp [Vote.vetoOn], rfl⟩
  | Deny =>
      simp only [weigh, bind_eq_ok, okOr_eq_ok, unwrapAdd_eq_ok, Except.ok.injEq] at h
      obtain ⟨deny, hdeny, _, ⟨-, rfl⟩, rfl⟩ := h
      exact ⟨by simp [Vote.approvalOn], by simp [Vote.denyOn, hdeny], by simp [Vote.vetoOn], rfl⟩
  | Veto =>
      simp only [weigh, bind_eq_ok, unwrapAdd_eq_ok, Except.ok.injEq] at h
      obtain ⟨_, ⟨-, rfl⟩, rfl⟩ := h
      exact ⟨by simp [Vote.approvalOn], by simp [Vote.denyOn], by simp [Vote.vetoOn], rfl⟩
  | Abstain => cases h

/-- Relinquishing it takes the same weights off again. -/
theorem weigh_sub {p p' : ProposalV2} {voterWeight : ℕ} {vote : Vote}
    (h : p.weigh unwrapSub voterWeight vote = .ok p') : Adds vote voterWeight p' p := by
  cases vote with
  | Approve choices =>
      simp only [weigh, bind_eq_ok, Except.ok.injEq] at h
      obtain ⟨options, hoptions, rfl⟩ := h
      exact ⟨approve_sub hoptions, by simp [Vote.denyOn], by simp [Vote.vetoOn], rfl⟩
  | Deny =>
      simp only [weigh, bind_eq_ok, okOr_eq_ok, unwrapSub_eq_ok, Except.ok.injEq] at h
      obtain ⟨deny, hdeny, _, ⟨hle, rfl⟩, rfl⟩ := h
      exact ⟨by simp [Vote.approvalOn], by simp [Vote.denyOn, hdeny, Nat.sub_add_cancel hle],
        by simp [Vote.vetoOn], rfl⟩
  | Veto =>
      simp only [weigh, bind_eq_ok, unwrapSub_eq_ok, Except.ok.injEq] at h
      obtain ⟨_, ⟨hle, rfl⟩, rfl⟩ := h
      exact ⟨by simp [Vote.approvalOn], by simp [Vote.denyOn],
        by simp [Vote.vetoOn, Nat.sub_add_cancel hle], rfl⟩
  | Abstain => cases h

/-! ### Decisions -/

/-- What the results of the options and the state say about each other. -/
structure Verdict (p : ProposalV2) (options : List ProposalOption) (state : ProposalState) :
    Prop where
  completed : state = .Completed → p.denyVoteWeight = none
  succeeded : state = .Succeeded →
    p.denyVoteWeight ≠ none ∧ ∃ o ∈ options, o.voteResult = .Succeeded
  single : state = .Succeeded → p.voteType = .SingleChoice →
    ∀ (i j : ℕ) (o o' : ProposalOption), options[i]? = some o → options[j]? = some o' →
      o.voteResult = .Succeeded → o'.voteResult = .Succeeded → i = j

/-- An option that reaches a threshold, and beats the rejection or has the majority. -/
def Carries (maxVoteWeight minWeight denyVoteWeight : ℕ) (o : ProposalOption) : Prop :=
  minWeight ≤ o.voteWeight ∧
    (denyVoteWeight < o.voteWeight ∨ maxVoteWeight - o.voteWeight < o.voteWeight)

/-- The options that succeeded carry the vote, with the parameters that were recorded. -/
def Carried (p : ProposalV2) : Prop :=
  ∃ maxVoteWeight voteThreshold minWeight, p.maxVoteWeight = some maxVoteWeight ∧
    p.voteThreshold = some voteThreshold ∧
    getMinVoteThresholdWeight voteThreshold maxVoteWeight = .ok minWeight ∧
    ∀ o ∈ p.options, o.voteResult = .Succeeded →
      Carries maxVoteWeight minWeight (p.denyVoteWeight.getD 0) o

/-- `p'` is `p` with the vote decided, as of `completedAt`. -/
structure Decides (completedAt : ℕ) (p p' : ProposalV2) : Prop where
  verdict : p.Verdict p'.options p'.state
  carried : p'.state = .Succeeded → p'.Carried
  options_eq : ∀ i : ℕ, ∃ r, p'.options[i]? = (p.options[i]?).map (·.withResult r)
  isDecided : p'.state.isDecided = true
  completedAt_eq : p'.votingCompletedAt = some completedAt
  rest_eq : p' = { p with
    options := p'.options
    state := p'.state
    votingCompletedAt := p'.votingCompletedAt
    maxVoteWeight := p'.maxVoteWeight
    voteThreshold := p'.voteThreshold }

theorem getElem?_map_withResult (options : List ProposalOption)
    (f : ProposalOption → OptionVoteResult) (i : ℕ) :
    ∃ r, (options.map fun o => o.withResult (f o))[i]? = (options[i]?).map (·.withResult r) := by
  rw [List.getElem?_map]
  cases options[i]? with
  | none => exact ⟨.None, rfl⟩
  | some o => exact ⟨f o, rfl⟩

theorem resolveState_getElem? {voteType : VoteType} {best : Best} {f : ProposalOption →
    OptionVoteResult} {options : List ProposalOption} (i : ℕ) :
    ∃ r, (resolveState voteType (options.map fun o => o.withResult (f o)) best).1[i]? =
      (options[i]?).map (·.withResult r) := by
  have hcoerce : ∀ weight, coerceOptions weight (options.map fun o => o.withResult (f o)) =
      options.map fun o =>
        o.withResult (if o.voteWeight = weight then .Succeeded else .Defeated) := by
    intro weight
    rw [coerceOptions, List.map_map]
    rfl
  unfold resolveState
  split
  · exact getElem?_map_withResult ..
  · split
    · split
      · rw [hcoerce]
        exact getElem?_map_withResult ..
      · rw [hcoerce]
        exact getElem?_map_withResult ..
    · exact getElem?_map_withResult ..

theorem stateUnless_eq_completed {denyVoteWeight : Option ℕ} {state : ProposalState}
    (h : stateUnless denyVoteWeight state = .Completed) (hne : state ≠ .Completed) :
    denyVoteWeight = none := by
  unfold stateUnless at h
  split at h
  · assumption
  · exact absurd h hne

theorem stateUnless_eq_succeeded {denyVoteWeight : Option ℕ} {state : ProposalState}
    (h : stateUnless denyVoteWeight state = .Succeeded) :
    denyVoteWeight ≠ none ∧ state = .Succeeded := by
  unfold stateUnless at h
  split at h
  · cases h
  · exact ⟨‹_›, h⟩

theorem resolveFinalVoteState_verdict {p p' : ProposalV2} {maxVoteWeight : ℕ}
    {voteThreshold : VoteThreshold} {state : ProposalState}
    (h : p.resolveFinalVoteState maxVoteWeight voteThreshold = .ok (p', state)) :
    p.Verdict p'.options state := by
  obtain ⟨minWeight, -, hmin, -⟩ := resolveFinalVoteState_cases h
  cases hkind : p.voteType with
  | SingleChoice =>
      by_cases hwins : ∃ i, Wins minWeight (p.denyVoteWeight.getD 0) p.options i
      · obtain ⟨i, hwins⟩ := hwins
        obtain ⟨hoptions, rfl⟩ := resolveFinalVoteState_winner hkind hmin hwins h
        have honly : ∀ (j : ℕ) (o : ProposalOption), p'.options[j]? = some o →
            o.voteResult = .Succeeded → j = i := by
          intro j o hj hresult
          rw [hoptions, Option.map_eq_some_iff] at hj
          obtain ⟨o', -, rfl⟩ := hj
          by_contra hne
          rw [if_neg hne] at hresult
          cases hresult
        refine ⟨fun hstate => stateUnless_eq_completed hstate nofun, fun hstate =>
          ⟨(stateUnless_eq_succeeded hstate).1, ?_⟩, fun _ _ j k o o' hj hk ho ho' =>
          (honly j o hj ho).trans (honly k o' hk ho').symm⟩
        obtain ⟨o, hi, -⟩ := hwins
        refine ⟨o.withResult .Succeeded, List.mem_of_getElem? (i := i) ?_, rfl⟩
        rw [hoptions, hi, if_pos rfl]
        rfl
      · obtain ⟨-, rfl⟩ := resolveFinalVoteState_no_winner hkind hmin hwins h
        have hfails : stateUnless p.denyVoteWeight .Defeated ≠ .Succeeded :=
          fun hstate => nomatch (stateUnless_eq_succeeded hstate).2
        exact ⟨fun hstate => stateUnless_eq_completed hstate nofun,
          fun hstate => absurd hstate hfails, fun hstate => absurd hstate hfails⟩
  | MultiChoice =>
      obtain ⟨hoptions, rfl⟩ := resolveFinalVoteState_multi (by rw [hkind]; nofun) hmin h
      refine ⟨fun hstate => stateUnless_eq_completed hstate (by split <;> nofun), fun hstate => ?_,
        fun _ hsingle => by rw [hkind] at hsingle; cases hsingle⟩
      obtain ⟨hdeny, hstate⟩ := stateUnless_eq_succeeded hstate
      refine ⟨hdeny, ?_⟩
      split at hstate
      · next hpass =>
          obtain ⟨o, ho, hpass⟩ := hpass
          rw [hoptions]
          refine ⟨_, List.mem_map.mpr ⟨o, ho, rfl⟩, ?_⟩
          rw [ProposalOption.withResult, resultOf, if_pos hpass]
      · cases hstate

/-- The options that succeed have passed. -/
theorem resolveFinalVoteState_passes {p p' : ProposalV2} {maxVoteWeight : ℕ}
    {voteThreshold : VoteThreshold}
    (h : p.resolveFinalVoteState maxVoteWeight voteThreshold = .ok (p', .Succeeded)) :
    ∃ minWeight, getMinVoteThresholdWeight voteThreshold maxVoteWeight = .ok minWeight ∧
      ∀ o ∈ p'.options, o.voteResult = .Succeeded →
        passes minWeight (p.denyVoteWeight.getD 0) o = true := by
  obtain ⟨minWeight, -, hmin, -⟩ := resolveFinalVoteState_cases h
  refine ⟨minWeight, hmin, fun o ho hresult => ?_⟩
  cases hkind : p.voteType with
  | SingleChoice =>
      by_cases hwins : ∃ i, Wins minWeight (p.denyVoteWeight.getD 0) p.options i
      · obtain ⟨i, hwins⟩ := hwins
        obtain ⟨hoptions, -⟩ := resolveFinalVoteState_winner hkind hmin hwins h
        obtain ⟨j, hj⟩ := List.getElem?_of_mem ho
        rw [hoptions, Option.map_eq_some_iff] at hj
        obtain ⟨o', ho', rfl⟩ := hj
        by_cases hji : j = i
        · obtain ⟨w, hw, hpass, -⟩ := hwins
          rw [hji, hw] at ho'
          cases ho'
          exact hpass
        · rw [if_neg hji] at hresult
          cases hresult
      · obtain ⟨-, hstate⟩ := resolveFinalVoteState_no_winner hkind hmin hwins h
        cases (stateUnless_eq_succeeded hstate.symm).2
  | MultiChoice =>
      obtain ⟨hoptions, -⟩ := resolveFinalVoteState_multi (by rw [hkind]; nofun) hmin h
      rw [hoptions] at ho
      obtain ⟨o', -, rfl⟩ := List.mem_map.mp ho
      by_contra hpass
      have hfails : ¬ passes minWeight (p.denyVoteWeight.getD 0) o' = true := hpass
      rw [ProposalOption.withResult, resultOf, if_neg hfails] at hresult
      cases hresult

/-- Resolving the final state sets results and finds a state in which the vote is over. -/
theorem resolveFinalVoteState_ok {p p' : ProposalV2} {maxVoteWeight : ℕ}
    {voteThreshold : VoteThreshold} {state : ProposalState}
    (h : p.resolveFinalVoteState maxVoteWeight voteThreshold = .ok (p', state)) :
    (∀ i : ℕ, ∃ r, p'.options[i]? = (p.options[i]?).map (·.withResult r)) ∧
      state.isDecided = true ∧ p' = { p with options := p'.options } := by
  obtain ⟨minWeight, best, -, -, rfl, rfl⟩ := resolveFinalVoteState_cases h
  refine ⟨fun i => resolveState_getElem? i, ?_, rfl⟩
  dsimp only [resolveState, stateUnless]
  repeat' split
  all_goals rfl

/-- `finalize_vote`, once the voting time is over. -/
theorem finalizeVote_ok {p p' : ProposalV2} {maxVoterWeight now : ℕ} {config : GovernanceConfig}
    {voteThreshold : VoteThreshold}
    (h : p.finalizeVote maxVoterWeight config now voteThreshold = .ok p') :
    p.state = .Voting ∧ ∃ completedAt, p.votingMaxTimeEnd config = .ok completedAt ∧
      completedAt < now ∧ Decides completedAt p p' := by
  simp only [finalizeVote, bind_eq_ok, assertCanFinalizeVote, hasVotingMaxTimeEnded,
    require_eq_ok, Except.ok.injEq] at h
  obtain ⟨_, ⟨_, hvoting, _, ⟨completedAt, hend, rfl⟩, hended⟩, ⟨decided, state⟩, hresolve,
    completedAt', hend', rfl⟩ := h
  obtain ⟨hoptions, hstate, heq⟩ := resolveFinalVoteState_ok hresolve
  have hsame : decided.votingMaxTimeEnd config = p.votingMaxTimeEnd config := by
    rw [heq]
    rfl
  rw [hsame, hend] at hend'
  cases hend'
  have hverdict := resolveFinalVoteState_verdict hresolve
  refine ⟨hvoting, completedAt, hend, of_decide_eq_true hended, hverdict, fun hsucceeded => ?_,
    hoptions, hstate, rfl, ?_⟩
  · obtain rfl : state = .Succeeded := hsucceeded
    obtain ⟨minWeight, hmin, hpasses⟩ := resolveFinalVoteState_passes hresolve
    refine ⟨maxVoterWeight, voteThreshold, minWeight, rfl, rfl, hmin, fun o ho hresult => ?_⟩
    have hpass := of_decide_eq_true (hpasses o ho hresult)
    have hdeny : decided.denyVoteWeight = p.denyVoteWeight := by rw [heq]
    rw [hdeny]
    exact ⟨hpass.1, .inl hpass.2⟩
  · rw [heq]

theorem tryGetTippedElectorateVoteState_some {p p' : ProposalV2}
    {maxVoterWeight minWeight : ℕ} {voteTipping : VoteTipping} {state : ProposalState}
    (h : p.tryGetTippedElectorateVoteState maxVoterWeight voteTipping minWeight =
      some (p', state)) :
    ∃ yes deny r, p.voteType = .SingleChoice ∧ p.denyVoteWeight = some deny ∧
      p.options = [yes] ∧
      tippedResult yes.voteWeight deny maxVoterWeight voteTipping minWeight = some r ∧
      p' = { p with options := [yes.withResult r] } ∧ state = stateOfResult r := by
  unfold tryGetTippedElectorateVoteState at h
  split at h
  · next deny yes htype hdeny hoptions =>
      rw [Option.map_eq_some_iff] at h
      obtain ⟨r, hr, heq⟩ := h
      simp only [Prod.mk.injEq] at heq
      exact ⟨yes, deny, r, htype, hdeny, hoptions, hr, heq.1.symm, heq.2.symm⟩
  · cases h

/-- A vote that is tipped to success carries the vote. -/
theorem tippedResult_succeeded {yes deny maxVoterWeight minWeight : ℕ} {voteTipping : VoteTipping}
    (h : tippedResult yes deny maxVoterWeight voteTipping minWeight = some .Succeeded) :
    minWeight ≤ yes ∧ (deny < yes ∨ maxVoterWeight - yes < yes) := by
  cases voteTipping with
  | Strict =>
      simp only [tippedResult] at h
      split at h
      · next hsucceeded =>
          have := of_decide_eq_true hsucceeded
          exact ⟨this.1, .inr this.2⟩
      · split at h <;> cases h
  | Early =>
      simp only [tippedResult] at h
      split at h
      · next hsucceeded =>
          have := of_decide_eq_true hsucceeded
          exact ⟨this.1, .inl this.2⟩
      · split at h <;> cases h
  | Disabled => simp [tippedResult] at h

/-- `try_tip_vote` decides the vote, or leaves the proposal as it is. -/
theorem tryTipVote_ok {p p' : ProposalV2} {maxVoterWeight now : ℕ} {voteTipping : VoteTipping}
    {voteThreshold : VoteThreshold} {voteKind : VoteKind} {tipped : Bool}
    (h : p.tryTipVote maxVoterWeight voteTipping now voteThreshold voteKind = .ok (p', tipped)) :
    (tipped = true ∧ Decides now p p') ∨ (tipped = false ∧ p' = p) := by
  simp only [tryTipVote, bind_eq_ok] at h
  obtain ⟨tippedState, htipped, h⟩ := h
  cases tippedState with
  | none =>
      simp only [Except.ok.injEq, Prod.mk.injEq] at h
      exact .inr ⟨h.2.symm, h.1.symm⟩
  | some result =>
      obtain ⟨q, state⟩ := result
      simp only [Except.ok.injEq, Prod.mk.injEq] at h
      obtain ⟨rfl, rfl⟩ := h
      refine .inl ⟨rfl, ?_⟩
      simp only [tryGetTippedVoteState, bind_eq_ok] at htipped
      obtain ⟨minWeight, hmin, htipped⟩ := htipped
      rw [unwrap_eq_ok] at hmin
      cases voteKind with
      | Electorate =>
          simp only [Except.ok.injEq] at htipped
          obtain ⟨yes, deny, r, -, hdeny, hoptions, hr, rfl, rfl⟩ :=
            tryGetTippedElectorateVoteState_some htipped
          refine ⟨⟨?_, ?_, ?_⟩, fun hstate => ?_, fun i => ⟨r, ?_⟩, ?_, rfl, rfl⟩
          · intro hstate
            cases r <;> cases hstate
          · intro hstate
            refine ⟨by rw [hdeny]; nofun, _, List.mem_singleton.mpr rfl, ?_⟩
            cases r <;> first | rfl | cases hstate
          · intro _ _ i j o o' hi hj _ _
            have hi := (List.getElem?_eq_some_iff.mp hi).1
            have hj := (List.getElem?_eq_some_iff.mp hj).1
            simp only [List.length_singleton] at hi hj
            omega
          · refine ⟨_, _, minWeight, rfl, rfl, hmin, fun o ho _ => ?_⟩
            obtain rfl := List.mem_singleton.mp ho
            have hsucceeded : r = .Succeeded := by
              cases r <;> first | rfl | cases hstate
            rw [hsucceeded] at hr
            dsimp only
            rw [hdeny]
            exact tippedResult_succeeded hr
          · cases i <;> simp [hoptions]
          · cases r <;> rfl
      | Veto =>
          simp only [Except.ok.injEq, tryGetTippedVetoVoteState] at htipped
          split at htipped
          · cases htipped
            refine ⟨⟨nofun, nofun, nofun⟩, nofun, fun i => ?_, rfl, rfl, rfl⟩
            cases hi : p.options[i]? with
            | none => exact ⟨.None, by simp⟩
            | some o => exact ⟨o.voteResult, by simp [ProposalOption.withResult]⟩
          · cases htipped

end ProposalV2

end IndexDtf.Governance
