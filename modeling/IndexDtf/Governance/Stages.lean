import IndexDtf.Governance.Links

/-!
# IndexDtf.Governance.Stages

**The life of a proposal.** `Moves` lists what one instruction can make of a proposal. Two things
follow from it:

* `Staged` — what the state of a proposal says about its timestamps and results, in every state
  of a realm;
* `Evolves` — what remains of a proposal over time: it only moves forward through its states,
  and once the vote is over neither its weights nor its results change.
-/

namespace IndexDtf.Governance

open Lib

/-! ### The states a proposal goes through -/

/-- Whether a proposal in the first state can be in the second one later. -/
def ProposalState.canBecome : ProposalState → ProposalState → Bool
  | .Draft, s => s ≠ .ExecutingWithErrors
  | .SigningOff, s => s ≠ .Draft ∧ s ≠ .ExecutingWithErrors
  | .Voting, s => s ≠ .Draft ∧ s ≠ .SigningOff ∧ s ≠ .ExecutingWithErrors
  | .Succeeded, s => s = .Succeeded ∨ s = .Executing ∨ s = .Completed
  | .Executing, s => s = .Executing ∨ s = .Completed
  | .ExecutingWithErrors, s => s = .ExecutingWithErrors ∨ s = .Completed
  | s, s' => s' = s

theorem ProposalState.canBecome_refl (s : ProposalState) : s.canBecome s = true := by
  cases s <;> rfl

theorem ProposalState.canBecome_trans {s s' s'' : ProposalState} (h : s.canBecome s' = true)
    (h' : s'.canBecome s'' = true) : s.canBecome s'' = true := by
  cases s <;> cases s' <;> first
    | exact h'
    | exact absurd h (by decide)
    | (cases s'' <;> first | rfl | exact absurd h' (by decide))

/-- From these states there is no way on. -/
def ProposalState.isFinal : ProposalState → Bool
  | .Completed | .Cancelled | .Defeated | .Vetoed => true
  | _ => false

namespace ProposalV2

/-! ### Moves -/

/-- What only the moves from one stage to the next change. -/
structure SameStage (p p' : ProposalV2) : Prop where
  state_eq : p'.state = p.state := by rfl
  draftAt_eq : p'.draftAt = p.draftAt := by rfl
  votingAt_eq : p'.votingAt = p.votingAt := by rfl
  votingCompletedAt_eq : p'.votingCompletedAt = p.votingCompletedAt := by rfl
  executingAt_eq : p'.executingAt = p.executingAt := by rfl
  closedAt_eq : p'.closedAt = p.closedAt := by rfl
  results_eq : ∀ i : ℕ, (p'.options[i]?).map (·.voteResult) = (p.options[i]?).map (·.voteResult)
    := by exact fun _ => rfl

/-- What one instruction makes of a proposal. -/
inductive Moves (d : Dao) (p : ProposalV2) : ProposalV2 → Prop
  /-- The draft is edited, or a vote is counted. -/
  | edit {p' : ProposalV2} (hactive : p.state.isActive = true) (hsame : SameProposal p p')
      (hstage : SameStage p p') : Moves d p p'
  | signOff {signingOffAt : Option ℕ} {signed : ℕ} (hstate : p.state = .Draft) :
      Moves d p { p with
        signingOffAt
        state := .SigningOff
        signatoriesSignedOffCount := signed }
  | start (hstate : p.state.isPending = true) :
      Moves d p { p with
        votingAt := some d.unixTimestamp
        votingAtSlot := some d.slot
        state := .Voting }
  | close {p' : ProposalV2} (h : d.Closes p p') : Moves d p p'
  | complete (hstate : p.state = .Succeeded) :
      Moves d p { p with closedAt := some d.unixTimestamp, state := .Completed }
  | execute {p' : ProposalV2} {completedAt : ℕ} (hstate : p.state.isExecutable = true)
      (hcompleted : p.votingCompletedAt = some completedAt)
      (hlater : completedAt < d.unixTimestamp) (h : p.Proceeds d.unixTimestamp p') : Moves d p p'

theorem Adds.sameStage {vote : Vote} {voterWeight : ℕ} {p p' : ProposalV2}
    (h : p.Adds vote voterWeight p') : SameStage p p' := by
  have hresults : ∀ i : ℕ, (p'.options[i]?).map (·.voteResult) =
      (p.options[i]?).map (·.voteResult) := by
    intro i
    rw [h.options_eq, Option.map_map]
    rfl
  rw [h.rest_eq]
  exact { results_eq := hresults }

theorem SameStage.symm {p p' : ProposalV2} (h : SameStage p p') : SameStage p' p where
  state_eq := h.state_eq.symm
  draftAt_eq := h.draftAt_eq.symm
  votingAt_eq := h.votingAt_eq.symm
  votingCompletedAt_eq := h.votingCompletedAt_eq.symm
  executingAt_eq := h.executingAt_eq.symm
  closedAt_eq := h.closedAt_eq.symm
  results_eq i := (h.results_eq i).symm

theorem sameStage_setOption {p : ProposalV2} {i : ℕ} {option option' : ProposalOption}
    (hoption : p.options[i]? = some option) (h : option'.voteResult = option.voteResult) :
    SameStage p (Dao.setOption p i option') where
  results_eq j := by
    rw [Dao.setOption, List.getElem?_set]
    split
    · next heq =>
        rw [← heq, if_pos (List.getElem?_eq_some_iff.mp hoption).1, hoption, Option.map_some,
          Option.map_some, h]
    · rfl

end ProposalV2

namespace Dao

open ProposalV2

/-- A proposal is left as it is, or moves. -/
def StaysOrMoves (d : Dao) (p p' : ProposalV2) : Prop := p' = p ∨ Moves d p p'

theorem StaysOrMoves.refl (d : Dao) (p : ProposalV2) : d.StaysOrMoves p p := .inl rfl

/-- A proposal that was just created. -/
structure Created (d : Dao) (p : ProposalV2) : Prop where
  drafted : Drafted d p
  draftAt_eq : p.draftAt = d.unixTimestamp
  votingAt_eq : p.votingAt = none
  votingCompletedAt_eq : p.votingCompletedAt = none
  executingAt_eq : p.executingAt = none
  closedAt_eq : p.closedAt = none

theorem isActive_of_pending {s : ProposalState} (h : s = .Draft ∨ s = .SigningOff) :
    s.isActive = true := by
  rcases h with h | h
  · rw [h]
    rfl
  · rw [h]
    rfl

theorem Effect.moves {d d' : Dao} (h : Effect d d') :
    Store.Extends d.StaysOrMoves (fun _ p => d.Created p) d.proposals d'.proposals := by
  cases h with
  | frame h =>
      rw [h.proposals_eq]
      exact .refl (.refl d) _
  | create hp hg ht =>
      refine .openNew (.refl d) hp ⟨⟨rfl, Store.mem_of_lookup ht, Store.mem_of_lookup hg,
        fun i o ho => ?_⟩, rfl, rfl, rfl, rfl, rfl⟩
      rw [draftOf, List.getElem?_map, Option.map_eq_some_iff] at ho
      obtain ⟨-, -, rfl⟩ := ho
      rfl
  | addSignatory hp hstate =>
      exact .write (.refl d) hp (.inr (.edit (isActive_of_pending (.inl hstate)) {} {}))
  | @signOff proposal signatory p s signingOffAt hp hstate =>
      refine .write (.refl d) hp (.inr ?_)
      by_cases hzero : p.signatoriesSignedOffCount = 0
      · rw [if_pos hzero]
        rcases hstate with hdraft | hsigning
        · exact .signOff hdraft
        · exact .edit (isActive_of_pending (.inr hsigning)) {} { state_eq := hsigning.symm }
      · rw [if_neg hzero]
        exact .edit (isActive_of_pending hstate) {} {}
  | beginSignOff hp hstate =>
      exact .write (.refl d) hp (.inr (.edit (isActive_of_pending hstate) {} {}))
  | startVoting hp hstate =>
      exact .write (.refl d) hp (.inr (.start (ProposalState.isPending_eq_true.mpr hstate)))
  | insertTransaction hp hstate hdeny hoption =>
      exact .write (.refl d) hp (.inr (.edit (isActive_of_pending (.inl hstate))
        (sameProposal_setOption ..) (sameStage_setOption hoption rfl)))
  | removeTransaction hp hstate ht hproposal hoption =>
      exact .write (.refl d) hp (.inr (.edit (isActive_of_pending (.inl hstate))
        (sameProposal_setOption ..) (sameStage_setOption hoption rfl)))
  | cast hp hstate ht hnew hmint hweight hvalid hadds =>
      exact .write (.refl d) hp (.inr (.edit (by rw [hstate]; rfl) hadds.sameProposal
        hadds.sameStage))
  | withdraw hp hstate ht hv hproposal howner hmint hlive hadds =>
      exact .write (.refl d) hp (.inr (.edit (by rw [hstate]; rfl) hadds.sameProposal.symm
        hadds.sameStage.symm))
  | relinquish => exact .refl (.refl d) _
  | close hp hcloses => exact .write (.refl d) hp (.inr (.close hcloses))
  | complete hp hstate => exact .write (.refl d) hp (.inr (.complete hstate))

theorem Execution.moves {governance : Pubkey} {k : ProposalTransactionSeeds} {d d' : Dao}
    (h : Execution governance k d d') :
    Store.Extends d.StaysOrMoves (fun _ p => d.Created p) d.proposals d'.proposals := by
  cases h with
  | execute h hgovernance hafter =>
      obtain ⟨q, hq, hread⟩ := h.proposal_read
      obtain ⟨completedAt, hcompleted, hlater⟩ := h.after_vote
      exact .write (.refl d) hq (.inr (.execute (hread.isExecutable h.isExecutable)
        (hread.votingCompletedAt_eq.trans hcompleted) hlater
        (hread.proceeds (afterExecution_proceeds h.isExecutable hafter))))

end Dao

namespace ProposalV2

/-! ### What remains -/

/-- What a proposal has in common with what it becomes. -/
structure Evolves (p p' : ProposalV2) : Prop where
  same : SameProposal p p'
  canBecome : p.state.canBecome p'.state = true
  /-- Nothing happens in a final state. -/
  final : p.state.isFinal = true → p' = p
  /-- After the vote neither the weights nor the results change. -/
  decided : p.state.isActive = false → p'.denyVoteWeight = p.denyVoteWeight ∧
    p'.vetoVoteWeight = p.vetoVoteWeight ∧ p'.votingCompletedAt = p.votingCompletedAt ∧
    p'.maxVoteWeight = p.maxVoteWeight ∧ p'.voteThreshold = p.voteThreshold ∧
    ∀ i : ℕ, (p'.options[i]?).map (fun o => (o.voteWeight, o.voteResult, o.transactionsCount)) =
      (p.options[i]?).map (fun o => (o.voteWeight, o.voteResult, o.transactionsCount))

theorem Evolves.refl (p : ProposalV2) : Evolves p p where
  same := .refl p
  canBecome := ProposalState.canBecome_refl _
  final _ := rfl
  decided _ := ⟨rfl, rfl, rfl, rfl, rfl, fun _ => rfl⟩

theorem isActive_eq_false_of_canBecome {s s' : ProposalState} (h : s.canBecome s' = true)
    (hs : s.isActive = false) : s'.isActive = false := by
  cases s <;> cases s' <;> first | rfl | exact absurd hs (by decide) | exact absurd h (by decide)

theorem Evolves.trans {p p' p'' : ProposalV2} (h : Evolves p p') (h' : Evolves p' p'') :
    Evolves p p'' where
  same := h.same.trans h'.same
  canBecome := ProposalState.canBecome_trans h.canBecome h'.canBecome
  final hfinal := by
    have heq := h.final hfinal
    rw [heq] at h'
    rw [h'.final hfinal]
  decided hinactive := by
    obtain ⟨h₁, h₂, h₃, h₄, h₅, h₆⟩ := h.decided hinactive
    obtain ⟨h₁', h₂', h₃', h₄', h₅', h₆'⟩ :=
      h'.decided (isActive_eq_false_of_canBecome h.canBecome hinactive)
    exact ⟨h₁'.trans h₁, h₂'.trans h₂, h₃'.trans h₃, h₄'.trans h₄, h₅'.trans h₅,
      fun i => (h₆' i).trans (h₆ i)⟩

theorem not_isFinal_of_isActive {s : ProposalState} (h : s.isActive = true) :
    s.isFinal = false := by
  cases s <;> first | rfl | cases h

/-- An active proposal may become anything ahead. -/
theorem Evolves.of_active {p p' : ProposalV2} (hactive : p.state.isActive = true)
    (hsame : SameProposal p p') (hstate : p.state.canBecome p'.state = true) : Evolves p p' where
  same := hsame
  canBecome := hstate
  final hfinal := by
    rw [not_isFinal_of_isActive hactive] at hfinal
    cases hfinal
  decided hinactive := by
    rw [hactive] at hinactive
    cases hinactive

theorem Moves.evolves {d : Dao} {p p' : ProposalV2} (h : Moves d p p') : Evolves p p' := by
  cases h with
  | edit hactive hsame hstage =>
      refine .of_active hactive hsame ?_
      rw [hstage.state_eq]
      exact ProposalState.canBecome_refl _
  | signOff hstate =>
      refine .of_active (by rw [hstate]; rfl) {} ?_
      rw [hstate]
      rfl
  | start hstate =>
      rcases ProposalState.isPending_eq_true.mp hstate with h | h
      · exact .of_active (by rw [h]; rfl) {} (by rw [h]; rfl)
      · exact .of_active (by rw [h]; rfl) {} (by rw [h]; rfl)
  | close hcloses =>
      refine .of_active hcloses.isActive.1 hcloses.sameProposal ?_
      rcases hcloses with ⟨hactive, rfl⟩ | ⟨hvoting, _, -, hdecides⟩
      · cases hs : p.state <;> rw [hs] at hactive <;> first | rfl | cases hactive
      · rw [hvoting]
        have hdecided := hdecides.isDecided
        cases hs : p'.state <;> rw [hs] at hdecided <;> first | rfl | cases hdecided
  | complete hstate =>
      constructor
      · exact {}
      · rw [hstate]
        rfl
      · intro hfinal
        rw [hstate] at hfinal
        cases hfinal
      · exact fun _ => ⟨rfl, rfl, rfl, rfl, rfl, fun _ => rfl⟩
  | execute hstate hcompleted hlater h =>
      refine ⟨h.sameProposal, ?_, fun hfinal => ?_, fun _ => ?_⟩
      · rcases h.stage with ⟨hnext, -⟩ | ⟨hnext, -⟩
        · rw [hnext]
          cases hs : p.state <;> rw [hs] at hstate <;> first | rfl | exact absurd hstate (by decide)
        · rw [hnext, started_state]
          cases p.state <;> rfl
      · cases hs : p.state <;> rw [hs] at hstate hfinal <;> first
          | exact absurd hstate (by decide)
          | exact absurd hfinal (by decide)
      · have hoptions := option_map_eq h.options_eq
          (f := fun o => (o.voteWeight, o.voteResult, o.transactionsCount)) fun _ => rfl
        rw [h.rest_eq]
        exact ⟨rfl, rfl, rfl, rfl, rfl, hoptions⟩

/-! ### States, timestamps and results -/

/-- A proposal whose transactions may be executed, or were. -/
def IsApproved (p : ProposalV2) : Prop :=
  p.state.isExecutable = true ∨ (p.state = .Completed ∧ p.denyVoteWeight ≠ none)

/-- What makes a proposal executable: it could be rejected, an option succeeded, only one for a
single choice, and what succeeded carried the vote. -/
structure Approved (p : ProposalV2) : Prop where
  deny_ne : p.denyVoteWeight ≠ none
  succeeded : ∃ o ∈ p.options, o.voteResult = .Succeeded
  single : p.voteType = .SingleChoice → ∀ (i j : ℕ) (o o' : ProposalOption),
    p.options[i]? = some o → p.options[j]? = some o' → o.voteResult = .Succeeded →
      o'.voteResult = .Succeeded → i = j
  carried : p.Carried

/-- The timestamps and results of a proposal, by its state. -/
structure Staged (now : ℕ) (p : ProposalV2) : Prop where
  draftAt_le : p.draftAt ≤ now
  votingAt_le : ∀ a, p.votingAt = some a → p.draftAt ≤ a ∧ a ≤ now
  completedAt_le : ∀ c, p.votingCompletedAt = some c →
    c ≤ now ∧ ∃ a, p.votingAt = some a ∧ a ≤ c
  executingAt_le : ∀ e, p.executingAt = some e →
    e ≤ now ∧ ∃ c, p.votingCompletedAt = some c ∧ c < e
  closedAt_le : ∀ x, p.closedAt = some x → x ≤ now ∧ p.state.isFinal = true
  /-- Nothing is decided while the proposal is active. -/
  active : p.state.isActive = true → p.votingCompletedAt = none ∧ p.executingAt = none ∧
    ∀ (i : ℕ) (o : ProposalOption), p.options[i]? = some o → o.voteResult = .None
  voting : p.state = .Voting → p.votingAt ≠ none
  decided : p.state.isActive = false → p.state ≠ .Cancelled → p.votingCompletedAt ≠ none
  cancelled : p.state = .Cancelled → p.votingCompletedAt = none
  executing : p.state = .Executing → p.executingAt ≠ none
  noErrors : p.state ≠ .ExecutingWithErrors
  approved : p.IsApproved → p.Approved

/-- Time passes. -/
theorem Staged.later {now now' : ℕ} {p : ProposalV2} (h : Staged now p) (hle : now ≤ now') :
    Staged now' p :=
  { h with
    draftAt_le := h.draftAt_le.trans hle
    votingAt_le := fun a ha => ⟨(h.votingAt_le a ha).1, (h.votingAt_le a ha).2.trans hle⟩
    completedAt_le := fun c hc => ⟨(h.completedAt_le c hc).1.trans hle, (h.completedAt_le c hc).2⟩
    executingAt_le := fun e he => ⟨(h.executingAt_le e he).1.trans hle, (h.executingAt_le e he).2⟩
    closedAt_le := fun x hx => ⟨(h.closedAt_le x hx).1.trans hle, (h.closedAt_le x hx).2⟩ }

/-- An active proposal is not approved. -/
theorem not_isApproved_of_isActive {p : ProposalV2} (h : p.state.isActive = true) :
    ¬ p.IsApproved := by
  rintro (hexecutable | ⟨hcompleted, -⟩)
  · rw [ProposalState.not_isActive_of_isExecutable hexecutable] at h
    cases h
  · rw [hcompleted] at h
    cases h

theorem Staged.closedAt_eq_none {now : ℕ} {p : ProposalV2} (h : Staged now p)
    (hfinal : p.state.isFinal = false) : p.closedAt = none := by
  cases hc : p.closedAt with
  | none => rfl
  | some x =>
      rw [(h.closedAt_le x hc).2] at hfinal
      cases hfinal

end ProposalV2

namespace Dao

open ProposalV2

theorem Created.staged {d : Dao} {p : ProposalV2} (h : d.Created p) :
    Staged d.unixTimestamp p where
  draftAt_le := h.draftAt_eq.le
  votingAt_le a ha := by
    rw [h.votingAt_eq] at ha
    cases ha
  completedAt_le c hc := by
    rw [h.votingCompletedAt_eq] at hc
    cases hc
  executingAt_le e he := by
    rw [h.executingAt_eq] at he
    cases he
  closedAt_le x hx := by
    rw [h.closedAt_eq] at hx
    cases hx
  active _ := by
    refine ⟨h.votingCompletedAt_eq, h.executingAt_eq, fun i o ho => ?_⟩
    rw [h.drafted.option_eq i o ho]
  voting hstate := by
    rw [h.drafted.state_eq] at hstate
    cases hstate
  decided hinactive := by
    rw [h.drafted.state_eq] at hinactive
    cases hinactive
  cancelled _ := h.votingCompletedAt_eq
  executing hstate := by
    rw [h.drafted.state_eq] at hstate
    cases hstate
  noErrors := by
    rw [h.drafted.state_eq]
    nofun
  approved happroved := by
    have hactive : p.state.isActive = true := by
      rw [h.drafted.state_eq]
      rfl
    exact absurd happroved (not_isApproved_of_isActive hactive)

end Dao

namespace ProposalV2

theorem Staged.edit {now : ℕ} {p p' : ProposalV2} (h : Staged now p)
    (hactive : p.state.isActive = true) (hstage : SameStage p p') : Staged now p' := by
  obtain ⟨hstate, hdraft, hvoting, hcompleted, hexecuting, hclosed, hresults⟩ := hstage
  have hactive' : p'.state.isActive = true := hstate ▸ hactive
  constructor
  · rw [hdraft]
    exact h.draftAt_le
  · rw [hvoting, hdraft]
    exact h.votingAt_le
  · rw [hcompleted, hvoting]
    exact h.completedAt_le
  · rw [hexecuting, hcompleted]
    exact h.executingAt_le
  · rw [hclosed, hstate]
    exact h.closedAt_le
  · intro _
    obtain ⟨h₁, h₂, h₃⟩ := h.active hactive
    refine ⟨hcompleted.trans h₁, hexecuting.trans h₂, fun i o ho => ?_⟩
    have hresult := hresults i
    rw [ho, Option.map_some] at hresult
    obtain ⟨o', ho', hr⟩ := Option.map_eq_some_iff.mp hresult.symm
    rw [← hr]
    exact h₃ i o' ho'
  · rw [hstate, hvoting]
    exact h.voting
  · rw [hstate, hcompleted]
    exact h.decided
  · rw [hstate, hcompleted]
    exact h.cancelled
  · rw [hstate, hexecuting]
    exact h.executing
  · rw [hstate]
    exact h.noErrors
  · exact fun happroved => absurd happroved (not_isApproved_of_isActive hactive')

/-- What was approved stays approved. -/
theorem Evolves.approved {p p' : ProposalV2} (h : Evolves p p')
    (hinactive : p.state.isActive = false) (happroved : Approved p) : Approved p' := by
  obtain ⟨hdeny, -, -, hmax, hthreshold, hoptions⟩ := h.decided hinactive
  obtain ⟨hne, ⟨o, ho, hresult⟩, hsingle, maxVoteWeight, voteThreshold, minWeight, hmax',
    hthreshold', hmin, hcarries⟩ := happroved
  -- an option of the proposal as it is now is one of it as it was, with the same result
  have hback : ∀ (i : ℕ) (o' : ProposalOption), p'.options[i]? = some o' →
      ∃ o, p.options[i]? = some o ∧ o.voteResult = o'.voteResult ∧
        o.voteWeight = o'.voteWeight := by
    intro i o' ho'
    have heq := hoptions i
    rw [ho', Option.map_some] at heq
    obtain ⟨o, ho, hpair⟩ := Option.map_eq_some_iff.mp heq.symm
    simp only [Prod.mk.injEq] at hpair
    exact ⟨o, ho, hpair.2.1, hpair.1⟩
  refine ⟨hdeny ▸ hne, ?_, fun htype i j o o' hi hj hr hr' => ?_, ?_⟩
  · obtain ⟨i, hi⟩ := List.getElem?_of_mem ho
    have heq := hoptions i
    rw [hi, Option.map_some] at heq
    obtain ⟨o', ho', hpair⟩ := Option.map_eq_some_iff.mp heq
    simp only [Prod.mk.injEq] at hpair
    exact ⟨o', List.mem_of_getElem? ho', hpair.2.1.trans hresult⟩
  · obtain ⟨o₁, ho₁, hr₁, -⟩ := hback i o hi
    obtain ⟨o₂, ho₂, hr₂, -⟩ := hback j o' hj
    exact hsingle (h.same.voteType_eq ▸ htype) i j o₁ o₂ ho₁ ho₂ (hr₁.trans hr) (hr₂.trans hr')
  · refine ⟨maxVoteWeight, voteThreshold, minWeight, hmax.trans hmax', hthreshold.trans hthreshold',
      hmin, fun o' ho' hr => ?_⟩
    obtain ⟨i, hi⟩ := List.getElem?_of_mem ho'
    obtain ⟨o, ho, hr', hw⟩ := hback i o' hi
    have hcarry := hcarries o (List.mem_of_getElem? ho) (hr'.trans hr)
    rw [Carries, hw] at hcarry
    rw [hdeny]
    exact hcarry

/-- A proposal that is cancelled. -/
theorem Staged.cancel {now : ℕ} {p : ProposalV2} (h : Staged now p)
    (hactive : p.state.isActive = true) :
    Staged now { p with state := .Cancelled, closedAt := some now } := by
  obtain ⟨hcompleted, hexecuting, -⟩ := h.active hactive
  exact
    { draftAt_le := h.draftAt_le
      votingAt_le := h.votingAt_le
      completedAt_le := h.completedAt_le
      executingAt_le := h.executingAt_le
      closedAt_le := fun x hx => ⟨(Option.some.inj hx).symm.le, rfl⟩
      active := nofun
      voting := nofun
      decided := fun _ hne => absurd rfl hne
      cancelled := fun _ => hcompleted
      executing := nofun
      noErrors := nofun
      approved := by
        rintro (hexecutable | ⟨hcompleted', -⟩)
        · cases hexecutable
        · cases hcompleted' }

/-- A proposal whose vote is decided. -/
theorem Staged.decide {d : Dao} {p p' : ProposalV2} {completedAt : ℕ}
    (h : Staged d.unixTimestamp p) (hvoting : p.state = .Voting)
    (hat : d.DecidedAt p completedAt) (hdecides : p.Decides completedAt p') :
    Staged d.unixTimestamp p' := by
  have hactive : p.state.isActive = true := by
    rw [hvoting]
    rfl
  obtain ⟨-, hexecuting, -⟩ := h.active hactive
  have hclosed := h.closedAt_eq_none (by rw [hvoting]; rfl)
  have hdecided := hdecides.isDecided
  have hinactive := ProposalState.not_isActive_of_isDecided hdecided
  have heq := hdecides.rest_eq
  have hdraft' : p'.draftAt = p.draftAt := by rw [heq]
  have hvoting' : p'.votingAt = p.votingAt := by rw [heq]
  have hexecuting' : p'.executingAt = none := by
    rw [heq]
    exact hexecuting
  have hclosed' : p'.closedAt = none := by
    rw [heq]
    exact hclosed
  have hdeny' : p'.denyVoteWeight = p.denyVoteWeight := by rw [heq]
  have hne : ∀ {s : ProposalState}, s.isDecided = false → p'.state ≠ s := by
    rintro s hs rfl
    rw [hdecided] at hs
    cases hs
  constructor
  · rw [hdraft']
    exact h.draftAt_le
  · rw [hvoting', hdraft']
    exact h.votingAt_le
  · intro c hc
    rw [hdecides.completedAt_eq] at hc
    cases hc
    obtain ⟨a, ha⟩ := Option.ne_none_iff_exists'.mp (h.voting hvoting)
    exact ⟨hat.le_now, a, hvoting'.trans ha, hat.after_start a ha (h.votingAt_le a ha).2⟩
  · intro e he
    rw [hexecuting'] at he
    cases he
  · intro x hx
    rw [hclosed'] at hx
    cases hx
  · intro hactive'
    rw [hinactive] at hactive'
    cases hactive'
  · exact fun hstate => absurd hstate (hne rfl)
  · intro _ _
    rw [hdecides.completedAt_eq]
    nofun
  · exact fun hstate => absurd hstate (hne rfl)
  · exact fun hstate => absurd hstate (hne rfl)
  · exact hne rfl
  · rintro (hexecutable | ⟨hcompleted, hdeny⟩)
    · have hsucceeded : p'.state = .Succeeded := by
        cases hs : p'.state <;> rw [hs] at hexecutable hdecided <;> first
          | rfl
          | exact absurd hexecutable (by decide)
          | exact absurd hdecided (by decide)
      obtain ⟨hdeny, hsome⟩ := hdecides.verdict.succeeded hsucceeded
      refine ⟨hdeny' ▸ hdeny, hsome, fun hsingle => ?_, hdecides.carried hsucceeded⟩
      exact hdecides.verdict.single hsucceeded (hdecides.sameProposal.voteType_eq ▸ hsingle)
    · rw [hdeny'] at hdeny
      exact absurd (hdecides.verdict.completed hcompleted) hdeny

/-- A proposal that is past the vote, and moves on in it. -/
theorem Staged.proceed {now : ℕ} {p p' : ProposalV2} (h : Staged now p)
    (hevolves : Evolves p p') (hstate : p.state.isExecutable = true)
    (hnext : p'.state = .Executing ∨ p'.state = .Completed)
    (hdraft : p'.draftAt = p.draftAt) (hvoting : p'.votingAt = p.votingAt)
    (hexecuting : ∀ e, p'.executingAt = some e → e ≤ now ∧
      ∃ c, p.votingCompletedAt = some c ∧ c < e)
    (hexecutes : p'.state = .Executing → p'.executingAt ≠ none)
    (hclosed : ∀ x, p'.closedAt = some x → x ≤ now ∧ p'.state.isFinal = true) :
    Staged now p' := by
  have hinactive := ProposalState.not_isActive_of_isExecutable hstate
  have hcompleted := (hevolves.decided hinactive).2.2.1
  have hne : ∀ {s : ProposalState}, s ≠ .Executing → s ≠ .Completed → p'.state ≠ s := by
    rintro s h₁ h₂ rfl
    rcases hnext with h | h
    · exact h₁ h
    · exact h₂ h
  constructor
  · rw [hdraft]
    exact h.draftAt_le
  · rw [hvoting, hdraft]
    exact h.votingAt_le
  · rw [hcompleted, hvoting]
    exact h.completedAt_le
  · rw [hcompleted]
    exact hexecuting
  · exact hclosed
  · intro hactive
    rw [isActive_eq_false_of_canBecome hevolves.canBecome hinactive] at hactive
    cases hactive
  · exact fun hstate' => absurd hstate' (hne nofun nofun)
  · intro _ _
    rw [hcompleted]
    refine h.decided hinactive fun hcancelled => ?_
    rw [hcancelled] at hstate
    cases hstate
  · exact fun hstate' => absurd hstate' (hne nofun nofun)
  · exact hexecutes
  · exact hne nofun nofun
  · exact fun _ => hevolves.approved hinactive (h.approved (.inl hstate))

theorem Moves.staged {d : Dao} {p p' : ProposalV2} (hmoves : Moves d p p')
    (h : Staged d.unixTimestamp p) : Staged d.unixTimestamp p' := by
  have hevolves := hmoves.evolves
  cases hmoves with
  | edit hactive hsame hstage => exact h.edit hactive hstage
  | signOff hstate =>
      obtain ⟨hcompleted, hexecuting, hresults⟩ := h.active (by rw [hstate]; rfl)
      exact
        { draftAt_le := h.draftAt_le
          votingAt_le := h.votingAt_le
          completedAt_le := h.completedAt_le
          executingAt_le := h.executingAt_le
          closedAt_le := fun x hx => by
            rw [h.closedAt_eq_none (by rw [hstate]; rfl)] at hx
            cases hx
          active := fun _ => ⟨hcompleted, hexecuting, hresults⟩
          voting := nofun
          decided := nofun
          cancelled := nofun
          executing := nofun
          noErrors := nofun
          approved := fun happroved => absurd happroved (not_isApproved_of_isActive rfl) }
  | start hstate =>
      have hactive : p.state.isActive = true := by
        rcases ProposalState.isPending_eq_true.mp hstate with h | h <;> rw [h] <;> rfl
      obtain ⟨hcompleted, hexecuting, hresults⟩ := h.active hactive
      exact
        { draftAt_le := h.draftAt_le
          votingAt_le := fun a ha => by
            cases ha
            exact ⟨h.draftAt_le, le_rfl⟩
          completedAt_le := fun c hc => by
            rw [hcompleted] at hc
            cases hc
          executingAt_le := h.executingAt_le
          closedAt_le := fun x hx => by
            rw [h.closedAt_eq_none (not_isFinal_of_isActive hactive)] at hx
            cases hx
          active := fun _ => ⟨hcompleted, hexecuting, hresults⟩
          voting := nofun
          decided := nofun
          cancelled := nofun
          executing := nofun
          noErrors := nofun
          approved := fun happroved => absurd happroved (not_isApproved_of_isActive rfl) }
  | close hcloses =>
      rcases hcloses with ⟨hactive, rfl⟩ | ⟨hvoting, _, hat, hdecides⟩
      · exact h.cancel hactive
      · exact h.decide hvoting hat hdecides
  | complete hstate =>
      refine h.proceed hevolves (by rw [hstate]; rfl) (.inr rfl) rfl rfl h.executingAt_le nofun ?_
      exact fun x hx => ⟨(Option.some.inj hx).symm.le, rfl⟩
  | execute hstate hcompleted hlater hproceeds =>
      have hnext := hproceeds.stage
      have hexecuting := hproceeds.executingAt_eq
      have heq := hproceeds.rest_eq
      have hcases : p.state = .Succeeded ∨ p.state = .Executing := by
        have hnone := h.noErrors
        cases hs : p.state <;> rw [hs] at hstate hnone <;> first
          | exact .inl rfl
          | exact .inr rfl
          | exact absurd rfl hnone
          | exact absurd hstate (by decide)
      have hnextState : (p.started d.unixTimestamp).state = ProposalState.Executing := by
        rw [started_state]
        rcases hcases with hs | hs <;> rw [hs] <;> rfl
      have hexecutingAt : ∀ e, p'.executingAt = some e → e ≤ d.unixTimestamp ∧
          ∃ c, p.votingCompletedAt = some c ∧ c < e := by
        intro e he
        rw [hexecuting, started] at he
        dsimp only at he
        split at he
        · cases he
          exact ⟨le_rfl, _, hcompleted, hlater⟩
        · exact h.executingAt_le e he
      refine h.proceed hevolves hstate ?_ (by rw [heq]) (by rw [heq]) hexecutingAt ?_ ?_
      · rcases hnext with ⟨h₁, -⟩ | ⟨h₁, -⟩
        · exact .inr h₁
        · exact .inl (h₁.trans hnextState)
      · intro _
        rw [hexecuting, started]
        dsimp only
        split
        · exact Option.some_ne_none _
        · next hne => exact h.executing (hcases.resolve_left hne)
      · intro x hx
        rcases hnext with ⟨h₁, h₂⟩ | ⟨h₁, h₂⟩
        · rw [h₂] at hx
          cases hx
          exact ⟨le_rfl, by rw [h₁]; rfl⟩
        · have hnone : p.closedAt = none :=
            h.closedAt_eq_none (by rcases hcases with hs | hs <;> rw [hs] <;> rfl)
          rw [h₂, hnone] at hx
          cases hx

end ProposalV2

end IndexDtf.Governance
