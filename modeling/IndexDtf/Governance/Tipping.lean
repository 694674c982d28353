import IndexDtf.Governance.Resolution

/-!
# IndexDtf.Governance.Tipping

**When a vote is decided early.** `try_tip_vote` compares the votes cast so far with fixed
bounds. What the bounds are for is said here by the ways in which the vote can go on: nobody
takes a vote back, and no more is cast than can be. `resolve_final_vote_state` says what each of
them would come to.

* `Continues` — the ways in which a vote can go on;
* `tips_strict_iff` — a strict vote is tipped to a state if and only if every way leads there;
* `tips_early_iff` — an early one succeeds as soon as it would if it ended now, and is still
  defeated only if it cannot succeed any more.
-/

namespace IndexDtf.Governance

open Lib

/-! ### The threshold -/

/-- A percentage of a weight is reached by a vote if and only if the vote has its share. -/
theorem getMinVoteThresholdWeight_spec {percentage maxVoterWeight : ℕ} (hpercent : percentage ≤ 100)
    (hmax : maxVoterWeight ≤ u64Max) :
    ∃ minWeight, getMinVoteThresholdWeight (.YesVotePercentage percentage) maxVoterWeight =
        .ok minWeight ∧
      ∀ w, minWeight ≤ w ↔ percentage * maxVoterWeight ≤ 100 * w := by
  have hnumerator : percentage * maxVoterWeight ≤ 100 * maxVoterWeight :=
    Nat.mul_le_mul_right _ hpercent
  unfold getMinVoteThresholdWeight
  dsimp only
  split
  · next hround =>
      have hfits : percentage * maxVoterWeight / 100 + 1 < u64Max + 1 := by omega
      rw [Nat.mod_eq_of_lt hfits]
      exact ⟨_, rfl, fun w => by omega⟩
  · next hexact =>
      have hfits : percentage * maxVoterWeight / 100 < u64Max + 1 := by omega
      rw [Nat.mod_eq_of_lt hfits]
      exact ⟨_, rfl, fun w => by omega⟩

namespace ProposalV2

/-! ### How a vote can go on -/

/-- From `yes` and `deny` a vote can get to `yes'` and `deny'` when at most `maxWeight` can be
cast, and nobody takes a vote back. -/
structure Continues (maxWeight yes deny yes' deny' : ℕ) : Prop where
  yes_le : yes ≤ yes'
  deny_le : deny ≤ deny'
  total_le : yes' + deny' ≤ maxWeight

/-- The proposal with other weights of its option and of the rejection. -/
def withVotes (p : ProposalV2) (option : ProposalOption) (yes deny : ℕ) : ProposalV2 :=
  { p with options := [{ option with voteWeight := yes }], denyVoteWeight := some deny }

/-- A proposal that can be accepted or rejected, as tipping supports it. -/
structure IsYesNo (p : ProposalV2) (option : ProposalOption) (deny : ℕ) : Prop where
  single : p.voteType = .SingleChoice
  options_eq : p.options = [option]
  deny_eq : p.denyVoteWeight = some deny

/-- The state the vote ends in with these weights. -/
def finalState (minWeight yes deny : ℕ) : ProposalState :=
  if minWeight ≤ yes ∧ deny < yes then .Succeeded else .Defeated

/-- `resolve_final_vote_state`, for one option and a rejection. -/
theorem resolveFinalVoteState_withVotes {p : ProposalV2} {option : ProposalOption}
    {deny maxWeight minWeight : ℕ} {voteThreshold : VoteThreshold} (h : p.IsYesNo option deny)
    (hmin : getMinVoteThresholdWeight voteThreshold maxWeight = .ok minWeight) (yes' deny' : ℕ)
    (state : ProposalState) :
    (∃ p', (p.withVotes option yes' deny').resolveFinalVoteState maxWeight voteThreshold =
        .ok (p', state)) ↔ state = finalState minWeight yes' deny' := by
  have hlength : (p.withVotes option yes' deny').options.length ≤ u16Max :=
    (by decide : 1 ≤ u16Max)
  obtain ⟨p', state', hresolve⟩ := resolveFinalVoteState_total hmin hlength
  have hsingle : (p.withVotes option yes' deny').voteType = .SingleChoice := h.single
  have hstate : state' = finalState minWeight yes' deny' := by
    unfold finalState
    by_cases hpass : minWeight ≤ yes' ∧ deny' < yes'
    · rw [if_pos hpass]
      refine (resolveFinalVoteState_winner (i := 0) hsingle hmin
        ⟨_, rfl, decide_eq_true hpass, fun j o hj hne => ?_⟩ hresolve).2
      have := (List.getElem?_eq_some_iff.mp hj).1
      change j < 1 at this
      omega
    · rw [if_neg hpass]
      refine (resolveFinalVoteState_no_winner hsingle hmin ?_ hresolve).2
      rintro ⟨i, o, ho, hp, -⟩
      obtain rfl := List.mem_singleton.mp (List.mem_of_getElem? ho)
      exact hpass (of_decide_eq_true hp)
  constructor
  · rintro ⟨p'', h⟩
    rw [hresolve] at h
    cases h
    exact hstate
  · rintro rfl
    exact ⟨p', hstate ▸ hresolve⟩

/-- What a vote is tipped to, for one option and a rejection. -/
theorem tryGetTippedVoteState_isYesNo {p : ProposalV2} {option : ProposalOption}
    {deny maxWeight minWeight : ℕ} {voteThreshold : VoteThreshold} {voteTipping : VoteTipping}
    (h : p.IsYesNo option deny)
    (hmin : getMinVoteThresholdWeight voteThreshold maxWeight = .ok minWeight)
    (state : ProposalState) :
    (∃ p', p.tryGetTippedVoteState maxWeight voteTipping voteThreshold .Electorate =
        .ok (some (p', state))) ↔
      ∃ r, tippedResult option.voteWeight deny maxWeight voteTipping minWeight = some r ∧
        state = stateOfResult r := by
  simp only [tryGetTippedVoteState, unwrap_eq_ok.mpr hmin, ok_bind,
    tryGetTippedElectorateVoteState, h.single, h.deny_eq, h.options_eq, Except.ok.injEq,
    Option.map_eq_some_iff, Prod.mk.injEq]
  constructor
  · rintro ⟨p', r, hr, -, rfl⟩
    exact ⟨r, hr, rfl⟩
  · rintro ⟨r, hr, rfl⟩
    exact ⟨_, r, hr, rfl, rfl⟩

/-! ### What is certain -/

/-- Success is certain exactly if even the votes that are left cannot outweigh it. -/
theorem certain_succeeded_iff {maxWeight yes deny : ℕ} (minWeight : ℕ)
    (htotal : yes + deny ≤ maxWeight) :
    (∀ yes' deny', Continues maxWeight yes deny yes' deny' →
      finalState minWeight yes' deny' = .Succeeded) ↔
      minWeight ≤ yes ∧ maxWeight - yes < yes := by
  have hiff : ∀ yes' deny', finalState minWeight yes' deny' = .Succeeded ↔
      minWeight ≤ yes' ∧ deny' < yes' := by
    intro yes' deny'
    unfold finalState
    split
    · next hpass => exact ⟨fun _ => hpass, fun _ => rfl⟩
    · next hpass => exact ⟨nofun, fun h => absurd h hpass⟩
  simp only [hiff]
  constructor
  · intro h
    -- all that is left goes to the rejection
    exact h yes (maxWeight - yes) ⟨le_rfl, by omega, by omega⟩
  · rintro ⟨hmin, hmost⟩ yes' deny' ⟨hyes, -, htotal'⟩
    omega

/-- Defeat is certain exactly if even with all the votes that are left the option does not reach
the threshold or does not beat the rejection. -/
theorem certain_defeated_iff {maxWeight minWeight yes deny : ℕ} (htotal : yes + deny ≤ maxWeight)
    (hmin : minWeight ≤ maxWeight) :
    (∀ yes' deny', Continues maxWeight yes deny yes' deny' →
      finalState minWeight yes' deny' = .Defeated) ↔
      maxWeight - minWeight < deny ∨ maxWeight - deny ≤ deny := by
  have hiff : ∀ yes' deny', finalState minWeight yes' deny' = .Defeated ↔
      ¬ (minWeight ≤ yes' ∧ deny' < yes') := by
    intro yes' deny'
    unfold finalState
    split
    · next hpass => exact ⟨nofun, fun h => absurd hpass h⟩
    · next hpass => exact ⟨fun _ => hpass, fun _ => rfl⟩
  simp only [hiff]
  constructor
  · intro h
    -- all that is left goes to the option
    have := h (maxWeight - deny) deny ⟨by omega, le_rfl, by omega⟩
    omega
  · rintro hcertain yes' deny' ⟨-, hdeny, htotal'⟩
    omega

/-- The vote can end as it stands. -/
theorem Continues.refl {maxWeight yes deny : ℕ} (htotal : yes + deny ≤ maxWeight) :
    Continues maxWeight yes deny yes deny := ⟨le_rfl, le_rfl, htotal⟩

/-! ### When it is tipped -/

section

variable {p : ProposalV2} {option : ProposalOption} {deny maxWeight percentage : ℕ}

/-- **Strict tipping.** A vote is tipped to a state if and only if it ends in that state in
whatever way it goes on. -/
theorem tips_strict_iff (h : p.IsYesNo option deny) (hpercent : percentage ≤ 100)
    (hmax : maxWeight ≤ u64Max) (htotal : option.voteWeight + deny ≤ maxWeight)
    (state : ProposalState) :
    (∃ p', p.tryGetTippedVoteState maxWeight .Strict (.YesVotePercentage percentage) .Electorate =
        .ok (some (p', state))) ↔
      ∀ yes' deny', Continues maxWeight option.voteWeight deny yes' deny' →
        ∃ p', (p.withVotes option yes' deny').resolveFinalVoteState maxWeight
          (.YesVotePercentage percentage) = .ok (p', state) := by
  obtain ⟨minWeight, hmin, hspec⟩ := getMinVoteThresholdWeight_spec hpercent hmax
  have hle : minWeight ≤ maxWeight := (hspec maxWeight).mpr (Nat.mul_le_mul_right _ hpercent)
  have hsucceeded := certain_succeeded_iff minWeight htotal
  have hdefeated := certain_defeated_iff htotal hle
  simp only [tryGetTippedVoteState_isYesNo h hmin, resolveFinalVoteState_withVotes h hmin]
  simp only [tippedResult, decide_eq_true_eq]
  constructor
  · rintro ⟨r, hr, rfl⟩ yes' deny' hcont
    split at hr
    · next hwon =>
        cases hr
        exact (hsucceeded.mpr hwon yes' deny' hcont).symm
    · split at hr
      · next hlost =>
          cases hr
          exact (hdefeated.mpr hlost.2 yes' deny' hcont).symm
      · cases hr
  · intro hcertain
    have hnow := hcertain _ _ (.refl htotal)
    unfold finalState at hnow
    split at hnow
    · subst hnow
      have hwon := hsucceeded.mp fun yes' deny' hcont => (hcertain yes' deny' hcont).symm
      exact ⟨.Succeeded, if_pos hwon, rfl⟩
    · next hnot =>
        subst hnow
        have hlost := hdefeated.mp fun yes' deny' hcont => (hcertain yes' deny' hcont).symm
        refine ⟨.Defeated, ?_, rfl⟩
        rw [if_neg (by omega), if_pos ⟨nofun, hlost⟩]

/-- Sixty of a hundred votes are for a proposal, and ten against it. -/
def sampleYesNo : ProposalV2 where
  governance := 50
  governingTokenMint := 10
  state := .Voting
  tokenOwnerRecord := { governingTokenMint := 10, governingTokenOwner := 100 }
  voteType := .SingleChoice
  options := [{ voteWeight := 60 }]
  denyVoteWeight := some 10
  draftAt := 0

theorem sampleYesNo_isYesNo : sampleYesNo.IsYesNo { voteWeight := 60 } 10 := ⟨rfl, rfl, rfl⟩

/-- It is tipped, so it succeeds even with all the other votes against it. -/
theorem tips_strict_iff_sampleYesNo :
    ∃ p', (sampleYesNo.withVotes { voteWeight := 60 } 60 40).resolveFinalVoteState 100
      (.YesVotePercentage 50) = .ok (p', .Succeeded) :=
  (tips_strict_iff sampleYesNo_isYesNo (by decide) (by decide) (by decide) .Succeeded).mp
    ⟨_, rfl⟩ 60 40 ⟨by decide, by decide, by decide⟩

/-- **Early tipping.** A vote succeeds as soon as it would if it ended as it stands, and it is
defeated only if it is in whatever way it goes on. -/
theorem tips_early_iff (h : p.IsYesNo option deny) (hpercent : percentage ≤ 100)
    (hmax : maxWeight ≤ u64Max) (htotal : option.voteWeight + deny ≤ maxWeight) :
    ((∃ p', p.tryGetTippedVoteState maxWeight .Early (.YesVotePercentage percentage) .Electorate =
        .ok (some (p', .Succeeded))) ↔
      ∃ p', p.resolveFinalVoteState maxWeight (.YesVotePercentage percentage) =
        .ok (p', .Succeeded)) ∧
    ((∃ p', p.tryGetTippedVoteState maxWeight .Early (.YesVotePercentage percentage) .Electorate =
        .ok (some (p', .Defeated))) ↔
      ∀ yes' deny', Continues maxWeight option.voteWeight deny yes' deny' →
        ∃ p', (p.withVotes option yes' deny').resolveFinalVoteState maxWeight
          (.YesVotePercentage percentage) = .ok (p', .Defeated)) := by
  obtain ⟨minWeight, hmin, hspec⟩ := getMinVoteThresholdWeight_spec hpercent hmax
  have hle : minWeight ≤ maxWeight := (hspec maxWeight).mpr (Nat.mul_le_mul_right _ hpercent)
  have hdefeated := certain_defeated_iff htotal hle
  have hsame : p = p.withVotes option option.voteWeight deny := by
    rw [withVotes, ← h.deny_eq, ← h.options_eq]
  have hnow := resolveFinalVoteState_withVotes h hmin option.voteWeight deny .Succeeded
  rw [← hsame] at hnow
  simp only [tryGetTippedVoteState_isYesNo h hmin, resolveFinalVoteState_withVotes h hmin, hnow]
  simp only [tippedResult, decide_eq_true_eq]
  refine ⟨⟨?_, ?_⟩, ⟨?_, ?_⟩⟩
  · rintro ⟨r, hr, hstate⟩
    split at hr
    · next hwon => exact (if_pos hwon).symm
    · split at hr
      · cases hr
        cases hstate
      · cases hr
  · intro hstate
    unfold finalState at hstate
    split at hstate
    · next hwon => exact ⟨.Succeeded, if_pos hwon, rfl⟩
    · cases hstate
  · rintro ⟨r, hr, hstate⟩ yes' deny' hcont
    split at hr
    · cases hr
      cases hstate
    · split at hr
      · next hlost => exact (hdefeated.mpr hlost.2 yes' deny' hcont).symm
      · cases hr
  · intro hcertain
    have hlost := hdefeated.mp fun yes' deny' hcont => (hcertain yes' deny' hcont).symm
    refine ⟨.Defeated, ?_, rfl⟩
    rw [if_neg (by omega), if_pos ⟨nofun, hlost⟩]

theorem tips_early_iff_sampleYesNo :
    ∃ p', sampleYesNo.resolveFinalVoteState 100 (.YesVotePercentage 50) = .ok (p', .Succeeded) :=
  (tips_early_iff sampleYesNo_isYesNo (by decide) (by decide) (by decide)).1.mp ⟨_, rfl⟩

end

end ProposalV2

end IndexDtf.Governance
