import IndexDtf.Governance.Proposal

/-!
# IndexDtf.Governance.Resolution

**Who wins a vote.** `resolve_final_vote_state` runs over the options once, marks those that
reach the threshold and beat the rejection, and keeps the best weight among them with the number
of options that have it. For a single choice a second loop marks the options with the best weight
again.

* `Best.Summarizes` — what the first loop knows of the options it has seen;
* `Wins` — an option passes, and has more weight than every other one;
* `resolveFinalVoteState_spec` — the results and the state, which are always found.
-/

namespace IndexDtf.Governance

open Lib

/-- An option with a result. -/
def ProposalOption.withResult (o : ProposalOption) (voteResult : OptionVoteResult) :
    ProposalOption :=
  { o with voteResult }

namespace ProposalV2

/-! ### The first loop -/

/-- The best of the weights seen so far, and how often it was seen. -/
structure Best.Summarizes (best : Best) (seen : List ℕ) : Prop where
  le : ∀ w ∈ seen, w ≤ best.weight
  mem : 0 < best.weight → best.weight ∈ seen
  count_eq : best.count = seen.count best.weight

theorem Best.Summarizes.update {best best' : Best} {seen : List ℕ} {v : ℕ}
    (h : best.Summarizes seen) (hu : best.update v = .ok best') :
    best'.Summarizes (seen ++ [v]) := by
  unfold Best.update at hu
  split at hu
  · next hlt =>
      cases hu
      have hnew : v ∉ seen := fun hmem => absurd (h.le v hmem) (not_le.mpr hlt)
      constructor
      · intro w hw
        rcases List.mem_append.mp hw with hw | hw
        · exact le_trans (h.le w hw) (le_of_lt hlt)
        · exact le_of_eq (List.mem_singleton.mp hw)
      · exact fun _ => List.mem_append_right _ (List.mem_singleton.mpr rfl)
      · rw [List.count_append, List.count_eq_zero.mpr hnew, List.count_singleton_self]
  · split at hu
    · next heq =>
        simp only [bind_eq_ok, unwrapAdd_eq_ok, Except.ok.injEq] at hu
        obtain ⟨_, ⟨-, rfl⟩, rfl⟩ := hu
        constructor
        · intro w hw
          rcases List.mem_append.mp hw with hw | hw
          · exact h.le w hw
          · exact le_of_eq ((List.mem_singleton.mp hw).trans heq)
        · exact fun hpos => List.mem_append_left _ (h.mem hpos)
        · rw [List.count_append, ← heq, List.count_singleton_self, heq, h.count_eq]
    · next hle hne =>
        cases hu
        constructor
        · intro w hw
          rcases List.mem_append.mp hw with hw | hw
          · exact h.le w hw
          · exact le_of_eq_of_le (List.mem_singleton.mp hw) (not_lt.mp hle)
        · exact fun hpos => List.mem_append_left _ (h.mem hpos)
        · rw [List.count_append, List.count_eq_zero.mpr fun hmem =>
            hne (List.mem_singleton.mp hmem).symm, h.count_eq, Nat.add_zero]

/-- The result the first loop gives an option. -/
def resultOf (minWeight denyWeight : ℕ) (o : ProposalOption) : OptionVoteResult :=
  if passes minWeight denyWeight o then .Succeeded else .Defeated

/-- The weights of the options that pass. -/
def passingWeights (minWeight denyWeight : ℕ) (options : List ProposalOption) : List ℕ :=
  (options.filter (passes minWeight denyWeight)).map (·.voteWeight)

theorem pos_of_passes {minWeight denyWeight : ℕ} {o : ProposalOption}
    (h : passes minWeight denyWeight o = true) : 0 < o.voteWeight := by
  have := of_decide_eq_true h
  omega

/-- The first loop marks every option for itself, and finds the best one. -/
theorem resolveOptions_ok {minWeight denyWeight : ℕ} {best best' : Best} {seen : List ℕ}
    {options options' : List ProposalOption} (hbest : best.Summarizes seen)
    (h : resolveOptions minWeight denyWeight best options = .ok (options', best')) :
    options' = options.map (fun o => o.withResult (resultOf minWeight denyWeight o)) ∧
      best'.Summarizes (seen ++ passingWeights minWeight denyWeight options) := by
  induction options generalizing best seen options' with
  | nil =>
      cases h
      refine ⟨rfl, ?_⟩
      rwa [passingWeights, List.filter_nil, List.map_nil, List.append_nil]
  | cons o rest ih =>
      unfold resolveOptions at h
      split at h
      · next hpass =>
          simp only [bind_eq_ok, Except.ok.injEq, Prod.mk.injEq] at h
          obtain ⟨best₁, hupdate, ⟨rest', _⟩, hrest, rfl, rfl⟩ := h
          obtain ⟨rfl, hrest⟩ := ih (hbest.update hupdate) hrest
          refine ⟨?_, ?_⟩
          · rw [List.map_cons, resultOf, if_pos hpass]
            rfl
          · rw [passingWeights, List.filter_cons_of_pos hpass, List.map_cons]
            rwa [List.append_assoc] at hrest
      · next hpass =>
          simp only [bind_eq_ok, Except.ok.injEq, Prod.mk.injEq] at h
          obtain ⟨⟨rest', _⟩, hrest, rfl, rfl⟩ := h
          obtain ⟨rfl, hrest⟩ := ih hbest hrest
          refine ⟨?_, ?_⟩
          · rw [List.map_cons, resultOf, if_neg hpass]
            rfl
          · rwa [passingWeights, List.filter_cons_of_neg hpass]

/-! ### The winner -/

/-- An option that passes and has more weight than every other one. -/
def Wins (minWeight denyWeight : ℕ) (options : List ProposalOption) (i : ℕ) : Prop :=
  ∃ o, options[i]? = some o ∧ passes minWeight denyWeight o = true ∧
    ∀ (j : ℕ) (o' : ProposalOption), options[j]? = some o' → j ≠ i → o'.voteWeight < o.voteWeight

/-- There is only one winner. -/
theorem Wins.unique {minWeight denyWeight : ℕ} {options : List ProposalOption} {i j : ℕ}
    (hi : Wins minWeight denyWeight options i) (hj : Wins minWeight denyWeight options j) :
    i = j := by
  obtain ⟨o, ho, -, hbest⟩ := hi
  obtain ⟨o', ho', -, hbest'⟩ := hj
  by_contra hne
  have := hbest j o' ho' (Ne.symm hne)
  have := hbest' i o ho hne
  omega

/-- Two elements of a kind make its count at least two. -/
theorem two_le_countP {α : Type*} {l : List α} {p : α → Bool} {i j : ℕ} {a b : α} (hne : i ≠ j)
    (hi : l[i]? = some a) (hj : l[j]? = some b) (ha : p a = true) (hb : p b = true) :
    2 ≤ l.countP p := by
  induction l generalizing i j with
  | nil => cases hi
  | cons c rest ih =>
      cases i with
      | zero =>
          cases j with
          | zero => exact absurd rfl hne
          | succ j =>
              cases hi
              have hmem : b ∈ rest := List.mem_of_getElem? hj
              have hpos := List.countP_pos_iff.mpr ⟨b, hmem, hb⟩
              rw [List.countP_cons_of_pos ha]
              omega
      | succ i =>
          cases j with
          | zero =>
              cases hj
              have hmem : a ∈ rest := List.mem_of_getElem? hi
              have hpos := List.countP_pos_iff.mpr ⟨a, hmem, ha⟩
              rw [List.countP_cons_of_pos hb]
              omega
          | succ j =>
              have := ih (fun h => hne (congrArg Nat.succ h)) hi hj
              rw [List.countP_cons]
              omega

/-- An element that is the only one of its kind is counted once. -/
theorem countP_eq_one {α : Type*} {l : List α} {p : α → Bool} {i : ℕ} {a : α}
    (hi : l[i]? = some a) (ha : p a = true)
    (hothers : ∀ (j : ℕ) (b : α), l[j]? = some b → j ≠ i → p b = false) : l.countP p = 1 := by
  induction l generalizing i with
  | nil => cases hi
  | cons c rest ih =>
      cases i with
      | zero =>
          cases hi
          rw [List.countP_cons_of_pos ha, List.countP_eq_zero.mpr]
          intro b hb
          obtain ⟨j, hj⟩ := List.getElem?_of_mem hb
          rw [hothers (j + 1) b hj (Nat.succ_ne_zero j)]
          nofun
      | succ i =>
          have hhead := hothers 0 c rfl (Nat.zero_ne_add_one i)
          rw [List.countP_cons_of_neg (by rw [hhead]; nofun)]
          exact ih hi fun j b hb hne => hothers (j + 1) b hb fun h => hne (Nat.succ.inj h)

theorem count_passingWeights (minWeight denyWeight w : ℕ) (options : List ProposalOption) :
    (passingWeights minWeight denyWeight options).count w =
      options.countP fun o => passes minWeight denyWeight o && o.voteWeight == w := by
  rw [passingWeights, List.count, List.countP_map, List.countP_filter]
  exact List.countP_congr fun o _ => by simp [and_comm]

/-- More weight passes, too. -/
theorem passes_mono {minWeight denyWeight : ℕ} {o o' : ProposalOption}
    (h : passes minWeight denyWeight o = true) (hle : o.voteWeight ≤ o'.voteWeight) :
    passes minWeight denyWeight o' = true := by
  have := of_decide_eq_true h
  exact decide_eq_true ⟨by omega, by omega⟩

/-- The winner has the best weight. -/
theorem Wins.weight_eq {minWeight denyWeight : ℕ} {options : List ProposalOption} {best : Best}
    {i : ℕ} {o : ProposalOption} (h : Wins minWeight denyWeight options i)
    (hbest : best.Summarizes (passingWeights minWeight denyWeight options))
    (hi : options[i]? = some o) : o.voteWeight = best.weight := by
  obtain ⟨o, ho, hpass, hmore⟩ := h
  rw [hi] at ho
  cases ho
  have hmem : o.voteWeight ∈ passingWeights minWeight denyWeight options :=
    List.mem_map.mpr ⟨o, List.mem_filter.mpr ⟨List.mem_of_getElem? hi, hpass⟩, rfl⟩
  have hle := hbest.le _ hmem
  have hpos := pos_of_passes hpass
  obtain ⟨o', ho', hw⟩ := List.mem_map.mp (hbest.mem (by omega))
  obtain ⟨j, hj⟩ := List.getElem?_of_mem (List.mem_filter.mp ho').1
  by_cases hji : j = i
  · rw [hji, hi] at hj
    cases hj
    exact hw
  · have := hmore j o' hj hji
    omega

/-- One option has the best weight exactly if it wins. -/
theorem count_eq_one_iff {minWeight denyWeight : ℕ} {options : List ProposalOption} {best : Best}
    (hbest : best.Summarizes (passingWeights minWeight denyWeight options)) :
    best.count = 1 ↔ ∃ i, Wins minWeight denyWeight options i := by
  rw [hbest.count_eq, count_passingWeights]
  constructor
  · intro hone
    obtain ⟨o, ho, hp⟩ := List.countP_pos_iff.mp (hone ▸ Nat.one_pos)
    rw [Bool.and_eq_true, beq_iff_eq] at hp
    obtain ⟨i, hi⟩ := List.getElem?_of_mem ho
    refine ⟨i, o, hi, hp.1, fun j o' hj hne => ?_⟩
    -- another option with this weight would pass, and be counted as well
    by_contra hle
    have hpass := passes_mono hp.1 (not_lt.mp hle)
    have hmem : o'.voteWeight ∈ passingWeights minWeight denyWeight options :=
      List.mem_map.mpr ⟨o', List.mem_filter.mpr ⟨List.mem_of_getElem? hj, hpass⟩, rfl⟩
    have heq : o'.voteWeight = best.weight :=
      le_antisymm (hbest.le _ hmem) (hp.2 ▸ not_lt.mp hle)
    have htwo := two_le_countP (p := fun o => passes minWeight denyWeight o &&
      o.voteWeight == best.weight) hne hj hi (by simp [hpass, heq]) (by simp [hp])
    omega
  · rintro ⟨i, hwins⟩
    obtain ⟨o, hi, hpass, hmore⟩ := id hwins
    have hsame := hwins.weight_eq hbest hi
    refine countP_eq_one hi (by simp [hpass, hsame]) fun k b hk hne => ?_
    have := hmore k b hk hne
    simp only [Bool.and_eq_false_iff, beq_eq_false_iff_ne, ne_eq]
    right
    omega

/-- No option is counted exactly if none passes. -/
theorem count_eq_zero_iff {minWeight denyWeight : ℕ} {options : List ProposalOption} {best : Best}
    (hbest : best.Summarizes (passingWeights minWeight denyWeight options)) :
    best.count = 0 ↔ ∀ o ∈ options, ¬ passes minWeight denyWeight o = true := by
  rw [hbest.count_eq, List.count_eq_zero]
  constructor
  · intro hnone o ho hpass
    have hmem : o.voteWeight ∈ passingWeights minWeight denyWeight options :=
      List.mem_map.mpr ⟨o, List.mem_filter.mpr ⟨ho, hpass⟩, rfl⟩
    have hle := hbest.le _ hmem
    have hpos := pos_of_passes hpass
    exact hnone (hbest.mem (by omega))
  · intro hnone hmem
    obtain ⟨o, ho, -⟩ := List.mem_map.mp hmem
    exact hnone o (List.mem_filter.mp ho).1 (List.mem_filter.mp ho).2

/-! ### The results and the state -/

/-- A survey is completed, whatever its result is. -/
def stateUnless (denyVoteWeight : Option ℕ) (state : ProposalState) : ProposalState :=
  if denyVoteWeight = none then .Completed else state

theorem resolveFinalVoteState_cases {p p' : ProposalV2} {maxVoteWeight : ℕ}
    {voteThreshold : VoteThreshold} {state : ProposalState}
    (h : p.resolveFinalVoteState maxVoteWeight voteThreshold = .ok (p', state)) :
    ∃ minWeight best, getMinVoteThresholdWeight voteThreshold maxVoteWeight = .ok minWeight ∧
      Best.Summarizes best
        (passingWeights minWeight (p.denyVoteWeight.getD 0) p.options) ∧
      p' = { p with
        options := (resolveState p.voteType (p.options.map fun o =>
          o.withResult (resultOf minWeight (p.denyVoteWeight.getD 0) o)) best).1 } ∧
      state = stateUnless p.denyVoteWeight (resolveState p.voteType (p.options.map fun o =>
        o.withResult (resultOf minWeight (p.denyVoteWeight.getD 0) o)) best).2 := by
  simp only [resolveFinalVoteState, bind_eq_ok, unwrap_eq_ok, Except.ok.injEq,
    Prod.mk.injEq] at h
  obtain ⟨minWeight, hmin, ⟨options, best⟩, hoptions, rfl, rfl⟩ := h
  have hstart : Best.Summarizes { weight := 0, count := 0 } [] :=
    ⟨fun _ h => absurd h List.not_mem_nil, fun h => absurd h (lt_irrefl 0), rfl⟩
  obtain ⟨rfl, hbest⟩ := resolveOptions_ok hstart hoptions
  exact ⟨minWeight, best, hmin, hbest, rfl, rfl⟩

/-- A multiple choice: every option is decided for itself. -/
theorem resolveFinalVoteState_multi {p p' : ProposalV2} {maxVoteWeight minWeight : ℕ}
    {voteThreshold : VoteThreshold} {state : ProposalState}
    (hkind : p.voteType ≠ .SingleChoice)
    (hmin : getMinVoteThresholdWeight voteThreshold maxVoteWeight = .ok minWeight)
    (h : p.resolveFinalVoteState maxVoteWeight voteThreshold = .ok (p', state)) :
    p'.options = (p.options.map fun o =>
        o.withResult (resultOf minWeight (p.denyVoteWeight.getD 0) o)) ∧
      state = stateUnless p.denyVoteWeight
        (if ∃ o ∈ p.options, passes minWeight (p.denyVoteWeight.getD 0) o = true then .Succeeded
          else .Defeated) := by
  obtain ⟨minWeight', best, hmin', hbest, rfl, rfl⟩ := resolveFinalVoteState_cases h
  rw [hmin] at hmin'
  cases hmin'
  have hzero := count_eq_zero_iff hbest
  unfold resolveState
  by_cases hnone : best.count = 0
  · rw [if_pos hnone, if_neg]
    · exact ⟨rfl, rfl⟩
    · rintro ⟨o, ho, hpass⟩
      exact hzero.mp hnone o ho hpass
  · have hpass : ∃ o ∈ p.options, passes minWeight (p.denyVoteWeight.getD 0) o = true := by
      by_contra hpass
      exact hnone (hzero.mpr fun o ho hp => hpass ⟨o, ho, hp⟩)
    rw [if_neg hnone, if_pos hpass]
    cases hv : p.voteType with
    | SingleChoice => exact absurd hv hkind
    | MultiChoice => exact ⟨rfl, rfl⟩

/-- A single choice with a winner: the winner succeeds, and no other option. -/
theorem resolveFinalVoteState_winner {p p' : ProposalV2} {maxVoteWeight minWeight i : ℕ}
    {voteThreshold : VoteThreshold} {state : ProposalState}
    (hsingle : p.voteType = .SingleChoice)
    (hmin : getMinVoteThresholdWeight voteThreshold maxVoteWeight = .ok minWeight)
    (hwins : Wins minWeight (p.denyVoteWeight.getD 0) p.options i)
    (h : p.resolveFinalVoteState maxVoteWeight voteThreshold = .ok (p', state)) :
    (∀ j : ℕ, p'.options[j]? = (p.options[j]?).map
        (·.withResult (if j = i then .Succeeded else .Defeated))) ∧
      state = stateUnless p.denyVoteWeight .Succeeded := by
  obtain ⟨minWeight', best, hmin', hbest, rfl, rfl⟩ := resolveFinalVoteState_cases h
  rw [hmin] at hmin'
  cases hmin'
  have hone := (count_eq_one_iff hbest).mpr ⟨i, hwins⟩
  simp only [resolveState, hone, hsingle, Nat.one_ne_zero, lt_irrefl, if_false]
  refine ⟨fun j => ?_, trivial⟩
  obtain ⟨o, hi, -, hmore⟩ := id hwins
  have hweight := hwins.weight_eq hbest hi
  rw [coerceOptions, List.getElem?_map, List.getElem?_map, Option.map_map]
  cases hj : p.options[j]? with
  | none => rfl
  | some o' =>
      by_cases hji : j = i
      · rw [hji, hi] at hj
        cases hj
        simp [ProposalOption.withResult, hweight, hji]
      · have hless := hmore j o' hj hji
        simp only [ProposalOption.withResult, Option.map_some, Function.comp_apply, hji, if_false]
        rw [if_neg (by omega)]

/-- A single choice without one is defeated. -/
theorem resolveFinalVoteState_no_winner {p p' : ProposalV2} {maxVoteWeight minWeight : ℕ}
    {voteThreshold : VoteThreshold} {state : ProposalState}
    (hsingle : p.voteType = .SingleChoice)
    (hmin : getMinVoteThresholdWeight voteThreshold maxVoteWeight = .ok minWeight)
    (hnone : ¬ ∃ i, Wins minWeight (p.denyVoteWeight.getD 0) p.options i)
    (h : p.resolveFinalVoteState maxVoteWeight voteThreshold = .ok (p', state)) :
    (∀ o ∈ p'.options, o.voteResult = .Succeeded → o.voteWeight = u64Max) ∧
      state = stateUnless p.denyVoteWeight .Defeated := by
  obtain ⟨minWeight', best, hmin', hbest, rfl, rfl⟩ := resolveFinalVoteState_cases h
  rw [hmin] at hmin'
  cases hmin'
  have hone : best.count ≠ 1 := fun hone => hnone ((count_eq_one_iff hbest).mp hone)
  unfold resolveState
  by_cases hzero : best.count = 0
  · rw [if_pos hzero]
    refine ⟨fun o ho hresult => ?_, rfl⟩
    obtain ⟨o', ho', rfl⟩ := List.mem_map.mp ho
    have hfails := (count_eq_zero_iff hbest).mp hzero o' ho'
    rw [ProposalOption.withResult, resultOf, if_neg hfails] at hresult
    cases hresult
  · rw [if_neg hzero, hsingle]
    simp only
    rw [if_pos (by omega)]
    refine ⟨fun o ho hresult => ?_, rfl⟩
    obtain ⟨o', -, rfl⟩ := List.mem_map.mp ho
    by_contra hne
    simp only [if_neg hne] at hresult
    cases hresult

/-! ### It is always found -/

theorem Best.update_total {best : Best} (v : ℕ) (h : best.count < u16Max) :
    ∃ best', best.update v = .ok best' ∧ best'.count ≤ best.count + 1 := by
  unfold Best.update
  split
  · exact ⟨_, rfl, Nat.le_add_left _ _⟩
  · split
    · have hsum : unwrapAdd u16Max best.count 1 = .ok (best.count + 1) :=
        unwrapAdd_eq_ok.mpr ⟨h, rfl⟩
      rw [hsum]
      exact ⟨_, rfl, le_rfl⟩
    · exact ⟨_, rfl, Nat.le_succ _⟩

/-- The first loop does not overflow its count. -/
theorem resolveOptions_total {minWeight denyWeight : ℕ} {best : Best}
    {options : List ProposalOption} (h : best.count + options.length ≤ u16Max) :
    ∃ result, resolveOptions minWeight denyWeight best options = .ok result := by
  induction options generalizing best with
  | nil => exact ⟨_, rfl⟩
  | cons o rest ih =>
      rw [List.length_cons] at h
      unfold resolveOptions
      split
      · have hroom : best.count < u16Max := by omega
        obtain ⟨best₁, hupdate, hcount⟩ := Best.update_total o.voteWeight hroom
        have hfits : best₁.count + rest.length ≤ u16Max := by omega
        obtain ⟨result, hrest⟩ := ih hfits
        simp only [hupdate, ok_bind, hrest]
        exact ⟨_, rfl⟩
      · have hfits : best.count + rest.length ≤ u16Max := by omega
        obtain ⟨result, hrest⟩ := ih hfits
        simp only [ok_bind, hrest]
        exact ⟨_, rfl⟩

theorem resolveFinalVoteState_total {p : ProposalV2} {maxVoteWeight minWeight : ℕ}
    {voteThreshold : VoteThreshold}
    (hmin : getMinVoteThresholdWeight voteThreshold maxVoteWeight = .ok minWeight)
    (hlength : p.options.length ≤ u16Max) :
    ∃ p' state, p.resolveFinalVoteState maxVoteWeight voteThreshold = .ok (p', state) := by
  have hroom : Best.count { weight := 0, count := 0 } + p.options.length ≤ u16Max := by
    rwa [Nat.zero_add]
  have htotal : ∃ result, resolveOptions minWeight (p.denyVoteWeight.getD 0)
      { weight := 0, count := 0 } p.options = .ok result := resolveOptions_total hroom
  obtain ⟨⟨options, best⟩, hoptions⟩ := htotal
  simp only [resolveFinalVoteState, unwrap_eq_ok.mpr hmin, ok_bind, hoptions]
  exact ⟨_, _, rfl⟩

/-- **Who wins a vote.** The final state is always found. Of a single choice the option that passes
with more weight than every other one succeeds, and no other does; without such an option, so also
in a tie, the proposal is defeated. The options of a multiple choice are decided each for itself.
A survey, which cannot be rejected, is completed in any case. -/
theorem resolveFinalVoteState_spec {p : ProposalV2} {maxVoteWeight minWeight : ℕ}
    {voteThreshold : VoteThreshold}
    (hmin : getMinVoteThresholdWeight voteThreshold maxVoteWeight = .ok minWeight)
    (hlength : p.options.length ≤ u16Max) :
    ∃ p' state, p.resolveFinalVoteState maxVoteWeight voteThreshold = .ok (p', state) ∧
      (p.voteType = .SingleChoice →
        (∀ i, Wins minWeight (p.denyVoteWeight.getD 0) p.options i →
          (∀ j : ℕ, p'.options[j]? = (p.options[j]?).map
            (·.withResult (if j = i then .Succeeded else .Defeated))) ∧
          state = stateUnless p.denyVoteWeight .Succeeded) ∧
        ((¬ ∃ i, Wins minWeight (p.denyVoteWeight.getD 0) p.options i) →
          (∀ o ∈ p'.options, o.voteResult = .Succeeded → o.voteWeight = u64Max) ∧
          state = stateUnless p.denyVoteWeight .Defeated)) ∧
      (p.voteType ≠ .SingleChoice →
        p'.options = (p.options.map fun o =>
          o.withResult (resultOf minWeight (p.denyVoteWeight.getD 0) o)) ∧
        state = stateUnless p.denyVoteWeight
          (if ∃ o ∈ p.options, passes minWeight (p.denyVoteWeight.getD 0) o = true
            then .Succeeded else .Defeated)) := by
  obtain ⟨p', state, h⟩ := resolveFinalVoteState_total hmin hlength
  exact ⟨p', state, h,
    fun hsingle => ⟨fun i hwins => resolveFinalVoteState_winner hsingle hmin hwins h,
      fun hnone => resolveFinalVoteState_no_winner hsingle hmin hnone h⟩,
    fun hkind => resolveFinalVoteState_multi hkind hmin h⟩

/-- Two of three options tie. -/
def sampleTie : ProposalV2 where
  governance := 50
  governingTokenMint := 10
  state := .Voting
  tokenOwnerRecord := { governingTokenMint := 10, governingTokenOwner := 100 }
  voteType := .SingleChoice
  options := [{ voteWeight := 7 }, { voteWeight := 7 }, { voteWeight := 2 }]
  denyVoteWeight := some 4
  draftAt := 0

theorem resolveFinalVoteState_spec_sampleTie :
    ∃ p' state, sampleTie.resolveFinalVoteState 20 (.YesVotePercentage 30) = .ok (p', state) ∧
      (∀ o ∈ p'.options, o.voteResult = .Succeeded → o.voteWeight = u64Max) ∧
      state = .Defeated := by
  have hmin : getMinVoteThresholdWeight (.YesVotePercentage 30) 20 = .ok 6 := rfl
  have hlength : sampleTie.options.length ≤ u16Max := by decide
  have hnone : ¬ ∃ i, Wins 6 4 sampleTie.options i := by
    rintro ⟨i, o, ho, hpass, hmore⟩
    have hpos := pos_of_passes hpass
    by_cases hi : i = 0
    · have := hmore 1 _ rfl (by omega)
      rw [hi] at ho
      cases ho
      omega
    · have hless := hmore 0 _ rfl (Ne.symm hi)
      have hle : ∀ o ∈ sampleTie.options, o.voteWeight ≤ 7 := by decide
      exact absurd (hle o (List.mem_of_getElem? ho)) (not_le.mpr hless)
  obtain ⟨p', state, h, hsingle, -⟩ := resolveFinalVoteState_spec hmin hlength
  exact ⟨p', state, h, (hsingle rfl).2 hnone⟩

end ProposalV2

end IndexDtf.Governance
