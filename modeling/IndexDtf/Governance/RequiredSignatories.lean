import IndexDtf.Governance.SelfGovernance

/-!
# IndexDtf.Governance.RequiredSignatories

**Required signatories sign.** A governance can require signatories of its proposals, but the
program only counts them: as long as a draft has fewer signatories than are required, only a
required one is added, and nobody signs before there are enough. No signatory is added twice, so
while the requirements stay the first ones are all of the required ones.

* `InOrder` — a proposal has no other signatories, or all of the required ones;
* `RequiredFirst` — what holds of a realm for that, and what keeps it;
* `required_signed` — a vote starts when all of them have signed.
-/

namespace IndexDtf.Governance

open Lib

namespace Dao

section

variable {governance proposal : Pubkey} {governances : Store Pubkey GovernanceV2}
  {required required' : Store RequiredSignatorySeeds RequiredSignatory}
  {proposals : Store Pubkey ProposalV2}
  {signatories signatories' : Store SignatoryRecordSeeds SignatoryRecordV2}

/-! ### Counting signatories -/

/-- All signatories of a proposal are required. -/
def OnlyRequired (governance proposal : Pubkey)
    (required : Store RequiredSignatorySeeds RequiredSignatory)
    (signatories : Store SignatoryRecordSeeds SignatoryRecordV2) : Prop :=
  ∀ signatory, ⟨proposal, signatory⟩ ∈ signatories → ⟨governance, signatory⟩ ∈ required

/-- All required ones are signatories of the proposal. -/
def AllRequired (governance proposal : Pubkey)
    (required : Store RequiredSignatorySeeds RequiredSignatory)
    (signatories : Store SignatoryRecordSeeds SignatoryRecordV2) : Prop :=
  ∀ signatory, ⟨governance, signatory⟩ ∈ required → ⟨proposal, signatory⟩ ∈ signatories

/-- Required signatories, as many as there are, are all of them. -/
theorem OnlyRequired.allRequired {g : GovernanceV2} {p : ProposalV2}
    (h : OnlyRequired governance proposal required signatories)
    (hr : Requirements governances required) (hs : SignOffs proposals signatories)
    (hg : governances.lookup governance = some g) (hp : proposals.lookup proposal = some p)
    (hcount : g.requiredSignatoriesCount ≤ p.signatoriesCount) :
    AllRequired governance proposal required signatories := by
  intro signatory hsignatory
  obtain ⟨data, hdata⟩ := Store.exists_lookup_of_mem hsignatory
  rw [hr.counted.eq_count hg, hs.counted.eq_count hp] at hcount
  have hmaps : ∀ (k : SignatoryRecordSeeds) s, signatories.lookup k = some s →
      k.proposal = proposal ∧ True → ∃ data, required.lookup ⟨governance, k.signatory⟩ =
        some data ∧ governance = governance ∧ True := by
    rintro ⟨_, s⟩ _ hrecord ⟨rfl, -⟩
    obtain ⟨_, hrequired⟩ := Store.exists_lookup_of_mem (h s (Store.mem_of_lookup hrecord))
    exact ⟨_, hrequired, rfl, trivial⟩
  have hinj : ∀ (k k' : SignatoryRecordSeeds) s s', signatories.lookup k = some s →
      signatories.lookup k' = some s' → k.proposal = proposal ∧ True →
      k'.proposal = proposal ∧ True →
      (⟨governance, k.signatory⟩ : RequiredSignatorySeeds) = ⟨governance, k'.signatory⟩ →
      k = k' := by
    rintro ⟨_, _⟩ ⟨_, _⟩ _ _ - - ⟨rfl, -⟩ ⟨rfl, -⟩ heq
    cases heq
    rfl
  obtain ⟨⟨_, _⟩, _, hrecord, ⟨rfl, -⟩, heq⟩ :=
    Store.exists_of_count_le hmaps hinj hcount hdata ⟨rfl, trivial⟩
  cases heq
  exact Store.mem_of_lookup hrecord

/-- When a proposal is voted on, each of its signatories has signed. -/
theorem SignOffs.signedOff {p : ProposalV2} {signatory : Pubkey} {s : SignatoryRecordV2}
    (h : SignOffs proposals signatories) (hp : proposals.lookup proposal = some p)
    (hvoting : p.votingAt ≠ none) (hs : signatories.lookup ⟨proposal, signatory⟩ = some s) :
    s.signedOff = true := by
  have hcount := (h.stage _ _ hp).voting hvoting
  rw [h.signed.eq_count hp, h.counted.eq_count hp] at hcount
  exact (Store.of_count_eq (fun _ _ _ hsigned => ⟨hsigned.1, trivial⟩) hcount hs
    ⟨rfl, trivial⟩).2

/-! ### Required signatories come first -/

/-- The signatories of a proposal are required ones, or all of the required ones are among them;
and these are when it is voted on. -/
structure InOrder (governance proposal : Pubkey)
    (required : Store RequiredSignatorySeeds RequiredSignatory)
    (signatories : Store SignatoryRecordSeeds SignatoryRecordV2) (votingAt : Option ℕ) : Prop where
  first : OnlyRequired governance proposal required signatories ∨
    AllRequired governance proposal required signatories
  voted : votingAt ≠ none → AllRequired governance proposal required signatories

namespace InOrder

variable {g : GovernanceV2} {p : ProposalV2}

/-- A signatory is added, a required one while there are too few. -/
theorem add {signatory : Pubkey} {s : SignatoryRecordV2}
    (h : InOrder governance proposal required signatories p.votingAt)
    (hr : Requirements governances required) (hs : SignOffs proposals signatories)
    (hg : governances.lookup governance = some g) (hp : proposals.lookup proposal = some p)
    (hrequired : p.signatoriesCount < g.requiredSignatoriesCount →
      ⟨governance, signatory⟩ ∈ required) :
    InOrder governance proposal required (signatories.insert ⟨proposal, signatory⟩ s)
      p.votingAt := by
  have hgrows : AllRequired governance proposal required signatories →
      AllRequired governance proposal required (signatories.insert ⟨proposal, signatory⟩ s) :=
    fun hall other hother => Store.mem_insert_of_mem (hall other hother)
  refine ⟨?_, fun hvoting => hgrows (h.voted hvoting)⟩
  rcases h.first with honly | hall
  · by_cases hless : p.signatoriesCount < g.requiredSignatoriesCount
    · refine .inl fun other hother => ?_
      rcases (AList.mem_insert _).mp hother with heq | hother
      · cases heq
        exact hrequired hless
      · exact honly other hother
    · -- there are enough, so these are all
      have hcount : g.requiredSignatoriesCount ≤ p.signatoriesCount := by omega
      exact .inr (hgrows (honly.allRequired hr hs hg hp hcount))
  · exact .inr (hgrows hall)

/-- A vote starts, with as many signatories as are required. -/
theorem start {votingAt : Option ℕ}
    (h : InOrder governance proposal required signatories p.votingAt)
    (hr : Requirements governances required) (hs : SignOffs proposals signatories)
    (hg : governances.lookup governance = some g) (hp : proposals.lookup proposal = some p)
    (hcount : g.requiredSignatoriesCount ≤ p.signatoriesCount) :
    InOrder governance proposal required signatories votingAt := by
  have hall : AllRequired governance proposal required signatories := by
    rcases h.first with honly | hall
    · exact honly.allRequired hr hs hg hp hcount
    · exact hall
  exact ⟨.inr hall, fun _ => hall⟩

end InOrder

/-- The required signatories of a governance come first on a proposal, if it is one of its. -/
def RequiredFirst (governance proposal : Pubkey)
    (required : Store RequiredSignatorySeeds RequiredSignatory)
    (proposals : Store Pubkey ProposalV2)
    (signatories : Store SignatoryRecordSeeds SignatoryRecordV2) : Prop :=
  ∀ p, proposals.lookup proposal = some p → p.governance = governance →
    InOrder governance proposal required signatories p.votingAt

namespace RequiredFirst

theorem congr (h : RequiredFirst governance proposal required proposals signatories)
    (hrequired : ∀ signatory, (⟨governance, signatory⟩ ∈ required' ↔
      ⟨governance, signatory⟩ ∈ required))
    (hsignatories : ∀ signatory, (⟨proposal, signatory⟩ ∈ signatories' ↔
      ⟨proposal, signatory⟩ ∈ signatories)) :
    RequiredFirst governance proposal required' proposals signatories' := by
  intro p hp hgovernance
  obtain ⟨hfirst, hvoted⟩ := h p hp hgovernance
  constructor
  · simpa only [OnlyRequired, AllRequired, hrequired, hsignatories] using hfirst
  · simpa only [AllRequired, hrequired, hsignatories] using hvoted

/-- A proposal is written, this one or another. -/
theorem insert {key : Pubkey} {p' : ProposalV2}
    (hother : key ≠ proposal →
      RequiredFirst governance proposal required proposals signatories)
    (hself : key = proposal → p'.governance = governance →
      InOrder governance proposal required signatories p'.votingAt) :
    RequiredFirst governance proposal required (proposals.insert key p') signatories := by
  intro p hp hgovernance
  rw [Store.lookup_insert_eq] at hp
  split at hp
  · next heq =>
      cases hp
      exact hself heq.symm hgovernance
  · next hne => exact hother (Ne.symm hne) p hp hgovernance

/-- A write that starts no vote. -/
theorem write {key : Pubkey} {p p' : ProposalV2}
    (h : RequiredFirst governance proposal required proposals signatories)
    (hp : proposals.lookup key = some p) (hgovernance : p'.governance = p.governance)
    (hvoting : p'.votingAt = p.votingAt) :
    RequiredFirst governance proposal required (proposals.insert key p') signatories := by
  refine insert (fun _ => h) ?_
  rintro rfl hof
  rw [hvoting]
  exact h p hp (hgovernance.symm.trans hof)

end RequiredFirst

/-- The data of a required signatory name its account. -/
theorem Requirements.mem_of_lookup {k : RequiredSignatorySeeds} {data : RequiredSignatory}
    (h : Requirements governances required) (hk : required.lookup k = some data) :
    ⟨data.governance, data.signatory⟩ ∈ required := by
  obtain ⟨hgovernance, hsignatory⟩ := h.linked k data hk
  rw [hgovernance, hsignatory]
  exact Store.mem_of_lookup hk

end

variable {governance proposal : Pubkey} {d d' : Dao}

theorem Effect.requiredFirst (hd : Consistent d)
    (hr : Requirements d.governances d.requiredSignatories)
    (hf : RequiredFirst governance proposal d.requiredSignatories d.proposals d.signatoryRecords)
    (h : Effect d d') :
    RequiredFirst governance proposal d'.requiredSignatories d'.proposals
      d'.signatoryRecords := by
  cases h with
  | frame h => rwa [h.requiredSignatories_eq, h.proposals_eq, h.signatoryRecords_eq]
  | create hp =>
      refine .insert (fun _ => hf) ?_
      rintro rfl -
      -- a draft has no signatories
      refine ⟨.inl fun signatory hmem => ?_, fun hvoting => absurd rfl hvoting⟩
      obtain ⟨s, hs⟩ := Store.exists_lookup_of_mem hmem
      exact absurd (hd.linked.signatories _ s hs) (AList.lookup_eq_none.mp hp)
  | @addSignatory of key signatory p g hp hstate hof hg hrequired hnew =>
      refine .insert (fun hne => hf.congr (fun _ => .rfl) fun s => ?_) ?_
      · rw [AList.mem_insert]
        refine or_iff_right ?_
        intro heq
        exact hne (congrArg SignatoryRecordSeeds.proposal heq).symm
      · rintro rfl hgovernance
        obtain rfl : of = governance := hof.symm.trans hgovernance
        refine (hf p hp hof).add hr hd.signOffs hg hp fun hless => ?_
        obtain ⟨k, data, hdata, rfl, rfl⟩ := hrequired hless
        exact hr.mem_of_lookup hdata
  | signOff hp hstate hs =>
      refine (hf.congr (fun _ => .rfl) fun signatory => ?_).write hp rfl rfl
      rw [AList.mem_insert]
      exact or_iff_right_of_imp fun heq => heq ▸ Store.mem_of_lookup hs
  | beginSignOff hp => exact hf.write hp rfl rfl
  | @startVoting of key p g hp hstate hof hg hrequired =>
      refine .insert (fun _ => hf) ?_
      rintro rfl hgovernance
      obtain rfl : of = governance := hof.symm.trans hgovernance
      exact (hf p hp hof).start hr hd.signOffs hg hp hrequired
  | insertTransaction hp => exact hf.write hp rfl rfl
  | removeTransaction hp => exact hf.write hp rfl rfl
  | cast hp hstate ht hnew hmint hweight hvalid hadds =>
      rw [hadds.rest_eq]
      exact hf.write hp rfl rfl
  | withdraw hp hstate ht hv hproposal howner hmint hlive hadds =>
      have heq := hadds.rest_eq
      exact hf.write hp (by rw [heq]) (by rw [heq])
  | relinquish => exact hf
  | close hp hcloses =>
      rcases hcloses with ⟨-, rfl⟩ | ⟨-, _, -, hdecides⟩
      · exact hf.write hp rfl rfl
      · have heq := hdecides.rest_eq
        exact hf.write hp (by rw [heq]) (by rw [heq])
  | complete hp => exact hf.write hp rfl rfl

theorem Execution.requiredFirst {other : Pubkey} {k : ProposalTransactionSeeds}
    (hf : RequiredFirst governance proposal d.requiredSignatories d.proposals d.signatoryRecords)
    (h : Execution other k d d') :
    RequiredFirst governance proposal d'.requiredSignatories d'.proposals
      d'.signatoryRecords := by
  cases h with
  | execute hx hgovernance hafter =>
      obtain ⟨q, hq, -, hproceeds⟩ := hx.proceeds hafter
      exact hf.write hq (by rw [hproceeds.rest_eq]) (by rw [hproceeds.rest_eq])

/-- The requirements of another governance are amended. -/
theorem Amendment.requiredFirst
    (hf : RequiredFirst governance proposal d.requiredSignatories d.proposals d.signatoryRecords)
    (h : Amendment d d') (hsame : SameSettings governance d d') :
    RequiredFirst governance proposal d'.requiredSignatories d'.proposals
      d'.signatoryRecords := by
  have hrequired : ∀ signatory, (⟨governance, signatory⟩ ∈ d'.requiredSignatories ↔
      ⟨governance, signatory⟩ ∈ d.requiredSignatories) := by
    intro signatory
    rw [← AList.lookup_isSome, hsame.required, AList.lookup_isSome]
  cases h with
  | add => exact hf.congr hrequired fun _ => .rfl
  | remove => exact hf.congr hrequired fun _ => .rfl

/-! ### Runs -/

theorem process_requiredFirst {i : GovernanceInstruction} (hd : Consistent d)
    (hr : Requirements d.governances d.requiredSignatories) (hg : governance ∈ d.governances)
    (hunsigned : governance ∉ i.signers) (h : d.process i = .ok d')
    (hf : RequiredFirst governance proposal d.requiredSignatories d.proposals
      d.signatoryRecords) :
    RequiredFirst governance proposal d'.requiredSignatories d'.proposals
      d'.signatoryRecords := by
  cases hi : i.amends with
  | true =>
      exact (process_amendment hi h).requiredFirst hf (process_sameSettings hr hg hunsigned h)
  | false =>
      refine ((process_effects hi h).inv (I := fun d => (Consistent d ∧
        Requirements d.governances d.requiredSignatories) ∧ RequiredFirst governance proposal
          d.requiredSignatories d.proposals d.signatoryRecords) ?_ ⟨⟨hd, hr⟩, hf⟩).2
      rintro d₁ d₂ ⟨⟨hd₁, hr₁⟩, hf₁⟩ heffect
      exact ⟨⟨Change.consistent hd₁ (.effect heffect), heffect.requirements hr₁⟩,
        heffect.requiredFirst hd₁ hr₁ hf₁⟩

theorem step_requiredFirst {i : Instruction} (hd : Consistent d)
    (hr : Requirements d.governances d.requiredSignatories) (hg : governance ∈ d.governances)
    (hnone : ∀ k, .execute governance k ∉ d.events i) (h : d.step i = .ok d')
    (hf : RequiredFirst governance proposal d.requiredSignatories d.proposals
      d.signatoryRecords) :
    RequiredFirst governance proposal d'.requiredSignatories d'.proposals
      d'.signatoryRecords := by
  refine step_other (I := fun d => RequiredFirst governance proposal d.requiredSignatories
    d.proposals d.signatoryRecords) ?_ ?_ hd hr hg hnone h hf
  · intro d₁ log d₂ hd₁ hr₁ hg₁ hunsigned h hf₁
    cases h with
    | @process i _ h =>
        have hi := hunsigned i (List.mem_singleton.mpr rfl)
        exact process_requiredFirst hd₁ hr₁ hg₁ hi h hf₁
    | insertTransaction h => exact (insertTransaction_effect h).requiredFirst hd₁ hr₁ hf₁
    | execute h => exact h.requiredFirst hf₁
  · intro d₁ d₂ hd₁ hr₁ h hf₁
    cases h with
    | token h => exact (Effect.frame (stepToken_frame h)).requiredFirst hd₁ hr₁ hf₁
    | tick => exact hf₁

/-- **Required signatories sign.** As long as no transaction of a governance is executed, which
could change its requirements, each proposal it gets is voted on only when every signatory that it
requires has signed. -/
theorem required_signed (hd : Reachable d) (hnew : proposal ∉ d.proposals)
    {inputs : List Instruction} (hnone : ∀ k, .execute governance k ∉ d.history inputs)
    {p : ProposalV2} (hp : (run step d inputs).proposals.lookup proposal = some p)
    (hgovernance : p.governance = governance) (hvoting : p.votingAt ≠ none)
    {signatory : Pubkey} (hrequired : ⟨governance, signatory⟩ ∈ d.requiredSignatories) :
    ∃ s, (run step d inputs).signatoryRecords.lookup ⟨proposal, signatory⟩ = some s ∧
      s.signedOff = true := by
  obtain ⟨data, hdata⟩ := Store.exists_lookup_of_mem hrequired
  have hg : governance ∈ d.governances := hd.requirements.mem _ data hdata
  -- the requirements stay, and with them the order of the signatories
  have hafter : Reachable (run step d inputs) ∧ SameSettings governance d (run step d inputs) ∧
      RequiredFirst governance proposal (run step d inputs).requiredSignatories
        (run step d inputs).proposals (run step d inputs).signatoryRecords := by
    refine trace_keeps_of_mem events (I := fun d' => Reachable d' ∧
      SameSettings governance d d' ∧ RequiredFirst governance proposal d'.requiredSignatories
        d'.proposals d'.signatoryRecords) ?_ ⟨hd, .refl governance d, fun p hp => ?_⟩
    · rintro d₁ i d₂ hlog ⟨hd₁, hsame, hf⟩ h
      have hnone₁ : ∀ k, .execute governance k ∉ d₁.events i := fun k hk => hnone k (hlog _ hk)
      have hg₁ := hsame.mem hg
      exact ⟨Lib.Reachable.step hd₁ h,
        hsame.trans (step_sameSettings hd₁.consistent hd₁.requirements hg₁ hnone₁ h),
        step_requiredFirst hd₁.consistent hd₁.requirements hg₁ hnone₁ h hf⟩
    · exact absurd (Store.mem_of_lookup hp) hnew
  obtain ⟨hreach, hsame, hf⟩ := hafter
  have hstill : ⟨governance, signatory⟩ ∈ (run step d inputs).requiredSignatories := by
    rwa [← AList.lookup_isSome, hsame.required, AList.lookup_isSome]
  have hall := (hf p hp hgovernance).voted hvoting
  obtain ⟨s, hs⟩ := Store.exists_lookup_of_mem (hall signatory hstill)
  exact ⟨s, hs, hreach.consistent.signOffs.signedOff hp hvoting hs⟩

/-- After the sample run the second member is required, and signs the next proposal. -/
def signedRun : List Instruction :=
  [ .governance (.proposal (.createProposal 71 50 ⟨10, 100⟩ 10 ⟨100, true⟩ 100 none
      .SingleChoice ["spend"] true)),
    .governance (.proposal (.addSignatory 50 71 101 (some ⟨50, 101⟩) none)),
    .governance (.proposal (.signOffProposal 50 71 ⟨101, true⟩ none)) ]

theorem required_signed_signedRun :
    ∃ s, (run step (sampleAfter 14) signedRun).signatoryRecords.lookup ⟨71, 101⟩ = some s ∧
      s.signedOff = true := by
  have hprocessed : ∀ e ∈ (sampleAfter 14).history signedRun, e.processed.isSome = true := by
    decide
  exact @required_signed 50 71 (sampleAfter 14) (sampleAfter_reachable 14) (by decide) signedRun
    (fun _ hk => Bool.false_ne_true (hprocessed _ hk))
    (((run step (sampleAfter 14) signedRun).proposals.lookup 71).get (by decide))
    (Option.some_get _).symm (by decide) (by decide) 101 (by decide)

end Dao

end IndexDtf.Governance
