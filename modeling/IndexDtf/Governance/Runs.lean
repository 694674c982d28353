import IndexDtf.Governance.Invocations

/-!
# IndexDtf.Governance.Runs

**Runs of a realm.** An instruction comes to its events, one after the other (`step_steps`), and
what they change keeps the invariants; so these hold in every reachable state
(`Reachable.consistent`). What they say of votes, counters and the life of a proposal is collected
here.
-/

namespace IndexDtf.Governance

open Lib

namespace Dao

/-! ### Instructions -/

/-- `process_execute_transaction`, for an instruction that was sent: no execution waits for it. -/
theorem executeTransaction_comes {d d' : Dao} {governance proposal : Pubkey}
    {transaction : ProposalTransactionSeeds} {signers : List Pubkey} (hd : Consistent d)
    (h : d.executeTransaction governance proposal transaction signers = .ok d') :
    Comes signers ∅ d (d.events (.executeTransaction governance proposal transaction signers)) d' :=
  executeTransactionBy_comes maxInvokeDepth hd (fun _ hk => absurd hk (Set.notMem_empty _)) h

/-- What the governance program has no part in: the token programs, and time. -/
inductive Outside (d : Dao) : Dao → Prop
  | token {i : TokenInstruction} {d' : Dao} (h : d.stepToken i = .ok d') : Outside d d'
  | tick (seconds slots : ℕ) :
      Outside d { d with unixTimestamp := d.unixTimestamp + seconds, slot := d.slot + slots }

theorem Outside.change {d d' : Dao} (h : Outside d d') : Change d d' := by
  cases h with
  | token h => exact .effect (.frame (stepToken_frame h))
  | tick => exact .tick (Nat.le_add_right ..)

/-- An instruction comes to its events, one after the other. -/
theorem step_steps {d d' : Dao} {i : Instruction} (hd : Consistent d) (h : d.step i = .ok d') :
    Steps Happens d (d.events i) d' ∨ d.events i = [] ∧ Outside d d' := by
  cases i with
  | governance i =>
      simp only [step, bind_eq_ok] at h
      obtain ⟨_, -, h⟩ := h
      exact .inl (.single (.process h))
  | insertTransaction =>
      simp only [step, bind_eq_ok] at h
      obtain ⟨_, -, h⟩ := h
      exact .inl (.single (.insertTransaction h))
  | executeTransaction =>
      simp only [step, bind_eq_ok] at h
      obtain ⟨_, -, h⟩ := h
      exact .inl (executeTransaction_comes hd h).steps
  | token i => exact .inr ⟨rfl, .token h⟩
  | tick seconds slots =>
      cases h
      exact .inr ⟨rfl, .tick seconds slots⟩

theorem steps_changes {d d' : Dao} {log : List Event} (h : Steps Happens d log d') :
    Changes d d' :=
  h.keeps (fun _ _ _ hchanges h => hchanges.trans h.changes) .refl

theorem step_changes {d d' : Dao} {i : Instruction} (hd : Consistent d)
    (h : d.step i = .ok d') : Changes d d' := by
  rcases step_steps hd h with hsteps | ⟨-, houtside⟩
  · exact steps_changes hsteps
  · exact .single houtside.change

/-! ### Runs -/

theorem run_changes {d : Dao} (hd : Consistent d) (inputs : List Instruction) :
    Changes d (run step d inputs) ∧ Consistent (run step d inputs) := by
  refine run_inv (I := fun d' => Changes d d' ∧ Consistent d') ?_ ⟨.refl, hd⟩
  rintro d₁ i d₂ - ⟨h₁, hd₁⟩ hi
  have hchanges := step_changes hd₁ hi
  exact ⟨h₁.trans hchanges, hchanges.consistent hd₁⟩

/-- **In every state of a realm the invariants hold.** -/
theorem Reachable.consistent {d : Dao} (h : Reachable d) : Consistent d := by
  obtain ⟨d₀, inputs, hfresh, rfl⟩ := h
  exact (run_changes hfresh.consistent inputs).2

/-! ### Votes and counters -/

/-- The weight the vote records on a proposal carry. -/
def votesFor (d : Dao) (proposal : Pubkey) (b : Ballot) : ℕ :=
  Store.total (fun k v => if k.proposal = proposal then v.weightOn b else 0) d.voteRecords

theorem Consistent.weightOf_eq {d : Dao} (hd : Consistent d) {k : Pubkey} {p : ProposalV2}
    (hp : d.proposals.lookup k = some p) (b : Ballot) : p.weightOf b = d.votesFor k b :=
  hd.tallied b k p hp

/-- **The weights of a proposal are the votes that were cast on it**, whatever was cast, withdrawn
and relinquished in which order; and while the vote goes on, none of them is relinquished. -/
theorem weightOf_eq_votesFor {d : Dao} (hd : Reachable d) {k : Pubkey} {p : ProposalV2}
    (hp : d.proposals.lookup k = some p) :
    (∀ b, p.weightOf b = d.votesFor k b) ∧
      (p.state = .Voting → ∀ kv v, d.voteRecords.lookup kv = some v → kv.proposal = k →
        v.isRelinquished = false) := by
  have hconsistent := hd.consistent
  refine ⟨hconsistent.weightOf_eq hp, fun hvoting kv v hv hkv => ?_⟩
  exact (hconsistent.votesLive kv v hv p (hkv ▸ hp)).2 hvoting

theorem weightOf_eq_votesFor_sample :
    (∀ b, ProposalV2.weightOf (((sampleAfter 10).proposals.lookup 70).get (by decide)) b =
      (sampleAfter 10).votesFor 70 b) ∧ (sampleAfter 10).votesFor 70 (.option 0) = 60 :=
  ⟨(weightOf_eq_votesFor (sampleAfter_reachable 10) (Option.some_get _).symm).1, by decide⟩

/-- **The counters are counts**: of the votes that are not relinquished, and of the active
proposals, of which nobody has more than ten. -/
theorem counters_eq {d : Dao} (hd : Reachable d) :
    (∀ k t, d.tokenOwnerRecords.lookup k = some t →
      t.unrelinquishedVotesCount = Store.count
        (fun kv v => kv.tokenOwnerRecord = k ∧ v.isRelinquished = false) d.voteRecords ∧
      t.outstandingProposalCount = Store.count
        (fun _ p => p.tokenOwnerRecord = k ∧ p.state.isActive = true) d.proposals ∧
      t.outstandingProposalCount ≤ 10) ∧
    ∀ k g, d.governances.lookup k = some g →
      g.activeProposalCount = Store.count
        (fun _ p => p.governance = k ∧ p.state.isActive = true) d.proposals := by
  have hcounted := hd.consistent.counted
  refine ⟨fun k t ht => ⟨?_, ?_, ?_⟩, fun k g hg => ?_⟩
  · exact hcounted.votes.eq_count ht
  · exact hcounted.owned.eq_count ht
  · exact hcounted.outstanding_le k t ht
  · exact hcounted.governed.eq_count hg

theorem counters_eq_sample :
    GovernanceV2.activeProposalCount (((sampleAfter 10).governances.lookup 50).get (by decide)) =
      Store.count (fun _ p => p.governance = 50 ∧ p.state.isActive = true)
        (sampleAfter 10).proposals :=
  (counters_eq (sampleAfter_reachable 10)).2 50 _ (Option.some_get _).symm

/-! ### The life of a proposal -/

/-- **A proposal only moves forward**, whatever happens to the realm: nothing happens to it in a
final state, and after the vote its weights, its results and its transactions stay. -/
theorem run_evolves {d : Dao} (hd : Reachable d) (inputs : List Instruction) {k : Pubkey}
    {p : ProposalV2} (hp : d.proposals.lookup k = some p) :
    ∃ p', (run step d inputs).proposals.lookup k = some p' ∧ p.Evolves p' :=
  (run_changes hd.consistent inputs).1.evolves hp

theorem run_evolves_sample :
    ∃ p', (run step (sampleAfter 8) (sampleRun.drop 8)).proposals.lookup 70 = some p' ∧
      ProposalV2.Evolves (((sampleAfter 8).proposals.lookup 70).get (by decide)) p' :=
  run_evolves (sampleAfter_reachable 8) (sampleRun.drop 8) (Option.some_get _).symm

/-- **What can be executed has carried the vote**: by the vote records, every option that
succeeded has reached the threshold and has more votes than the rejection, or the majority of all
that could be cast; and it is the only one of a single choice. -/
theorem approved_by_votes {d : Dao} (hd : Reachable d) {k : Pubkey} {p : ProposalV2}
    (hp : d.proposals.lookup k = some p) (happroved : p.IsApproved) :
    p.Approved ∧ ∃ maxVoteWeight voteThreshold minWeight,
      p.maxVoteWeight = some maxVoteWeight ∧ p.voteThreshold = some voteThreshold ∧
      getMinVoteThresholdWeight voteThreshold maxVoteWeight = .ok minWeight ∧
      ∀ (i : ℕ) (o : ProposalOption), p.options[i]? = some o → o.voteResult = .Succeeded →
        minWeight ≤ d.votesFor k (.option i) ∧
        (d.votesFor k .deny < d.votesFor k (.option i) ∨
          maxVoteWeight - d.votesFor k (.option i) < d.votesFor k (.option i)) := by
  have hgranted := (hd.consistent.staged k p hp).approved happroved
  have htally := hd.consistent.weightOf_eq hp
  obtain ⟨maxVoteWeight, voteThreshold, minWeight, hmax, hthreshold, hmin, hcarries⟩ :=
    hgranted.carried
  refine ⟨hgranted, maxVoteWeight, voteThreshold, minWeight, hmax, hthreshold, hmin,
    fun i o hi hresult => ?_⟩
  have hyes : o.voteWeight = d.votesFor k (.option i) := by
    rw [← htally, ProposalV2.weightOf, hi]
    rfl
  rw [← htally .deny, ← hyes]
  exact hcarries o (List.mem_of_getElem? hi) hresult

theorem approved_by_votes_sample :
    ProposalV2.Approved (((sampleAfter 12).proposals.lookup 70).get (by decide)) :=
  (approved_by_votes (sampleAfter_reachable 12) (Option.some_get _).symm (.inl (by decide))).1

end Dao

end IndexDtf.Governance
