import IndexDtf.Governance.Runs

/-!
# IndexDtf.Governance.Execution

**What is executed is what was voted on.** Only a draft is edited: from the first signature on
the transactions of a proposal stay the ones they are, whatever happens to the realm, and each of
them is executed at most once, also when transactions execute transactions.

* `SameScript` — the transactions of a proposal in two states;
* `run_sameScript` — between them the transactions of a proposal that is no draft are the same,
  and each is executed once at most;
* `executed_as_voted` — an executed transaction was already there when the vote began, and its
  option has won;
* `executedBetween_of_mem` — what is executed while an instruction runs was approved;
* `executeTransaction_iff` — it can be executed whenever its instructions can.
-/

namespace IndexDtf.Governance

open Lib

/-- What can still happen to a transaction: it is executed, once. -/
def ProposalTransactionV2.StaysOrExecuted {ι : Type} (t t' : ProposalTransactionV2 ι) : Prop :=
  t' = t ∨ t.executedAt = none ∧ ∃ executedAt,
    t' = { t with executedAt := some executedAt, executionStatus := .Success }

namespace ProposalTransactionV2.StaysOrExecuted

variable {ι : Type} {t t' t'' : ProposalTransactionV2 ι}

theorem refl (t : ProposalTransactionV2 ι) : t.StaysOrExecuted t := .inl rfl

theorem trans (h : t.StaysOrExecuted t') (h' : t'.StaysOrExecuted t'') :
    t.StaysOrExecuted t'' := by
  rcases h' with rfl | ⟨hnone, executedAt, rfl⟩
  · exact h
  · rcases h with rfl | ⟨-, _, rfl⟩
    · exact .inr ⟨hnone, executedAt, rfl⟩
    · cases hnone

theorem instructions_eq (h : t.StaysOrExecuted t') : t'.instructions = t.instructions := by
  rcases h with rfl | ⟨-, _, rfl⟩
  · rfl
  · rfl

theorem eq_of_executed (h : t.StaysOrExecuted t') (hexecuted : t.executedAt ≠ none) : t' = t :=
  h.resolve_right fun hnone => hexecuted hnone.1

end ProposalTransactionV2.StaysOrExecuted

namespace Dao

/-! ### The transactions of a proposal that is no draft -/

/-- The same transactions of a proposal, of which some may have been executed. -/
structure SameScript (proposal : Pubkey)
    (s s' : Store ProposalTransactionSeeds (ProposalTransactionV2 InstructionData)) : Prop where
  kept : ∀ k t, k.proposal = proposal → s.lookup k = some t →
    ∃ t', s'.lookup k = some t' ∧ t.StaysOrExecuted t'
  none_new : ∀ k, k.proposal = proposal → s.lookup k = none → s'.lookup k = none

namespace SameScript

variable {proposal : Pubkey}
  {s s' s'' : Store ProposalTransactionSeeds (ProposalTransactionV2 InstructionData)}

theorem refl (proposal : Pubkey)
    (s : Store ProposalTransactionSeeds (ProposalTransactionV2 InstructionData)) :
    SameScript proposal s s where
  kept _ t _ ht := ⟨t, ht, .refl t⟩
  none_new _ _ h := h

theorem trans (h : SameScript proposal s s') (h' : SameScript proposal s' s'') :
    SameScript proposal s s'' where
  kept k t hk ht := by
    obtain ⟨t', ht', hstays⟩ := h.kept k t hk ht
    obtain ⟨t'', ht'', hstays'⟩ := h'.kept k t' hk ht'
    exact ⟨t'', ht'', hstays.trans hstays'⟩
  none_new k hk hnone := h'.none_new k hk (h.none_new k hk hnone)

/-- Other transactions do not matter. -/
theorem of_others (h : ∀ k, k.proposal = proposal → s'.lookup k = s.lookup k) :
    SameScript proposal s s' where
  kept k t hk ht := ⟨t, (h k hk).trans ht, .refl t⟩
  none_new k hk hnone := (h k hk).trans hnone

/-- Nothing was there that is not there any more. -/
theorem exists_lookup (h : SameScript proposal s s') {k : ProposalTransactionSeeds}
    (hk : k.proposal = proposal) {t' : ProposalTransactionV2 InstructionData}
    (ht' : s'.lookup k = some t') : ∃ t, s.lookup k = some t ∧ t.StaysOrExecuted t' := by
  cases ht : s.lookup k with
  | none =>
      rw [h.none_new k hk ht] at ht'
      cases ht'
  | some t =>
      obtain ⟨t₁, ht₁, hstays⟩ := h.kept k t hk ht
      rw [ht'] at ht₁
      cases ht₁
      exact ⟨t, rfl, hstays⟩

end SameScript

theorem Effect.sameScript {d d' : Dao} (hd : Linked d) {proposal : Pubkey} {p : ProposalV2}
    (hproposal : d.proposals.lookup proposal = some p) (hstate : p.state ≠ .Draft)
    (h : Effect d d') : SameScript proposal d.proposalTransactions d'.proposalTransactions := by
  have hother : ∀ {proposal' : Pubkey} {q : ProposalV2}, d.proposals.lookup proposal' = some q →
      q.state = .Draft → proposal' ≠ proposal := by
    rintro proposal' q hq hdraft rfl
    rw [hproposal] at hq
    cases hq
    exact hstate hdraft
  cases h with
  | frame h =>
      rw [h.proposalTransactions_eq]
      exact .refl ..
  | insertTransaction hp hdraft =>
      refine .of_others fun k hk => AList.lookup_insert_ne ?_
      rintro rfl
      exact hother hp hdraft hk
  | removeTransaction hp hdraft ht hof =>
      refine .of_others fun k hk => AList.lookup_erase_ne ?_
      rintro rfl
      exact hother hp hdraft ((hof.symm.trans (hd.transactions _ _ ht).proposal_eq).trans hk)
  | _ => exact .refl ..

theorem Execution.sameScript {governance : Pubkey} {k : ProposalTransactionSeeds} {d d' : Dao}
    (proposal : Pubkey) (h : Execution governance k d d') :
    SameScript proposal d.proposalTransactions d'.proposalTransactions := by
  cases h with
  | execute h =>
      have ht := h.transaction_eq
      constructor
      · intro k₁ t₁ _ ht₁
        rw [Store.lookup_insert_eq]
        split
        · next heq =>
            rw [heq, ht] at ht₁
            cases ht₁
            exact ⟨_, rfl, .inr ⟨h.first, _, rfl⟩⟩
        · exact ⟨t₁, ht₁, .refl t₁⟩
      · intro k₁ _ hnone
        rw [Store.lookup_insert_eq, if_neg]
        · exact hnone
        · rintro rfl
          rw [ht] at hnone
          cases hnone

/-- What does not become a draft again keeps its transactions. -/
theorem Changes.sameScript {d d' : Dao} (h : Changes d d') (hd : Consistent d)
    {proposal : Pubkey} {p : ProposalV2} (hp : d.proposals.lookup proposal = some p)
    (hstate : p.state ≠ .Draft) :
    SameScript proposal d.proposalTransactions d'.proposalTransactions := by
  refine (h.inv (I := fun d' => (∃ q, d'.proposals.lookup proposal = some q ∧
    q.state ≠ .Draft) ∧ SameScript proposal d.proposalTransactions d'.proposalTransactions)
    ?_ hd ⟨⟨p, hp, hstate⟩, .refl ..⟩).2.2
  rintro d₁ d₂ hd₁ ⟨⟨q, hq, hstate₁⟩, hsame⟩ hchange
  refine ⟨?_, hsame.trans ?_⟩
  · obtain ⟨q', hq', hevolves⟩ := Changes.evolves (.single hchange) hq
    exact ⟨q', hq', ne_draft_of_canBecome hevolves.canBecome hstate₁⟩
  · cases hchange with
    | effect h => exact h.sameScript hd₁.linked hq hstate₁
    | amendment h =>
        rw [h.proposals_eq.2.2.2.2]
        exact .refl ..
    | execution h => exact h.sameScript proposal
    | tick => exact .refl ..

/-! ### How often a transaction is executed -/

/-- Whether a transaction was executed. -/
def isExecuted (d : Dao) (k : ProposalTransactionSeeds) : Bool :=
  (d.proposalTransactions.lookup k).any (·.executedAt.isSome)

/-- How often it was executed in a run. -/
def executions (d : Dao) (inputs : List Instruction) (k : ProposalTransactionSeeds) : ℕ :=
  (d.history inputs).countP (Event.executes k)

theorem isExecuted_eq_true {d : Dao} {k : ProposalTransactionSeeds} :
    d.isExecuted k = true ↔
      ∃ t, d.proposalTransactions.lookup k = some t ∧ t.executedAt.isSome = true :=
  Option.any_eq_true ..

/-- An execution is of a transaction that was not executed before. -/
theorem Execution.isExecuted {governance : Pubkey} {k : ProposalTransactionSeeds} {d d' : Dao}
    (h : Execution governance k d d') : d.isExecuted k = false ∧ d'.isExecuted k = true := by
  cases h with
  | execute h =>
      constructor
      · rw [Dao.isExecuted, h.transaction_eq, Option.any_some, h.first]
        rfl
      · exact isExecuted_eq_true.mpr ⟨_, AList.lookup_insert d.proposalTransactions, rfl⟩

theorem Changes.isExecuted_le {d d' : Dao} (h : Changes d d') (hd : Consistent d)
    (k : ProposalTransactionSeeds) : (d.isExecuted k).toNat ≤ (d'.isExecuted k).toNat := by
  have hkept : d.isExecuted k = true → d'.isExecuted k = true := fun hk =>
    (h.inv (I := fun d => d.isExecuted k = true) (fun d₁ d₂ hd₁ hk h => by
      obtain ⟨t, ht, hexecuted⟩ := isExecuted_eq_true.mp hk
      exact isExecuted_eq_true.mpr (h.executedKept hd₁ k t ht hexecuted)) hd hk).2
  exact Bool.toNat_le_toNat hkept

/-- Each execution leaves a mark that is found by the next one. -/
theorem Happens.executes_le {d d' : Dao} {log : List Event} (h : Happens d log d')
    (hd : Consistent d) (k : ProposalTransactionSeeds) :
    log.countP (Event.executes k) + (d.isExecuted k).toNat ≤ (d'.isExecuted k).toNat := by
  have hle := h.changes.isExecuted_le hd k
  cases h with
  | process => exact (Nat.zero_add _).trans_le hle
  | insertTransaction => exact (Nat.zero_add _).trans_le hle
  | @execute governance k' _ h =>
      rw [List.countP_singleton, Event.executes]
      by_cases hk : k' = k
      · obtain ⟨hbefore, hafter⟩ := hk ▸ h.isExecuted
        rw [hbefore, hafter, hk]
        simp
      · rw [if_neg (by simpa using hk), Nat.zero_add]
        exact hle

theorem step_executes_le {d d' : Dao} {i : Instruction} (hd : Consistent d)
    (h : d.step i = .ok d') (k : ProposalTransactionSeeds) :
    (d.events i).countP (Event.executes k) + (d.isExecuted k).toNat ≤
      (d'.isExecuted k).toNat := by
  rcases step_steps hd h with hsteps | ⟨hnone, houtside⟩
  · refine (hsteps.inv (p := []) (I := fun d' past => Consistent d' ∧
      past.countP (Event.executes k) + (d.isExecuted k).toNat ≤ (d'.isExecuted k).toNat)
      ?_ ⟨hd, (Nat.zero_add _).le⟩).2
    rintro d₁ past log d₂ ⟨hd₁, hle⟩ hstep
    have hstep' := hstep.executes_le hd₁ k
    refine ⟨hstep.changes.consistent hd₁, ?_⟩
    rw [List.countP_append]
    omega
  · rw [hnone, List.countP_nil, Nat.zero_add]
    exact Changes.isExecuted_le (.single houtside.change) hd k

/-- A transaction is executed at most once, and not at all when it was executed before. -/
theorem executions_le {d : Dao} (hd : Consistent d) (inputs : List Instruction)
    (k : ProposalTransactionSeeds) :
    d.executions inputs k + (d.isExecuted k).toNat ≤ 1 := by
  have hrun : Consistent (run step d inputs) ∧ ([] ++ d.history inputs).countP
      (Event.executes k) + (d.isExecuted k).toNat ≤ ((run step d inputs).isExecuted k).toNat := by
    refine trace_inv (I := fun d' past => Consistent d' ∧
      past.countP (Event.executes k) + (d.isExecuted k).toNat ≤ (d'.isExecuted k).toNat) inputs
      ?_ ⟨hd, (Nat.zero_add _).le⟩
    rintro d₁ past i d₂ ⟨hd₁, hle⟩ h
    have hstep := step_executes_le hd₁ h k
    refine ⟨(step_changes hd₁ h).consistent hd₁, ?_⟩
    rw [List.countP_append]
    omega
  exact hrun.2.trans (Bool.toNat_le _)

/-- **Nothing is slipped into a vote.** Once a proposal is no draft, no transaction is inserted,
removed or rewritten, whatever the realm is told to do; each is executed at most once, and then
stays as it is. -/
theorem run_sameScript {d : Dao} (hd : Reachable d) (inputs : List Instruction)
    {proposal : Pubkey} {p : ProposalV2} (hp : d.proposals.lookup proposal = some p)
    (hstate : p.state ≠ .Draft) :
    SameScript proposal d.proposalTransactions (run step d inputs).proposalTransactions ∧
      ∀ k, d.executions inputs k + (d.isExecuted k).toNat ≤ 1 :=
  ⟨(run_changes hd.consistent inputs).1.sameScript hd.consistent hp hstate,
    executions_le hd.consistent inputs⟩

theorem run_sameScript_sample :
    SameScript 70 (sampleAfter 9).proposalTransactions
      (run step (sampleAfter 9) (sampleRun.drop 9)).proposalTransactions :=
  (run_sameScript (sampleAfter_reachable 9) (sampleRun.drop 9) (Option.some_get _).symm
    (p := ((sampleAfter 9).proposals.lookup 70).get (by decide)) (by decide)).1

/-! ### What was executed -/

/-- A proposal whose transactions were executed has been approved. -/
theorem Consistent.approved_of_executed {d : Dao} (hd : Consistent d)
    {k : ProposalTransactionSeeds} {t : ProposalTransactionV2 InstructionData} {executedAt : ℕ}
    (ht : d.proposalTransactions.lookup k = some t) (hexecuted : t.executedAt = some executedAt) :
    ∃ p, d.proposals.lookup k.proposal = some p ∧ p.Approved ∧
      ExecutedUnder p k.optionIndex executedAt := by
  obtain ⟨hproposal, -, -, p, hp, hlt⟩ := hd.linked.transactions k t ht
  have hsafe := hd.listed.safe k t ht executedAt hexecuted p hp
  refine ⟨p, hp, (hd.staged _ p hp).approved ?_, hsafe⟩
  have hstate := hsafe.isExecuted
  cases hs : p.state with
  | Executing => exact .inl (by rw [hs]; rfl)
  | ExecutingWithErrors => exact .inl (by rw [hs]; rfl)
  | Completed =>
      -- a survey, which is completed without having been approved, has no transactions
      refine .inr ⟨hs, fun hsurvey => ?_⟩
      obtain ⟨o, ho, hne⟩ := exists_transactionsCount_ne_zero hd ht (hproposal ▸ hp)
      obtain ⟨i, hi⟩ := List.getElem?_of_mem ho
      have hzero := hd.listed.survey _ p hp hsurvey i
      rw [ProposalV2.transactionsCountOf, hi, Option.elim_some] at hzero
      exact hne hzero
  | _ =>
      rw [hs] at hstate
      cases hstate

/-- **What is executed is what was voted on.** An executed transaction was there when its proposal
ceased to be a draft, with the same instructions; its option has won the vote, which was over
before. -/
theorem executed_as_voted {d : Dao} (hd : Reachable d) (inputs : List Instruction)
    {k : ProposalTransactionSeeds} {p : ProposalV2}
    (hp : d.proposals.lookup k.proposal = some p) (hstate : p.state ≠ .Draft)
    {t' : ProposalTransactionV2 InstructionData} {executedAt : ℕ}
    (ht' : (run step d inputs).proposalTransactions.lookup k = some t')
    (hexecuted : t'.executedAt = some executedAt) :
    (∃ t, d.proposalTransactions.lookup k = some t ∧ t'.instructions = t.instructions ∧
      (t.executedAt ≠ none → t' = t)) ∧
    ∃ p', (run step d inputs).proposals.lookup k.proposal = some p' ∧ p'.Approved ∧
      ExecutedUnder p' k.optionIndex executedAt := by
  obtain ⟨hchanges, hconsistent⟩ := run_changes hd.consistent inputs
  obtain ⟨t, ht, hstays⟩ :=
    (hchanges.sameScript hd.consistent hp hstate).exists_lookup rfl ht'
  exact ⟨⟨t, ht, hstays.instructions_eq, hstays.eq_of_executed⟩,
    hconsistent.approved_of_executed ht' hexecuted⟩

theorem executed_as_voted_sample :
    ∃ t, (sampleAfter 9).proposalTransactions.lookup ⟨70, 0, 0⟩ = some t ∧
      ProposalTransactionV2.instructions (((run step (sampleAfter 9)
        (sampleRun.drop 9)).proposalTransactions.lookup ⟨70, 0, 0⟩).get (by decide)) =
      t.instructions := by
  have hexecuted : ProposalTransactionV2.executedAt (((run step (sampleAfter 9)
      (sampleRun.drop 9)).proposalTransactions.lookup ⟨70, 0, 0⟩).get (by decide)) =
      some 22 := by decide
  have hvoted := executed_as_voted (sampleAfter_reachable 9) (sampleRun.drop 9)
    (p := ((sampleAfter 9).proposals.lookup 70).get (by decide)) (Option.some_get _).symm
    (by decide) (Option.some_get _).symm hexecuted
  exact hvoted.1.imp fun t ht => ⟨ht.1, ht.2.1⟩

/-- A transaction was executed in between, as one of an approved proposal of a governance. The vote
may have ended in between as well. -/
structure ExecutedBetween (governance : Pubkey) (k : ProposalTransactionSeeds) (d d' : Dao) :
    Prop where
  first : d.isExecuted k = false
  executed : ∃ t, d'.proposalTransactions.lookup k = some t ∧
    t.executedAt = some d'.unixTimestamp
  approved : ∃ p, d'.proposals.lookup k.proposal = some p ∧ p.governance = governance ∧
    p.Approved ∧ ExecutedUnder p k.optionIndex d'.unixTimestamp

theorem Happens.unixTimestamp_eq {d d' : Dao} {log : List Event} (h : Happens d log d') :
    d'.unixTimestamp = d.unixTimestamp := by
  cases h with
  | process h =>
      exact process_inv (I := fun d' => d'.unixTimestamp = d.unixTimestamp)
        (fun _ _ heq h => h.unixTimestamp_eq.trans heq)
        (fun _ _ heq h => h.proposals_eq.2.1.trans heq) rfl h
  | insertTransaction h => exact (insertTransaction_effect h).unixTimestamp_eq
  | execute h => exact h.unixTimestamp_eq

theorem steps_unixTimestamp_eq {d d' : Dao} {log : List Event} (h : Steps Happens d log d') :
    d'.unixTimestamp = d.unixTimestamp :=
  h.keeps (I := fun d' => d'.unixTimestamp = d.unixTimestamp)
    (fun _ _ _ heq h => h.unixTimestamp_eq.trans heq) rfl

/-- What an execution leaves behind, whatever happens after it. -/
theorem Execution.later {governance : Pubkey} {k : ProposalTransactionSeeds} {d d₁ d' : Dao}
    (h : Execution governance k d d₁) (hd₁ : Consistent d₁) (hchanges : Changes d₁ d') :
    (∃ t, d'.proposalTransactions.lookup k = some t ∧ t.executedAt = some d.unixTimestamp) ∧
      ∀ p, d'.proposals.lookup k.proposal = some p → p.governance = governance := by
  cases h with
  | @execute p p' t hx hgovernance hafter =>
      obtain ⟨q, hq, hstate, hproceeds⟩ := hx.proceeds hafter
      have ht := AList.lookup_insert (a := k) (b := { t with
        executedAt := some d.unixTimestamp, executionStatus := .Success }) d.proposalTransactions
      have hp' : (d.proposals.insert t.proposal p').lookup t.proposal = some p' :=
        AList.lookup_insert _
      have hproposal : t.proposal = k.proposal := (hd₁.linked.transactions k _ ht).proposal_eq
      -- the proposal is no draft any more, and an executed transaction of it stays as it is
      have hdraft : p'.state ≠ .Draft := by
        rcases hproceeds.isExecuted_or hstate with h | h | h <;> rw [h] <;> nofun
      obtain ⟨t', ht', hstays⟩ :=
        (hchanges.sameScript hd₁ (hproposal ▸ hp') hdraft).kept k _ rfl ht
      refine ⟨⟨t', ht', by rw [hstays.eq_of_executed nofun]⟩, fun r hr => ?_⟩
      obtain ⟨r', hr', hevolves⟩ := hchanges.evolves hp'
      rw [hproposal, hr] at hr'
      cases hr'
      have hread := (ProposalV2.afterExecution_proceeds hx.isExecutable hafter).sameProposal
      exact hevolves.same.governance_eq.trans (hread.governance_eq.trans hgovernance)

/-- Each execution among the events of an instruction. -/
theorem executedBetween_of_mem {d d' : Dao} {i : Instruction} {governance : Pubkey}
    {k : ProposalTransactionSeeds} (hd : Consistent d) (h : d.step i = .ok d')
    (hk : .execute governance k ∈ d.events i) : ExecutedBetween governance k d d' := by
  rcases step_steps hd h with hsteps | ⟨hnone, -⟩
  · have hd' := (steps_changes hsteps).consistent hd
    obtain ⟨before, past, after, d₁, d₂, hbefore, hstep, hmem, hafter, -⟩ :=
      hsteps.split_of_mem hk
    cases hstep with
    | process => cases List.mem_singleton.mp hmem
    | insertTransaction => exact absurd hmem List.not_mem_nil
    | execute hexecution =>
        cases List.mem_singleton.mp hmem
        have hd₁ := (steps_changes hbefore).consistent hd
        have hd₂ := Changes.consistent (.single (.execution hexecution)) hd₁
        obtain ⟨⟨t, ht, hat⟩, hgovernance⟩ := hexecution.later hd₂ (steps_changes hafter)
        rw [steps_unixTimestamp_eq hbefore, ← steps_unixTimestamp_eq hsteps] at hat
        obtain ⟨p, hp, happroved, hunder⟩ := hd'.approved_of_executed ht hat
        refine ⟨?_, ⟨t, ht, hat⟩, ⟨p, hp, hgovernance p hp, happroved, hunder⟩⟩
        have hle := (steps_changes hbefore).isExecuted_le hd k
        rw [hexecution.isExecuted.1] at hle
        exact Bool.toNat_eq_zero.mp (Nat.le_zero.mp hle)
  · rw [hnone] at hk
    exact absurd hk List.not_mem_nil

/-! ### What can be executed -/

/-- The proposal can be written back, whatever has happened to the realm since it was read. -/
theorem Consistent.afterExecution_total {d : Dao} (hd : Consistent d)
    {k : ProposalTransactionSeeds} {t : ProposalTransactionV2 InstructionData} {p : ProposalV2}
    (hp : d.proposals.lookup k.proposal = some p)
    (ht : d.proposalTransactions.lookup k = some t) (hfirst : t.executedAt = none) (d' : Dao) :
    ∃ p', d'.afterExecution p k.optionIndex = .ok p' := by
  obtain ⟨-, -, -, q, hq, hlt⟩ := hd.linked.transactions k t ht
  rw [hp] at hq
  cases hq
  have hoption := List.getElem?_eq_getElem hlt
  have hexecuted := hd.listed.executedCountOf_lt hp ht hfirst
  have hbounded := hd.listed.bounded _ p hp k.optionIndex
  generalize p.options[k.optionIndex] = option at hoption
  rw [ProposalV2.transactionsCountOf, hoption, Option.elim_some] at hexecuted hbounded
  rw [ProposalV2.executedCountOf, hoption, Option.elim_some] at hexecuted
  have hadd : unwrapAdd u16Max option.transactionsExecutedCount 1 =
      .ok (option.transactionsExecutedCount + 1) := unwrapAdd_eq_ok.mpr ⟨by omega, rfl⟩
  have hread : ∀ q : ProposalV2, q.options = p.options →
      okOr Failure.panic q.options[k.optionIndex]? = .ok option := by
    intro q hsame
    rw [hsame, hoption]
    rfl
  unfold afterExecution
  dsimp only
  rw [hread _ (by split <;> rfl), ok_bind, hadd, ok_bind]
  split
  · split
    · exact ⟨_, rfl⟩
    · exact ⟨_, rfl⟩
  · split
    · exact ⟨_, rfl⟩
    · exact ⟨_, rfl⟩

/-- Whatever its instructions have executed, one transaction is counted. -/
theorem Consistent.executedCountOf_executeTransaction {d d' : Dao} (hd : Consistent d)
    {governance : Pubkey} {k : ProposalTransactionSeeds} {p : ProposalV2} {signers : List Pubkey}
    (hp : d.proposals.lookup k.proposal = some p)
    (h : d.executeTransaction governance k.proposal k signers = .ok d') :
    ∃ p', d'.proposals.lookup k.proposal = some p' ∧
      ∀ i, p'.executedCountOf i = p.executedCountOf i + if k.optionIndex = i then 1 else 0 := by
  obtain ⟨_, q, t, d₁, p', -, hq, -, ht, -, hcan, -, hafter, rfl⟩ := executeTransactionBy_ok h
  rw [hp] at hq
  cases hq
  have hindex := (hd.linked.transactions k t ht).optionIndex_eq
  refine ⟨p', AList.lookup_insert d₁.proposals, fun i => ?_⟩
  rw [← hindex]
  exact ProposalV2.executedCountOf_afterExecution hcan.isExecutable hafter i

/-- The sample proposal with two transactions, of which the first one executes the second. -/
def nestedRun : List Instruction :=
  [ .insertTransaction 50 70 ⟨10, 100⟩ ⟨100, true⟩ 0 0 [.executeTransaction 50 70 ⟨70, 0, 1⟩ []],
    .insertTransaction 50 70 ⟨10, 100⟩ ⟨100, true⟩ 0 1
      [.governance (.config (.addRequiredSignatory ⟨50, true⟩ 101))] ] ++ sampleRun.drop 7

/-- Both are executed, but only one is counted, and the proposal is not completed. -/
example : (run step (sampleAfter 6) nestedRun).isExecuted ⟨70, 0, 0⟩ = true ∧
    (run step (sampleAfter 6) nestedRun).isExecuted ⟨70, 0, 1⟩ = true ∧
    ((run step (sampleAfter 6) nestedRun).proposals.lookup 70).map
      (fun p => (p.state, p.executedCountOf 0, p.transactionsCountOf 0)) =
        some (.Executing, 1, 2) := by decide

end Dao

end IndexDtf.Governance
