import IndexDtf.Governance.Links

/-!
# IndexDtf.Governance.Transactions

**What is executed was voted for.** A proposal counts the transactions of each option and those
it has executed. A transaction that was executed belongs to an option that succeeded, and was
executed after the vote was over; a completed proposal has nothing left to execute.

The second count is no more than a lower bound (`Listed.executed`): an execution that is begun in
another one of the same proposal is overwritten by it. Apart from executions the proposal stays as
it is while the instructions of a transaction run (`Effect.proposal_kept`,
`Effect.transaction_kept`): it has been decided, and what can still happen to a decided proposal
is its completion, when it has no transactions.
-/

namespace IndexDtf.Governance

open Lib

namespace ProposalV2

/-- The transactions of a proposal stay counted as they are. -/
def SameTransactions (p p' : ProposalV2) : Prop :=
  ∀ i, p'.transactionsCountOf i = p.transactionsCountOf i ∧
    p'.executedCountOf i = p.executedCountOf i

theorem SameTransactions.of_options {p p' : ProposalV2} (h : p'.options = p.options) :
    SameTransactions p p' := by
  intro i
  rw [transactionsCountOf, executedCountOf, h]
  exact ⟨rfl, rfl⟩

theorem SameTransactions.of_map {p p' : ProposalV2}
    {f : ProposalOption → ProposalOption → Prop}
    (hf : ∀ o o', f o o' → o'.transactionsCount = o.transactionsCount ∧
      o'.transactionsExecutedCount = o.transactionsExecutedCount)
    (h : ∀ i : ℕ, ∃ g, p'.options[i]? = (p.options[i]?).map g ∧ ∀ o, f o (g o)) :
    SameTransactions p p' := by
  intro i
  obtain ⟨g, hg, hfg⟩ := h i
  rw [transactionsCountOf, executedCountOf, hg]
  cases hi : p.options[i]? with
  | none => rw [transactionsCountOf, executedCountOf, hi]; exact ⟨rfl, rfl⟩
  | some o =>
      rw [transactionsCountOf, executedCountOf, hi]
      exact hf o (g o) (hfg o)

theorem Adds.sameTransactions {vote : Vote} {voterWeight : ℕ} {p p' : ProposalV2}
    (h : p.Adds vote voterWeight p') : SameTransactions p p' :=
  .of_map (f := fun o o' => ∃ w, o' = o.addWeight w) (fun _ _ ⟨_, h⟩ => by rw [h]; exact ⟨rfl, rfl⟩)
    fun i => ⟨_, h.options_eq i, fun _ => ⟨_, rfl⟩⟩

theorem SameTransactions.symm {p p' : ProposalV2} (h : SameTransactions p p') :
    SameTransactions p' p :=
  fun i => ⟨(h i).1.symm, (h i).2.symm⟩

theorem Decides.sameTransactions {completedAt : ℕ} {p p' : ProposalV2}
    (h : p.Decides completedAt p') : SameTransactions p p' :=
  .of_map (f := fun o o' => ∃ r, o' = o.withResult r)
    (fun _ _ ⟨_, h⟩ => by rw [h]; exact ⟨rfl, rfl⟩)
    fun i => (h.options_eq i).elim fun _ hr => ⟨_, hr, fun _ => ⟨_, rfl⟩⟩

theorem transactionsCountOf_setOption {p : ProposalV2} {i : ℕ} {option : ProposalOption}
    (h : p.options[i]? = some option) (option' : ProposalOption) (j : ℕ) :
    (Dao.setOption p i option').transactionsCountOf j =
      if i = j then option'.transactionsCount else p.transactionsCountOf j := by
  rw [transactionsCountOf, Dao.setOption, List.getElem?_set]
  split
  · rw [if_pos (List.getElem?_eq_some_iff.mp h).1, Option.elim_some]
  · rfl

theorem executedCountOf_setOption {p : ProposalV2} {i : ℕ} {option : ProposalOption}
    (h : p.options[i]? = some option) (option' : ProposalOption) (j : ℕ) :
    (Dao.setOption p i option').executedCountOf j =
      if i = j then option'.transactionsExecutedCount else p.executedCountOf j := by
  rw [executedCountOf, Dao.setOption, List.getElem?_set]
  split
  · rw [if_pos (List.getElem?_eq_some_iff.mp h).1, Option.elim_some]
  · rfl

/-- An execution counts one transaction more than the proposal that was read. -/
theorem executedCountOf_afterExecution {d : Dao} {p p' : ProposalV2} {i : ℕ}
    (hstate : p.state.isExecutable = true) (h : d.afterExecution p i = .ok p') (j : ℕ) :
    p'.executedCountOf j = p.executedCountOf j + if i = j then 1 else 0 := by
  obtain ⟨option, hoption, heq, -⟩ := Dao.afterExecution_ok hstate h
  have hset := executedCountOf_setOption hoption { option with
    transactionsExecutedCount := option.transactionsExecutedCount + 1 } j
  rw [heq]
  refine Eq.trans hset ?_
  split
  · next hij => rw [← hij, executedCountOf, hoption, Option.elim_some]
  · rfl

end ProposalV2

/-- The states of a proposal some of whose transactions were executed. -/
def ProposalState.isExecuted : ProposalState → Bool
  | .Executing | .ExecutingWithErrors | .Completed => true
  | _ => false

namespace Dao

/-- A transaction was executed because its option succeeded, and after that was decided. -/
structure ExecutedUnder (p : ProposalV2) (optionIndex executedAt : ℕ) : Prop where
  isExecuted : p.state.isExecuted = true
  option_succeeded : ∃ o, p.options[optionIndex]? = some o ∧ o.voteResult = .Succeeded
  after_vote : ∃ completedAt, p.votingCompletedAt = some completedAt ∧ completedAt < executedAt

/-- The transactions of the proposals of a realm. -/
structure Listed (proposals : Store Pubkey ProposalV2)
    (transactions : Store ProposalTransactionSeeds (ProposalTransactionV2 InstructionData)) :
    Prop where
  /-- A proposal counts the transactions of each option. -/
  counted : ∀ i, Store.Counts (fun p : ProposalV2 => p.transactionsCountOf i)
    (fun (k : ProposalTransactionSeeds) _ => k.proposal) (fun k _ => k.optionIndex = i) proposals
    transactions
  /-- And at most those that were executed as such. -/
  executed : ∀ k p, proposals.lookup k = some p → ∀ i,
    p.executedCountOf i ≤ executedOf transactions k i
  safe : ∀ k t, transactions.lookup k = some t → ∀ executedAt, t.executedAt = some executedAt →
    ∀ p, proposals.lookup k.proposal = some p → ExecutedUnder p k.optionIndex executedAt
  /-- What is completed has nothing left to execute. -/
  completed : ∀ k p, proposals.lookup k = some p → p.state = .Completed →
    ∀ (i : ℕ) (o : ProposalOption), p.options[i]? = some o → o.voteResult = .Succeeded →
      o.transactionsExecutedCount = o.transactionsCount
  /-- A survey has no transactions. -/
  survey : ∀ k p, proposals.lookup k = some p → p.denyVoteWeight = none →
    ∀ i, p.transactionsCountOf i = 0
  bounded : ∀ k p, proposals.lookup k = some p → ∀ i, p.transactionsCountOf i ≤ u16Max

section

variable {proposals : Store Pubkey ProposalV2}
  {transactions transactions' :
    Store ProposalTransactionSeeds (ProposalTransactionV2 InstructionData)}
  {proposal : Pubkey} {p p' : ProposalV2}

/-! ### What was executed -/

/-- What was executed remains so. -/
def ExecutedKept (transactions transactions' :
    Store ProposalTransactionSeeds (ProposalTransactionV2 InstructionData)) : Prop :=
  ∀ k t, transactions.lookup k = some t → t.executedAt.isSome = true →
    ∃ t', transactions'.lookup k = some t' ∧ t'.executedAt.isSome = true

theorem ExecutedKept.executedOf_le (h : ExecutedKept transactions transactions')
    (proposal : Pubkey) (i : ℕ) :
    executedOf transactions proposal i ≤ executedOf transactions' proposal i := by
  refine Store.total_le_of_injOn (φ := id) (fun k t ht hne => ?_) fun _ _ _ _ _ _ _ _ heq => heq
  have hk : (k.proposal = proposal ∧ k.optionIndex = i) ∧ t.executedAt.isSome = true := by
    by_contra hnot
    exact hne (if_neg hnot)
  obtain ⟨t', ht', hexecuted⟩ := h k t ht hk.2
  exact ⟨t', ht', by rw [if_pos hk, id, if_pos ⟨hk.1, hexecuted⟩]⟩

/-- One transaction more is executed. -/
theorem executedOf_insert {k : ProposalTransactionSeeds}
    {t t' : ProposalTransactionV2 InstructionData} (ht : transactions.lookup k = some t)
    (hfirst : t.executedAt = none) (hexecuted : t'.executedAt.isSome = true) (i : ℕ) :
    executedOf (transactions.insert k t') k.proposal i =
      executedOf transactions k.proposal i + if k.optionIndex = i then 1 else 0 := by
  have hadd := Store.total_insert_of_some (f := fun (k' : ProposalTransactionSeeds)
    (t : ProposalTransactionV2 InstructionData) => if (k'.proposal = k.proposal ∧
      k'.optionIndex = i) ∧ t.executedAt.isSome = true then 1 else 0) (a := t') ht
  simp only [hfirst, hexecuted, Option.isSome_none, Bool.false_eq_true, and_false, if_false,
    and_true, true_and, Nat.add_zero] at hadd
  exact hadd

theorem ExecutedKept.insert {k : ProposalTransactionSeeds}
    {t' : ProposalTransactionV2 InstructionData}
    (h : ∀ t, transactions.lookup k = some t → t.executedAt.isSome = true →
      t'.executedAt.isSome = true) : ExecutedKept transactions (transactions.insert k t') := by
  intro k' t ht hexecuted
  by_cases hk : k' = k
  · subst hk
    exact ⟨t', AList.lookup_insert _, h t ht hexecuted⟩
  · exact ⟨t, by rw [AList.lookup_insert_ne hk, ht], hexecuted⟩

theorem ExecutedKept.erase {k : ProposalTransactionSeeds}
    {t : ProposalTransactionV2 InstructionData} (ht : transactions.lookup k = some t)
    (hnot : t.executedAt = none) : ExecutedKept transactions (transactions.erase k) := by
  intro k' t' ht' hexecuted
  refine ⟨t', ?_, hexecuted⟩
  rw [AList.lookup_erase_ne, ht']
  rintro rfl
  rw [ht] at ht'
  cases ht'
  rw [hnot] at hexecuted
  cases hexecuted

/-! ### Writes -/

/-- No more transactions are counted as executed than there are. -/
theorem Listed.executedCountOf_le (h : Listed proposals transactions)
    (hp : proposals.lookup proposal = some p) (i : ℕ) :
    p.executedCountOf i ≤ p.transactionsCountOf i := by
  refine (h.executed proposal p hp i).trans ?_
  rw [(h.counted i).eq_count hp]
  exact Store.count_mono fun k t _ hk => hk.1

/-- A transaction that is not executed is not counted as one. -/
theorem Listed.executedCountOf_lt (h : Listed proposals transactions)
    {k : ProposalTransactionSeeds} {t : ProposalTransactionV2 InstructionData}
    (hp : proposals.lookup k.proposal = some p) (ht : transactions.lookup k = some t)
    (hfirst : t.executedAt = none) :
    p.executedCountOf k.optionIndex < p.transactionsCountOf k.optionIndex := by
  refine (h.executed k.proposal p hp k.optionIndex).trans_lt ?_
  rw [(h.counted _).eq_count hp]
  refine Store.count_lt (fun k' t' _ hk => hk.1) ht ⟨rfl, rfl⟩ fun hk => ?_
  rw [hfirst] at hk
  cases hk.2

/-- Of a proposal that was not executed no transaction was. -/
theorem Listed.not_executed (h : Listed proposals transactions)
    (hp : proposals.lookup proposal = some p) (hstate : p.state.isExecuted = false)
    {k : ProposalTransactionSeeds} {t : ProposalTransactionV2 InstructionData}
    (ht : transactions.lookup k = some t) (hk : k.proposal = proposal) : t.executedAt = none := by
  cases hexecuted : t.executedAt with
  | none => rfl
  | some executedAt =>
      have hsafe := (h.safe k t ht executedAt hexecuted p (hk ▸ hp)).isExecuted
      rw [hstate] at hsafe
      cases hsafe

/-- It may be written in any way. -/
theorem Listed.safe_write (h : Listed proposals transactions)
    (hp : proposals.lookup proposal = some p) (hstate : p.state.isExecuted = false)
    (k : ProposalTransactionSeeds) (t : ProposalTransactionV2 InstructionData)
    (ht : transactions.lookup k = some t) (executedAt : ℕ)
    (hexecuted : t.executedAt = some executedAt) :
    ∀ q, (proposals.insert proposal p').lookup k.proposal = some q →
      ExecutedUnder q k.optionIndex executedAt := by
  intro q hq
  rw [Store.lookup_insert_eq] at hq
  split at hq
  · next heq =>
      rw [h.not_executed hp hstate ht heq] at hexecuted
      cases hexecuted
  · exact h.safe k t ht executedAt hexecuted q hq

/-- A write to a proposal of which nothing was executed. -/
theorem Listed.write (h : Listed proposals transactions)
    (hp : proposals.lookup proposal = some p) (hstate : p.state.isExecuted = false)
    (hsame : ProposalV2.SameTransactions p p')
    (hcompleted : p'.state = .Completed → ∀ i, p.transactionsCountOf i = 0)
    (hdeny : p'.denyVoteWeight.isSome = p.denyVoteWeight.isSome) :
    Listed (proposals.insert proposal p') transactions where
  counted i := (h.counted i).write hp (hsame i).1
  executed := by
    refine Store.forall_insert (fun i => ?_) fun k p _ => h.executed k p
    rw [(hsame i).2]
    exact h.executed _ _ hp i
  safe := h.safe_write hp hstate
  completed := by
    refine Store.forall_insert (fun hstate' i o ho _ => ?_) fun k p _ => h.completed k p
    have hcount := (hsame i).1.trans (hcompleted hstate' i)
    have hexecuted := (hsame i).2
    have hle := h.executedCountOf_le hp i
    rw [hcompleted hstate' i] at hle
    rw [ProposalV2.transactionsCountOf, ho, Option.elim_some] at hcount
    rw [ProposalV2.executedCountOf, ho, Option.elim_some] at hexecuted
    omega
  survey := by
    refine Store.forall_insert (fun hnone i => ?_) fun k p _ => h.survey k p
    rw [(hsame i).1]
    refine h.survey _ _ hp ?_ i
    rw [hnone] at hdeny
    exact Option.isNone_iff_eq_none.mp (by simpa using hdeny)
  bounded := by
    refine Store.forall_insert (fun i => ?_) fun k p _ => h.bounded k p
    rw [(hsame i).1]
    exact h.bounded _ _ hp i

/-- A transaction is inserted into a draft. -/
theorem Listed.insert {option : ProposalOption} {i index nextIndex : ℕ}
    {t : ProposalTransactionV2 InstructionData} (h : Listed proposals transactions)
    (hp : proposals.lookup proposal = some p) (hstate : p.state = .Draft)
    (hdeny : p.denyVoteWeight.isSome = true) (hoption : p.options[i]? = some option)
    (hnew : transactions.lookup ⟨proposal, i, index⟩ = none) (ht : t.executedAt = none)
    (hfits : option.transactionsCount + 1 ≤ u16Max) :
    Listed
      (proposals.insert proposal (setOption p i { option with
        transactionsNextIndex := nextIndex
        transactionsCount := option.transactionsCount + 1 }))
      (transactions.insert ⟨proposal, i, index⟩ t) where
  counted j := by
    have hset := ProposalV2.transactionsCountOf_setOption hoption { option with
      transactionsNextIndex := nextIndex
      transactionsCount := option.transactionsCount + 1 } j
    by_cases hij : i = j
    · subst hij
      rw [if_pos rfl] at hset
      refine (h.counted i).openNew hnew rfl rfl hp (hset.trans ?_)
      rw [ProposalV2.transactionsCountOf, hoption, Option.elim_some]
    · rw [if_neg hij] at hset
      exact ((h.counted j).open_zero hnew (if_neg hij)).write hp hset
  executed := by
    have hkept : ExecutedKept transactions (transactions.insert ⟨proposal, i, index⟩ t) :=
      .insert fun t' ht' => by rw [hnew] at ht'; cases ht'
    refine Store.forall_insert (fun j => ?_) fun k p _ hp j =>
      (h.executed k p hp j).trans (hkept.executedOf_le k j)
    refine le_trans (le_of_eq ?_) ((h.executed _ _ hp j).trans (hkept.executedOf_le _ j))
    rw [ProposalV2.executedCountOf_setOption hoption]
    split
    · next hij => rw [← hij, ProposalV2.executedCountOf, hoption, Option.elim_some]
    · rfl
  safe := by
    refine Store.forall_insert (fun executedAt hexecuted => ?_) fun k t _ =>
      h.safe_write hp (by rw [hstate]; rfl) k t
    rw [ht] at hexecuted
    cases hexecuted
  completed := by
    refine Store.forall_insert (fun hcompleted => ?_) fun k p _ => h.completed k p
    cases hstate.symm.trans hcompleted
  survey := by
    refine Store.forall_insert (fun hnone => ?_) fun k p _ => h.survey k p
    rw [setOption] at hnone
    rw [hnone] at hdeny
    cases hdeny
  bounded := by
    refine Store.forall_insert (fun j => ?_) fun k p _ => h.bounded k p
    rw [ProposalV2.transactionsCountOf_setOption hoption]
    split
    · exact hfits
    · exact h.bounded _ _ hp j

/-- A transaction is removed from a draft. -/
theorem Listed.remove {option : ProposalOption} {k : ProposalTransactionSeeds}
    {t : ProposalTransactionV2 InstructionData} (h : Listed proposals transactions)
    (hp : proposals.lookup k.proposal = some p) (hstate : p.state = .Draft)
    (hoption : p.options[k.optionIndex]? = some option) (ht : transactions.lookup k = some t) :
    Listed
      (proposals.insert k.proposal (setOption p k.optionIndex
        { option with transactionsCount := option.transactionsCount - 1 }))
      (transactions.erase k) where
  counted j := by
    have hset := ProposalV2.transactionsCountOf_setOption hoption
      { option with transactionsCount := option.transactionsCount - 1 } j
    by_cases hij : k.optionIndex = j
    · rw [if_pos hij] at hset
      refine (h.counted j).erase ht hij rfl hp (hset.trans ?_)
      rw [ProposalV2.transactionsCountOf, ← hij, hoption, Option.elim_some]
    · rw [if_neg hij] at hset
      exact ((h.counted j).erase_zero ht (if_neg hij)).write hp hset
  executed := by
    have hkept : ExecutedKept transactions (transactions.erase k) :=
      .erase ht (h.not_executed hp (by rw [hstate]; rfl) ht rfl)
    refine Store.forall_insert (fun j => ?_) fun k p _ hp j =>
      (h.executed k p hp j).trans (hkept.executedOf_le k j)
    refine le_trans (le_of_eq ?_) ((h.executed _ _ hp j).trans (hkept.executedOf_le _ j))
    rw [ProposalV2.executedCountOf_setOption hoption]
    split
    · next hij => rw [← hij, ProposalV2.executedCountOf, hoption, Option.elim_some]
    · rfl
  safe := Store.forall_erase fun k t _ => h.safe_write hp (by rw [hstate]; rfl) k t
  completed := by
    refine Store.forall_insert (fun hcompleted => ?_) fun k p _ => h.completed k p
    cases hstate.symm.trans hcompleted
  survey := by
    refine Store.forall_insert (fun hnone i => ?_) fun k p _ => h.survey k p
    have hzero := h.survey _ _ hp hnone
    rw [ProposalV2.transactionsCountOf_setOption hoption]
    split
    · have := hzero k.optionIndex
      rw [ProposalV2.transactionsCountOf, hoption, Option.elim_some] at this
      simp only
      omega
    · exact hzero i
  bounded := by
    refine Store.forall_insert (fun i => ?_) fun k p _ => h.bounded k p
    have hle := h.bounded _ _ hp
    rw [ProposalV2.transactionsCountOf_setOption hoption]
    split
    · have := hle k.optionIndex
      rw [ProposalV2.transactionsCountOf, hoption, Option.elim_some] at this
      exact (Nat.sub_le _ _).trans this
    · exact hle i

/-- A transaction is executed. -/
theorem Listed.execute {k : ProposalTransactionSeeds}
    {t t' : ProposalTransactionV2 InstructionData} {executedAt : ℕ}
    (h : Listed proposals transactions) (hp : proposals.lookup k.proposal = some p)
    (hstate : p.state.isExecutable = true) (ht : transactions.lookup k = some t)
    (hexecuted : t'.executedAt = some executedAt)
    (hoption : ∃ o, p.options[k.optionIndex]? = some o ∧ o.voteResult = .Succeeded)
    (hcompleted : ∃ completedAt, p.votingCompletedAt = some completedAt ∧
      completedAt < executedAt)
    (hproceeds : p.Proceeds executedAt p')
    (hcounts : ∀ i, p'.executedCountOf i ≤ executedOf (transactions.insert k t') k.proposal i)
    (hall : p'.state = .Completed → ∀ o ∈ p'.options, o.voteResult = .Succeeded →
      o.transactionsExecutedCount = o.transactionsCount) :
    Listed (proposals.insert k.proposal p') (transactions.insert k t') := by
  have hkept : ExecutedKept transactions (transactions.insert k t') :=
    .insert fun _ _ _ => by rw [hexecuted]; rfl
  have hexec : p'.state.isExecuted = true := by
    rcases hproceeds.isExecuted_or hstate with h | h | h <;> rw [h] <;> rfl
  have hcompletedAt : p'.votingCompletedAt = p.votingCompletedAt := by rw [hproceeds.rest_eq]
  have hdeny : p'.denyVoteWeight = p.denyVoteWeight := by rw [hproceeds.rest_eq]
  constructor
  · exact fun j => ((h.counted j).write_item ht rfl rfl).write hp
      (hproceeds.transactionsCountOf_eq j)
  · exact Store.forall_insert hcounts fun k' p _ hp i =>
      (h.executed k' p hp i).trans (hkept.executedOf_le k' i)
  · refine Store.forall_insert (fun executedAt' hsome q hq => ?_)
      fun k' t₁ hne ht₁ executedAt' hsome q hq => ?_
    · rw [AList.lookup_insert] at hq
      cases hq
      rw [hexecuted] at hsome
      cases hsome
      exact ⟨hexec, (ProposalV2.option_succeeded_iff hproceeds.options_eq).mpr hoption,
        by rwa [hcompletedAt]⟩
    · rw [Store.lookup_insert_eq] at hq
      split at hq
      · next heq =>
          cases hq
          obtain ⟨-, hsucceeded, hafter⟩ := h.safe k' t₁ ht₁ executedAt' hsome p (heq ▸ hp)
          exact ⟨hexec, (ProposalV2.option_succeeded_iff hproceeds.options_eq).mpr hsucceeded,
            by rwa [hcompletedAt]⟩
      · exact h.safe k' t₁ ht₁ executedAt' hsome q hq
  · exact Store.forall_insert (fun hstate' i o ho => hall hstate' o (List.mem_of_getElem? ho))
      fun k p _ => h.completed k p
  · refine Store.forall_insert (fun hnone i => ?_) fun k p _ => h.survey k p
    rw [hproceeds.transactionsCountOf_eq]
    exact h.survey _ _ hp (hdeny ▸ hnone) i
  · refine Store.forall_insert (fun i => ?_) fun k p _ => h.bounded k p
    rw [hproceeds.transactionsCountOf_eq]
    exact h.bounded _ _ hp i

/-- A proposal is created. -/
theorem Listed.create (h : Listed proposals transactions)
    (hp : proposals.lookup proposal = none)
    (hitems : ∀ k t, transactions.lookup k = some t → k.proposal ∈ proposals)
    (hstate : p.state = .Draft)
    (hoptions : ∀ (i : ℕ) (o : ProposalOption), p.options[i]? = some o → o = {}) :
    Listed (proposals.insert proposal p) transactions := by
  have hzero : ∀ i, p.transactionsCountOf i = 0 ∧ p.executedCountOf i = 0 := by
    intro i
    rw [ProposalV2.transactionsCountOf, ProposalV2.executedCountOf]
    cases hi : p.options[i]? with
    | none => exact ⟨rfl, rfl⟩
    | some o =>
        rw [hoptions i o hi]
        exact ⟨rfl, rfl⟩
  constructor
  · exact fun i => (h.counted i).open_account hp (hzero i).1 hitems
  · refine Store.forall_insert (fun i => ?_) fun k p _ => h.executed k p
    rw [(hzero i).2]
    exact Nat.zero_le _
  · intro k t ht executedAt hexecuted q hq
    rw [Store.lookup_insert_eq] at hq
    split at hq
    · next heq =>
        obtain ⟨q', hq'⟩ := Store.exists_lookup_of_mem (hitems k t ht)
        rw [heq, hp] at hq'
        cases hq'
    · exact h.safe k t ht executedAt hexecuted q hq
  · refine Store.forall_insert (fun hcompleted => ?_) fun k p _ => h.completed k p
    cases hstate.symm.trans hcompleted
  · exact Store.forall_insert (fun _ i => (hzero i).1) fun k p _ => h.survey k p
  · refine Store.forall_insert (fun i => ?_) fun k p _ => h.bounded k p
    rw [(hzero i).1]
    exact Nat.zero_le _

end

/-! ### It is kept -/

theorem isExecuted_of_pending {s : ProposalState} (h : s = .Draft ∨ s = .SigningOff) :
    s.isExecuted = false := by
  rcases h with h | h
  · rw [h]
    rfl
  · rw [h]
    rfl

theorem Closes.listed {d : Dao} {proposals : Store Pubkey ProposalV2}
    {transactions : Store ProposalTransactionSeeds (ProposalTransactionV2 InstructionData)}
    {proposal : Pubkey} {p p' : ProposalV2} (hl : Listed proposals transactions)
    (hp : proposals.lookup proposal = some p) (h : d.Closes p p') :
    Listed (proposals.insert proposal p') transactions := by
  have hdeny := h.sameProposal.isSome_deny_eq
  rcases h with ⟨hactive, rfl⟩ | ⟨hvoting, _, -, hdecides⟩
  · refine hl.write hp ?_ (.of_options rfl) (fun h => by cases h) rfl
    cases hs : p.state <;> rw [hs] at hactive <;> first | rfl | cases hactive
  · refine hl.write hp (by rw [hvoting]; rfl) hdecides.sameTransactions (fun hcompleted => ?_) hdeny
    exact hl.survey _ _ hp (hdecides.verdict.completed hcompleted)

theorem Effect.listed {d d' : Dao} (hd : Linked d)
    (hl : Listed d.proposals d.proposalTransactions) (h : Effect d d') :
    Listed d'.proposals d'.proposalTransactions := by
  cases h with
  | frame h => rwa [h.proposals_eq, h.proposalTransactions_eq]
  | create hp =>
      refine hl.create hp (fun k t ht => ?_) rfl fun i o ho => ?_
      · obtain ⟨p, hp, -⟩ := (hd.transactions k t ht).option_mem
        exact Store.mem_of_lookup hp
      · rw [draftOf, List.getElem?_map, Option.map_eq_some_iff] at ho
        obtain ⟨-, -, rfl⟩ := ho
        rfl
  | addSignatory hp hstate =>
      exact hl.write hp (isExecuted_of_pending (.inl hstate)) (.of_options rfl)
        (fun h => by cases hstate.symm.trans h) rfl
  | signOff hp hstate =>
      refine hl.write hp (isExecuted_of_pending hstate) (.of_options rfl) (fun h => ?_) rfl
      dsimp only at h
      split at h
      · cases h
      · rcases hstate with hs | hs <;> cases hs.symm.trans h
  | beginSignOff hp hstate =>
      refine hl.write hp (isExecuted_of_pending hstate) (.of_options rfl) (fun h => ?_) rfl
      rcases hstate with hs | hs <;> cases hs.symm.trans h
  | startVoting hp hstate =>
      exact hl.write hp (isExecuted_of_pending hstate) (.of_options rfl)
        (fun h => by cases h) rfl
  | insertTransaction hp hstate hdeny hoption hindex hnext hnew hfits =>
      exact hl.insert hp hstate hdeny hoption hnew rfl hfits
  | removeTransaction hp hstate ht hproposal hoption =>
      obtain ⟨hproposal', hindex, -⟩ := hd.transactions _ _ ht
      obtain rfl := hproposal'.symm.trans hproposal
      rw [hindex] at hoption ⊢
      exact hl.remove hp hstate hoption ht
  | cast hp hstate ht hnew hmint hweight hvalid hadds =>
      refine hl.write hp (by rw [hstate]; rfl) hadds.sameTransactions (fun h => ?_)
        hadds.sameProposal.isSome_deny_eq
      cases (hadds.state_eq.trans hstate).symm.trans h
  | withdraw hp hstate ht hv hproposal howner hmint hlive hadds =>
      refine hl.write hp (by rw [hstate]; rfl) hadds.sameTransactions.symm (fun h => ?_)
        hadds.sameProposal.isSome_deny_eq.symm
      cases (hadds.state_eq.symm.trans hstate).symm.trans h
  | relinquish => exact hl
  | close hp hcloses => exact hcloses.listed hl hp
  | complete hp hstate hcounts =>
      refine hl.write hp (by rw [hstate]; rfl) (.of_options rfl) (fun _ i => ?_) rfl
      rw [ProposalV2.transactionsCountOf]
      cases hi : (_ : ProposalV2).options[i]? with
      | none => rfl
      | some o => exact hcounts o (List.mem_of_getElem? hi)

theorem Execution.listed {governance : Pubkey} {k : ProposalTransactionSeeds} {d d' : Dao}
    (hd : Linked d) (hl : Listed d.proposals d.proposalTransactions)
    (h : Execution governance k d d') : Listed d'.proposals d'.proposalTransactions := by
  cases h with
  | @execute p p' t h hgovernance hafter =>
      obtain ⟨hproposal, hindex, -⟩ := hd.transactions _ _ h.transaction_eq
      obtain ⟨q, hq, hread⟩ := h.proposal_read
      have hproceeds := ProposalV2.afterExecution_proceeds h.isExecutable hafter
      rw [hproposal] at hq ⊢
      refine hl.execute hq (hread.isExecutable h.isExecutable) h.transaction_eq rfl ?_ ?_
        (hread.proceeds hproceeds) (fun i => ?_) fun hcompleted => ?_
      · rw [ProposalV2.option_succeeded_iff hread.options_eq, ← hindex]
        exact h.option_succeeded
      · rw [hread.votingCompletedAt_eq]
        exact h.after_vote
      · have hle := h.counts_le i
        rw [executedOf_insert h.transaction_eq h.first rfl,
          ProposalV2.executedCountOf_afterExecution h.isExecutable hafter, hindex]
        rw [hproposal] at hle
        omega
      · obtain ⟨-, -, -, hall | hne | hne⟩ := afterExecution_ok h.isExecutable hafter
        · exact hall.2
        · cases hne.symm.trans hcompleted
        · cases hne.symm.trans hcompleted

theorem Fresh.listed {d : Dao} (h : Fresh d) : Listed d.proposals d.proposalTransactions := by
  rw [h.proposals_eq, h.proposalTransactions_eq]
  exact ⟨fun _ => Store.forall_empty, Store.forall_empty, Store.forall_empty, Store.forall_empty,
    Store.forall_empty, Store.forall_empty⟩

/-! ### What the execution of a transaction finds again -/

/-- A decided proposal with transactions is left alone. -/
theorem Effect.proposal_kept {d d' : Dao} {k : Pubkey} {p : ProposalV2} (h : Effect d d')
    (hk : d.proposals.lookup k = some p) (hstate : p.state.isExecutable = true)
    (hcount : ∃ o ∈ p.options, o.transactionsCount ≠ 0) : d'.proposals.lookup k = some p := by
  have hother : ∀ {k' : Pubkey} {q q' : ProposalV2}, d.proposals.lookup k' = some q →
      q.state.isExecutable = false → (d.proposals.insert k' q').lookup k = some p := by
    intro k' q q' hq hne
    rw [Store.lookup_insert_eq, if_neg]
    · exact hk
    · rintro rfl
      rw [hk] at hq
      cases hq
      rw [hstate] at hne
      cases hne
  have hpending : ∀ {s : ProposalState}, s = .Draft ∨ s = .SigningOff →
      s.isExecutable = false := by
    rintro s (rfl | rfl) <;> rfl
  cases h with
  | frame h => rwa [h.proposals_eq]
  | create hp =>
      rw [Store.lookup_insert_eq, if_neg]
      · exact hk
      · rintro rfl
        rw [hk] at hp
        cases hp
  | addSignatory hp hstate' => exact hother hp (hpending (.inl hstate'))
  | signOff hp hstate' => exact hother hp (hpending hstate')
  | beginSignOff hp hstate' => exact hother hp (hpending hstate')
  | startVoting hp hstate' => exact hother hp (hpending hstate')
  | insertTransaction hp hstate' => exact hother hp (hpending (.inl hstate'))
  | removeTransaction hp hstate' => exact hother hp (hpending (.inl hstate'))
  | cast hp hstate' => exact hother hp (by rw [hstate']; rfl)
  | withdraw hp hstate' => exact hother hp (by rw [hstate']; rfl)
  | relinquish => exact hk
  | close hp hcloses =>
      refine hother hp ?_
      have hactive := hcloses.isActive.1
      cases hs : (_ : ProposalV2).state <;> rw [hs] at hactive <;> first | rfl | cases hactive
  | complete hp hstate' hcounts =>
      rw [Store.lookup_insert_eq, if_neg]
      · exact hk
      · rintro rfl
        rw [hk] at hp
        cases hp
        obtain ⟨o, ho, hne⟩ := hcount
        exact hne (hcounts o ho)

/-- And so are its transactions. -/
theorem Effect.transaction_kept {d d' : Dao} {k : ProposalTransactionSeeds}
    {t : ProposalTransactionV2 InstructionData} {p : ProposalV2} (h : Effect d d')
    (ht : d.proposalTransactions.lookup k = some t)
    (hp : d.proposals.lookup t.proposal = some p) (hstate : p.state ≠ .Draft) :
    d'.proposalTransactions.lookup k = some t := by
  cases h with
  | frame h => rwa [h.proposalTransactions_eq]
  | insertTransaction hp' hstate' hdeny hoption hindex hnext hnew =>
      rw [Store.lookup_insert_eq, if_neg]
      · exact ht
      · rintro rfl
        rw [ht] at hnew
        cases hnew
  | removeTransaction hp' hstate' ht' hproposal =>
      rw [Store.lookup_erase_eq, if_neg]
      · exact ht
      · rintro rfl
        rw [ht] at ht'
        cases ht'
        rw [hproposal, hp'] at hp
        cases hp
        exact hstate hstate'
  | _ => exact ht

end Dao

end IndexDtf.Governance
