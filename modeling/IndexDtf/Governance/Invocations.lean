import IndexDtf.Governance.Changes

/-!
# IndexDtf.Governance.Invocations

**Executions in executions.** An instruction of a transaction may execute another transaction,
which invokes instructions of its own. Whether a transaction was executed is read before its
instructions are invoked and written afterwards, so what keeps it from being executed again in
between has to be found elsewhere: its instructions do not change any more, and an execution that
comes back to itself comes back again and again, until the stack is full
(`not_executed_of_cycle`).

* `Event` — what happens while an instruction runs, and `events`, the list of it;
* `KeepsScripts` — the instructions of a transaction stay, once its proposal is no draft;
* `Nests` — a transaction executes another one;
* `InExecution` is kept by what the instructions of a transaction come to;
* `executeTransactionBy_comes` — an execution is a sequence of instructions and of executions that
  are written back, each on the state that the ones before have left.
-/

namespace IndexDtf.Governance

open Lib

/-- One thing that happens while an instruction runs: an instruction of the governance program is
processed, or a transaction of a governance has been executed. -/
inductive Event
  | process (i : GovernanceInstruction)
  | execute (governance : Pubkey) (transaction : ProposalTransactionSeeds)
  deriving DecidableEq, Repr

/-- Whether the event is the execution of a transaction. -/
def Event.executes (k : ProposalTransactionSeeds) : Event → Bool
  | .process _ => false
  | .execute _ k' => k' = k

/-- The instruction that is processed. -/
def Event.processed : Event → Option GovernanceInstruction
  | .process i => some i
  | .execute _ _ => none

namespace Dao

/-! ### Events -/

/-- The instructions of a transaction. -/
def scriptOf (d : Dao) (transaction : ProposalTransactionSeeds) : List InstructionData :=
  (d.proposalTransactions.lookup transaction).elim [] (·.instructions)

/-- What happens when a transaction is executed, given how its instructions are invoked and what
happens then. -/
def executionEvents (invoke : Dao → InstructionData → Outcome Dao)
    (invokeEvents : Dao → InstructionData → List Event) (d : Dao) (governance : Pubkey)
    (transaction : ProposalTransactionSeeds) : List Event :=
  trace invoke invokeEvents d (d.scriptOf transaction) ++ [.execute governance transaction]

/-- What happens when an instruction is invoked, with room for so many calls. -/
def invokeEvents : ℕ → Dao → InstructionData → List Event
  | 0, _, _ => []
  | depth + 1, d, i =>
      match i with
      | .governance i => [.process i]
      | .executeTransaction governance _ transaction signers =>
          executionEvents (invoke depth governance signers) (invokeEvents depth) d governance
            transaction
      | _ => []

/-- What happens when an instruction is sent. -/
def events (d : Dao) : Instruction → List Event
  | .governance i => [.process i]
  | .executeTransaction governance _ transaction signers =>
      executionEvents (invoke maxInvokeDepth governance signers) (invokeEvents maxInvokeDepth) d
        governance transaction
  | _ => []

/-- What happens in a run. -/
def history (d : Dao) (inputs : List Instruction) : List Event := trace step events d inputs

/-! ### What an execution reads and writes -/

/-- When a transaction can be executed, as far as it and its proposal are concerned. -/
structure CanExecute (p : ProposalV2) (t : ProposalTransactionV2 InstructionData)
    (holdUpTime now : ℕ) : Prop where
  isExecutable : p.state.isExecutable = true
  option_succeeded : ∃ o, p.options[t.optionIndex]? = some o ∧ o.voteResult = .Succeeded
  held_up : ∃ completedAt, p.votingCompletedAt = some completedAt ∧
    completedAt + holdUpTime ≤ i64Max ∧ completedAt + holdUpTime < now
  first : t.executedAt = none

theorem assertCanExecuteTransaction_iff {p : ProposalV2}
    {t : ProposalTransactionV2 InstructionData} {config : GovernanceConfig} {now : ℕ} :
    p.assertCanExecuteTransaction t config now = .ok () ↔
      CanExecute p t config.transactionsHoldUpTime now := by
  simp only [ProposalV2.assertCanExecuteTransaction, bind_eq_ok, require_eq_ok, okOr_eq_ok,
    unwrapAdd_eq_ok]
  constructor
  · rintro ⟨_, hstate, option, hoption, _, hresult, completedAt, hcompleted, _, ⟨hfits, rfl⟩, _,
      hlater, hfirst⟩
    refine ⟨?_, ⟨option, hoption, hresult⟩, ⟨completedAt, hcompleted, hfits, hlater⟩, hfirst⟩
    rcases hstate with h | h | h <;> rw [h] <;> rfl
  · rintro ⟨hstate, ⟨option, hoption, hresult⟩, ⟨completedAt, hcompleted, hfits, hlater⟩, hfirst⟩
    refine ⟨(), ?_, option, hoption, (), hresult, completedAt, hcompleted, _, ⟨hfits, rfl⟩, (),
      hlater, hfirst⟩
    cases hs : p.state with
    | Succeeded => exact .inl rfl
    | Executing => exact .inr (.inl rfl)
    | ExecutingWithErrors => exact .inr (.inr rfl)
    | _ =>
        rw [hs] at hstate
        cases hstate

/-- `process_execute_transaction`: what was read and checked, what the instructions have made of
the realm, and what is written on it. -/
theorem executeTransactionBy_ok
    {invoke : Pubkey → List Pubkey → Dao → InstructionData → Outcome Dao} {d d' : Dao}
    {governance proposal : Pubkey} {k : ProposalTransactionSeeds} {signers : List Pubkey}
    (h : d.executeTransactionBy invoke governance proposal k signers = .ok d') :
    ∃ g p t d₁ p', d.governances.lookup governance = some g ∧
      d.proposals.lookup proposal = some p ∧ p.governance = governance ∧
      d.proposalTransactions.lookup k = some t ∧ t.proposal = proposal ∧
      CanExecute p t g.config.transactionsHoldUpTime d.unixTimestamp ∧
      t.instructions.foldlM (invoke governance signers) d = .ok d₁ ∧
      d₁.afterExecution p t.optionIndex = .ok p' ∧
      d' = { d₁ with
        proposals := d₁.proposals.insert proposal p'
        proposalTransactions := d₁.proposalTransactions.insert k
          { t with executedAt := some d₁.unixTimestamp, executionStatus := .Success } } := by
  simp only [executeTransactionBy, getGovernanceData, writeBack, bind_eq_ok, okOr_eq_ok,
    Except.ok.injEq] at h
  obtain ⟨g, hg, p, hread, t, hlist, _, hcan, d₁, hinvoked, p', hafter, rfl⟩ := h
  obtain ⟨hp, hgovernance⟩ := getProposalDataForGovernance_ok hread
  obtain ⟨ht, hproposal⟩ := getProposalTransactionDataForProposal_ok hlist
  exact ⟨g, p, t, d₁, p', hg, hp, hgovernance, ht, hproposal,
    assertCanExecuteTransaction_iff.mp hcan, hinvoked, hafter, rfl⟩

/-! ### Scripts -/

/-- A transaction of a proposal that is no draft, and its instructions. -/
def Scripted (d : Dao) (k : ProposalTransactionSeeds) (instructions : List InstructionData) :
    Prop :=
  ∃ t p, d.proposalTransactions.lookup k = some t ∧ t.instructions = instructions ∧
    d.proposals.lookup t.proposal = some p ∧ p.state ≠ .Draft

/-- The instructions of such transactions stay. -/
def KeepsScripts (d d' : Dao) : Prop :=
  ∀ k instructions, d.Scripted k instructions → d'.Scripted k instructions

theorem KeepsScripts.refl (d : Dao) : KeepsScripts d d := fun _ _ h => h

theorem KeepsScripts.trans {d d' d'' : Dao} (h : KeepsScripts d d') (h' : KeepsScripts d' d'') :
    KeepsScripts d d'' := fun k instructions hk => h' k instructions (h k instructions hk)

theorem ne_draft_of_canBecome {s s' : ProposalState} (h : s.canBecome s' = true)
    (hs : s ≠ .Draft) : s' ≠ .Draft := by
  rintro rfl
  cases s <;> first | exact hs rfl | cases h

theorem Effect.keepsScripts {d d' : Dao} (h : Effect d d') : KeepsScripts d d' := by
  rintro k _ ⟨t, p, ht, rfl, hp, hstate⟩
  obtain ⟨p', hp', hmoves⟩ := h.moves.keeps _ p hp
  refine ⟨t, p', h.transaction_kept ht hp hstate, rfl, hp', ?_⟩
  rcases hmoves with rfl | hmoves
  · exact hstate
  · exact ne_draft_of_canBecome hmoves.evolves.canBecome hstate

theorem Amendment.keepsScripts {d d' : Dao} (h : Amendment d d') : KeepsScripts d d' := by
  obtain ⟨hproposals, -, -, -, htransactions⟩ := h.proposals_eq
  intro k instructions hk
  rwa [Scripted, hproposals, htransactions]

theorem process_keepsScripts {d d' : Dao} {i : GovernanceInstruction}
    (h : d.process i = .ok d') : KeepsScripts d d' :=
  process_inv (I := KeepsScripts d) (fun _ _ hk h => hk.trans h.keepsScripts)
    (fun _ _ hk h => hk.trans h.keepsScripts) (.refl d) h

theorem executeTransactionBy_keepsScripts
    {invoke : Pubkey → List Pubkey → Dao → InstructionData → Outcome Dao} {d d' : Dao}
    {governance proposal : Pubkey} {k : ProposalTransactionSeeds} {signers : List Pubkey}
    (hinvoke : ∀ d i d', invoke governance signers d i = .ok d' → KeepsScripts d d')
    (h : d.executeTransactionBy invoke governance proposal k signers = .ok d') :
    KeepsScripts d d' := by
  obtain ⟨_, p, t, d₁, p', -, hp, -, ht, rfl, hcan, hinvoked, hafter, rfl⟩ :=
    executeTransactionBy_ok h
  have hkeeps : KeepsScripts d d₁ :=
    foldlM_inv (fun _ _ _ _ hk h => hk.trans (hinvoke _ _ _ h)) (.refl d) hinvoked
  have hstate : p'.state ≠ .Draft := by
    rcases (ProposalV2.afterExecution_proceeds hcan.isExecutable hafter).isExecuted_or
      hcan.isExecutable with h | h | h <;> rw [h] <;> nofun
  intro k' instructions hk'
  by_cases hk : k' = k
  · -- it is written back with the instructions that were read
    obtain ⟨t₀, _, ht₀, rfl, -, -⟩ := hk'
    rw [hk, ht] at ht₀
    cases ht₀
    refine ⟨{ t with executedAt := some d₁.unixTimestamp, executionStatus := .Success }, p', ?_,
      rfl, AList.lookup_insert d₁.proposals, hstate⟩
    rw [hk]
    exact AList.lookup_insert d₁.proposalTransactions
  · obtain ⟨t₁, p₁, ht₁, hscript, hp₁, hstate₁⟩ := hkeeps k' instructions hk'
    refine ⟨t₁, if t₁.proposal = t.proposal then p' else p₁, ?_, hscript, ?_, ?_⟩
    · rw [AList.lookup_insert_ne hk, ht₁]
    · rw [Store.lookup_insert_eq]
      split
      · rfl
      · exact hp₁
    · split
      · exact hstate
      · exact hstate₁

theorem invoke_keepsScripts {depth : ℕ} {governance : Pubkey} {signers : List Pubkey}
    {d d' : Dao} {i : InstructionData} (h : invoke depth governance signers d i = .ok d') :
    KeepsScripts d d' := by
  induction depth generalizing governance signers d d' i with
  | zero => cases h
  | succ depth ih =>
      simp only [invoke, bind_eq_ok, guardOr_eq_ok] at h
      obtain ⟨_, -, h⟩ := h
      cases i with
      | governance i => exact process_keepsScripts h
      | insertTransaction => exact (insertTransaction_effect h).keepsScripts
      | executeTransaction => exact executeTransactionBy_keepsScripts (fun _ _ _ => ih) h
      | external =>
          cases h
          exact .refl d

/-! ### Transactions that come back to themselves -/

/-- A transaction executes another one. -/
def Nests (d : Dao) (k k' : ProposalTransactionSeeds) : Prop :=
  ∃ instructions, d.Scripted k instructions ∧ ∃ governance proposal signers,
    .executeTransaction governance proposal k' signers ∈ instructions

theorem KeepsScripts.nests_le {d d' : Dao} (h : KeepsScripts d d') : d.Nests ≤ d'.Nests :=
  fun _ _ hnests => hnests.imp fun _ hscript => ⟨h _ _ hscript.1, hscript.2⟩

/-- An execution executes what its transaction executes, on the scripts there are. -/
theorem Nests.executed {depth : ℕ} {d d' : Dao} {k k' : ProposalTransactionSeeds}
    (hnests : d.Nests k k') {governance proposal : Pubkey} {signers : List Pubkey}
    (h : d.executeTransactionBy (invoke depth) governance proposal k signers = .ok d') :
    ∃ governance' proposal' signers' d₁ d₂, KeepsScripts d d₁ ∧
      invoke depth governance signers d₁ (.executeTransaction governance' proposal' k' signers') =
        .ok d₂ := by
  obtain ⟨_, _, t, _, _, -, -, -, ht, -, -, hinvoked, -, -⟩ := executeTransactionBy_ok h
  obtain ⟨_, ⟨t₀, _, ht₀, rfl, -⟩, governance', proposal', signers', hmem⟩ := hnests
  rw [ht] at ht₀
  cases ht₀
  obtain ⟨d₁, d₂, hround⟩ := foldlM_round_of_mem (I := KeepsScripts d)
    (fun _ _ _ hk h => hk.trans (invoke_keepsScripts h)) (.refl d) hinvoked hmem
  exact ⟨governance', proposal', signers', d₁, d₂, hround⟩

/-- **No transaction executes itself**, be it through others: the execution runs out of room. -/
theorem not_executed_of_cycle {depth : ℕ} {d d' : Dao} {k : ProposalTransactionSeeds}
    (hcycle : Relation.TransGen d.Nests k k) {governance proposal : Pubkey}
    {signers : List Pubkey} :
    d.executeTransactionBy (invoke depth) governance proposal k signers ≠ .ok d' := by
  intro h
  induction depth generalizing d d' k governance proposal signers with
  | zero =>
      obtain ⟨k', hnests, -⟩ := Relation.TransGen.head'_iff.mp hcycle
      obtain ⟨_, _, _, _, _, -, hnested⟩ := hnests.executed h
      cases hnested
  | succ depth ih =>
      obtain ⟨k', hnests, hback⟩ := Relation.TransGen.head'_iff.mp hcycle
      -- what leads back to the transaction leads back to itself, and is executed with less room
      have hcycle' : Relation.TransGen d.Nests k' k' := .tail' hback hnests
      obtain ⟨_, _, _, d₁, _, hkeeps, hnested⟩ := hnests.executed h
      simp only [invoke, bind_eq_ok] at hnested
      obtain ⟨_, -, hnested⟩ := hnested
      exact ih (Relation.TransGen.mono hkeeps.nests_le _ _ hcycle') hnested

/-! ### What is true of the accounts that were read -/

/-- The proposal of a transaction has transactions. -/
theorem exists_transactionsCount_ne_zero {d : Dao} (hd : Consistent d)
    {k : ProposalTransactionSeeds} {t : ProposalTransactionV2 InstructionData} {p : ProposalV2}
    (ht : d.proposalTransactions.lookup k = some t)
    (hp : d.proposals.lookup t.proposal = some p) : ∃ o ∈ p.options, o.transactionsCount ≠ 0 := by
  obtain ⟨hproposal, -, -, q, hq, hlt⟩ := hd.linked.transactions k t ht
  rw [← hproposal, hp] at hq
  cases hq
  have hone := (hd.listed.counted k.optionIndex).le_of_lookup ht hproposal.symm hp
  rw [if_pos rfl, ProposalV2.transactionsCountOf, List.getElem?_eq_getElem hlt,
    Option.elim_some] at hone
  exact ⟨_, List.getElem_mem hlt, Nat.one_le_iff_ne_zero.mp hone⟩

/-- An execution begins. -/
theorem CanExecute.inExecution {d : Dao} (hd : Consistent d) {k : ProposalTransactionSeeds}
    {t : ProposalTransactionV2 InstructionData} {p : ProposalV2} {holdUpTime : ℕ}
    (ht : d.proposalTransactions.lookup k = some t) (hp : d.proposals.lookup t.proposal = some p)
    (hcan : CanExecute p t holdUpTime d.unixTimestamp) : d.InExecution k t p where
  transaction_eq := ht
  first := hcan.first
  isExecutable := hcan.isExecutable
  option_succeeded := hcan.option_succeeded
  after_vote := hcan.held_up.imp fun _ h => ⟨h.1, (Nat.le_add_right _ _).trans_lt h.2.2⟩
  counts_le := hd.listed.executed _ p hp
  proposal_read := ⟨p, hp, .refl _ p⟩

section

variable {d d' : Dao} {k k' : ProposalTransactionSeeds} {governance : Pubkey}
  {t : ProposalTransactionV2 InstructionData} {p : ProposalV2}

theorem Effect.inExecution (hd : Consistent d) (h : Effect d d') (hx : d.InExecution k t p) :
    d'.InExecution k t p := by
  obtain ⟨q, hq, hread⟩ := hx.proposal_read
  have hstate := hread.isExecutable hx.isExecutable
  have hcount := exists_transactionsCount_ne_zero hd hx.transaction_eq hq
  have hkept := (Change.effect h).executedKept hd
  exact
    { hx with
      transaction_eq := h.transaction_kept hx.transaction_eq hq (by
        rintro hdraft
        rw [hdraft] at hstate
        cases hstate)
      after_vote := by
        rw [h.unixTimestamp_eq]
        exact hx.after_vote
      counts_le := fun i => (hx.counts_le i).trans (hkept.executedOf_le _ i)
      proposal_read := by
        rw [h.unixTimestamp_eq]
        exact ⟨q, h.proposal_kept hq hstate hcount, hread⟩ }

theorem Amendment.inExecution (h : Amendment d d') (hx : d.InExecution k t p) :
    d'.InExecution k t p := by
  cases h with
  | add => exact { hx with }
  | remove => exact { hx with }

/-- Another transaction is executed. It is not the last one of its proposal, since this one has
not been executed yet. -/
theorem Execution.inExecution (hd' : Consistent d') (h : Execution governance k' d d')
    (hne : k' ≠ k) (hx : d.InExecution k t p) : d'.InExecution k t p := by
  cases h with
  | @execute p₁ p' t₁ hx₁ hgovernance hafter =>
      obtain ⟨q, hq, hread⟩ := hx.proposal_read
      have hkept : ExecutedKept d.proposalTransactions (d.proposalTransactions.insert k'
          { t₁ with executedAt := some d.unixTimestamp, executionStatus := .Success }) :=
        .insert fun _ _ _ => rfl
      have ht : (d.proposalTransactions.insert k'
          { t₁ with executedAt := some d.unixTimestamp, executionStatus := .Success }).lookup k =
          some t := by
        rw [AList.lookup_insert_ne hne.symm]
        exact hx.transaction_eq
      refine
        { hx with
          transaction_eq := ht
          counts_le := fun i => (hx.counts_le i).trans (hkept.executedOf_le _ i)
          proposal_read := ?_ }
      by_cases hproposal : t₁.proposal = t.proposal
      · -- were the proposal completed, all of its transactions would have been executed
        obtain ⟨q₁, hq₁, hread₁⟩ := hx₁.proposal_read
        rw [hproposal, hq] at hq₁
        cases hq₁
        have hproceeds := hread₁.proceeds
          (ProposalV2.afterExecution_proceeds hx₁.isExecutable hafter)
        have hp' : (d.proposals.insert t₁.proposal p').lookup t.proposal = some p' := by
          rw [hproposal]
          exact AList.lookup_insert _
        refine ⟨p', hp', hread.proceed hproceeds fun hcompleted => ?_⟩
        obtain ⟨heq, hindex, -⟩ := hd'.linked.transactions k t ht
        obtain ⟨o, ho, hresult⟩ := (ProposalV2.option_succeeded_iff
          (hproceeds.options_eq.trans hread.options_eq)).mpr hx.option_succeeded
        have hall := hd'.listed.completed _ p' hp' hcompleted _ o ho hresult
        have hless := hd'.listed.executedCountOf_lt (heq ▸ hp') ht hx.first
        rw [← hindex, ProposalV2.executedCountOf, ProposalV2.transactionsCountOf, ho,
          Option.elim_some, Option.elim_some, hall] at hless
        exact absurd hless (lt_irrefl _)
      · refine ⟨q, ?_, hread⟩
        rw [AList.lookup_insert_ne (Ne.symm hproposal)]
        exact hq

theorem process_inExecution {i : GovernanceInstruction} (hd : Consistent d)
    (h : d.process i = .ok d') (hx : d.InExecution k t p) : d'.InExecution k t p := by
  refine (process_inv (I := fun d => Consistent d ∧ d.InExecution k t p) ?_ ?_ ⟨hd, hx⟩ h).2
  · exact fun d₁ d₂ h₁ h => ⟨Change.consistent h₁.1 (.effect h), h.inExecution h₁.1 h₁.2⟩
  · exact fun d₁ d₂ h₁ h => ⟨Change.consistent h₁.1 (.amendment h), h.inExecution h₁.2⟩

end

/-! ### An execution, one thing after the other -/

/-- One event, and what it does to the realm. -/
inductive Happens (d : Dao) : List Event → Dao → Prop
  | process {i : GovernanceInstruction} {d' : Dao} (h : d.process i = .ok d') :
      Happens d [.process i] d'
  | insertTransaction {governance proposal : Pubkey} {owner : TokenOwnerRecordSeeds}
      {governanceAuthority : AccountInfo} {optionIndex instructionIndex : ℕ}
      {instructions : List InstructionData} {d' : Dao}
      (h : d.insertTransaction governance proposal owner governanceAuthority optionIndex
        instructionIndex instructions = .ok d') : Happens d [] d'
  | execute {governance : Pubkey} {k : ProposalTransactionSeeds} {d' : Dao}
      (h : Execution governance k d d') : Happens d [.execute governance k] d'

theorem Happens.changes {d d' : Dao} {log : List Event} (h : Happens d log d') :
    Changes d d' := by
  cases h with
  | process h => exact process_changes h
  | insertTransaction h => exact .single (.effect (insertTransaction_effect h))
  | execute h => exact .single (.execution h)

/-- What an instruction comes to, when some keys have signed and some executions are waiting for
it to finish. -/
structure Comes (signers : List Pubkey) (waiting : Set ProposalTransactionSeeds) (d : Dao)
    (log : List Event) (d' : Dao) : Prop where
  steps : Steps Happens d log d'
  /-- A key that signs is one of these, or a governance that executes a transaction. -/
  signed : ∀ i, .process i ∈ log → ∀ key ∈ i.signers,
    key ∈ signers ∨ ∃ k, .execute key k ∈ log
  not_waiting : ∀ governance k, .execute governance k ∈ log → k ∉ waiting

namespace Comes

variable {signers signers' : List Pubkey} {waiting waiting' : Set ProposalTransactionSeeds}
  {d d' d'' : Dao} {log log' : List Event}

/-- What has no events. -/
theorem of_steps (h : Steps Happens d [] d') : Comes signers waiting d [] d' :=
  ⟨h, fun _ hi => absurd hi List.not_mem_nil, fun _ _ hk => absurd hk List.not_mem_nil⟩

theorem trans (h : Comes signers waiting d log d') (h' : Comes signers waiting d' log' d'') :
    Comes signers waiting d (log ++ log') d'' where
  steps := h.steps.trans h'.steps
  signed i hi key hkey := by
    rcases List.mem_append.mp hi with hi | hi
    · exact (h.signed i hi key hkey).imp_right (.imp fun _ => List.mem_append_left log')
    · exact (h'.signed i hi key hkey).imp_right (.imp fun _ => List.mem_append_right log)
  not_waiting governance k hk := by
    rcases List.mem_append.mp hk with hk | hk
    · exact h.not_waiting governance k hk
    · exact h'.not_waiting governance k hk

theorem mono (h : Comes signers waiting d log d') (hsigners : ∀ key ∈ signers, key ∈ signers') :
    Comes signers' waiting d log d' :=
  { h with
    signed := fun i hi key hkey => (h.signed i hi key hkey).imp_left (hsigners key) }

theorem consistent (h : Comes signers waiting d log d') (hd : Consistent d) : Consistent d' :=
  h.steps.keeps (fun _ _ _ hd h => h.changes.consistent hd) hd

/-- What comes of an instruction leaves a waiting execution as it is. -/
theorem inExecution (h : Comes signers waiting d log d') (hd : Consistent d)
    {k : ProposalTransactionSeeds} {t : ProposalTransactionV2 InstructionData} {p : ProposalV2}
    (hk : k ∈ waiting) (hx : d.InExecution k t p) : d'.InExecution k t p := by
  refine (h.steps.keeps_of_mem (I := fun d => Consistent d ∧ d.InExecution k t p) ?_
    ⟨hd, hx⟩).2
  rintro d₁ past d₂ hpast ⟨hd₁, hx₁⟩ hstep
  have hd₂ := hstep.changes.consistent hd₁
  refine ⟨hd₂, ?_⟩
  cases hstep with
  | process h => exact process_inExecution hd₁ h hx₁
  | insertTransaction h => exact (insertTransaction_effect h).inExecution hd₁ hx₁
  | @execute governance k' _ hexecution =>
      refine hexecution.inExecution hd₂ ?_ hx₁
      rintro rfl
      exact h.not_waiting governance k' (hpast _ (List.mem_singleton.mpr rfl)) hk

end Comes

/-- The claim of `executeTransactionBy_comes` for executions with room for so many calls. -/
def ExecutionsCome (depth : ℕ) : Prop :=
  ∀ {d d' : Dao} {governance proposal : Pubkey} {k : ProposalTransactionSeeds}
    {signers : List Pubkey} {waiting : Set ProposalTransactionSeeds}, Consistent d →
    (∀ k₀ ∈ waiting, Relation.TransGen d.Nests k₀ k) →
    d.executeTransactionBy (invoke depth) governance proposal k signers = .ok d' →
    Comes signers waiting d
      (executionEvents (invoke depth governance signers) (invokeEvents depth) d governance k) d'

section

variable {depth : ℕ} {governance : Pubkey} {signers : List Pubkey}
  {waiting : Set ProposalTransactionSeeds} {d d' : Dao} {k : ProposalTransactionSeeds}
  {script : List InstructionData}

/-- One instruction of a transaction. -/
theorem invoke_comes (hexecutions : ∀ n, n < depth → ExecutionsCome n) (hd : Consistent d)
    (hscript : d.Scripted k script)
    (hwaiting : ∀ k₀ ∈ waiting, Relation.ReflTransGen d.Nests k₀ k) {i : InstructionData}
    (hi : i ∈ script) (h : invoke depth governance signers d i = .ok d') :
    Comes (governance :: signers) waiting d (invokeEvents depth d i) d' := by
  cases depth with
  | zero => cases h
  | succ depth =>
      simp only [invoke, bind_eq_ok, guardOr_eq_ok] at h
      obtain ⟨_, hsigned, h⟩ := h
      have hsigned : ∀ key ∈ i.signers, key ∈ governance :: signers := fun key hkey =>
        List.mem_cons.mpr (hsigned key hkey)
      cases i with
      | governance i =>
          refine ⟨.single (.process h), fun j hj key hkey => .inl ?_, fun _ _ hk => ?_⟩
          · cases List.mem_singleton.mp hj
            exact hsigned key hkey
          · cases List.mem_singleton.mp hk
      | insertTransaction => exact .of_steps (.single (.insertTransaction h))
      | external =>
          cases h
          exact .of_steps (.refl d)
      | executeTransaction governance' proposal k' signers' =>
          have hnests : d.Nests k k' := ⟨script, hscript, governance', proposal, signers', hi⟩
          have hcomes := hexecutions depth (Nat.lt_succ_self depth) hd
            (fun k₀ hk₀ => .tail' (hwaiting k₀ hk₀) hnests) h
          exact hcomes.mono hsigned

/-- The instructions of a transaction that is being executed. -/
theorem foldlM_invoke_comes (hexecutions : ∀ n, n < depth → ExecutionsCome n)
    {l : List InstructionData} (hl : ∀ i ∈ l, i ∈ script) (hd : Consistent d)
    (hscript : d.Scripted k script)
    (hwaiting : ∀ k₀ ∈ waiting, Relation.ReflTransGen d.Nests k₀ k)
    (h : l.foldlM (invoke depth governance signers) d = .ok d') :
    Comes (governance :: signers) waiting d
      (trace (invoke depth governance signers) (invokeEvents depth) d l) d' := by
  induction l generalizing d with
  | nil =>
      cases h
      exact .of_steps (.refl _)
  | cons i rest ih =>
      rw [List.foldlM_cons, bind_eq_ok] at h
      obtain ⟨d₁, hfirst, hrest⟩ := h
      have hkeeps := invoke_keepsScripts hfirst
      have hcomes := invoke_comes hexecutions hd hscript hwaiting (hl i (List.mem_cons_self ..))
        hfirst
      rw [trace, attempt_ok hfirst, hfirst]
      refine hcomes.trans (ih (fun j hj => hl j (List.mem_cons_of_mem i hj))
        (hcomes.consistent hd) (hkeeps k script hscript) (fun k₀ hk₀ => ?_) hrest)
      exact Relation.ReflTransGen.mono hkeeps.nests_le _ _ (hwaiting k₀ hk₀)

end

/-- **An execution is what its instructions come to, and then written back.** Whatever they
execute on the way, none of the executions that wait for it is among that; so what was read for it
is still true when it is written. -/
theorem executeTransactionBy_comes (depth : ℕ) : ExecutionsCome depth := by
  induction depth using Nat.strongRecOn with
  | ind depth ih =>
      intro d d' governance proposal k signers waiting hd hwaiting h
      -- an execution that waits for this one to finish is one of another transaction
      have hnot : k ∉ waiting := fun hk => not_executed_of_cycle (hwaiting k hk) h
      obtain ⟨_, p, t, d₁, p', -, hp, hgovernance, ht, rfl, hcan, hinvoked, hafter, rfl⟩ :=
        executeTransactionBy_ok h
      have hscript : d.Scripted k t.instructions := by
        refine ⟨t, p, ht, rfl, hp, fun hdraft => ?_⟩
        have hstate := hcan.isExecutable
        rw [hdraft] at hstate
        cases hstate
      -- while the instructions are invoked, this one waits too
      have hwaiting' : ∀ k₀ ∈ insert k waiting, Relation.ReflTransGen d.Nests k₀ k := by
        rintro k₀ (rfl | hk₀)
        · exact .refl
        · exact (hwaiting k₀ hk₀).to_reflTransGen
      have hcomes := foldlM_invoke_comes ih (fun _ => id) hd hscript hwaiting' hinvoked
      have hx := hcomes.inExecution hd (Set.mem_insert k waiting) (hcan.inExecution hd ht hp)
      have hscriptOf : d.scriptOf k = t.instructions := by
        rw [scriptOf, ht, Option.elim_some]
      rw [executionEvents, hscriptOf]
      refine ⟨hcomes.steps.trans (.single (.execute (.execute hx hgovernance hafter))),
        fun i hi key hkey => ?_, fun governance' k' hk' => ?_⟩
      · rcases List.mem_append.mp hi with hi | hi
        · rcases hcomes.signed i hi key hkey with hkey | ⟨k', hk'⟩
          · rcases List.mem_cons.mp hkey with rfl | hkey
            · exact .inr ⟨k, List.mem_append_right _ (List.mem_singleton.mpr rfl)⟩
            · exact .inl hkey
          · exact .inr ⟨k', List.mem_append_left _ hk'⟩
        · cases List.mem_singleton.mp hi
      · rcases List.mem_append.mp hk' with hk' | hk'
        · exact fun hmem => hcomes.not_waiting governance' k' hk' (Set.mem_insert_of_mem k hmem)
        · cases List.mem_singleton.mp hk'
          exact hnot

end Dao

end IndexDtf.Governance
