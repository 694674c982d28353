import IndexDtf.Governance.Counts
import IndexDtf.Governance.Tally
import IndexDtf.Governance.Signatories
import IndexDtf.Governance.Transactions
import IndexDtf.Governance.Stages

/-!
# IndexDtf.Governance.Changes

**What holds in every state of a realm.** An instruction, of whatever kind, makes a sequence of
changes: effects, amendments, and executions of transactions. Each of them keeps the invariants of
the modules before (`Change.consistent`), a proposal evolves with it (`Changes.evolves`), and what
was executed remains so (`Change.executedKept`).
-/

namespace IndexDtf.Governance

open Lib

namespace Dao

/-- The invariants of a realm. -/
structure Consistent (d : Dao) : Prop where
  linked : Linked d
  counted : Counted d
  tallied : Tallied d.proposals d.voteRecords
  votesLive : VotesLive d.proposals d.voteRecords
  signOffs : SignOffs d.proposals d.signatoryRecords
  listed : Listed d.proposals d.proposalTransactions
  staged : ∀ k p, d.proposals.lookup k = some p → p.Staged d.unixTimestamp

/-- One thing that happens to a realm. -/
inductive Change (d : Dao) : Dao → Prop
  | effect {d' : Dao} (h : Effect d d') : Change d d'
  | amendment {d' : Dao} (h : Amendment d d') : Change d d'
  | execution {governance : Pubkey} {k : ProposalTransactionSeeds} {d' : Dao}
      (h : Execution governance k d d') : Change d d'
  /-- Time passes. -/
  | tick {unixTimestamp slot : ℕ} (h : d.unixTimestamp ≤ unixTimestamp) :
      Change d { d with unixTimestamp, slot }

/-- One thing after the other. -/
abbrev Changes : Dao → Dao → Prop := Relation.ReflTransGen Change

/-! ### One change -/

theorem Effect.unixTimestamp_eq {d d' : Dao} (h : Effect d d') :
    d'.unixTimestamp = d.unixTimestamp := by
  cases h with
  | frame h => exact h.unixTimestamp_eq
  | _ => rfl

theorem Amendment.proposals_eq {d d' : Dao} (h : Amendment d d') :
    d'.proposals = d.proposals ∧ d'.unixTimestamp = d.unixTimestamp ∧
      d'.voteRecords = d.voteRecords ∧ d'.signatoryRecords = d.signatoryRecords ∧
      d'.proposalTransactions = d.proposalTransactions := by
  cases h with
  | add => exact ⟨rfl, rfl, rfl, rfl, rfl⟩
  | remove => exact ⟨rfl, rfl, rfl, rfl, rfl⟩

theorem Execution.unixTimestamp_eq {governance : Pubkey} {k : ProposalTransactionSeeds}
    {d d' : Dao} (h : Execution governance k d d') : d'.unixTimestamp = d.unixTimestamp := by
  cases h with
  | execute => rfl

/-- What a change makes of the proposals: each stays or moves, and new ones are drafts. -/
theorem Change.moves {d d' : Dao} (h : Change d d') :
    Store.Extends d.StaysOrMoves (fun _ p => d.Created p) d.proposals d'.proposals := by
  cases h with
  | effect h => exact h.moves
  | amendment h =>
      rw [h.proposals_eq.1]
      exact .refl (.refl d) _
  | execution h => exact h.moves
  | tick => exact .refl (.refl d) _

theorem Change.unixTimestamp_le {d d' : Dao} (h : Change d d') :
    d.unixTimestamp ≤ d'.unixTimestamp := by
  cases h with
  | effect h => exact h.unixTimestamp_eq.ge
  | amendment h => exact h.proposals_eq.2.1.ge
  | execution h => exact h.unixTimestamp_eq.ge
  | tick h => exact h

theorem Change.staged {d d' : Dao} (h : Change d d')
    (hs : ∀ k p, d.proposals.lookup k = some p → p.Staged d.unixTimestamp) :
    ∀ k p, d'.proposals.lookup k = some p → p.Staged d'.unixTimestamp := by
  intro k p' hp'
  have hstaged : p'.Staged d.unixTimestamp := by
    rcases h.moves.cases hp' with ⟨p, hp, rfl | hmoves⟩ | ⟨-, hcreated⟩
    · exact hs k p' hp
    · exact hmoves.staged (hs k p hp)
    · exact hcreated.staged
  exact hstaged.later h.unixTimestamp_le

theorem Linked.later {d : Dao} (hd : Linked d) (unixTimestamp slot : ℕ) :
    Linked { d with unixTimestamp, slot } :=
  hd.of_extends rfl (.inl rfl) (.refl .refl _) (fun _ => id) (.refl .refl _)
    (fun _ v hv => .inr ⟨v, hv, rfl, rfl, rfl⟩) (fun _ _ hs => .inr (Store.mem_of_lookup hs))
    fun _ t ht => .inr ⟨t, ht, rfl, rfl, rfl⟩

theorem Change.consistent {d d' : Dao} (hd : Consistent d) (h : Change d d') :
    Consistent d' := by
  have hstaged := h.staged hd.staged
  cases h with
  | effect h =>
      exact
        { linked := h.linked hd.linked
          counted := h.counted hd.linked hd.counted
          tallied := h.tallied hd.linked hd.tallied
          votesLive := h.votesLive hd.linked hd.votesLive
          signOffs := h.signOffs hd.linked hd.signOffs
          listed := h.listed hd.linked hd.listed
          staged := hstaged }
  | amendment h =>
      obtain ⟨hproposals, -, hvotes, hsignatories, htransactions⟩ := h.proposals_eq
      exact
        { linked := h.linked hd.linked
          counted := h.counted hd.counted
          tallied := by
            rw [hproposals, hvotes]
            exact hd.tallied
          votesLive := by
            rw [hproposals, hvotes]
            exact hd.votesLive
          signOffs := by
            rw [hproposals, hsignatories]
            exact hd.signOffs
          listed := by
            rw [hproposals, htransactions]
            exact hd.listed
          staged := hstaged }
  | execution h =>
      exact
        { linked := h.linked hd.linked
          counted := h.counted hd.counted
          tallied := h.tallied hd.tallied
          votesLive := h.votesLive hd.votesLive
          signOffs := h.signOffs hd.signOffs
          listed := h.listed hd.linked hd.listed
          staged := hstaged }
  | tick =>
      exact
        { linked := hd.linked.later ..
          counted := ⟨hd.counted.votes, hd.counted.owned, hd.counted.governed,
            hd.counted.outstanding_le⟩
          tallied := hd.tallied
          votesLive := hd.votesLive
          signOffs := hd.signOffs
          listed := hd.listed
          staged := hstaged }

/-- What was executed remains so: only a draft loses transactions. -/
theorem Change.executedKept {d d' : Dao} (hd : Consistent d) (h : Change d d') :
    ExecutedKept d.proposalTransactions d'.proposalTransactions := by
  have hrefl : ExecutedKept d.proposalTransactions d.proposalTransactions :=
    fun _ t ht hexecuted => ⟨t, ht, hexecuted⟩
  cases h with
  | effect h =>
      cases h with
      | frame h => rwa [h.proposalTransactions_eq]
      | insertTransaction hp hstate hdeny hoption hindex hnext hnew =>
          refine .insert fun t ht => ?_
          rw [hnew] at ht
          cases ht
      | removeTransaction hp hstate ht hproposal =>
          refine .erase ht (hd.listed.not_executed hp (by rw [hstate]; rfl) ht ?_)
          exact (hd.linked.transactions _ _ ht).proposal_eq.symm.trans hproposal
      | _ => exact hrefl
  | amendment h => rwa [h.proposals_eq.2.2.2.2]
  | execution h =>
      cases h with
      | execute => exact .insert fun _ _ _ => rfl
  | tick => exact hrefl

theorem Fresh.consistent {d : Dao} (h : Fresh d) : Consistent d where
  linked := h.linked
  counted := h.counted
  tallied := h.tallied
  votesLive := h.votesLive
  signOffs := h.signOffs
  listed := h.listed
  staged := by
    rw [h.proposals_eq]
    exact Store.forall_empty

/-- The invariant rule for changes. -/
theorem Changes.inv {I : Dao → Prop}
    (hchange : ∀ d d', Consistent d → I d → Change d d' → I d') {d d' : Dao}
    (h : Changes d d') (hd : Consistent d) (hI : I d) : Consistent d' ∧ I d' := by
  induction h with
  | refl => exact ⟨hd, hI⟩
  | tail _ h ih => exact ⟨h.consistent ih.1, hchange _ _ ih.1 ih.2 h⟩

theorem Changes.consistent {d d' : Dao} (h : Changes d d') (hd : Consistent d) :
    Consistent d' :=
  (h.inv (I := fun _ => True) (fun _ _ _ _ _ => trivial) hd trivial).1

/-- A proposal remains, and evolves. -/
theorem Changes.evolves {d d' : Dao} (h : Changes d d') {k : Pubkey} {p : ProposalV2}
    (hp : d.proposals.lookup k = some p) :
    ∃ p', d'.proposals.lookup k = some p' ∧ p.Evolves p' := by
  induction h with
  | refl => exact ⟨p, hp, .refl p⟩
  | tail _ h ih =>
      obtain ⟨q, hq, hevolves⟩ := ih
      obtain ⟨p', hp', rfl | hmoves⟩ := h.moves.keeps k q hq
      · exact ⟨p', hp', hevolves⟩
      · exact ⟨p', hp', hevolves.trans hmoves.evolves⟩

/-! ### Instructions -/

theorem Effects.changes {d d' : Dao} (h : Effects d d') : Changes d d' :=
  h.lift id fun _ _ => Change.effect

theorem process_changes {d d' : Dao} {i : GovernanceInstruction} (h : d.process i = .ok d') :
    Changes d d' := by
  cases hi : i.amends with
  | false => exact (process_effects hi h).changes
  | true => exact .single (.amendment (process_amendment hi h))

end Dao

end IndexDtf.Governance
