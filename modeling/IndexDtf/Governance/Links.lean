import IndexDtf.Governance.Effects

/-!
# IndexDtf.Governance.Links

**Accounts that name each other.** A vote record names a proposal and a token owner record, a
proposal its owner's record and its governance, a transaction the option it belongs to. Nothing
closes the accounts that are named, so in every state of a realm they are there, and the data of
an account agrees with the seeds of its address.

The mints matter most: a vote record does not say which record of a voter it is of, and when it
is relinquished only the owners are compared. That the votes counted in a record are its own is
`Linked.record_eq`.
-/

namespace IndexDtf.Governance

open Lib

theorem length_eq_of_getElem? {α β : Type*} {l : List α} {l' : List β}
    (h : ∀ i : ℕ, l'[i]? = none ↔ l[i]? = none) : l'.length = l.length := by
  refine le_antisymm ?_ ?_
  · exact List.getElem?_eq_none_iff.mp ((h l.length).mpr (List.getElem?_eq_none_iff.mpr le_rfl))
  · exact List.getElem?_eq_none_iff.mp ((h l'.length).mp (List.getElem?_eq_none_iff.mpr le_rfl))

/-! ### What never changes of a proposal -/

/-- The data of a proposal that no instruction changes. -/
structure SameProposal (p p' : ProposalV2) : Prop where
  governance_eq : p'.governance = p.governance := by rfl
  governingTokenMint_eq : p'.governingTokenMint = p.governingTokenMint := by rfl
  tokenOwnerRecord_eq : p'.tokenOwnerRecord = p.tokenOwnerRecord := by rfl
  voteType_eq : p'.voteType = p.voteType := by rfl
  length_eq : p'.options.length = p.options.length := by rfl
  isSome_deny_eq : p'.denyVoteWeight.isSome = p.denyVoteWeight.isSome := by rfl

theorem SameProposal.refl (p : ProposalV2) : SameProposal p p := {}

theorem SameProposal.symm {p p' : ProposalV2} (h : SameProposal p p') : SameProposal p' p where
  governance_eq := h.governance_eq.symm
  governingTokenMint_eq := h.governingTokenMint_eq.symm
  tokenOwnerRecord_eq := h.tokenOwnerRecord_eq.symm
  voteType_eq := h.voteType_eq.symm
  length_eq := h.length_eq.symm
  isSome_deny_eq := h.isSome_deny_eq.symm

theorem SameProposal.trans {p p' p'' : ProposalV2} (h : SameProposal p p')
    (h' : SameProposal p' p'') : SameProposal p p'' where
  governance_eq := h'.governance_eq.trans h.governance_eq
  governingTokenMint_eq := h'.governingTokenMint_eq.trans h.governingTokenMint_eq
  tokenOwnerRecord_eq := h'.tokenOwnerRecord_eq.trans h.tokenOwnerRecord_eq
  voteType_eq := h'.voteType_eq.trans h.voteType_eq
  length_eq := h'.length_eq.trans h.length_eq
  isSome_deny_eq := h'.isSome_deny_eq.trans h.isSome_deny_eq

theorem sameProposal_setOption (p : ProposalV2) (i : ℕ) (option : ProposalOption) :
    SameProposal p (Dao.setOption p i option) where
  length_eq := List.length_set ..

theorem ProposalV2.Adds.sameProposal {vote : Vote} {voterWeight : ℕ} {p p' : ProposalV2}
    (h : p.Adds vote voterWeight p') : SameProposal p p' := by
  have hlength : p'.options.length = p.options.length :=
    length_eq_of_getElem? fun i => by rw [h.options_eq, Option.map_eq_none_iff]
  have hdeny : p'.denyVoteWeight.isSome = p.denyVoteWeight.isSome := by
    rw [h.deny_eq, Option.isSome_map]
  rw [h.rest_eq]
  exact { length_eq := hlength, isSome_deny_eq := hdeny }

theorem ProposalV2.Decides.sameProposal {completedAt : ℕ} {p p' : ProposalV2}
    (h : p.Decides completedAt p') : SameProposal p p' := by
  have hlength : p'.options.length = p.options.length := length_eq_of_getElem? fun i => by
    obtain ⟨r, hr⟩ := h.options_eq i
    rw [hr, Option.map_eq_none_iff]
  rw [h.rest_eq]
  exact { length_eq := hlength }

theorem ProposalV2.Proceeds.sameProposal {now : ℕ} {p p' : ProposalV2} (h : p.Proceeds now p') :
    SameProposal p p' := by
  have hlength : p'.options.length = p.options.length := by
    have heq := congrArg List.length h.options_eq
    rwa [List.length_map, List.length_map] at heq
  rw [h.rest_eq]
  exact { length_eq := hlength }

theorem ProposalV2.Proceeds.isActive_eq {now : ℕ} {p p' : ProposalV2} (h : p.Proceeds now p')
    (hstate : p.state.isExecutable = true) : p'.state.isActive = p.state.isActive := by
  rw [ProposalState.not_isActive_of_isExecutable hstate]
  rcases h.isExecuted_or hstate with h | h | h <;> rw [h] <;> rfl

namespace Dao

theorem Closes.sameProposal {d : Dao} {p p' : ProposalV2} (h : d.Closes p p') :
    SameProposal p p' := by
  rcases h with ⟨-, rfl⟩ | ⟨-, _, -, hdecides⟩
  · exact {}
  · exact hdecides.sameProposal

theorem Closes.isActive {d : Dao} {p p' : ProposalV2} (h : d.Closes p p') :
    p.state.isActive = true ∧ p'.state.isActive = false := by
  rcases h with ⟨hactive, rfl⟩ | ⟨hvoting, _, -, hdecides⟩
  · exact ⟨hactive, rfl⟩
  · exact ⟨by rw [hvoting]; rfl, ProposalState.not_isActive_of_isDecided hdecides.isDecided⟩

/-! ### What an effect does to the accounts -/

/-- The owner of a record does not change. -/
def SameOwner (t t' : TokenOwnerRecordV2) : Prop :=
  t'.governingTokenMint = t.governingTokenMint ∧ t'.governingTokenOwner = t.governingTokenOwner

theorem SameOwner.refl (t : TokenOwnerRecordV2) : SameOwner t t := ⟨rfl, rfl⟩

theorem Effect.records_extends {d d' : Dao} (h : Effect d d') :
    Store.Extends SameOwner CountsNothing d.tokenOwnerRecords d'.tokenOwnerRecords := by
  cases h with
  | frame h => exact h.records.mono (fun _ _ h => ⟨h.1, h.2.1⟩) fun _ _ h => h
  | create hp hg ht => exact .write .refl ht (.refl _)
  | cast hp hstate ht => exact .write .refl ht (.refl _)
  | withdraw hp hstate ht => exact .write .refl ht (.refl _)
  | relinquish hp hstate ht => exact .write .refl ht (.refl _)
  | close hp hcloses hgovernance howner ht => exact .write .refl ht (.refl _)
  | addSignatory => exact .refl .refl _
  | signOff => exact .refl .refl _
  | beginSignOff => exact .refl .refl _
  | startVoting => exact .refl .refl _
  | insertTransaction => exact .refl .refl _
  | removeTransaction => exact .refl .refl _
  | complete => exact .refl .refl _

theorem Effect.mem_governances {d d' : Dao} (h : Effect d d') {k : Pubkey}
    (hk : k ∈ d.governances) : k ∈ d'.governances := by
  cases h with
  | frame h => exact h.governances.mem hk
  | create => exact Store.mem_insert_of_mem hk
  | close => exact Store.mem_insert_of_mem hk
  | _ => exact hk

/-- A proposal that was just created. -/
structure Drafted (d : Dao) (p : ProposalV2) : Prop where
  state_eq : p.state = .Draft
  owner_mem : p.tokenOwnerRecord ∈ d.tokenOwnerRecords
  governance_mem : p.governance ∈ d.governances
  option_eq : ∀ (i : ℕ) (o : ProposalOption), p.options[i]? = some o → o = {}

theorem Effect.proposals_extends {d d' : Dao} (h : Effect d d') :
    Store.Extends SameProposal (fun _ p => Drafted d p) d.proposals d'.proposals := by
  cases h with
  | frame h =>
      rw [h.proposals_eq]
      exact .refl .refl _
  | create hp hg ht =>
      refine .openNew .refl hp ⟨rfl, Store.mem_of_lookup ht, Store.mem_of_lookup hg, ?_⟩
      intro i o ho
      rw [draftOf, List.getElem?_map, Option.map_eq_some_iff] at ho
      obtain ⟨-, -, rfl⟩ := ho
      rfl
  | addSignatory hp => exact .write .refl hp {}
  | signOff hp => exact .write .refl hp {}
  | beginSignOff hp => exact .write .refl hp {}
  | startVoting hp => exact .write .refl hp {}
  | insertTransaction hp => exact .write .refl hp (sameProposal_setOption ..)
  | removeTransaction hp => exact .write .refl hp (sameProposal_setOption ..)
  | cast hp hstate ht hnew hmint hweight hvalid hadds =>
      exact .write .refl hp hadds.sameProposal
  | withdraw hp hstate ht hv hproposal howner hmint hlive hadds =>
      exact .write .refl hp hadds.sameProposal.symm
  | relinquish => exact .refl .refl _
  | close hp hcloses => exact .write .refl hp hcloses.sameProposal
  | complete hp => exact .write .refl hp {}

theorem Effect.communityMint_eq {d d' : Dao} (h : Effect d d') :
    d'.realm.communityMint = d.realm.communityMint := by
  cases h with
  | frame h => exact h.communityMint_eq
  | _ => rfl

theorem Effect.councilMint_eq {d d' : Dao} (h : Effect d d') :
    d'.realm.config.councilMint = d.realm.config.councilMint ∨
      d'.realm.config.councilMint = none := by
  cases h with
  | frame h => exact h.councilMint_eq
  | _ => exact .inl rfl

end Dao

/-! ### Which mints a vote concerns -/

/-- A token with `voteMint` is voted with on proposals of `proposalMint`: one of them is the
community's and the other one the council's, as long as there is a council. -/
def RealmV2.Opposes (r : RealmV2) (voteMint proposalMint : Pubkey) : Prop :=
  voteMint ≠ proposalMint ∧ (voteMint = r.communityMint ∨ proposalMint = r.communityMint) ∧
    ∀ c, r.config.councilMint = some c → voteMint = c ∨ proposalMint = c

/-- The mints of a vote of some kind and of its proposal. -/
def RealmV2.VotesOn (r : RealmV2) : VoteKind → Pubkey → Pubkey → Prop
  | .Electorate, voteMint, proposalMint => voteMint = proposalMint
  | .Veto, voteMint, proposalMint => r.Opposes voteMint proposalMint

theorem RealmV2.vetoedMint_ok {r : RealmV2} {voteMint proposalMint : Pubkey}
    (h : r.getProposalGoverningTokenMintForVote voteMint .Veto = .ok proposalMint) :
    (voteMint = r.communityMint ∧ r.config.councilMint = some proposalMint) ∨
      (r.config.councilMint = some voteMint ∧ proposalMint = r.communityMint) := by
  simp only [getProposalGoverningTokenMintForVote] at h
  split at h
  · next hcommunity =>
      rw [okOr_eq_ok] at h
      exact .inl ⟨hcommunity.symm, h⟩
  · split at h
    · next hcouncil =>
        cases h
        exact .inr ⟨hcouncil, rfl⟩
    · cases h

theorem RealmV2.votesOn_of_ok {r : RealmV2} {kind : VoteKind} {voteMint proposalMint : Pubkey}
    (hne : r.config.councilMint ≠ some r.communityMint)
    (h : r.getProposalGoverningTokenMintForVote voteMint kind = .ok proposalMint) :
    r.VotesOn kind voteMint proposalMint := by
  cases kind with
  | Electorate =>
      simp only [getProposalGoverningTokenMintForVote, Except.ok.injEq] at h
      exact h
  | Veto =>
      rcases vetoedMint_ok h with ⟨rfl, hcouncil⟩ | ⟨hcouncil, rfl⟩
      · refine ⟨?_, .inl rfl, fun c hc => .inr ?_⟩
        · rintro rfl
          exact hne hcouncil
        · rw [hcouncil] at hc
          exact Option.some.inj hc
      · refine ⟨?_, .inr rfl, fun c hc => .inl ?_⟩
        · rintro rfl
          exact hne hcouncil
        · rw [hcouncil] at hc
          exact Option.some.inj hc

/-- The mint of the vote is determined by the one of the proposal. -/
theorem RealmV2.VotesOn.eq_of_ok {r : RealmV2} {kind : VoteKind}
    {voteMint voteMint' proposalMint : Pubkey}
    (hne : r.config.councilMint ≠ some r.communityMint)
    (h : r.VotesOn kind voteMint proposalMint)
    (h' : r.getProposalGoverningTokenMintForVote voteMint' kind = .ok proposalMint) :
    voteMint = voteMint' := by
  have hvotes := votesOn_of_ok hne h'
  cases kind with
  | Electorate => exact Eq.trans h hvotes.symm
  | Veto =>
      obtain ⟨hdiff, hcommunity, hcouncil⟩ := h
      rcases vetoedMint_ok h' with ⟨rfl, hsome⟩ | ⟨hsome, rfl⟩
      · refine hcommunity.resolve_right ?_
        rintro rfl
        exact hne hsome
      · exact (hcouncil voteMint' hsome).resolve_right hvotes.1.symm

theorem RealmV2.VotesOn.mono {r r' : RealmV2} {kind : VoteKind} {voteMint proposalMint : Pubkey}
    (h : r.VotesOn kind voteMint proposalMint) (hcommunity : r'.communityMint = r.communityMint)
    (hcouncil : r'.config.councilMint = r.config.councilMint ∨ r'.config.councilMint = none) :
    r'.VotesOn kind voteMint proposalMint := by
  cases kind with
  | Electorate => exact h
  | Veto =>
      obtain ⟨hdiff, hone, hother⟩ := h
      refine ⟨hdiff, by rwa [hcommunity], fun c hc => ?_⟩
      rcases hcouncil with hcouncil | hcouncil
      · exact hother c (hcouncil.symm.trans hc)
      · rw [hcouncil] at hc
        cases hc

/-! ### The invariant -/

namespace Dao

/-- A vote record names accounts that exist, and was cast with the right tokens. -/
structure VoteLinked (d : Dao) (k : VoteRecordSeeds) (v : VoteRecordV2) : Prop where
  proposal_eq : v.proposal = k.proposal
  owner_eq : v.governingTokenOwner = k.tokenOwnerRecord.governingTokenOwner
  record_mem : k.tokenOwnerRecord ∈ d.tokenOwnerRecords
  votesOn : ∃ p, d.proposals.lookup k.proposal = some p ∧ d.realm.VotesOn (getVoteKind v.vote)
    k.tokenOwnerRecord.governingTokenMint p.governingTokenMint

/-- A transaction belongs to an option of a proposal. -/
structure TransactionLinked (d : Dao) (k : ProposalTransactionSeeds)
    (t : ProposalTransactionV2 InstructionData) : Prop where
  proposal_eq : t.proposal = k.proposal
  optionIndex_eq : t.optionIndex = k.optionIndex
  transactionIndex_eq : t.transactionIndex = k.transactionIndex
  option_mem : ∃ p, d.proposals.lookup k.proposal = some p ∧ k.optionIndex < p.options.length

/-- Every account agrees with its seeds, and what it names exists. -/
structure Linked (d : Dao) : Prop where
  councilMint_ne : d.realm.config.councilMint ≠ some d.realm.communityMint
  records : ∀ k t, d.tokenOwnerRecords.lookup k = some t →
    t.governingTokenMint = k.governingTokenMint ∧ t.governingTokenOwner = k.governingTokenOwner
  proposals : ∀ k p, d.proposals.lookup k = some p →
    p.tokenOwnerRecord ∈ d.tokenOwnerRecords ∧ p.governance ∈ d.governances
  votes : ∀ k v, d.voteRecords.lookup k = some v → VoteLinked d k v
  signatories : ∀ k s, d.signatoryRecords.lookup k = some s → k.proposal ∈ d.proposals
  transactions : ∀ k t, d.proposalTransactions.lookup k = some t → TransactionLinked d k t

/-- A vote is relinquished from the record it was cast with. -/
theorem Linked.record_eq {d : Dao} (hd : Linked d) {k : VoteRecordSeeds} {v : VoteRecordV2}
    {p : ProposalV2} {record : TokenOwnerRecordSeeds} {t : TokenOwnerRecordV2}
    (hv : d.voteRecords.lookup k = some v) (hp : d.proposals.lookup v.proposal = some p)
    (ht : d.tokenOwnerRecords.lookup record = some t)
    (howner : v.governingTokenOwner = t.governingTokenOwner)
    (hmint : d.realm.getProposalGoverningTokenMintForVote t.governingTokenMint
      (getVoteKind v.vote) = .ok p.governingTokenMint) :
    k = ⟨v.proposal, record⟩ := by
  obtain ⟨hproposal, howner', -, q, hq, hvotes⟩ := hd.votes k v hv
  obtain ⟨hrecordMint, hrecordOwner⟩ := hd.records record t ht
  rw [← hproposal, hp] at hq
  cases hq
  have hmints := hvotes.eq_of_ok hd.councilMint_ne hmint
  obtain ⟨proposal, ⟨mint, owner⟩⟩ := k
  obtain ⟨mint', owner'⟩ := record
  simp only at hproposal howner' hmints hrecordMint hrecordOwner
  rw [hproposal, hmints, hrecordMint, ← howner', howner, hrecordOwner]

/-- The links survive as long as accounts are kept and the new ones are linked. -/
theorem Linked.of_extends {d d' : Dao} (hd : Linked d)
    (hcommunity : d'.realm.communityMint = d.realm.communityMint)
    (hcouncil : d'.realm.config.councilMint = d.realm.config.councilMint ∨
      d'.realm.config.councilMint = none)
    (hrecords : Store.Extends SameOwner CountsNothing d.tokenOwnerRecords d'.tokenOwnerRecords)
    (hgovernances : ∀ k, k ∈ d.governances → k ∈ d'.governances)
    (hproposals : Store.Extends SameProposal (fun _ p => Drafted d p) d.proposals d'.proposals)
    (hvotes : ∀ k v', d'.voteRecords.lookup k = some v' → VoteLinked d k v' ∨
      ∃ v, d.voteRecords.lookup k = some v ∧ v'.proposal = v.proposal ∧
        v'.governingTokenOwner = v.governingTokenOwner ∧ v'.vote = v.vote)
    (hsignatories : ∀ k s', d'.signatoryRecords.lookup k = some s' →
      k.proposal ∈ d.proposals ∨ k ∈ d.signatoryRecords)
    (htransactions : ∀ k t', d'.proposalTransactions.lookup k = some t' →
      TransactionLinked d k t' ∨ ∃ t, d.proposalTransactions.lookup k = some t ∧
        t'.proposal = t.proposal ∧ t'.optionIndex = t.optionIndex ∧
        t'.transactionIndex = t.transactionIndex) : Linked d' where
  councilMint_ne := by
    rw [hcommunity]
    rcases hcouncil with h | h
    · rw [h]
      exact hd.councilMint_ne
    · rw [h]
      nofun
  records k t' ht' := by
    rcases hrecords.cases ht' with ⟨t, ht, hmint, howner⟩ | ⟨-, hmint, howner, -⟩
    · obtain ⟨hm, ho⟩ := hd.records k t ht
      exact ⟨hmint.trans hm, howner.trans ho⟩
    · exact ⟨hmint, howner⟩
  proposals k p' hp' := by
    rcases hproposals.cases hp' with ⟨p, hp, hsame⟩ | ⟨-, hnew⟩
    · obtain ⟨howner, hgovernance⟩ := hd.proposals k p hp
      rw [hsame.tokenOwnerRecord_eq, hsame.governance_eq]
      exact ⟨hrecords.mem howner, hgovernances _ hgovernance⟩
    · exact ⟨hrecords.mem hnew.owner_mem, hgovernances _ hnew.governance_mem⟩
  votes k v' hv' := by
    have hlinked : VoteLinked d k v' := by
      rcases hvotes k v' hv' with hnew | ⟨v, hv, hproposal, howner, hvote⟩
      · exact hnew
      · obtain ⟨h₁, h₂, h₃, h₄⟩ := hd.votes k v hv
        exact ⟨hproposal.trans h₁, howner.trans h₂, h₃, by rwa [hvote]⟩
    obtain ⟨h₁, h₂, h₃, p, hp, h₄⟩ := hlinked
    obtain ⟨p', hp', hsame⟩ := hproposals.keeps _ p hp
    refine ⟨h₁, h₂, hrecords.mem h₃, p', hp', ?_⟩
    rw [hsame.governingTokenMint_eq]
    exact h₄.mono hcommunity hcouncil
  signatories k s' hs' := by
    rcases hsignatories k s' hs' with hnew | hold
    · exact hproposals.mem hnew
    · obtain ⟨s, hs⟩ := Store.exists_lookup_of_mem hold
      exact hproposals.mem (hd.signatories k s hs)
  transactions k t' ht' := by
    have hlinked : TransactionLinked d k t' := by
      rcases htransactions k t' ht' with hnew | ⟨t, ht, hproposal, hoption, hindex⟩
      · exact hnew
      · obtain ⟨h₁, h₂, h₃, h₄⟩ := hd.transactions k t ht
        exact ⟨hproposal.trans h₁, hoption.trans h₂, hindex.trans h₃, h₄⟩
    obtain ⟨h₁, h₂, h₃, p, hp, h₄⟩ := hlinked
    obtain ⟨p', hp', hsame⟩ := hproposals.keeps _ p hp
    exact ⟨h₁, h₂, h₃, p', hp', hsame.length_eq ▸ h₄⟩

/-! ### It is kept -/

/-- A vote record after an effect is a new one, linked, or one with the data it had. -/
theorem Effect.voteRecords_cases {d d' : Dao} (hd : Linked d) (h : Effect d d') :
    ∀ k v', d'.voteRecords.lookup k = some v' → VoteLinked d k v' ∨
      ∃ v, d.voteRecords.lookup k = some v ∧ v'.proposal = v.proposal ∧
        v'.governingTokenOwner = v.governingTokenOwner ∧ v'.vote = v.vote := by
  have hsame : ∀ k v', d.voteRecords.lookup k = some v' → VoteLinked d k v' ∨
      ∃ v, d.voteRecords.lookup k = some v ∧ v'.proposal = v.proposal ∧
        v'.governingTokenOwner = v.governingTokenOwner ∧ v'.vote = v.vote :=
    fun k v' hv => .inr ⟨v', hv, rfl, rfl, rfl⟩
  cases h with
  | frame h => rwa [h.voteRecords_eq]
  | @cast proposal voter p p' t vote voterWeight voterWeightRecord hp hstate ht hnew hmint =>
      obtain ⟨hrecordMint, hrecordOwner⟩ := hd.records voter t ht
      refine Store.forall_insert (.inl ⟨rfl, hrecordOwner, Store.mem_of_lookup ht, p, hp, ?_⟩)
        fun k v _ => hsame k v
      rw [← hrecordMint]
      exact RealmV2.votesOn_of_ok hd.councilMint_ne hmint
  | withdraw => exact Store.forall_erase fun k v _ => hsame k v
  | relinquish hp hstate ht hv =>
      exact Store.forall_insert (.inr ⟨_, hv, rfl, rfl, rfl⟩) fun k v _ => hsame k v
  | _ => exact hsame

theorem Effect.signatoryRecords_cases {d d' : Dao} (h : Effect d d') :
    ∀ k s', d'.signatoryRecords.lookup k = some s' →
      k.proposal ∈ d.proposals ∨ k ∈ d.signatoryRecords := by
  have hsame : ∀ k s', d.signatoryRecords.lookup k = some s' →
      k.proposal ∈ d.proposals ∨ k ∈ d.signatoryRecords :=
    fun k s' hs => .inr (Store.mem_of_lookup hs)
  cases h with
  | frame h => rwa [h.signatoryRecords_eq]
  | addSignatory hp =>
      exact Store.forall_insert (.inl (Store.mem_of_lookup hp)) fun k s _ => hsame k s
  | signOff hp hstate hs => exact Store.forall_insert (hsame _ _ hs) fun k s _ => hsame k s
  | _ => exact hsame

theorem Effect.proposalTransactions_cases {d d' : Dao} (h : Effect d d') :
    ∀ k t', d'.proposalTransactions.lookup k = some t' →
      TransactionLinked d k t' ∨ ∃ t, d.proposalTransactions.lookup k = some t ∧
        t'.proposal = t.proposal ∧ t'.optionIndex = t.optionIndex ∧
        t'.transactionIndex = t.transactionIndex := by
  have hsame : ∀ k t', d.proposalTransactions.lookup k = some t' →
      TransactionLinked d k t' ∨ ∃ t, d.proposalTransactions.lookup k = some t ∧
        t'.proposal = t.proposal ∧ t'.optionIndex = t.optionIndex ∧
        t'.transactionIndex = t.transactionIndex :=
    fun k t' ht => .inr ⟨t', ht, rfl, rfl, rfl⟩
  cases h with
  | frame h => rwa [h.proposalTransactions_eq]
  | insertTransaction hp hstate hdeny hoption =>
      refine Store.forall_insert (.inl ⟨rfl, rfl, rfl, _, hp, ?_⟩) fun k t _ => hsame k t
      exact (List.getElem?_eq_some_iff.mp hoption).1
  | removeTransaction => exact Store.forall_erase fun k t _ => hsame k t
  | _ => exact hsame

theorem Effect.linked {d d' : Dao} (hd : Linked d) (h : Effect d d') : Linked d' :=
  hd.of_extends h.communityMint_eq h.councilMint_eq h.records_extends
    (fun _ => h.mem_governances) h.proposals_extends (h.voteRecords_cases hd)
    h.signatoryRecords_cases h.proposalTransactions_cases

theorem Amendment.linked {d d' : Dao} (hd : Linked d) (h : Amendment d d') : Linked d' := by
  have hextends : ∀ governances requiredSignatories,
      (∀ k, k ∈ d.governances → k ∈ governances) →
      Linked { d with governances, requiredSignatories } := by
    intro governances requiredSignatories hgovernances
    exact hd.of_extends rfl (.inl rfl) (.refl .refl _) hgovernances (.refl .refl _)
      (fun k v hv => .inr ⟨v, hv, rfl, rfl, rfl⟩) (fun k s hs => .inr (Store.mem_of_lookup hs))
      fun k t ht => .inr ⟨t, ht, rfl, rfl, rfl⟩
  cases h with
  | add => exact hextends _ _ fun k => Store.mem_insert_of_mem
  | remove => exact hextends _ _ fun k => Store.mem_insert_of_mem

theorem Execution.linked {governance : Pubkey} {k : ProposalTransactionSeeds} {d d' : Dao}
    (hd : Linked d) (h : Execution governance k d d') : Linked d' := by
  cases h with
  | execute h hgovernance hafter =>
      obtain ⟨q, hq, hstate, hproceeds⟩ := h.proceeds hafter
      refine hd.of_extends rfl (.inl rfl) (.refl .refl _) (fun _ => id)
        (.write .refl hq hproceeds.sameProposal)
        (fun k v hv => .inr ⟨v, hv, rfl, rfl, rfl⟩)
        (fun k s hs => .inr (Store.mem_of_lookup hs)) ?_
      exact Store.forall_insert (.inr ⟨_, h.transaction_eq, rfl, rfl, rfl⟩)
        fun k t _ hk => .inr ⟨t, hk, rfl, rfl, rfl⟩

theorem Fresh.linked {d : Dao} (h : Fresh d) : Linked d where
  councilMint_ne := h.councilMint_ne
  records := by
    rw [h.tokenOwnerRecords_eq]
    exact Store.forall_empty
  proposals := by
    rw [h.proposals_eq]
    exact Store.forall_empty
  votes := by
    rw [h.voteRecords_eq]
    exact Store.forall_empty
  signatories := by
    rw [h.signatoryRecords_eq]
    exact Store.forall_empty
  transactions := by
    rw [h.proposalTransactions_eq]
    exact Store.forall_empty

end Dao

end IndexDtf.Governance
