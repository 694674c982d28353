import IndexDtf.Governance.Stakes
import IndexDtf.Governance.Execution

/-!
# IndexDtf.Governance.SelfGovernance

**A governance decides on its own settings.** Its configuration and the signatories it requires
are changed by instructions that it has to sign, and it signs only what one of its proposals
carries: whoever may send instructions to the realm, the settings stay unless a transaction of an
approved proposal of this governance is executed, be it by the transaction of another one.

* `Requirements` — the required signatories, and their number in the governance;
* `SameSettings` — the settings of a governance in two states;
* `settings_changed_by_vote` — what has changed them was approved.
-/

namespace IndexDtf.Governance

open Lib

namespace Dao

/-! ### Required signatories -/

/-- The required signatories of the governances of a realm. -/
structure Requirements (governances : Store Pubkey GovernanceV2)
    (required : Store RequiredSignatorySeeds RequiredSignatory) : Prop where
  linked : ∀ k data, required.lookup k = some data →
    data.governance = k.governance ∧ data.signatory = k.signatory
  /-- A governance counts them. -/
  counted : Store.Counts (fun g : GovernanceV2 => g.requiredSignatoriesCount)
    (fun (k : RequiredSignatorySeeds) _ => k.governance) (fun _ _ => True) governances required
  mem : ∀ k data, required.lookup k = some data → k.governance ∈ governances

/-- A governance that requires as many signatories as before. -/
def SameRequired (g g' : GovernanceV2) : Prop :=
  g'.requiredSignatoriesCount = g.requiredSignatoriesCount

theorem Effect.governances_extends {d d' : Dao} (h : Effect d d') :
    Store.Extends SameRequired (fun _ g => g.requiredSignatoriesCount = 0) d.governances
      d'.governances := by
  have hrefl : ∀ g, SameRequired g g := fun _ => rfl
  cases h with
  | frame h => exact h.governances.mono (fun _ _ h => h.2) fun _ _ h => h.2
  | create hp hg => exact .write hrefl hg rfl
  | close hp hcloses hgovernance howner ht hg => exact .write hrefl hg rfl
  | _ => exact .refl hrefl _

theorem Effect.requiredSignatories_eq {d d' : Dao} (h : Effect d d') :
    d'.requiredSignatories = d.requiredSignatories := by
  cases h with
  | frame h => exact h.requiredSignatories_eq
  | _ => rfl

theorem Effect.requirements {d d' : Dao} (h : Effect d d')
    (hr : Requirements d.governances d.requiredSignatories) :
    Requirements d'.governances d'.requiredSignatories := by
  have hextends := h.governances_extends
  rw [h.requiredSignatories_eq]
  exact
    { linked := hr.linked
      counted := hr.counted.of_extends hextends (fun _ _ h => h) (fun _ _ h => h) hr.mem
      mem := fun k data hk => hextends.mem (hr.mem k data hk) }

theorem Amendment.requirements {d d' : Dao} (h : Amendment d d')
    (hr : Requirements d.governances d.requiredSignatories) :
    Requirements d'.governances d'.requiredSignatories := by
  cases h with
  | add hg hnew =>
      exact
        { linked := Store.forall_insert ⟨rfl, rfl⟩ fun k data _ => hr.linked k data
          counted := hr.counted.openNew hnew trivial rfl hg rfl
          mem := Store.forall_insert
            (Store.mem_insert_of_mem (Store.mem_of_lookup hg))
            fun k data _ hk => Store.mem_insert_of_mem (hr.mem k data hk) }
  | remove hg hdata hgovernance =>
      have hof := (hr.linked _ _ hdata).1.symm.trans hgovernance
      exact
        { linked := Store.forall_erase fun k data _ => hr.linked k data
          counted := hr.counted.erase hdata trivial hof hg rfl
          mem := Store.forall_erase fun k data _ hk =>
            Store.mem_insert_of_mem (hr.mem k data hk) }

theorem Change.requirements {d d' : Dao} (h : Change d d')
    (hr : Requirements d.governances d.requiredSignatories) :
    Requirements d'.governances d'.requiredSignatories := by
  cases h with
  | effect h => exact h.requirements hr
  | amendment h => exact h.requirements hr
  | execution h =>
      cases h with
      | execute => exact hr
  | tick => exact hr

theorem Changes.requirements {d d' : Dao} (h : Changes d d') (hd : Consistent d)
    (hr : Requirements d.governances d.requiredSignatories) :
    Requirements d'.governances d'.requiredSignatories :=
  (h.inv (I := fun d => Requirements d.governances d.requiredSignatories)
    (fun _ _ _ hr h => h.requirements hr) hd hr).2

theorem Reachable.requirements {d : Dao} (h : Reachable d) :
    Requirements d.governances d.requiredSignatories := by
  obtain ⟨d₀, inputs, hfresh, rfl⟩ := h
  refine (run_changes hfresh.consistent inputs).1.requirements hfresh.consistent ?_
  rw [hfresh.requiredSignatories_eq, hfresh.governances_eq]
  exact ⟨Store.forall_empty, Store.forall_empty, Store.forall_empty⟩

/-! ### The settings of a governance -/

/-- A governance with the same configuration and the same required signatories. -/
structure SameSettings (governance : Pubkey) (d d' : Dao) : Prop where
  kept : ∀ g, d.governances.lookup governance = some g →
    ∃ g', d'.governances.lookup governance = some g' ∧ SameConfig g g'
  required : ∀ signatory, d'.requiredSignatories.lookup ⟨governance, signatory⟩ =
    d.requiredSignatories.lookup ⟨governance, signatory⟩

namespace SameSettings

variable {governance : Pubkey} {d d' d'' : Dao}

theorem of_eq (hgovernances : d'.governances = d.governances)
    (hrequired : d'.requiredSignatories = d.requiredSignatories) :
    SameSettings governance d d' where
  kept g hg := ⟨g, by rw [hgovernances, hg], .refl g⟩
  required _ := by rw [hrequired]

theorem refl (governance : Pubkey) (d : Dao) : SameSettings governance d d := .of_eq rfl rfl

theorem trans (h : SameSettings governance d d') (h' : SameSettings governance d' d'') :
    SameSettings governance d d'' where
  kept g hg := by
    obtain ⟨g', hg', hsame⟩ := h.kept g hg
    obtain ⟨g'', hg'', hsame'⟩ := h'.kept g' hg'
    exact ⟨g'', hg'', by rw [SameConfig, hsame', hsame]⟩
  required signatory := (h'.required signatory).trans (h.required signatory)

/-- Another governance is written, and accounts of its own. -/
theorem of_other {key : Pubkey} {g' : GovernanceV2} (hne : key ≠ governance)
    (hgovernances : d'.governances = d.governances.insert key g')
    (hrequired : ∀ signatory, d'.requiredSignatories.lookup ⟨governance, signatory⟩ =
      d.requiredSignatories.lookup ⟨governance, signatory⟩) : SameSettings governance d d' where
  kept g hg := by
    refine ⟨g, ?_, .refl g⟩
    rw [hgovernances, AList.lookup_insert_ne hne.symm, hg]
  required := hrequired

end SameSettings

theorem ProposalsOnly.sameSettings {d d' : Dao} (h : ProposalsOnly d d') (governance : Pubkey) :
    SameSettings governance d d' where
  kept g hg := h.governances.keeps governance g hg
  required _ := by rw [h.eq]

theorem Staking.sameSettings {i : RecordInstruction} {d d' : Dao} (h : Staking i d d')
    (governance : Pubkey) : SameSettings governance d d' := by
  cases h with
  | deposit ht hreceive =>
      obtain ⟨_, _, _, rfl⟩ := receive_ok hreceive
      exact .of_eq rfl rfl
  | _ => exact .of_eq rfl rfl

/-- What the governance has not signed leaves its settings alone. -/
theorem stepConfig_sameSettings {d d' : Dao} {i : ConfigInstruction} {governance : Pubkey}
    (hr : Requirements d.governances d.requiredSignatories) (hg : governance ∈ d.governances)
    (hunsigned : governance ∉ i.signers) (h : d.stepConfig i = .ok d') :
    SameSettings governance d d' := by
  have hother : ∀ {account : AccountInfo}, account.isSigner = true →
      governance ∉ (if account.isSigner then [account.key] else []) →
      account.key ≠ governance := by
    rintro account hsigner hnot rfl
    rw [if_pos hsigner] at hnot
    exact hnot (List.mem_singleton.mpr rfl)
  cases i with
  | createGovernance key =>
      simp only [stepConfig, createGovernance, bind_eq_ok, guardOr_eq_ok, Except.ok.injEq] at h
      obtain ⟨_, -, _, -, _, hnew, rfl⟩ := h
      refine .of_other ?_ rfl fun _ => rfl
      rintro rfl
      exact AList.lookup_eq_none.mp hnew hg
  | setGovernanceConfig account =>
      simp only [stepConfig, setGovernanceConfig, bind_eq_ok, require_eq_ok,
        Except.ok.injEq] at h
      obtain ⟨_, hsigner, _, -, _, -, rfl⟩ := h
      exact .of_other (hother hsigner hunsigned) rfl fun _ => rfl
  | addRequiredSignatory account =>
      simp only [stepConfig, addRequiredSignatory, bind_eq_ok, require_eq_ok,
        Except.ok.injEq] at h
      obtain ⟨_, hsigner, _, -, _, -, _, -, rfl⟩ := h
      have hne := hother hsigner hunsigned
      refine .of_other hne rfl fun signatory => AList.lookup_insert_ne ?_
      exact fun heq => hne (congrArg RequiredSignatorySeeds.governance heq).symm
  | removeRequiredSignatory account required =>
      simp only [stepConfig, removeRequiredSignatory, getRequiredSignatoryDataForGovernance,
        bind_eq_ok, require_eq_ok, okOr_eq_ok, Except.ok.injEq] at h
      obtain ⟨_, hsigner, _, -, _, ⟨data, hdata, _, hgovernance, -⟩, _, -, rfl⟩ := h
      have hne := hother hsigner hunsigned
      refine .of_other hne rfl fun signatory => AList.lookup_erase_ne ?_
      rintro rfl
      exact hne (hgovernance.symm.trans (hr.linked _ _ hdata).1)
  | setRealmConfig =>
      simp only [stepConfig, setRealmConfig, bind_eq_ok, Except.ok.injEq] at h
      obtain ⟨_, -, _, -, _, -, _, -, rfl⟩ := h
      exact .of_eq rfl rfl
  | setRealmConfigItem =>
      simp only [stepConfig, setRealmConfigItem, bind_eq_ok, Except.ok.injEq] at h
      obtain ⟨_, -, _, -, _, -, rfl⟩ := h
      exact .of_eq rfl rfl
  | setRealmAuthority =>
      simp only [stepConfig, setRealmAuthority, bind_eq_ok, Except.ok.injEq] at h
      obtain ⟨_, -, _, -, rfl⟩ := h
      exact .of_eq rfl rfl

theorem process_sameSettings {d d' : Dao} {i : GovernanceInstruction} {governance : Pubkey}
    (hr : Requirements d.governances d.requiredSignatories) (hg : governance ∈ d.governances)
    (hunsigned : governance ∉ i.signers) (h : d.process i = .ok d') :
    SameSettings governance d d' := by
  cases i with
  | record i => exact (stepRecord_staking h).sameSettings governance
  | config i => exact stepConfig_sameSettings hr hg hunsigned h
  | proposal i => exact (stepProposal_proposalsOnly h).sameSettings governance

theorem SameSettings.mem {governance : Pubkey} {d d' : Dao} (h : SameSettings governance d d')
    (hg : governance ∈ d.governances) : governance ∈ d'.governances := by
  obtain ⟨g, hg⟩ := Store.exists_lookup_of_mem hg
  obtain ⟨g', hg', -⟩ := h.kept g hg
  exact Store.mem_of_lookup hg'

/-! ### Instructions -/

/-- Nobody has the key of a governance. -/
theorem not_mem_of_assertSignedByWallets {d : Dao} {signers : List Pubkey} {u : Unit}
    {governance : Pubkey} (hg : governance ∈ d.governances)
    (h : d.assertSignedByWallets signers = .ok u) : governance ∉ signers :=
  fun hmem => AList.lookup_eq_none.mp (guardOr_eq_ok.mp h governance hmem) hg

/-- Nothing of it is signed by a governance. -/
def Unsigned (governance : Pubkey) (log : List Event) : Prop :=
  ∀ i, .process i ∈ log → governance ∉ i.signers

/-- What an instruction comes to is not signed by a governance, as long as none of its transactions
is executed. -/
theorem unsigned_events {d d' : Dao} {i : Instruction} {governance : Pubkey} (hd : Consistent d)
    (hg : governance ∈ d.governances) (hnone : ∀ k, .execute governance k ∉ d.events i)
    (h : d.step i = .ok d') : Unsigned governance (d.events i) := by
  intro j hj
  cases i with
  | governance i =>
      simp only [step, bind_eq_ok] at h
      obtain ⟨_, hsigned, -⟩ := h
      cases List.mem_singleton.mp hj
      exact not_mem_of_assertSignedByWallets hg hsigned
  | executeTransaction other proposal transaction signers =>
      simp only [step, bind_eq_ok] at h
      obtain ⟨_, hsigned, h⟩ := h
      intro hmem
      rcases (executeTransaction_comes hd h).signed j hj governance hmem with hsigner | ⟨k, hk⟩
      · exact not_mem_of_assertSignedByWallets hg hsigned hsigner
      · exact hnone k hk
  | _ => exact absurd hj List.not_mem_nil

theorem Happens.sameSettings {d d' : Dao} {log : List Event} {governance : Pubkey}
    (hr : Requirements d.governances d.requiredSignatories) (hg : governance ∈ d.governances)
    (hunsigned : Unsigned governance log) (h : Happens d log d') :
    SameSettings governance d d' := by
  cases h with
  | process h => exact process_sameSettings hr hg (hunsigned _ (List.mem_singleton.mpr rfl)) h
  | insertTransaction h => exact (insertTransaction_proposalsOnly h).sameSettings governance
  | execute h => exact h.proposalsOnly.sameSettings governance

theorem Outside.sameSettings {d d' : Dao} (h : Outside d d') (governance : Pubkey) :
    SameSettings governance d d' := by
  cases h with
  | token h =>
      obtain ⟨_, _, _, rfl⟩ := stepToken_ok h
      exact .of_eq rfl rfl
  | tick => exact .of_eq rfl rfl

/-- **The invariant rule for what a governance has no part in.** None of its transactions is
executed, so it signs nothing. -/
theorem step_other {I : Dao → Prop} {governance : Pubkey}
    (hhappens : ∀ d log d', Consistent d → Requirements d.governances d.requiredSignatories →
      governance ∈ d.governances → Unsigned governance log → Happens d log d' → I d → I d')
    (houtside : ∀ d d', Consistent d → Requirements d.governances d.requiredSignatories →
      Outside d d' → I d → I d')
    {d d' : Dao} {i : Instruction} (hd : Consistent d)
    (hr : Requirements d.governances d.requiredSignatories) (hg : governance ∈ d.governances)
    (hnone : ∀ k, .execute governance k ∉ d.events i) (h : d.step i = .ok d') (hI : I d) :
    I d' := by
  have hunsigned := unsigned_events hd hg hnone h
  rcases step_steps hd h with hsteps | ⟨-, h⟩
  · refine (hsteps.keeps_of_mem (I := fun d => (Consistent d ∧
      Requirements d.governances d.requiredSignatories ∧ governance ∈ d.governances) ∧ I d)
      ?_ ⟨⟨hd, hr, hg⟩, hI⟩).2
    rintro d₁ past d₂ hpast ⟨⟨hd₁, hr₁, hg₁⟩, hI₁⟩ h
    have hpast : Unsigned governance past := fun j hj => hunsigned j (hpast _ hj)
    -- the next event finds the governance again
    have hsame := h.sameSettings hr₁ hg₁ hpast
    exact ⟨⟨h.changes.consistent hd₁, h.changes.requirements hd₁ hr₁, hsame.mem hg₁⟩,
      hhappens d₁ past d₂ hd₁ hr₁ hg₁ hpast h hI₁⟩
  · exact houtside d d' hd hr h hI

/-- Any instruction but one in which a transaction of the governance itself is executed. -/
theorem step_sameSettings {d d' : Dao} {i : Instruction} {governance : Pubkey}
    (hd : Consistent d) (hr : Requirements d.governances d.requiredSignatories)
    (hg : governance ∈ d.governances) (hnone : ∀ k, .execute governance k ∉ d.events i)
    (h : d.step i = .ok d') : SameSettings governance d d' :=
  step_other (I := SameSettings governance d)
    (fun _ _ _ _ hr hg hunsigned h hsame => hsame.trans (h.sameSettings hr hg hunsigned))
    (fun _ _ _ _ h hsame => hsame.trans (h.sameSettings governance))
    hd hr hg hnone h (.refl governance d)

/-- **A governance decides on its own settings.** When its configuration or its required
signatories have changed in a run, then in one of the instructions a transaction of a proposal of
this governance was executed that was approved at that time. -/
theorem settings_changed_by_vote {d : Dao} (hd : Reachable d) {governance : Pubkey}
    (hg : governance ∈ d.governances) {inputs : List Instruction}
    (hchanged : ¬ SameSettings governance d (run step d inputs)) :
    ∃ before i after d' k, inputs = before ++ i :: after ∧
      (run step d before).step i = .ok d' ∧
      .execute governance k ∈ (run step d before).events i ∧
      ExecutedBetween governance k (run step d before) d' := by
  obtain ⟨before, i, after, d', heq, hsame, hi, hbroken⟩ :=
    run_breaks (I := SameSettings governance d) (.refl governance d) hchanged
  have hreach : Reachable (run step d before) := Lib.Reachable.run hd before
  by_cases hexecuted : ∃ k, .execute governance k ∈ (run step d before).events i
  · obtain ⟨k, hk⟩ := hexecuted
    exact ⟨before, i, after, d', k, heq, hi, hk,
      executedBetween_of_mem hreach.consistent hi hk⟩
  · have hkept := step_sameSettings hreach.consistent hreach.requirements (hsame.mem hg)
      (not_exists.mp hexecuted) hi
    exact absurd (hsame.trans hkept) hbroken

/-- The sample proposal has required a signatory. -/
theorem settings_changed_by_vote_sample :
    ∃ before i after d' k, sampleRun.drop 9 = before ++ i :: after ∧
      (run step (sampleAfter 9) before).step i = .ok d' ∧
      .execute 50 k ∈ (run step (sampleAfter 9) before).events i ∧
      ExecutedBetween 50 k (run step (sampleAfter 9) before) d' := by
  refine settings_changed_by_vote (sampleAfter_reachable 9)
    (AList.lookup_isSome.mp (by decide)) fun hsame => ?_
  have hrequired := hsame.required 101
  exact absurd hrequired (by decide)

end Dao

end IndexDtf.Governance
