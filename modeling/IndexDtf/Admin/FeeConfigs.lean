import IndexDtf.Folio.Program
import IndexDtf.Token.Simple

/-!
# IndexDtf.Admin.FeeConfigs

**The fees of the DAO.** The defaults are copied into the account of a folio when it is first
written, and live on there. The setters look at the bounds of the protocol only, never at each
other's account.

* `FeesBounded` — every fee is within the bounds of the protocol;
* `FloorsWithinDefault` — no folio has a floor above the default one;
* `fees_bounded_and_floors_iff` — the first always holds, and the second as long as the calls see
  to it.
-/

namespace IndexDtf.Books

open Lib

variable {T : TokenProgram} {b b' : Books T} {f : Pubkey}

/-- The fees a folio pays, and the default floor, are within the bounds of the protocol. -/
def FeesBounded (b : Books T) : Prop :=
  ∀ config, b.daoFeeConfig = some config → config.defaultFeeFloor ≤ maxFeeFloor ∧
    ∀ f, (config.getFeeDetails (b.folioFeeConfig f)).floor ≤ maxFeeFloor ∧
      (config.getFeeDetails (b.folioFeeConfig f)).numerator ≤ maxDaoFee ∧
      (config.getFeeDetails (b.folioFeeConfig f)).denominator = feeDenominator

/-- No folio has a floor above the default one. -/
def FloorsWithinDefault (b : Books T) : Prop :=
  ∀ config, b.daoFeeConfig = some config →
    ∀ f, (config.getFeeDetails (b.folioFeeConfig f)).floor ≤ config.defaultFeeFloor

/-- The books before any fees were configured. -/
def unconfigured (b : Books T) : Books T :=
  { b with daoFeeConfig := none, folioFeeConfig := fun _ => none }

/-- The condition on a call: the default is not set below the floor of a folio, and no folio is
given a floor above the default. -/
def KeepsFloors (b : Books T) : AdminInstruction → Prop
  | .setDaoFeeConfig _ _ _ floor =>
      ∀ given ∈ floor, ∀ f own, b.folioFeeConfig f = some own → own.feeFloor ≤ given
  | .setFolioFeeConfig _ _ _ _ floor =>
      ∀ given ∈ floor, ∀ config, b.daoFeeConfig = some config → given ≤ config.defaultFeeFloor
  | _ => True

/-! ### The accounts -/

/-- All that is stored is within the bounds; a folio has an account of its own only after the DAO. -/
structure Bounded (b : Books T) : Prop where
  dao : ∀ config, b.daoFeeConfig = some config →
    config.defaultFeeNumerator ≤ maxDaoFee ∧ config.defaultFeeFloor ≤ maxFeeFloor
  folio : ∀ f own, b.folioFeeConfig f = some own →
    own.feeNumerator ≤ maxDaoFee ∧ own.feeFloor ≤ maxFeeFloor

theorem Bounded.unconfigured (b : Books T) : b.unconfigured.Bounded where
  dao config hconfig := by simp [Books.unconfigured] at hconfig
  folio f own hown := by simp [Books.unconfigured] at hown

theorem Bounded.feesBounded (h : b.Bounded) : b.FeesBounded := by
  intro config hconfig
  obtain ⟨hnumerator, hfloor⟩ := h.dao config hconfig
  refine ⟨hfloor, fun f => ?_⟩
  cases hown : b.folioFeeConfig f with
  | none => exact ⟨hfloor, hnumerator, rfl⟩
  | some own => exact ⟨(h.folio f own hown).2, (h.folio f own hown).1, rfl⟩

/-- Only the folios with an account of their own matter. -/
theorem floorsWithinDefault_iff : b.FloorsWithinDefault ↔
    ∀ config, b.daoFeeConfig = some config →
      ∀ f own, b.folioFeeConfig f = some own → own.feeFloor ≤ config.defaultFeeFloor := by
  refine forall₂_congr fun config _ => forall_congr' fun f => ?_
  cases b.folioFeeConfig f with
  | none => simp [DaoFeeConfig.getFeeDetails]
  | some own => simp [DaoFeeConfig.getFeeDetails]

/-! ### The setters -/

theorem checkFeeBounds_eq_ok {numerator floor : Option ℕ} {u : Unit} :
    checkFeeBounds numerator floor = .ok u ↔
      (∀ n ∈ numerator, n ≤ maxDaoFee) ∧ ∀ n ∈ floor, n ≤ maxFeeFloor := by
  simp [checkFeeBounds, bind_eq_ok, checkCondition_eq_ok]

/-- A value that was given, or else the one there was, keeps a bound. -/
theorem getD_le {given : Option ℕ} {old bound : ℕ} (hgiven : ∀ n ∈ given, n ≤ bound)
    (hold : old ≤ bound) : given.getD old ≤ bound := by
  cases given with
  | none => exact hold
  | some n => exact hgiven n rfl

theorem setDaoFeeConfig_spec {signer : Pubkey} {recipient : Option Pubkey}
    {numerator floor : Option ℕ}
    (h : b.setDaoFeeConfig signer recipient numerator floor = .ok b') :
    (∀ n ∈ numerator, n ≤ maxDaoFee) ∧ (∀ n ∈ floor, n ≤ maxFeeFloor) ∧
      b'.folioFeeConfig = b.folioFeeConfig ∧ ∃ config, b'.daoFeeConfig = some config ∧
        config.defaultFeeNumerator
          = numerator.getD ((b.daoFeeConfig.map (·.defaultFeeNumerator)).getD maxDaoFee) ∧
        config.defaultFeeFloor
          = floor.getD ((b.daoFeeConfig.map (·.defaultFeeFloor)).getD maxFeeFloor) := by
  simp only [setDaoFeeConfig, bind_eq_ok, checkFeeBounds_eq_ok, Except.ok.injEq] at h
  obtain ⟨_, -, _, ⟨hnumerator, hfloor⟩, config, hconfig, rfl⟩ := h
  refine ⟨hnumerator, hfloor, rfl, config, rfl, ?_⟩
  cases hold : b.daoFeeConfig with
  | none =>
      simp only [hold, DaoFeeConfig.initOrUpdate, bind_eq_ok, Except.ok.injEq] at hconfig
      obtain ⟨recipient, -, rfl⟩ := hconfig
      exact ⟨rfl, rfl⟩
  | some old =>
      simp only [hold, DaoFeeConfig.initOrUpdate, Except.ok.injEq] at hconfig
      subst hconfig
      exact ⟨rfl, rfl⟩

theorem distributeFees_configs {user : Pubkey} {index : ℕ}
    (h : b.distributeFees f user index = .ok b') :
    b'.daoFeeConfig = b.daoFeeConfig ∧ b'.folioFeeConfig = b.folioFeeConfig := by
  simp only [distributeFees, bind_eq_ok, Except.ok.injEq] at h
  obtain ⟨_, -, _, -, _, -, _, -, _, -, _, -, _, -, _, -, _, -, _, -, rfl⟩ := h
  exact ⟨rfl, rfl⟩

theorem setFolioFeeConfig_spec {signer : Pubkey} {recipientsGiven : Bool}
    {numerator floor : Option ℕ}
    (h : b.setFolioFeeConfig signer f recipientsGiven numerator floor = .ok b') :
    (∀ n ∈ numerator, n ≤ maxDaoFee) ∧ (∀ n ∈ floor, n ≤ maxFeeFloor) ∧
      b'.daoFeeConfig = b.daoFeeConfig ∧ ∃ config, b.daoFeeConfig = some config ∧
        b'.folioFeeConfig = Function.update b.folioFeeConfig f (some
          (FolioFeeConfig.initOrUpdate (b.folioFeeConfig f) config numerator floor)) := by
  simp only [setFolioFeeConfig, bind_eq_ok, checkFeeBounds_eq_ok, load_eq_ok,
    Except.ok.injEq] at h
  obtain ⟨_, -, _, ⟨hnumerator, hfloor⟩, config, hconfig, b₁, hcpi, rfl⟩ := h
  have hkeeps : b₁.daoFeeConfig = b.daoFeeConfig ∧ b₁.folioFeeConfig = b.folioFeeConfig := by
    rcases distributeFeesCpi_cases hcpi with rfl | ⟨index, hdistribute⟩
    · exact ⟨rfl, rfl⟩
    · exact distributeFees_configs hdistribute
  refine ⟨hnumerator, hfloor, hkeeps.1, config, hconfig, ?_⟩
  rw [hkeeps.2]

/-- The registrar is no concern of the fees. -/
theorem administer_cases {i : AdminInstruction} (h : b.administer i = .ok b') :
    (∃ signer recipient numerator floor, i = .setDaoFeeConfig signer recipient numerator floor ∧
      b.setDaoFeeConfig signer recipient numerator floor = .ok b') ∨
    (∃ signer f given numerator floor, i = .setFolioFeeConfig signer f given numerator floor ∧
      b.setFolioFeeConfig signer f given numerator floor = .ok b') ∨
    (b.KeepsFloors i ∧ b'.daoFeeConfig = b.daoFeeConfig ∧
      b'.folioFeeConfig = b.folioFeeConfig) := by
  cases i with
  | setDaoFeeConfig signer recipient numerator floor => exact .inl ⟨_, _, _, _, rfl, h⟩
  | setFolioFeeConfig signer f given numerator floor => exact .inr (.inl ⟨_, _, _, _, _, rfl, h⟩)
  | initProgramRegistrar signer programId =>
      simp only [administer, bind_eq_ok, Except.ok.injEq] at h
      obtain ⟨_, -, _, -, rfl⟩ := h
      exact .inr (.inr ⟨trivial, rfl, rfl⟩)
  | updateProgramRegistrar signer programIds remove =>
      simp only [administer, bind_eq_ok] at h
      obtain ⟨_, -, _, -, h⟩ := h
      split at h
      all_goals
        simp only [bind_eq_ok, Except.ok.injEq] at h
        obtain ⟨_, -, rfl⟩ := h
        exact .inr (.inr ⟨trivial, rfl, rfl⟩)

/-! ### Runs -/

/-- No call leaves the bounds. -/
theorem Bounded.administer {i : AdminInstruction} (hb : b.Bounded) (h : b.administer i = .ok b') :
    b'.Bounded := by
  rcases administer_cases h with ⟨_, _, numerator, floor, -, h⟩ | ⟨_, f, _, numerator, floor, -, h⟩ |
    ⟨-, hdao, hfolio⟩
  · obtain ⟨hnumerator, hfloor, hfolio, config, hconfig, hn, hf⟩ := setDaoFeeConfig_spec h
    refine ⟨fun config' hconfig' => ?_, fun f own hown => hb.folio f own (hfolio ▸ hown)⟩
    obtain rfl := Option.some.inj (hconfig.symm.trans hconfig')
    rw [hn, hf]
    cases hold : b.daoFeeConfig with
    | none => exact ⟨getD_le hnumerator le_rfl, getD_le hfloor le_rfl⟩
    | some old =>
        obtain ⟨hle, hle'⟩ := hb.dao old hold
        exact ⟨getD_le hnumerator hle, getD_le hfloor hle'⟩
  · obtain ⟨hnumerator, hfloor, hdao, config, hconfig, hfolio⟩ := setFolioFeeConfig_spec h
    refine ⟨fun config' hconfig' => hb.dao config' (hdao ▸ hconfig'), fun g own hown => ?_⟩
    rw [hfolio] at hown
    by_cases hg : g = f
    · subst hg
      rw [Function.update_self] at hown
      rw [← Option.some.inj hown]
      cases hold : b.folioFeeConfig g with
      | none =>
          obtain ⟨hle, hle'⟩ := hb.dao config hconfig
          exact ⟨getD_le hnumerator hle, getD_le hfloor hle'⟩
      | some old =>
          obtain ⟨hle, hle'⟩ := hb.folio g old hold
          exact ⟨getD_le hnumerator hle, getD_le hfloor hle'⟩
    · rw [Function.update_of_ne hg] at hown
      exact hb.folio g own hown
  · exact ⟨fun config hconfig => hb.dao config (hdao ▸ hconfig),
      fun f own hown => hb.folio f own (hfolio ▸ hown)⟩

/-- A call keeps the floors below the default exactly if it sees to it. -/
theorem floorsWithinDefault_administer {i : AdminInstruction} (hb : b.Bounded)
    (hfloors : b.FloorsWithinDefault) (h : b.administer i = .ok b') :
    b'.FloorsWithinDefault ↔ b.KeepsFloors i := by
  rw [floorsWithinDefault_iff] at hfloors ⊢
  rcases administer_cases h with ⟨_, _, numerator, floor, rfl, h⟩ |
    ⟨_, f, _, numerator, floor, rfl, h⟩ | ⟨hkeeps, hdao, hfolio⟩
  · obtain ⟨-, -, hfolio, config, hconfig, -, hfloor⟩ := setDaoFeeConfig_spec h
    simp only [KeepsFloors, hfolio, hconfig, Option.some.injEq, forall_eq', hfloor]
    cases floor with
    | some given => simp
    | none =>
        simp only [Option.getD_none, Option.not_mem_none, false_imp_iff, implies_true, iff_true]
        intro g own hown
        cases hold : b.daoFeeConfig with
        | none => exact (hb.folio g own hown).2
        | some old => exact hfloors old hold g own hown
  · obtain ⟨-, -, hdao, config, hconfig, hfolio⟩ := setFolioFeeConfig_spec h
    simp only [KeepsFloors, hdao, hfolio, hconfig, Option.some.injEq, forall_eq']
    have hothers : (∀ g own, Function.update b.folioFeeConfig f (some
          (FolioFeeConfig.initOrUpdate (b.folioFeeConfig f) config numerator floor)) g = some own →
            own.feeFloor ≤ config.defaultFeeFloor) ↔
        (FolioFeeConfig.initOrUpdate (b.folioFeeConfig f) config numerator floor).feeFloor
          ≤ config.defaultFeeFloor := by
      constructor
      · intro hall
        exact hall f _ (by rw [Function.update_self])
      · intro hown g own hg
        by_cases hgf : g = f
        · subst hgf
          rw [Function.update_self] at hg
          exact Option.some.inj hg ▸ hown
        · rw [Function.update_of_ne hgf] at hg
          exact hfloors config hconfig g own hg
    rw [hothers]
    cases hold : b.folioFeeConfig f with
    | none => cases floor <;> simp [FolioFeeConfig.initOrUpdate]
    | some old =>
        have hle := hfloors config hconfig f old hold
        cases floor <;> simp [FolioFeeConfig.initOrUpdate, hle]
  · rw [hdao, hfolio]
    exact ⟨fun _ => hkeeps, fun _ => hfloors⟩

/-- **The floors of the folios.** Whatever is configured, all fees are within the bounds of the
protocol. The floors stay within the default one exactly as long as no call sets them apart. -/
theorem fees_bounded_and_floors_iff (b : Books T) (calls : List AdminInstruction) :
    (run administer b.unconfigured calls).FeesBounded ∧
      ((∀ before, before <+: calls →
        (run administer b.unconfigured before).FloorsWithinDefault) ↔
        RunMeets administer (fun b i => (∃ b', b.administer i = .ok b') → b.KeepsFloors i)
          b.unconfigured calls) := by
  have hstart : b.unconfigured.Bounded := .unconfigured b
  have hrun (calls : List AdminInstruction) : (run administer b.unconfigured calls).Bounded :=
    run_inv (fun _ _ _ _ hb h => hb.administer h) hstart
  refine ⟨(hrun calls).feesBounded, ?_⟩
  have hfloors : b.unconfigured.FloorsWithinDefault := by
    intro config hconfig
    simp [unconfigured] at hconfig
  rw [← run_inv_iff (I := fun b : Books T => b.Bounded ∧ b.FloorsWithinDefault)
    (fun b i b' _ hI h => ?_) ⟨hstart, hfloors⟩]
  · exact forall₂_congr fun before _ => ⟨fun h => ⟨hrun before, h⟩, fun h => h.2⟩
  · rw [← floorsWithinDefault_administer hI.1 hI.2 h]
    exact and_iff_right (hI.1.administer h)

/-- A folio gets the default floor of 15 bps, then the DAO lowers the default to 10 bps. -/
def lowering : List AdminInstruction :=
  [.setDaoFeeConfig admin (some 2) none none, .setFolioFeeConfig admin 7 false none none,
    .setDaoFeeConfig admin none none (some 1000000000000000)]

/-- The books before the first folio. -/
def nothingYet : Books TokenProgram.simple := (World.genesis SimpleLedger.empty 0).books

/-- The folio is left with the old one. -/
theorem lowered_default_leaves_folio :
    ¬ (run administer nothingYet.unconfigured lowering).FloorsWithinDefault := by
  intro h
  have hfloor := h ⟨2, maxDaoFee, 1000000000000000⟩ (by decide) 7
  exact absurd hfloor (by decide)

end IndexDtf.Books
