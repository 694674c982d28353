import IndexDtf.Folio.FolioStep
import IndexDtf.Folio.Solvency

/-!
# IndexDtf.Folio.FeeTiming

Which days the TVL fee is charged for. `last_poke` is the time up to which it was
charged, so nothing is charged twice or for the wrong days as long as the folio is poked
before its fee parameters change and before new shares are minted.

* `last_poke_of_fee_change` — a change of the fee parameters is preceded by a poke exactly
  when it distributes the fees, which needs the `FeeRecipients` account of the folio to exist;
* `last_poke_of_new_shares_iff` — new shares are minted after a poke, except the initial
  ones: those are charged from the day of `init_folio` on.
-/

namespace IndexDtf

open Lib

namespace Books

variable {T : TokenProgram} {b b' : Books T} {f user : Pubkey}

/-- The time a folio was last poked at. -/
def lastPoke (b : Books T) (f : Pubkey) : Option ℕ := (b.folio f).map (·.lastPoke)

/-- The time a poke now brings `last_poke` up to. -/
def pokedUntil (b : Books T) (p : ℕ) : ℕ := max p (dayStart b.now)

theorem lastPoke_setFolio {folio : Folio} : (b.setFolio f folio).lastPoke f = some folio.lastPoke := by
  simp only [lastPoke, setFolio, Function.update_self, Option.map_some]

/-! ### The fees are distributed, or not -/

theorem distributeFees_lastPoke {index : ℕ} (h : b.distributeFees f user index = .ok b') :
    b'.lastPoke f = (b.lastPoke f).map b.pokedUntil := by
  simp only [distributeFees, bind_eq_ok, Except.ok.injEq, load_eq_ok, poked] at h
  obtain ⟨before, hbefore, _, -, _, -, _, -, _, -, _, -, poked, ⟨fee, -, hpoke⟩, _, -, _, -, after,
    htaken, rfl⟩ := h
  obtain ⟨dao, recipients, -, -, rfl⟩ := Folio.poke_spec hpoke
  obtain ⟨-, -, rfl⟩ := Folio.takeFees_spec htaken
  simp only [lastPoke, setFolio, Function.update_self, (validateFolio_eq_ok.mp hbefore).1,
    Option.map_some, pokedUntil]

theorem modifyFolio_lastPoke {change : Folio → Result Folio}
    (hchange : ∀ before after, change before = .ok after → after.lastPoke = before.lastPoke)
    (h : b.modifyFolio f change = .ok b') : b'.lastPoke f = b.lastPoke f := by
  simp only [modifyFolio, bind_eq_ok, load_eq_ok, Except.ok.injEq] at h
  obtain ⟨before, hfound, after, hafter, rfl⟩ := h
  rw [lastPoke_setFolio, hchange before after hafter, lastPoke, hfound, Option.map_some]

theorem distributeOnce_lastPoke {should : Bool} {owner : Pubkey} {index : Option ℕ}
    {before : Folio} (hfound : b.folio f = some before)
    (hstatus : before.status = .Initialized ∨ before.status = .Killed)
    (h : distributeOnce should b f owner index = .ok b') :
    b'.lastPoke f = if should then (b.lastPoke f).map b.pokedUntil else b.lastPoke f := by
  cases should with
  | true =>
      simp only [distributeOnce, if_true, distributeFeesForUpdate, bind_eq_ok, load_eq_ok] at h
      obtain ⟨folio, hfolio, h⟩ := h
      obtain rfl : before = folio := Option.some.inj (hfound.symm.trans hfolio)
      rw [if_pos hstatus.symm] at h
      simp only [bind_eq_ok] at h
      obtain ⟨_, -, h⟩ := h
      rw [if_pos rfl]
      exact distributeFees_lastPoke h
  | false =>
      cases h
      rfl

theorem updateSettings_lastPoke {update : FolioUpdate} (h : b.updateSettings f update = .ok b') :
    b'.lastPoke f = b.lastPoke f := by
  obtain ⟨before, auctionLength, mandate, hfound, rfl⟩ := updateSettings_spec h
  rw [lastPoke_setFolio, lastPoke, hfound, Option.map_some]

/-- A change of the TVL fee distributes the fees if there is an account for their
recipients, which pokes the folio. -/
theorem updateFolio_lastPoke {owner : Pubkey} {update : FolioUpdate} {fee : ℕ} {before : Folio}
    (hfound : b.folio f = some before)
    (hstatus : before.status = .Initialized ∨ before.status = .Killed)
    (hfee : update.scaledTvlFee = some fee) (h : b.updateFolio f owner update = .ok b') :
    b'.lastPoke f
      = if (b.feeRecipients f).isSome then (b.lastPoke f).map b.pokedUntil else b.lastPoke f := by
  simp only [updateFolio, hfee, updateFee, bind_eq_ok, Prod.exists, Except.ok.injEq,
    Prod.mk.injEq] at h
  obtain ⟨_, -, _, _, ⟨_, -, b₁, hfirst, b₂, hset, rfl, rfl⟩, b₃, should, hsecond, b₄, hrecipients,
    hsettings⟩ := h
  -- nothing after the change of the fee pokes again
  have h₁ := distributeOnce_lastPoke (b := b.initFeeRecipients f) hfound hstatus hfirst
  have h₂ : b₂.lastPoke f = b₁.lastPoke f := modifyFolio_lastPoke (fun before after hafter => by
    obtain ⟨-, rfl, -⟩ := Folio.setTvlFee_spec hafter
    rfl) hset
  have h₃ : b₃.lastPoke f = b₂.lastPoke f ∧ should = false := by
    cases hmint : update.scaledMintFee with
    | none =>
        rw [hmint] at hsecond
        cases hsecond
        exact ⟨rfl, rfl⟩
    | some mintFee =>
        rw [hmint] at hsecond
        simp only [bind_eq_ok, distributeOnce, Bool.false_eq_true, if_false, Except.ok.injEq,
          Prod.mk.injEq] at hsecond
        obtain ⟨_, -, _, rfl, _, hmodify, rfl, rfl⟩ := hsecond
        refine ⟨modifyFolio_lastPoke (fun before after hafter => ?_) hmodify, rfl⟩
        cases hafter
        rfl
  have h₄ : b₄.lastPoke f = b₃.lastPoke f := by
    unfold updateRecipients at hrecipients
    split at hrecipients
    · cases hrecipients
      rfl
    · simp only [h₃.2, distributeOnce, Bool.false_eq_true, if_false, ok_bind, bind_eq_ok,
        Except.ok.injEq] at hrecipients
      obtain ⟨_, -, _, -, rfl⟩ := hrecipients
      rfl
  rw [updateSettings_lastPoke hsettings, h₄, h₃.1, h₂, h₁]
  rfl

theorem setFolioFeeConfig_lastPoke {signer : Pubkey} {given : Bool} {numerator floor : Option ℕ}
    (h : b.setFolioFeeConfig signer f given numerator floor = .ok b') :
    b'.lastPoke f = if given ∧ (b.feeRecipients f).isSome then (b.lastPoke f).map b.pokedUntil
      else b.lastPoke f := by
  simp only [setFolioFeeConfig, bind_eq_ok, Except.ok.injEq] at h
  obtain ⟨_, -, _, -, _, -, b₁, hcpi, rfl⟩ := h
  have h₁ : b₁.lastPoke f = if given ∧ (b.feeRecipients f).isSome
      then (b.lastPoke f).map b.pokedUntil else b.lastPoke f := by
    unfold distributeFeesCpi at hcpi
    cases given with
    | false =>
        cases hcpi
        rw [if_neg (fun e => Bool.false_ne_true e.1)]
    | true =>
        simp only [if_true] at hcpi
        cases hrecipients : b.feeRecipients f with
        | none =>
            rw [hrecipients] at hcpi
            cases hcpi
            rw [if_neg (fun e => Bool.false_ne_true e.2)]
        | some recipients =>
            rw [hrecipients] at hcpi
            simp only [bind_eq_ok] at hcpi
            obtain ⟨_, -, hdistribute⟩ := hcpi
            rw [if_pos ⟨rfl, rfl⟩]
            exact distributeFees_lastPoke hdistribute
  exact h₁

end Books

namespace World

open Books

variable {T : TokenProgram} {w w' : World T} {f : Pubkey} {i : Instruction T}

/-! ### Changes of the fee parameters -/

/-- The account for the fee recipients of a folio exists: `update_folio` creates it. -/
def HasRecipients (w : World T) (f : Pubkey) : Prop := (w.books.feeRecipients f).isSome

instance (w : World T) (f : Pubkey) : Decidable (w.HasRecipients f) :=
  inferInstanceAs (Decidable (_ = true))

/-- The instructions that change how the TVL fee of a folio is computed or split. Once the folio has
an account for its fee recipients, it is the one `set_folio_fee_config` is given: nothing is said of
a call that is given another, empty account then. -/
inductive ChangesFee (w : World T) (f : Pubkey) : Instruction T → Prop
  | tvlFee (owner : Pubkey) (update : FolioUpdate) (fee : ℕ)
      (h : update.scaledTvlFee = some fee) : ChangesFee w f (.owner (.updateFolio f owner update))
  | config (signer : Pubkey) (given : Bool) (numerator floor : Option ℕ)
      (h : w.HasRecipients f → given = true) :
      ChangesFee w f (.admin (.setFolioFeeConfig signer f given numerator floor))

theorem lastPoke_of_changesFee {before : Folio} (hi : w.ChangesFee f i)
    (hfound : w.books.folio f = some before)
    (hstatus : before.status = .Initialized ∨ before.status = .Killed) (h : w.step i = .ok w') :
    w'.books.lastPoke f = some (if w.HasRecipients f then w.books.pokedUntil before.lastPoke
      else before.lastPoke) := by
  have hbefore : w.books.lastPoke f = some before.lastPoke := by
    rw [lastPoke, hfound, Option.map_some]
  have hafter : w'.books.lastPoke f
      = if w.HasRecipients f then (w.books.lastPoke f).map w.books.pokedUntil
        else w.books.lastPoke f := by
    cases hi with
    | tvlFee owner update fee hfee =>
        simp only [step, onBooks_eq_ok] at h
        exact updateFolio_lastPoke hfound hstatus hfee h.1
    | config signer given numerator floor hgiven =>
        simp only [step, onBooks_eq_ok] at h
        rw [setFolioFeeConfig_lastPoke h.1]
        exact if_congr ⟨fun e => e.2, fun e => ⟨hgiven e, e⟩⟩ rfl rfl
  rw [hafter, hbefore, Option.map_some, ← apply_ite some]

/-- **Changes of the fee are not retroactive** once the folio has an account for its fee recipients.
Before, nothing is charged, and the days since the last poke are charged later, with the new
parameters. -/
theorem last_poke_of_fee_change {before : Folio} (hi : w.ChangesFee f i)
    (hfound : w.books.folio f = some before)
    (hstatus : before.status = .Initialized ∨ before.status = .Killed) (h : w.step i = .ok w') :
    ∃ after, w'.books.folio f = some after ∧
      (w.HasRecipients f → dayStart w.books.now ≤ after.lastPoke) ∧
      (¬ w.HasRecipients f → after.lastPoke = before.lastPoke) := by
  obtain ⟨after, hfolio, hlast⟩ := Option.map_eq_some_iff.mp
    (lastPoke_of_changesFee hi hfound hstatus h)
  refine ⟨after, hfolio, fun hrecipients => ?_, fun hrecipients => ?_⟩
  · rw [hlast, if_pos hrecipients]
    exact Nat.le_max_right ..
  · rw [hlast, if_neg hrecipients]

/-- The launched folio charges 5% a year from the day of its launch. -/
def charging : List (Instruction TokenProgram.simple) :=
  launch ++ [.outside (.openAccount (.external 9) 5),
    .owner (.updateFolio 5 3 ⟨some 50000000000000000, none, none, none, [], [], none⟩)]

/-- Ten days later the fee is doubled: the ten days are charged first. -/
theorem last_poke_of_doubled_fee :
    let w := run step (genesis SimpleLedger.empty 1000000) (charging ++ [.elapse 864000])
    let i : Instruction TokenProgram.simple :=
      .owner (.updateFolio 5 3 ⟨some 100000000000000000, some 1, none, none, [], [], none⟩)
    ∃ w', w.step i = .ok w' ∧ ∃ after, w'.books.folio 5 = some after ∧
      (w.HasRecipients 5 → dayStart w.books.now ≤ after.lastPoke) ∧
      (¬ w.HasRecipients 5 → after.lastPoke = 1000000) := by
  intro w i
  have hok : ∃ w', w.step i = .ok w' ∧ True := by decide +kernel
  have hbefore : w.books.folio 5 = some
      ⟨.Initialized, 1000000, 5, 1625787457, 0, 0, 0, 60, 1000000, [], 0⟩ := by decide +kernel
  obtain ⟨w', hw', -⟩ := hok
  exact ⟨w', hw', last_poke_of_fee_change (.tvlFee 3 _ _ rfl) hbefore (.inl rfl) hw'⟩

/-- The first change of the fee, ten days after the launch: there is no account for the
fee recipients yet, and the ten days are charged with the new fee later. -/
theorem fee_changed_without_poke :
    let w := run step (genesis SimpleLedger.empty 1000000) (launch ++ [.elapse 864000])
    w.Reachable ∧ ∃ w', w.step (.owner (.updateFolio 5 3
        ⟨some 50000000000000000, none, none, none, [], [], none⟩)) = .ok w' ∧
      (w'.books.folio 5).map (·.status) = some .Initialized ∧
      w'.books.lastPoke 5 = some 1000000 ∧ 1000000 < dayStart w.books.now :=
  ⟨reachable_genesis .., by decide +kernel⟩

/-! ### New shares -/

/-- The instructions that create shares no supply had counted before. -/
inductive CreatesShares (w : World T) (f : Pubkey) : Instruction T → Prop
  | minted (user : Pubkey) (rawShares : ℕ) (minRawShares : Option ℕ) :
      CreatesShares w f (.user (.mintFolioToken f user rawShares minRawShares))
  | initial (owner : Pubkey) (accounts : List (TokenAccounts T)) (rawAmounts : List ℕ)
      (rawInitialShares : ℕ) (h : (w.books.folio f).map (·.status) = some .Initializing) :
      CreatesShares w f
        (.owner (.addToBasket f owner accounts rawAmounts (some rawInitialShares)))

/-- Minting for assets. -/
def IsMint : Instruction T → Prop
  | .user (.mintFolioToken ..) => True
  | _ => False

/-- A folio that is initializing was not poked since its creation. -/
def PokedAtCreation (s : FolioBooks) : Prop :=
  ∀ f folio, s.folio f = some folio → folio.status = .Initializing →
    folio.lastPoke = s.createdAt f

theorem pokedAtCreation_step {s s' : FolioBooks} {log : List FeePayment} (hs : PokedAtCreation s)
    (h : FolioStep s log s') : PokedAtCreation s' := by
  cases h with
  | elapsed seconds => exact hs
  | created f folio hfresh hstatus hlast htbm =>
      refine forall_update (fun after hafter _ => ?_) fun g after hg hafter hstatus' => ?_
      · obtain rfl := Option.some.inj hafter
        simp only [hlast, Function.update_self]
      · simp only [Function.update_of_ne hg]
        exact hs g after hafter hstatus'
  | changed f before after found change =>
      refine forall_update_some (fun hafter => ?_) hs
      obtain ⟨hbefore, hlast⟩ := change.initializing hafter
      rw [hlast]
      exact hs f before found hbefore
  | recipients f after isFolio index valid => exact hs
  | distributed f user before poked after recipients split found foundRecipients fresh poke status
      split_eq taken =>
      refine forall_update_some (fun hafter => ?_) hs
      obtain ⟨-, -, rfl⟩ := Folio.takeFees_spec taken
      exact absurd hafter status
  | cranked f index before d indices paid state taken found status =>
      exact forall_update_some (fun hafter => absurd hafter status) hs

theorem Reachable.pokedAtCreation (h : w.Reachable) : PokedAtCreation w.books.folios := by
  refine Lib.Reachable.inv (I := fun w : World T => PokedAtCreation w.books.folios)
    (fun w₀ h₀ f folio hf _ => ?_) (fun w₁ i w₂ hw₁ hstep => ?_) h
  · have hnone : w₀.books.folio f = none := h₀.folio f
    rw [show w₀.books.folios.folio f = w₀.books.folio f from rfl, hnone] at hf
    cases hf
  · exact (step_folios hstep).keeps (fun _ _ _ hs hstep => pokedAtCreation_step hs hstep) hw₁

/-- Minting for assets pokes first. -/
theorem mintFolioToken_lastPoke {b b' : Books T} {user rawShares : ℕ} {minRawShares : Option ℕ}
    (h : b.mintFolioToken f user rawShares minRawShares = .ok b') :
    ∃ after, b'.folio f = some after ∧ dayStart b.now ≤ after.lastPoke := by
  simp only [mintFolioToken, UserPendingBasket.toAssets, bind_eq_ok, Prod.exists, Except.ok.injEq,
    Prod.mk.injEq] at h
  obtain ⟨before, -, _, -, _, -, _, -, _, _, _, ⟨poked, hpoke, _, -, _, -, _, _, -, rfl, rfl, rfl⟩,
    after, _, hfees, _, -, _, -, _, -, rfl⟩ := h
  obtain ⟨dao, recipients, -, -, rfl⟩ := Folio.poke_spec hpoke
  simp only [Folio.calculateFeesForMinting, bind_eq_ok, Except.ok.injEq, Prod.mk.injEq] at hfees
  obtain ⟨_, -, _, -, _, -, _, -, _, -, _, -, _, -, _, -, _, -, _, -, rfl, -⟩ := hfees
  simp only [setFolio, Function.update_self]
  exact ⟨_, rfl, Nat.le_max_right ..⟩

/-- The initial mint leaves `last_poke` as it was. -/
theorem addToBasket_lastPoke {b b' : Books T} {owner rawInitialShares : ℕ} {before : Folio}
    {accounts : List (TokenAccounts T)} {rawAmounts : List ℕ} (hfound : b.folio f = some before)
    (h : b.addToBasket f owner accounts rawAmounts (some rawInitialShares) = .ok b') :
    b'.lastPoke f = some before.lastPoke := by
  simp only [addToBasket, bind_eq_ok, Prod.exists] at h
  obtain ⟨folio, hfolio, _, -, _, _, -, _, -, h⟩ := h
  obtain rfl : before = folio := Option.some.inj (hfound.symm.trans (validateFolioFor_eq_ok hfolio).1)
  unfold mintInitialShares at h
  split at h
  · simp only [bind_eq_ok, Except.ok.injEq] at h
    obtain ⟨_, -, rfl⟩ := h
    simp only [lastPoke, setFolio, Function.update_self, Option.map_some]
  · simp only [ok_bind, Except.ok.injEq] at h
    rw [← h]
    simp only [lastPoke, setFolio, Function.update_self, Option.map_some]

/-- **New shares are not charged for days before they existed**, exactly when they are
minted for assets, or are the initial ones and minted on the day of `init_folio`. -/
theorem last_poke_of_new_shares_iff (hw : w.Reachable) (hi : w.CreatesShares f i)
    (h : w.step i = .ok w') :
    (∃ after, w'.books.folio f = some after ∧ dayStart w.books.now ≤ after.lastPoke) ↔
      IsMint i ∨ dayStart w.books.now ≤ w.books.createdAt f := by
  cases hi with
  | minted user rawShares minRawShares =>
      simp only [step, onBooks_eq_ok] at h
      exact iff_of_true (mintFolioToken_lastPoke h.1) (.inl trivial)
  | initial owner accounts rawAmounts rawInitialShares hstatus =>
      simp only [step, onBooks_eq_ok] at h
      obtain ⟨before, hfound, hstatus⟩ := Option.map_eq_some_iff.mp hstatus
      have hcreated : before.lastPoke = w.books.createdAt f :=
        hw.pokedAtCreation f before hfound hstatus
      obtain ⟨after, hafter, hlast⟩ := Option.map_eq_some_iff.mp (addToBasket_lastPoke hfound h.1)
      constructor
      · rintro ⟨after', hafter', hle⟩
        obtain rfl : after = after' := Option.some.inj (hafter.symm.trans hafter')
        rw [← hcreated, ← hlast]
        exact .inr hle
      · rintro (hmint | hle)
        · exact hmint.elim
        · exact ⟨after, hafter, by rw [hlast, hcreated]; exact hle⟩

/-- The folio 5 before its initial mint: it is funded and has no shares yet. -/
def funded : List (Instruction TokenProgram.simple) :=
  [.admin (.setDaoFeeConfig admin (some 9) (some 0) (some 0)),
    .owner (.initFolio 5 3 0 0 60 []),
    .outside (.openAccount (.external 3) 7),
    .outside (.issue (.external 3) 7 1000),
    .outside (.openAccount (.folio 5) 7),
    .outside (.openAccount (.external 3) 5),
    .owner (.addToBasket 5 3 [⟨7, (.external 3, 7), (.folio 5, 7)⟩] [600] none)]

/-- The initial mint on the day of the creation. -/
theorem last_poke_of_initial_shares :
    let w := run step (genesis SimpleLedger.empty 1000000) funded
    let i : Instruction TokenProgram.simple := .owner (.addToBasket 5 3 [] [] (some 1000000000))
    ∃ w', w.step i = .ok w' ∧
      ((∃ after, w'.books.folio 5 = some after ∧ dayStart w.books.now ≤ after.lastPoke) ↔
        IsMint i ∨ dayStart w.books.now ≤ w.books.createdAt 5) := by
  intro w i
  have hok : ∃ w', w.step i = .ok w' ∧ True := by decide +kernel
  obtain ⟨w', hw', -⟩ := hok
  have hstatus : (w.books.folio 5).map (·.status) = some .Initializing := by decide +kernel
  exact ⟨w', hw', last_poke_of_new_shares_iff (reachable_genesis ..)
    (.initial 3 [] [] 1000000000 hstatus) hw'⟩

/-- The initial mint ten days later: `last_poke` is still the time of the creation, so the
new shares will be charged for the ten days. -/
theorem initial_shares_charged_too_early :
    let w := run step (genesis SimpleLedger.empty 1000000) (funded ++ [.elapse 864000])
    w.Reachable ∧ w.CreatesShares 5 (.owner (.addToBasket 5 3 [] [] (some 1000000000))) ∧
      ∃ w', w.step (.owner (.addToBasket 5 3 [] [] (some 1000000000))) = .ok w' ∧
        w'.books.lastPoke 5 = some 1000000 ∧ 1000000 < dayStart w.books.now :=
  ⟨reachable_genesis .., .initial 3 [] [] 1000000000 (by decide +kernel), by decide +kernel⟩

end World

end IndexDtf
