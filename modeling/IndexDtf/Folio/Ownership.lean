import IndexDtf.Folio.FolioStep
import IndexDtf.Folio.Solvency

/-!
# IndexDtf.Folio.Ownership

**Owners decide on a folio.** Anybody pokes a folio and distributes its fees, managers trade its
basket, but its status and the roles of its actors are changed by five instructions only, and
each asks for an actor who is an owner at that time. A status never goes back: a killed folio
stays killed or migrates, and one that migrates stays so.

* `Kept` — a folio in two states with the same status and the same actors;
* `Decides` — the instructions of an owner that do not keep it;
* `run_status_le`, `changed_by_owner` — what this comes to over a run.
-/

namespace IndexDtf

open Lib Decimal

/-- The number of a status, in the order of its declaration. -/
def FolioStatus.number : FolioStatus → ℕ
  | .Initializing => 0
  | .Initialized => 1
  | .Killed => 2
  | .Migrating => 3

/-! ### What the changes of a folio account do to its status -/

namespace Folio

variable {folio after : Folio}

theorem poke_status {supply t : ℕ} {fee : DaoFee} (h : folio.poke supply t fee = .ok after) :
    after.status = folio.status := by
  obtain ⟨_, _, -, -, rfl⟩ := poke_spec h
  rfl

theorem takeFees_status {split : FeeSplit} {hasFeeRecipients : Bool}
    (h : folio.takeFees split hasFeeRecipients = .ok after) : after.status = folio.status := by
  obtain ⟨-, -, rfl⟩ := takeFees_spec h
  rfl

theorem calculateFeesForMinting_status {rawShares fees : ℕ} {fee : DaoFee}
    (h : folio.calculateFeesForMinting rawShares fee = .ok (after, fees)) :
    after.status = folio.status := by
  simp only [calculateFeesForMinting, bind_eq_ok, Except.ok.injEq, Prod.mk.injEq] at h
  obtain ⟨_, -, _, -, _, -, _, -, _, -, _, -, _, -, _, -, _, -, _, -, rfl, -⟩ := h
  rfl

theorem toAssets_status {process : PendingBasketType} {pending pending' : UserPendingBasket}
    {basket basket' : FolioBasket} {rawShares rawSupply now : ℕ} {fee : DaoFee}
    {minimumOut : List MinimumOutForTokenAmount}
    (h : pending.toAssets rawShares rawSupply basket folio process now fee minimumOut
      = .ok (pending', basket', after)) : after.status = folio.status := by
  simp only [UserPendingBasket.toAssets, bind_eq_ok, Prod.exists, Except.ok.injEq,
    Prod.mk.injEq] at h
  obtain ⟨_, hpoke, _, -, _, -, _, _, -, -, -, rfl⟩ := h
  exact poke_status hpoke

end Folio

namespace Books

variable {T : TokenProgram} {b b' b'' : Books T} {f g : Pubkey} {folio : Folio}

theorem poked_status {before after : Folio} (h : b.poked f before = .ok after) :
    after.status = before.status := by
  simp only [poked, bind_eq_ok] at h
  obtain ⟨_, -, hpoke⟩ := h
  exact Folio.poke_status hpoke

/-! ### A folio that is kept -/

/-- The folio stays, with its status and its actors. -/
structure Kept (f : Pubkey) (b b' : Books T) : Prop where
  status : ∀ folio, b.folio f = some folio →
    ∃ after, b'.folio f = some after ∧ after.status = folio.status
  actor : b.folio f ≠ none → ∀ k, b'.actor (f, k) = b.actor (f, k)

namespace Kept

theorem of_lookup (hfolio : b'.folio f = b.folio f)
    (hactor : ∀ k, b'.actor (f, k) = b.actor (f, k)) : Kept f b b' where
  status folio hfound := ⟨folio, hfolio.trans hfound, rfl⟩
  actor _ := hactor

theorem of_eq (hfolio : b'.folio = b.folio) (hactor : b'.actor = b.actor) : Kept f b b' :=
  .of_lookup (by rw [hfolio]) fun k => by rw [hactor]

theorem refl (f : Pubkey) (b : Books T) : Kept f b b := .of_eq rfl rfl

theorem trans (h : Kept f b b') (h' : Kept f b' b'') : Kept f b b'' where
  status folio hfound := by
    obtain ⟨after, hafter, hstatus⟩ := h.status folio hfound
    obtain ⟨last, hlast, hstatus'⟩ := h'.status after hafter
    exact ⟨last, hlast, hstatus'.trans hstatus⟩
  actor hfound k := by
    obtain ⟨folio, hfolio⟩ := Option.ne_none_iff_exists'.mp hfound
    obtain ⟨after, hafter, -⟩ := h.status folio hfolio
    have hne : b'.folio f ≠ none := by
      rw [hafter]
      exact Option.some_ne_none after
    exact (h'.actor hne k).trans (h.actor hfound k)

/-- A folio account is written with the status it had, this one or another. -/
theorem write {before after : Folio} (hfound : b.folio g = some before)
    (hfolio : b'.folio = Function.update b.folio g (some after))
    (hstatus : after.status = before.status) (hactor : b'.actor = b.actor) :
    Kept f b b' where
  status folio hfolio' := by
    by_cases hthis : f = g
    · subst hthis
      rw [hfound] at hfolio'
      cases hfolio'
      exact ⟨after, by rw [hfolio, Function.update_self], hstatus⟩
    · exact ⟨folio, by rw [hfolio, Function.update_of_ne hthis, hfolio'], rfl⟩
  actor _ k := by rw [hactor]

end Kept

/-! ### The instructions of users, cranks and the admin -/

theorem user_kept {i : UserInstruction T} (h : b.user i = .ok b') : Kept f b b' := by
  cases i with
  | addToPendingBasket g user accounts rawAmounts =>
      simp only [Books.user, addToPendingBasket, bind_eq_ok, Prod.exists, Except.ok.injEq] at h
      obtain ⟨_, -, _, -, _, -, _, _, -, _, -, rfl⟩ := h
      exact .of_eq rfl rfl
  | removeFromPendingBasket g user accounts rawAmounts =>
      simp only [Books.user, removeFromPendingBasket, takeFromPendingBasket, bind_eq_ok,
        Prod.exists, Except.ok.injEq] at h
      obtain ⟨_, -, _, -, _, -, _, -, _, _, -, _, -, rfl⟩ := h
      exact .of_eq rfl rfl
  | mintFolioToken g user rawShares minRawShares =>
      simp only [Books.user, mintFolioToken, bind_eq_ok, Prod.exists, Except.ok.injEq] at h
      obtain ⟨before, hbefore, _, -, _, -, _, -, _, _, poked, hassets, after, _, hfees, _, -, _, -,
        _, -, rfl⟩ := h
      have hstatus := (Folio.calculateFeesForMinting_status hfees).trans
        (Folio.toAssets_status hassets)
      exact .write (validateFolio_eq_ok.mp hbefore).1 rfl hstatus rfl
  | burnFolioToken g user rawShares minimumOut =>
      simp only [Books.user, burnFolioToken, bind_eq_ok, Prod.exists, Except.ok.injEq] at h
      obtain ⟨before, hbefore, _, -, _, -, _, -, _, _, poked, hassets, _, -, rfl⟩ := h
      exact .write (validateFolio_eq_ok.mp hbefore).1 rfl (Folio.toAssets_status hassets) rfl
  | redeemFromPendingBasket g user accounts rawAmounts =>
      simp only [Books.user, redeemFromPendingBasket, takeFromPendingBasket, bind_eq_ok,
        Prod.exists, Except.ok.injEq] at h
      obtain ⟨_, -, _, -, _, -, _, -, _, _, -, _, -, rfl⟩ := h
      exact .of_eq rfl rfl
  | closeUserPendingTokenAmount g user =>
      simp only [Books.user, closeUserPendingTokenAmount, bind_eq_ok, Except.ok.injEq] at h
      obtain ⟨_, -, _, -, _, -, rfl⟩ := h
      exact .of_eq rfl rfl
  | transferFromUserPendingBasketAta g user tokenMint =>
      simp only [Books.user, transferFromUserPendingBasketAta, bind_eq_ok, Except.ok.injEq] at h
      obtain ⟨_, -, _, -, _, -, _, -, rfl⟩ := h
      exact .of_eq rfl rfl

theorem distributeFees_kept {user : Pubkey} {index : ℕ}
    (h : b.distributeFees g user index = .ok b') : Kept f b b' := by
  simp only [distributeFees, bind_eq_ok, Except.ok.injEq] at h
  obtain ⟨before, hbefore, _, -, _, -, _, -, _, -, _, -, poked, hpoke, _, -, _, -, after, htaken,
    rfl⟩ := h
  have hstatus := (Folio.takeFees_status htaken).trans (poked_status hpoke)
  exact .write (validateFolio_eq_ok.mp hbefore).1 rfl hstatus rfl

theorem crank_kept {i : CrankInstruction T} (h : b.crank i = .ok b') : Kept f b b' := by
  cases i with
  | pokeFolio g =>
      simp only [Books.crank, pokeFolio, bind_eq_ok, Except.ok.injEq] at h
      obtain ⟨before, hbefore, after, hpoke, rfl⟩ := h
      exact .write (validateFolio_eq_ok.mp hbefore).1 rfl (poked_status hpoke) rfl
  | distributeFees g user index => exact distributeFees_kept h
  | crankFeeDistribution g index indices recipients =>
      simp only [Books.crank, crankFeeDistribution, bind_eq_ok, Prod.exists,
        Except.ok.injEq] at h
      obtain ⟨_, -, before, hbefore, _, _, _, -, _, -, _, -, _, -, rfl⟩ := h
      exact .write (validateFolio_eq_ok.mp hbefore).1 rfl rfl rfl

theorem administer_kept {i : AdminInstruction} (h : b.administer i = .ok b') : Kept f b b' := by
  cases i with
  | setDaoFeeConfig signer feeRecipient numerator floor =>
      simp only [administer, setDaoFeeConfig, bind_eq_ok, Except.ok.injEq] at h
      obtain ⟨_, -, _, -, _, -, rfl⟩ := h
      exact .of_eq rfl rfl
  | setFolioFeeConfig signer g feeRecipientsGiven numerator floor =>
      simp only [administer, setFolioFeeConfig, bind_eq_ok, Except.ok.injEq] at h
      obtain ⟨_, -, _, -, _, -, b₁, hcpi, rfl⟩ := h
      have h₁ : Kept f b b₁ := by
        rcases distributeFeesCpi_cases hcpi with rfl | ⟨index, hdistribute⟩
        · exact .refl f _
        · exact distributeFees_kept hdistribute
      exact h₁.trans (.of_eq rfl rfl)
  | initProgramRegistrar signer programId =>
      simp only [administer, bind_eq_ok, Except.ok.injEq] at h
      obtain ⟨_, -, _, -, rfl⟩ := h
      exact .of_eq rfl rfl
  | updateProgramRegistrar signer programIds remove =>
      simp only [administer, bind_eq_ok] at h
      obtain ⟨_, -, _, -, h⟩ := h
      split at h
      all_goals
        simp only [bind_eq_ok, Except.ok.injEq] at h
        obtain ⟨_, -, rfl⟩ := h
        exact .of_eq rfl rfl

/-! ### Updates -/

theorem distributeOnce_kept {should : Bool} {owner : Pubkey} {index : Option ℕ}
    (h : distributeOnce should b g owner index = .ok b') : Kept f b b' := by
  unfold distributeOnce at h
  split at h
  · simp only [distributeFeesForUpdate, bind_eq_ok] at h
    obtain ⟨_, -, h⟩ := h
    split at h
    · simp only [bind_eq_ok] at h
      obtain ⟨_, -, h⟩ := h
      exact distributeFees_kept h
    · cases h
      exact .refl f _
  · cases h
    exact .refl f _

theorem modifyFolio_kept {change : Folio → Result Folio}
    (hchange : ∀ before after, change before = .ok after → after.status = before.status)
    (h : b.modifyFolio g change = .ok b') : Kept f b b' := by
  simp only [modifyFolio, bind_eq_ok, load_eq_ok, Except.ok.injEq] at h
  obtain ⟨before, hfound, after, hafter, rfl⟩ := h
  exact .write hfound rfl (hchange before after hafter) rfl

theorem updateFee_kept {owner : Pubkey} {should should' : Bool} {index fee : Option ℕ}
    {check : ℕ → Result Unit} {change : ℕ → Folio → Result Folio}
    (hchange : ∀ fee before after, change fee before = .ok after → after.status = before.status)
    (h : b.updateFee should g owner index fee check change = .ok (b', should')) : Kept f b b' := by
  cases fee with
  | none =>
      cases h
      exact .refl f _
  | some fee =>
      simp only [updateFee, bind_eq_ok, Except.ok.injEq, Prod.mk.injEq] at h
      obtain ⟨_, -, b₁, hdistribute, b₂, hmodify, rfl, -⟩ := h
      exact (distributeOnce_kept hdistribute).trans (modifyFolio_kept (hchange fee) hmodify)

theorem updateFolio_kept {owner : Pubkey} {update : FolioUpdate}
    (h : b.updateFolio g owner update = .ok b') : Kept f b b' := by
  simp only [updateFolio, bind_eq_ok, Prod.exists] at h
  obtain ⟨_, -, b₁, _, hfirst, b₂, _, hsecond, b₃, hrecipients, hsettings⟩ := h
  have hinit : Kept f b (b.initFeeRecipients g) := .of_eq rfl rfl
  have h₁ : Kept f b b₁ := hinit.trans (updateFee_kept (fun _ _ _ hset => by
    obtain ⟨-, rfl, -⟩ := Folio.setTvlFee_spec hset
    rfl) hfirst)
  have h₂ : Kept f b b₂ := h₁.trans (updateFee_kept (fun _ _ _ hset => by
    cases hset
    rfl) hsecond)
  have h₃ : Kept f b₂ b₃ := by
    unfold updateRecipients at hrecipients
    split at hrecipients
    · cases hrecipients
      exact .refl f _
    · simp only [bind_eq_ok, Except.ok.injEq] at hrecipients
      obtain ⟨_, hdistribute, _, -, _, -, rfl⟩ := hrecipients
      exact (distributeOnce_kept hdistribute).trans (.of_eq rfl rfl)
  obtain ⟨before, _, _, hfound, rfl⟩ := updateSettings_spec hsettings
  exact (h₂.trans h₃).trans (.write hfound rfl rfl rfl)

/-! ### What owners decide -/

/-- An actor of the folio who is an owner. -/
def IsOwner (b : Books T) (f owner : Pubkey) : Prop :=
  ∃ roles, b.actor (f, owner) = some roles ∧ Role.hasRole roles .Owner = true

/-- The instructions that change the status of a folio or its actors. -/
inductive Decides (f owner : Pubkey) : OwnerInstruction T → Prop
  | addToBasket (accounts : List (TokenAccounts T)) (rawAmounts : List ℕ)
      (rawInitialShares : ℕ) :
      Decides f owner (.addToBasket f owner accounts rawAmounts (some rawInitialShares))
  | killFolio : Decides f owner (.killFolio f owner)
  | startFolioMigration (newProgram : Pubkey) (maxAllowedPendingFees : ℕ) (handOver : T.Call) :
      Decides f owner (.startFolioMigration f owner newProgram maxAllowedPendingFees handOver)
  | initOrUpdateActor (newAuthority : Pubkey) (role : Role) :
      Decides f owner (.initOrUpdateActor f owner newAuthority role)
  | removeActor (authority : Pubkey) (role : Role) (closeActor : Bool) :
      Decides f owner (.removeActor f owner authority role closeActor)

/-- An owner's instruction decides on the folio, whose status does not go back. -/
def DecidedBy (f : Pubkey) (folio : Folio) (i : OwnerInstruction T) (b b' : Books T) : Prop :=
  ∃ owner after, Decides f owner i ∧ b.IsOwner f owner ∧ b'.folio f = some after ∧
    folio.status.number ≤ after.status.number

theorem isOwner_of_validateFolioFor {owner : Pubkey} {statuses : List FolioStatus}
    {before : Folio} (h : b.validateFolioFor g owner [.Owner] statuses = .ok before) :
    b.IsOwner g owner ∧ b.folio g = some before ∧ before.status ∈ statuses := by
  simp only [validateFolioFor, validatePermission, bind_eq_ok, load_eq_ok, checkCondition_eq_ok,
    List.any_cons, List.any_nil, Bool.or_false, Except.ok.injEq] at h
  obtain ⟨_, hfound, _, -, _, ⟨roles, hroles, hrole⟩, _, hstatus, rfl⟩ := h
  exact ⟨⟨roles, hroles, hrole⟩, hfound, hstatus⟩

/-- A new status, of this folio or another. -/
theorem kept_or_decided {owner : Pubkey} {before after : Folio} {i : OwnerInstruction T}
    (hfound : b.folio f = some folio) (hdecides : Decides g owner i) (howner : b.IsOwner g owner)
    (hbefore : b.folio g = some before)
    (hfolio : b'.folio = Function.update b.folio g (some after))
    (hle : before.status.number ≤ after.status.number) (hactor : b'.actor = b.actor) :
    Kept f b b' ∨ DecidedBy f folio i b b' := by
  by_cases hthis : f = g
  · subst hthis
    rw [hbefore] at hfound
    cases hfound
    exact .inr ⟨owner, after, hdecides, howner, by rw [hfolio, Function.update_self], hle⟩
  · refine .inl (.of_lookup ?_ fun k => by rw [hactor])
    rw [hfolio, Function.update_of_ne hthis]

/-- New roles of an actor of this folio or another. -/
theorem kept_or_decided_actor {owner authority : Pubkey} {roles : Option ℕ}
    {i : OwnerInstruction T} (hfound : b.folio f = some folio) (hdecides : Decides g owner i)
    (howner : b.IsOwner g owner) (hfolio : b'.folio = b.folio)
    (hactor : b'.actor = Function.update b.actor (g, authority) roles) :
    Kept f b b' ∨ DecidedBy f folio i b b' := by
  by_cases hthis : f = g
  · subst hthis
    exact .inr ⟨owner, folio, hdecides, howner, by rw [hfolio, hfound], le_rfl⟩
  · refine .inl (.of_lookup (by rw [hfolio]) fun k => ?_)
    rw [hactor, Function.update_of_ne]
    exact fun heq => hthis (congrArg Prod.fst heq)

theorem mintInitialShares_spec {owner : Pubkey} {before : Folio} {rawInitialShares : ℕ}
    (h : b.mintInitialShares g owner before rawInitialShares = .ok b') :
    b'.folio = Function.update b.folio g
        (some { before with status := .Initialized, initializedAt := b.now }) ∧
      b'.actor = b.actor := by
  unfold mintInitialShares at h
  split at h
  · simp only [bind_eq_ok, Except.ok.injEq] at h
    obtain ⟨_, -, rfl⟩ := h
    exact ⟨rfl, rfl⟩
  · cases h
    exact ⟨rfl, rfl⟩

theorem owner_kept_or_decided {i : OwnerInstruction T} (h : b.owner i = .ok b')
    (hfound : b.folio f = some folio) : Kept f b b' ∨ DecidedBy f folio i b b' := by
  cases i with
  | initFolio g owner tvlFee mintFee auctionLength mandate =>
      simp only [Books.owner, initFolio, bind_eq_ok, Except.ok.injEq, guardOr_eq_ok] at h
      obtain ⟨_, -, _, -, _, -, _, -, _, hfresh, _, -, _, -, _, -, rfl⟩ := h
      -- the folio is there, so it is another one that is created
      have hother : f ≠ g := by
        rintro rfl
        rw [hfound] at hfresh
        cases hfresh
      refine .inl (.of_lookup (Function.update_of_ne hother ..) fun k => ?_)
      exact Function.update_of_ne (fun heq => hother (congrArg Prod.fst heq)) ..
  | initOrUpdateActor g owner newAuthority role =>
      simp only [Books.owner, initOrUpdateActor, bind_eq_ok, Except.ok.injEq] at h
      obtain ⟨_, hvalid, rfl⟩ := h
      exact kept_or_decided_actor hfound (.initOrUpdateActor newAuthority role)
        (isOwner_of_validateFolioFor hvalid).1 rfl rfl
  | removeActor g owner authority role closeActor =>
      simp only [Books.owner, removeActor, bind_eq_ok, Except.ok.injEq] at h
      obtain ⟨_, -, _, hvalid, rfl⟩ := h
      exact kept_or_decided_actor hfound (.removeActor authority role closeActor)
        (isOwner_of_validateFolioFor hvalid).1 rfl rfl
  | addToBasket g owner accounts rawAmounts rawInitialShares =>
      simp only [Books.owner, addToBasket, bind_eq_ok, Prod.exists] at h
      obtain ⟨before, hvalid, _, -, _, _, -, _, -, h⟩ := h
      obtain ⟨howner, hbefore, hstatus⟩ := isOwner_of_validateFolioFor hvalid
      -- only the initial shares initialize a folio
      cases rawInitialShares with
      | none =>
          cases h
          exact .inl (.of_eq rfl rfl)
      | some rawInitialShares =>
          have hdecides : Decides g owner
              (.addToBasket g owner accounts rawAmounts (some rawInitialShares)) :=
            .addToBasket accounts rawAmounts rawInitialShares
          have hle : ∀ s ∈ [FolioStatus.Initializing, FolioStatus.Initialized],
              s.number ≤ FolioStatus.Initialized.number := by decide
          obtain ⟨hfolio, hactor⟩ := mintInitialShares_spec h
          exact kept_or_decided hfound hdecides howner hbefore hfolio (hle _ hstatus) hactor
  | removeFromBasket g owner tokenMint =>
      simp only [Books.owner, removeFromBasket, bind_eq_ok, Except.ok.injEq] at h
      obtain ⟨_, -, _, -, _, -, _, -, rfl⟩ := h
      exact .inl (.of_eq rfl rfl)
  | killFolio g owner =>
      simp only [Books.owner, killFolio, bind_eq_ok, Except.ok.injEq] at h
      obtain ⟨before, hvalid, rfl⟩ := h
      obtain ⟨howner, hbefore, hstatus⟩ := isOwner_of_validateFolioFor hvalid
      have hle : ∀ s ∈ [FolioStatus.Initialized, FolioStatus.Initializing],
          s.number ≤ FolioStatus.Killed.number := by decide
      exact kept_or_decided hfound .killFolio howner hbefore rfl (hle _ hstatus) rfl
  | updateFolio g owner update => exact .inl (updateFolio_kept h)
  | startFolioMigration g owner newProgram maxAllowedPendingFees handOver =>
      simp only [Books.owner, startFolioMigration, bind_eq_ok, Except.ok.injEq] at h
      obtain ⟨before, hvalid, _, -, _, -, _, -, _, -, _, -, _, -, _, -, _, -, _, -, rfl⟩ := h
      obtain ⟨howner, hbefore, hstatus⟩ := isOwner_of_validateFolioFor hvalid
      have hle : ∀ s ∈ [FolioStatus.Initialized, FolioStatus.Killed],
          s.number ≤ FolioStatus.Migrating.number := by decide
      exact kept_or_decided hfound (.startFolioMigration newProgram maxAllowedPendingFees handOver)
        howner hbefore rfl (hle _ hstatus) rfl
  | migrateFolioTokens g newProgram newFolio accounts =>
      simp only [Books.owner, migrateFolioTokens, bind_eq_ok, Prod.exists, Except.ok.injEq] at h
      obtain ⟨_, -, _, -, _, -, _, _, -, rfl⟩ := h
      exact .inl (.of_eq rfl rfl)

end Books

namespace World

open Books

variable {T : TokenProgram} {w w' : World T} {f : Pubkey} {folio : Folio}

/-! ### Steps and runs -/

theorem openFor_kept {g : Pubkey} {before : Folio} {sellMint buyMint : Pubkey} {buffer : ℕ}
    {config : Option OpenAuctionConfig} {isPermissionless : Bool}
    (hfound : w.books.folio g = some before)
    (h : w.openFor g before sellMint buyMint buffer config isPermissionless = .ok w') :
    Kept f w.books w'.books := by
  simp only [openFor, bind_eq_ok, Prod.exists, Except.ok.injEq] at h
  obtain ⟨_, -, _, -, after, hpoke, _, -, _, -, _, _, _, -, rfl⟩ := h
  exact .write hfound rfl (poked_status hpoke) rfl

theorem auction_kept {i : AuctionInstruction T} (h : w.auction i = .ok w') :
    Kept f w.books w'.books := by
  cases i with
  | startRebalance g manager window ttl mints pricesAndLimits added =>
      simp only [auction, startRebalance, bind_eq_ok, Except.ok.injEq] at h
      obtain ⟨before, hbefore, _, -, after, hpoke, _, -, rfl⟩ := h
      exact .write (validateFolioFor_eq_ok hbefore).1 rfl (poked_status hpoke) rfl
  | addRebalanceDetails g manager mints pricesAndLimits added =>
      simp only [auction, addRebalanceDetails, bind_eq_ok, Except.ok.injEq] at h
      obtain ⟨_, -, _, -, _, -, _, -, rfl⟩ := h
      exact .of_eq rfl rfl
  | openAuction g launcher sellMint buyMint config =>
      simp only [auction, openAuction, bind_eq_ok] at h
      obtain ⟨before, hbefore, h⟩ := h
      exact openFor_kept (validateFolioFor_eq_ok hbefore).1 h
  | openAuctionPermissionless g sellMint buyMint =>
      simp only [auction, openAuctionPermissionless, bind_eq_ok] at h
      obtain ⟨before, hbefore, h⟩ := h
      exact openFor_kept (validateFolio_eq_ok.mp hbefore).1 h
  | bid g bidder key rawSellAmount rawMaxBuyAmount callback =>
      simp only [auction, bid, validateBid, bind_eq_ok, Prod.exists, Except.ok.injEq,
        Prod.mk.injEq] at h
      obtain ⟨_, -, _, -, _, _, _, ⟨before, hbefore, _, -, _, -, _, -, _, -, _, -, _, -, rfl, rfl,
        rfl⟩, after, hpoke, _, _, -, _, _, -, _, -, _, -, _, -, _, -, _, _, -, rfl⟩ := h
      exact .write (validateFolio_eq_ok.mp hbefore).1 rfl (poked_status hpoke) rfl
  | closeAuction g actor key =>
      simp only [auction, closeAuction, bind_eq_ok] at h
      obtain ⟨_, -, _, -, _, -, _, -, h⟩ := h
      split at h
      · simp only [bind_eq_ok, Except.ok.injEq] at h
        obtain ⟨_, -, rfl⟩ := h
        exact .of_eq rfl rfl
      · cases h
        exact .refl f _

/-- One input keeps a folio, or is an instruction of one of its owners. -/
theorem step_kept_or_decided {i : Instruction T} (h : w.step i = .ok w')
    (hfound : w.books.folio f = some folio) :
    Kept f w.books w'.books ∨
      ∃ j, i = .owner j ∧ DecidedBy f folio j w.books w'.books := by
  cases i with
  | auction i => exact .inl (auction_kept h)
  | user i =>
      simp only [step, onBooks_eq_ok] at h
      exact .inl (user_kept h.1)
  | owner i =>
      simp only [step, onBooks_eq_ok] at h
      exact (owner_kept_or_decided h.1 hfound).imp_right fun hdecided => ⟨i, rfl, hdecided⟩
  | crank i =>
      simp only [step, onBooks_eq_ok] at h
      exact .inl (crank_kept h.1)
  | admin i =>
      simp only [step, onBooks_eq_ok] at h
      exact .inl (administer_kept h.1)
  | elapse seconds =>
      simp only [step, onBooks_eq_ok, Except.ok.injEq] at h
      rw [← h.1]
      exact .inl (.of_eq rfl rfl)
  | outside call =>
      simp only [step, onBooks_eq_ok, bind_eq_ok, Except.ok.injEq] at h
      obtain ⟨⟨_, -, hb⟩, -⟩ := h
      rw [← hb]
      exact .inl (.of_eq rfl rfl)

/-- **A status never goes back.** A folio stays, and its status only moves on: from initializing
to initialized, killed and migrating, in this order. -/
theorem run_status_le (hfound : w.books.folio f = some folio)
    (inputs : List (Instruction T)) :
    ∃ after, (run step w inputs).books.folio f = some after ∧
      folio.status.number ≤ after.status.number := by
  refine run_inv (I := fun w' : World T => ∃ after, w'.books.folio f = some after ∧
    folio.status.number ≤ after.status.number) ?_ ⟨folio, hfound, le_rfl⟩
  rintro w₁ i w₂ - ⟨now, hnow, hle⟩ h
  rcases step_kept_or_decided h hnow with hkept | ⟨_, -, _, after, -, -, hafter, hle'⟩
  · obtain ⟨after, hafter, hstatus⟩ := hkept.status now hnow
    exact ⟨after, hafter, hstatus ▸ hle⟩
  · exact ⟨after, hafter, hle.trans hle'⟩

/-- The launched folio, and its owner 3, who kills it. -/
def launched : World TokenProgram.simple :=
  run step (genesis SimpleLedger.empty 1000000) launch

theorem launched_folio : launched.books.folio 5 =
    some ⟨.Initialized, 1000000, 5, 0, 0, 0, 0, 60, 1000000, [], 0⟩ := by
  decide +kernel

def killing : List (Instruction TokenProgram.simple) := [.owner (.killFolio 5 3)]

theorem run_status_le_killing :
    ∃ after, (run step launched killing).books.folio 5 = some after ∧
      FolioStatus.Initialized.number ≤ after.status.number :=
  run_status_le launched_folio killing

/-- **Owners decide on a folio.** When its status or the roles of its actors have changed in a
run, one of the instructions was that of an actor who was an owner at that time. -/
theorem changed_by_owner (hfound : w.books.folio f = some folio)
    {inputs : List (Instruction T)} (hchanged : ¬ Kept f w.books (run step w inputs).books) :
    ∃ before i rest owner, inputs = before ++ .owner i :: rest ∧
      (∃ w', (run step w before).step (.owner i) = .ok w') ∧ Decides f owner i ∧
      (run step w before).books.IsOwner f owner := by
  obtain ⟨before, i, rest, w', hinputs, hkept, hi, hbroken⟩ :=
    run_breaks (I := fun w' : World T => Kept f w.books w'.books) (.refl f w.books) hchanged
  -- up to the first step that changes it, the folio is what it was
  obtain ⟨now, hnow, -⟩ := hkept.status folio hfound
  rcases step_kept_or_decided hi hnow with hstep | ⟨j, rfl, owner, _, hdecides, howner, -, -⟩
  · exact absurd (hkept.trans hstep) hbroken
  · exact ⟨before, j, rest, owner, hinputs, ⟨w', hi⟩, hdecides, howner⟩

theorem changed_by_owner_killing :
    ∃ before i rest owner, killing = before ++ .owner i :: rest ∧
      (∃ w', (run step launched before).step (.owner i) = .ok w') ∧ Decides 5 owner i ∧
      (run step launched before).books.IsOwner 5 owner := by
  refine changed_by_owner launched_folio fun hkept => ?_
  obtain ⟨after, hafter, hstatus⟩ := hkept.status _ launched_folio
  have hkilled : (run step launched killing).books.folio 5 =
      some ⟨.Killed, 1000000, 5, 0, 0, 0, 0, 60, 1000000, [], 0⟩ := by decide +kernel
  rw [hkilled] at hafter
  cases hafter
  cases hstatus

end World

end IndexDtf
