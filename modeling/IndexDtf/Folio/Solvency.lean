import IndexDtf.Folio.Custody
import IndexDtf.Token.Simple

/-!
# IndexDtf.Folio.Solvency

**Every instruction settles**: one lemma per handler, dispatched in `step_settled`.
From it, by induction over the run, the folios are solvent in every reachable world.
-/

namespace IndexDtf

open Lib SlotArray

namespace Books

variable {T : TokenProgram} {b b' : Books T} {f user : Pubkey} {l l' : T.Ledger}
  {accounts : TokenAccounts T} {moves : List (TokenAccounts T × ℕ)}
  {moved : List FolioTokenAmount} {n amount : ℕ}

/-! ### Rounds and loops -/

theorem loadMint_eq_ok {mint : Pubkey} {u : Unit} : loadMint mint = .ok u ↔ mint ≠ Pubkey.default :=
  guardOr_eq_ok

/-- What a round that brings tokens in does. -/
def Deposits (f : Pubkey) (mint : Pubkey) (amount : ℕ) (l l' : T.Ledger) : Prop :=
  mint ≠ Pubkey.default ∧ (T.Lawful → Moved f [⟨mint, amount⟩] [] l l')

theorem addToPendingRound_deposits
    (h : addToPendingRound f user l accounts n = .ok (l', amount)) :
    Deposits f accounts.mint amount l l' := by
  obtain ⟨mint, sender, recipient⟩ := accounts
  simp only [addToPendingRound, bind_eq_ok, checkCondition_eq_ok, loadMint_eq_ok] at h
  obtain ⟨-, rfl, -, hmint, h⟩ := h
  refine ⟨hmint, fun hT => ?_⟩
  split at h
  · simp only [bind_eq_ok, invoke_eq_ok, Except.ok.injEq, Prod.mk.injEq] at h
    obtain ⟨l₁, htransfer, _, hclose, rfl, rfl⟩ := h
    have hpda := notFolio_userPendingBasket f user
    exact (Moved.transfer_in hT hpda htransfer).trans (.of_keeps (.close hT hpda hclose))
  · simp only [bind_eq_ok, invoke_eq_ok, Except.ok.injEq, Prod.mk.injEq] at h
    obtain ⟨_, htransfer, rfl, rfl⟩ := h
    exact Moved.transfer_in hT (notFolio_external user) htransfer

theorem addToBasketRound_deposits
    (h : addToBasketRound f user l accounts n = .ok (l', amount)) :
    Deposits f accounts.mint amount l l' := by
  obtain ⟨mint, sender, recipient⟩ := accounts
  simp only [addToBasketRound, bind_eq_ok, checkCondition_eq_ok, loadMint_eq_ok, invoke_eq_ok,
    Except.ok.injEq, Prod.mk.injEq] at h
  obtain ⟨-, rfl, -, -, -, hmint, _, htransfer, rfl, rfl⟩ := h
  refine ⟨hmint, fun hT => Moved.transfer_in hT ?_ htransfer⟩
  split
  · exact notFolio_userPendingBasket f user
  · exact notFolio_external user

/-- A loop of deposits. -/
theorem moveAll_deposits {round : T.Ledger → TokenAccounts T → ℕ → Result (T.Ledger × ℕ)}
    (hround : ∀ l accounts n l' amount, round l accounts n = .ok (l', amount) →
      Deposits f accounts.mint amount l l')
    (h : moveAll round l moves = .ok (l', moved)) :
    (∀ ta ∈ moved, ta.key ≠ Pubkey.default) ∧ (T.Lawful → Moved f moved [] l l') := by
  refine moveAll_rel (R := fun moved l l' =>
    (∀ ta ∈ moved, ta.key ≠ Pubkey.default) ∧ (T.Lawful → Moved f moved [] l l')) ?_ ?_ h
  · exact fun l => ⟨fun ta hta => absurd hta List.not_mem_nil, fun _ => Moved.of_keeps fun _ _ => le_rfl⟩
  · intro l accounts n l₁ amount rest l₂ h₁ hrest
    obtain ⟨hmint, hmoved⟩ := hround _ _ _ _ _ h₁
    refine ⟨fun ta hta => ?_, fun hT => (hmoved hT).trans (hrest.2 hT)⟩
    cases hta with
    | head => exact hmint
    | tail _ hta => exact hrest.1 ta hta

/-- A loop of payments to a user. -/
theorem moveAll_payments (hT : T.Lawful)
    (h : moveAll (payUserRound f user) l moves = .ok (l', moved)) : Moved f [] moved l l' := by
  refine moveAll_rel (R := fun moved l l' => Moved f [] moved l l')
    (fun l => Moved.of_keeps fun _ _ => le_rfl) ?_ h
  intro l accounts n l₁ amount rest l₂ h₁ hrest
  simp only [payUserRound, bind_eq_ok, invoke_eq_ok, Except.ok.injEq, Prod.mk.injEq] at h₁
  obtain ⟨-, -, -, -, _, htransfer, rfl, rfl⟩ := h₁
  exact (Moved.transfer_out hT htransfer).trans hrest

/-- The amounts of a loop as token amounts of a process. -/
theorem amountFor_moved (process : PendingBasketType) (m : Pubkey) :
    UserPendingBasket.amountFor process m (moved.map (tokenAmountFor process))
      = amountOf m moved := by
  have hget (n : ℕ) : (PendingAmounts.set 0 n process).get process = n := by
    cases process <;> rfl
  simp only [UserPendingBasket.amountFor, List.map_map, Function.comp_def, tokenAmountFor, hget,
    List.map_id']

/-! ### The accounts before an instruction -/

theorem pendingAmounts_getD (m : Pubkey) :
    ((b.userPendingBasket (f, user)).getD UserPendingBasket.init).lookup m
      = b.pendingAmounts f user m := by
  unfold pendingAmounts
  cases b.userPendingBasket (f, user) with
  | none => exact UserPendingBasket.lookup_init
  | some pending => rfl

theorem basketAmount_getD (m : Pubkey) :
    ((b.folioBasket f).getD FolioBasket.init).lookup m = b.basketAmount f m := by
  unfold basketAmount
  cases b.folioBasket f with
  | none => exact FolioBasket.lookup_init
  | some basket => rfl

theorem pendingAmounts_of {pending : UserPendingBasket}
    (h : b.userPendingBasket (f, user) = some pending) (m : Pubkey) :
    b.pendingAmounts f user m = pending.lookup m := by
  rw [pendingAmounts, h, Option.elim_some]

theorem basketAmount_of {basket : FolioBasket} (h : b.folioBasket f = some basket) (m : Pubkey) :
    b.basketAmount f m = basket.lookup m := by
  rw [basketAmount, h, Option.elim_some]

theorem BasketsWF.pending_getD (h : b.BasketsWF) :
    BasketWF ((b.userPendingBasket (f, user)).getD UserPendingBasket.init) := by
  cases hp : b.userPendingBasket (f, user) with
  | none => exact UserPendingBasket.init_wf
  | some pending => exact h.userPendingBasket _ _ hp

theorem BasketsWF.basket_getD (h : b.BasketsWF) :
    BasketWF ((b.folioBasket f).getD FolioBasket.init) := by
  cases hb : b.folioBasket f with
  | none => exact FolioBasket.init_wf
  | some basket => exact h.folioBasket _ _ hb

/-! ### The instructions of users -/

theorem addToPendingBasket_settled {accounts : List (TokenAccounts T)} {rawAmounts : List ℕ}
    (h : b.addToPendingBasket f user accounts rawAmounts = .ok b') : Settled user b b' := by
  simp only [addToPendingBasket, bind_eq_ok, Prod.exists, Except.ok.injEq] at h
  obtain ⟨_, -, _, -, moves, -, l', moved, hmoves, pending, hpending, rfl⟩ := h
  obtain ⟨hkeys, hmoved⟩ := moveAll_deposits
    (fun _ _ _ _ _ => addToPendingRound_deposits) hmoves
  have hspec := fun hwf : b.BasketsWF => UserPendingBasket.addTokenAmountsToFolio_spec
    hwf.pending_getD (fun ta hta => ?_) hpending
  · refine .of_pending rfl rfl (fun hwf x hx => ?_) (fun hT => (hmoved hT).others) ?_
    · cases hx
      exact (hspec hwf).1
    · intro hwf hT m
      have hin := (hmoved hT).self m
      have hsum := (hspec hwf).2 m
      rw [amountFor_moved, pendingAmounts_getD] at hsum
      rw [amountOf_nil] at hin
      simp only [Option.elim_some, hsum]
      omega
  · obtain ⟨ta', hta', rfl⟩ := List.mem_map.mp hta
    exact hkeys ta' hta'

theorem takeFromPendingBasket_settled {process : PendingBasketType}
    {accounts : List (TokenAccounts T)} {rawAmounts : List ℕ}
    (h : b.takeFromPendingBasket process f user accounts rawAmounts = .ok b') :
    Settled user b b' := by
  simp only [takeFromPendingBasket, bind_eq_ok, Prod.exists, Except.ok.injEq, load_eq_ok] at h
  obtain ⟨_, -, _, -, pending, hload, moves, -, l', moved, hmoves, pending', hpending, rfl⟩ := h
  have hspec := fun hwf : b.BasketsWF => UserPendingBasket.removeTokenAmountsFromFolio_spec
    (hwf.userPendingBasket _ _ hload) hpending
  refine .of_pending rfl rfl (fun hwf x hx => ?_)
    (fun hT => (moveAll_payments hT hmoves).others) ?_
  · cases hx
    exact (hspec hwf).1
  · intro hwf hT m
    have hout := (moveAll_payments hT hmoves).self m
    have hsum := (hspec hwf).2 m
    rw [amountFor_moved] at hsum
    rw [amountOf_nil] at hout
    simp only [Option.elim_some, pendingAmounts_of hload]
    omega

/-- A conversion of shares, with what it does to the ledger. -/
theorem toAssets_settled {process : PendingBasketType} {pending pending' : UserPendingBasket}
    {basket basket' : FolioBasket} {folio folio' : Folio} {rawShares rawSupply : ℕ}
    {fee : DaoFee} {minimumOut : List MinimumOutForTokenAmount}
    (hbasket : b.folioBasket f = some basket)
    (hpending : b.userPendingBasket (f, user) = some pending)
    (h : pending.toAssets rawShares rawSupply basket folio process b.now fee minimumOut
      = .ok (pending', basket', folio'))
    (hb : b'.folioBasket = Function.update b.folioBasket f (some basket'))
    (hp : b'.userPendingBasket = Function.update b.userPendingBasket (f, user) (some pending'))
    (hl : T.Lawful → Keeps b.ledger b'.ledger) : Settled user b b' := by
  refine .of_lists hb hp (fun hwf => ?_) (fun hT g m _ => hl hT g m) fun hwf hT m => ?_
  · obtain ⟨-, _, -, hp', hb', -⟩ := UserPendingBasket.toAssets_spec
      (hwf.userPendingBasket _ _ hpending) (hwf.folioBasket _ _ hbasket) h
    refine ⟨fun x hx => ?_, fun x hx => ?_⟩
    · cases hx
      exact hb'
    · cases hx
      exact hp'
  · have htotal := UserPendingBasket.toAssets_total
      (hwf.userPendingBasket _ _ hpending) (hwf.folioBasket _ _ hbasket) h m
    have hkeeps := hl hT f m
    simp only [Option.elim_some, basketAmount_of hbasket, pendingAmounts_of hpending]
    omega

theorem mintFolioToken_settled {rawShares : ℕ} {minRawShares : Option ℕ}
    (h : b.mintFolioToken f user rawShares minRawShares = .ok b') : Settled user b b' := by
  simp only [mintFolioToken, bind_eq_ok, Prod.exists, Except.ok.injEq, load_eq_ok, invoke_eq_ok]
    at h
  obtain ⟨_, -, basket, hbasket, pending, hpending, fee, -, pending', basket', folio', hassets,
    _, _, -, _, -, _, -, l', hmint, rfl⟩ := h
  exact toAssets_settled hbasket hpending hassets rfl rfl fun hT => .mintTo hT hmint

theorem burnFolioToken_settled {rawShares : ℕ} {minimumOut : List MinimumOutForTokenAmount}
    (h : b.burnFolioToken f user rawShares minimumOut = .ok b') : Settled user b b' := by
  simp only [burnFolioToken, bind_eq_ok, Prod.exists, Except.ok.injEq, load_eq_ok, invoke_eq_ok]
    at h
  obtain ⟨_, -, basket, hbasket, pending, hpending, fee, -, pending', basket', folio', hassets,
    l', hburn, rfl⟩ := h
  exact toAssets_settled hbasket hpending hassets rfl rfl
    fun hT => .burn hT (notFolio_external user) hburn

theorem closeUserPendingTokenAmount_settled
    (h : b.closeUserPendingTokenAmount f user = .ok b') : Settled user b b' := by
  simp only [closeUserPendingTokenAmount, bind_eq_ok, Except.ok.injEq] at h
  obtain ⟨_, -, _, -, _, -, rfl⟩ := h
  refine .of_pending rfl rfl (fun _ x h => absurd h.symm (Option.some_ne_none x))
    (fun _ _ _ _ => le_rfl) fun _ _ m => ?_
  simp only [Option.elim_none, PendingAmounts.total_zero]
  omega

theorem transferFromUserPendingBasketAta_settled {tokenMint : Pubkey}
    (h : b.transferFromUserPendingBasketAta f user tokenMint = .ok b') : Settled user b b' := by
  simp only [transferFromUserPendingBasketAta, bind_eq_ok, Except.ok.injEq, invoke_eq_ok] at h
  obtain ⟨_, -, _, -, l₁, htransfer, l', hclose, rfl⟩ := h
  have hpda := notFolio_userPendingBasket f user
  exact .of_keeps rfl rfl fun hT => (Keeps.transfer hT hpda htransfer).trans (.close hT hpda hclose)

theorem user_settled {i : UserInstruction T} (h : b.user i = .ok b') :
    ∃ user, Settled user b b' := by
  cases i with
  | addToPendingBasket f user accounts rawAmounts => exact ⟨user, addToPendingBasket_settled h⟩
  | removeFromPendingBasket f user accounts rawAmounts =>
      exact ⟨user, takeFromPendingBasket_settled h⟩
  | mintFolioToken f user rawShares minRawShares => exact ⟨user, mintFolioToken_settled h⟩
  | burnFolioToken f user rawShares minimumOut => exact ⟨user, burnFolioToken_settled h⟩
  | redeemFromPendingBasket f user accounts rawAmounts =>
      exact ⟨user, takeFromPendingBasket_settled h⟩
  | closeUserPendingTokenAmount f user => exact ⟨user, closeUserPendingTokenAmount_settled h⟩
  | transferFromUserPendingBasketAta f user tokenMint =>
      exact ⟨user, transferFromUserPendingBasketAta_settled h⟩

/-! ### The instructions of anybody and of the admin -/

theorem pokeFolio_settled (h : b.pokeFolio f = .ok b') : Settled user b b' := by
  simp only [pokeFolio, bind_eq_ok, Except.ok.injEq] at h
  obtain ⟨_, -, _, -, rfl⟩ := h
  exact .of_keeps rfl rfl fun _ _ _ => le_rfl

theorem distributeFees_settled {cranker : Pubkey} {index : ℕ}
    (h : b.distributeFees f cranker index = .ok b') : Settled user b b' := by
  simp only [distributeFees, bind_eq_ok, Except.ok.injEq, invoke_eq_ok] at h
  obtain ⟨_, -, _, -, _, -, _, -, _, -, _, -, _, -, _, -, l', hmint, _, -, rfl⟩ := h
  exact .of_keeps rfl rfl fun hT => .mintTo hT hmint

theorem payRecipients_keeps {d : FeeDistribution} {state state' : List FeeRecipient}
    {total total' : ℕ} {indices : List ℕ} {recipients : List T.Address} (hT : T.Lawful)
    (h : payRecipients f d l state total indices recipients = .ok (l', state', total')) :
    Keeps l l' := by
  induction indices generalizing l state total recipients with
  | nil =>
      cases h
      exact fun _ _ => le_rfl
  | cons index rest ih =>
      cases recipients with
      | nil => cases h
      | cons address addresses =>
          simp only [payRecipients, bind_eq_ok] at h
          obtain ⟨related, -, h⟩ := h
          split at h
          · exact ih h
          · simp only [bind_eq_ok, invoke_eq_ok] at h
            obtain ⟨_, -, _, -, l₁, hmint, _, -, hrest⟩ := h
            exact (Keeps.mintTo hT hmint).trans (ih hrest)

theorem crankFeeDistribution_settled {index : ℕ} {indices : List ℕ}
    {recipients : List T.Address}
    (h : b.crankFeeDistribution f index indices recipients = .ok b') : Settled user b b' := by
  simp only [crankFeeDistribution, bind_eq_ok, Prod.exists, Except.ok.injEq] at h
  obtain ⟨_, -, _, -, l', _, _, hpay, _, -, _, -, _, -, rfl⟩ := h
  exact .of_keeps rfl rfl fun hT => payRecipients_keeps hT hpay

theorem crank_settled {i : CrankInstruction T} (h : b.crank i = .ok b') : Settled user b b' := by
  cases i with
  | pokeFolio f => exact pokeFolio_settled h
  | distributeFees f user index => exact distributeFees_settled h
  | crankFeeDistribution f index indices recipients => exact crankFeeDistribution_settled h

theorem setFolioFeeConfig_settled {signer : Pubkey} {given : Bool} {numerator floor : Option ℕ}
    (h : b.setFolioFeeConfig signer f given numerator floor = .ok b') : Settled user b b' := by
  simp only [setFolioFeeConfig, bind_eq_ok, Except.ok.injEq] at h
  obtain ⟨_, -, _, -, _, -, b₁, hdistribute, rfl⟩ := h
  have h₁ : Settled user b b₁ := by
    rcases distributeFeesCpi_cases hdistribute with rfl | ⟨index, hdistribute⟩
    · exact .refl
    · exact distributeFees_settled hdistribute
  exact h₁.trans (.of_keeps rfl rfl fun _ _ _ => le_rfl)

theorem administer_settled {i : AdminInstruction} (h : b.administer i = .ok b') :
    Settled user b b' := by
  cases i with
  | setDaoFeeConfig signer feeRecipient numerator floor =>
      simp only [administer, setDaoFeeConfig, bind_eq_ok, Except.ok.injEq] at h
      obtain ⟨_, -, _, -, _, -, rfl⟩ := h
      exact .of_keeps rfl rfl fun _ _ _ => le_rfl
  | setFolioFeeConfig signer f given numerator floor => exact setFolioFeeConfig_settled h
  | initProgramRegistrar signer programId =>
      simp only [administer, bind_eq_ok, Except.ok.injEq] at h
      obtain ⟨_, -, _, -, rfl⟩ := h
      exact .of_keeps rfl rfl fun _ _ _ => le_rfl
  | updateProgramRegistrar signer programIds remove =>
      simp only [administer, bind_eq_ok] at h
      obtain ⟨_, -, _, -, h⟩ := h
      split at h
      all_goals
        simp only [bind_eq_ok, Except.ok.injEq] at h
        obtain ⟨_, -, rfl⟩ := h
        exact .of_keeps rfl rfl fun _ _ _ => le_rfl

/-! ### The instructions of owners -/

theorem initFolio_settled {owner : Pubkey} {tvlFee mintFee auctionLength : ℕ} {mandate : List ℕ}
    (h : b.initFolio f owner tvlFee mintFee auctionLength mandate = .ok b') :
    Settled user b b' := by
  simp only [initFolio, bind_eq_ok, Except.ok.injEq, invoke_eq_ok] at h
  obtain ⟨_, -, _, -, _, -, _, -, _, -, _, -, l', hcreate, _, -, rfl⟩ := h
  exact .of_keeps rfl rfl fun hT _ _ => hT.createMint_keeps hcreate

theorem mintInitialShares_settled {owner : Pubkey} {folio : Folio} {rawInitialShares : ℕ}
    (h : b.mintInitialShares f owner folio rawInitialShares = .ok b') : Settled user b b' := by
  unfold mintInitialShares at h
  split at h
  · simp only [bind_eq_ok, Except.ok.injEq, invoke_eq_ok] at h
    obtain ⟨l', hmint, rfl⟩ := h
    exact .of_keeps rfl rfl fun hT => .mintTo hT hmint
  · simp only [ok_bind, Except.ok.injEq] at h
    subst h
    exact .of_keeps rfl rfl fun _ _ _ => le_rfl

theorem addToBasket_settled {owner : Pubkey} {accounts : List (TokenAccounts T)}
    {rawAmounts : List ℕ} {rawInitialShares : Option ℕ}
    (h : b.addToBasket f owner accounts rawAmounts rawInitialShares = .ok b') :
    Settled user b b' := by
  simp only [addToBasket, bind_eq_ok, Prod.exists] at h
  obtain ⟨folio, -, moves, -, l', moved, hmoves, basket, hbasket, h⟩ := h
  obtain ⟨-, hmoved⟩ := moveAll_deposits (fun _ _ _ _ _ => addToBasketRound_deposits) hmoves
  have hspec := fun hwf : b.BasketsWF =>
    FolioBasket.addTokensToBasket_spec hwf.basket_getD hbasket
  have hfunded : Settled user b { b with
      ledger := l', folioBasket := Function.update b.folioBasket f (some basket) } := by
    refine .of_basket rfl rfl (fun hwf => (hspec hwf).1) (fun hT => (hmoved hT).others) ?_
    intro hwf hT m
    have hin := (hmoved hT).self m
    have hsum := (hspec hwf).2 m
    rw [basketAmount_getD] at hsum
    rw [amountOf_nil] at hin
    simp only [hsum]
    omega
  cases rawInitialShares with
  | none =>
      cases h
      exact hfunded
  | some rawInitialShares => exact hfunded.trans (mintInitialShares_settled h)

theorem removeFromBasket_settled {owner tokenMint : Pubkey}
    (h : b.removeFromBasket f owner tokenMint = .ok b') : Settled user b b' := by
  simp only [removeFromBasket, bind_eq_ok, Except.ok.injEq, load_eq_ok] at h
  obtain ⟨basket, hload, _, -, _, -, basket', hremove, rfl⟩ := h
  have hspec := fun hwf : b.BasketsWF =>
    FolioBasket.removeTokenMintFromBasket_spec (hwf.folioBasket _ _ hload) hremove
  refine .of_basket rfl rfl (fun hwf => (hspec hwf).1) (fun _ _ _ _ => le_rfl) ?_
  intro hwf _ m
  rw [basketAmount_of hload, congrFun (hspec hwf).2 m]
  refine Nat.add_le_add_right ?_ _
  by_cases hm : m = tokenMint
  · rw [hm, Function.update_self]
    exact Nat.zero_le _
  · rw [Function.update_of_ne hm]

theorem modifyFolio_settled {change : Folio → Result Folio}
    (h : b.modifyFolio f change = .ok b') : Settled user b b' := by
  simp only [modifyFolio, bind_eq_ok, Except.ok.injEq] at h
  obtain ⟨_, -, _, -, rfl⟩ := h
  exact .of_keeps rfl rfl fun _ _ _ => le_rfl

theorem distributeOnce_settled {owner : Pubkey} {should : Bool} {index : Option ℕ}
    (h : b.distributeOnce should f owner index = .ok b') : Settled user b b' := by
  unfold distributeOnce at h
  split at h
  · simp only [distributeFeesForUpdate, bind_eq_ok] at h
    obtain ⟨_, -, h⟩ := h
    split at h
    · simp only [bind_eq_ok] at h
      obtain ⟨_, -, h⟩ := h
      exact distributeFees_settled h
    · cases h
      exact .refl
  · cases h
    exact .refl

theorem updateFee_settled {owner : Pubkey} {should should' : Bool} {index fee : Option ℕ}
    {check : ℕ → Result Unit} {change : ℕ → Folio → Result Folio}
    (h : b.updateFee should f owner index fee check change = .ok (b', should')) :
    Settled user b b' := by
  cases fee with
  | none =>
      cases h
      exact .refl
  | some fee =>
      simp only [updateFee, bind_eq_ok, Except.ok.injEq, Prod.mk.injEq] at h
      obtain ⟨_, -, b₁, hdistribute, b₂, hmodify, rfl, -⟩ := h
      exact (distributeOnce_settled hdistribute).trans (modifyFolio_settled hmodify)

theorem updateRecipients_settled {owner : Pubkey} {should : Bool} {update : FolioUpdate}
    (h : b.updateRecipients should f owner update = .ok b') : Settled user b b' := by
  unfold updateRecipients at h
  split at h
  · cases h
    exact .refl
  · simp only [bind_eq_ok, Except.ok.injEq] at h
    obtain ⟨b₁, hdistribute, _, -, _, -, rfl⟩ := h
    exact (distributeOnce_settled hdistribute).trans (.of_keeps rfl rfl fun _ _ _ => le_rfl)

theorem updateFolio_settled {owner : Pubkey} {update : FolioUpdate}
    (h : b.updateFolio f owner update = .ok b') : Settled user b b' := by
  simp only [updateFolio, bind_eq_ok, Prod.exists] at h
  obtain ⟨_, -, b₁, _, hfirst, b₂, _, hsecond, b₃, hrecipients, hsettings⟩ := h
  have hinit : Settled user b (b.initFeeRecipients f) := .of_keeps rfl rfl fun _ _ _ => le_rfl
  exact (((hinit.trans (updateFee_settled hfirst)).trans (updateFee_settled hsecond)).trans
    (updateRecipients_settled hrecipients)).trans (modifyFolio_settled hsettings)

theorem startFolioMigration_settled {owner newProgram : Pubkey} {maxAllowedPendingFees : ℕ}
    {handOver : T.Call}
    (h : b.startFolioMigration f owner newProgram maxAllowedPendingFees handOver = .ok b') :
    Settled user b b' := by
  simp only [startFolioMigration, bind_eq_ok, Except.ok.injEq, invoke_eq_ok] at h
  obtain ⟨_, -, _, -, _, -, _, -, _, -, _, -, _, -, _, -, _, -, l', hcall, rfl⟩ := h
  exact .of_keeps rfl rfl fun hT => .outside hT hcall

/-- What the loop of `migrate_folio_tokens` sends out it takes off the basket. -/
theorem migrateAll_spec {newFolio : Pubkey} {basket basket' : FolioBasket}
    {accounts : List (TokenAccounts T × T.Call)} (hwf : BasketWF basket)
    (h : migrateAll f newFolio l basket accounts = .ok (l', basket')) :
    BasketWF basket' ∧ (T.Lawful →
      (∀ g m, g ≠ f → T.held l (.folio g) m ≤ T.held l' (.folio g) m) ∧
      ∀ m, basket'.lookup m + T.held l (.folio f) m
        ≤ basket.lookup m + T.held l' (.folio f) m) := by
  induction accounts generalizing l basket with
  | nil =>
      cases h
      exact ⟨hwf, fun _ => ⟨fun _ _ _ => le_rfl, fun _ => le_rfl⟩⟩
  | cons head rest ih =>
      obtain ⟨⟨mint, sender, recipient⟩, call⟩ := head
      simp only [migrateAll, bind_eq_ok, invoke_eq_ok, FolioBasket.getTokenAmountInFolioBasket,
        okOr_eq_ok] at h
      obtain ⟨_, -, _, -, balance, hfind, _, -, l₁, htransfer, l₂, hcall, basket₁, hremove,
        hrest⟩ := h
      obtain ⟨hwf₁, hlookup⟩ := FolioBasket.removeTokenMintFromBasket_spec hwf hremove
      obtain ⟨hwf', hmoved⟩ := ih hwf₁ hrest
      refine ⟨hwf', fun hT => ?_⟩
      obtain ⟨hothers, hself⟩ := hmoved hT
      have hround := (Moved.transfer_out hT htransfer).trans (.of_keeps (.outside hT hcall))
      refine ⟨fun g m hg => (hround.others g m hg).trans (hothers g m hg), fun m => ?_⟩
      have hm := hround.self m
      have hrest := hself m
      rw [congrFun hlookup m] at hrest
      rw [List.append_nil, List.append_nil, amountOf_nil, amountOf_single] at hm
      by_cases hmint : m = mint
      · subst hmint
        rw [Function.update_self] at hrest
        rw [if_pos rfl] at hm
        rw [lookup_of_find hfind]
        omega
      · rw [Function.update_of_ne hmint] at hrest
        rw [if_neg (Ne.symm hmint)] at hm
        omega

theorem migrateFolioTokens_settled {newProgram newFolio : Pubkey}
    {accounts : List (TokenAccounts T × T.Call)}
    (h : b.migrateFolioTokens f newProgram newFolio accounts = .ok b') : Settled user b b' := by
  simp only [migrateFolioTokens, bind_eq_ok, Prod.exists, Except.ok.injEq, load_eq_ok] at h
  obtain ⟨_, -, _, -, basket, hload, l', basket', hmigrate, rfl⟩ := h
  have hspec := fun hwf : b.BasketsWF => migrateAll_spec (hwf.folioBasket _ _ hload) hmigrate
  by_cases hwf : b.BasketsWF
  · obtain ⟨hwf', hmoved⟩ := hspec hwf
    refine .of_basket rfl rfl (fun _ => hwf') (fun hT => (hmoved hT).1) fun _ hT m => ?_
    rw [basketAmount_of hload]
    exact (hmoved hT).2 m
  · exact ⟨fun h => absurd h hwf, fun h => absurd h hwf⟩

theorem owner_settled {i : OwnerInstruction T} (h : b.owner i = .ok b') : Settled user b b' := by
  cases i with
  | initFolio f owner tvlFee mintFee auctionLength mandate => exact initFolio_settled h
  | initOrUpdateActor f owner newAuthority role =>
      simp only [Books.owner, initOrUpdateActor, bind_eq_ok, Except.ok.injEq] at h
      obtain ⟨_, -, rfl⟩ := h
      exact .of_keeps rfl rfl fun _ _ _ => le_rfl
  | removeActor f owner authority role closeActor =>
      simp only [Books.owner, removeActor, bind_eq_ok, Except.ok.injEq] at h
      obtain ⟨_, -, _, -, rfl⟩ := h
      exact .of_keeps rfl rfl fun _ _ _ => le_rfl
  | addToBasket f owner accounts rawAmounts rawInitialShares => exact addToBasket_settled h
  | removeFromBasket f owner tokenMint => exact removeFromBasket_settled h
  | killFolio f owner =>
      simp only [Books.owner, killFolio, bind_eq_ok, Except.ok.injEq] at h
      obtain ⟨_, -, rfl⟩ := h
      exact .of_keeps rfl rfl fun _ _ _ => le_rfl
  | updateFolio f owner update => exact updateFolio_settled h
  | startFolioMigration f owner newProgram maxAllowedPendingFees handOver =>
      exact startFolioMigration_settled h
  | migrateFolioTokens f newProgram newFolio accounts => exact migrateFolioTokens_settled h

end Books

namespace World

open Books

variable {T : TokenProgram} {w w' : World T} {f user bidder : Pubkey}

/-! ### The instructions on auctions -/

theorem openFor_settled {folio : Folio} {sellMint buyMint : Pubkey} {buffer : ℕ}
    {config : Option OpenAuctionConfig} {isPermissionless : Bool}
    (h : w.openFor f folio sellMint buyMint buffer config isPermissionless = .ok w') :
    Settled user w.books w'.books := by
  simp only [openFor, bind_eq_ok, Prod.exists, Except.ok.injEq] at h
  obtain ⟨_, -, _, -, _, -, _, -, _, -, _, _, _, -, rfl⟩ := h
  exact .of_keeps rfl rfl fun _ _ _ => le_rfl

/-- What a bid takes out of the basket. -/
theorem sellFromBasket_spec {basket basket' : FolioBasket} {auction : Auction}
    {rawSellAmount presence : ℕ} {supply : Decimal} (hwf : BasketWF basket)
    (h : sellFromBasket basket auction rawSellAmount supply = .ok (basket', presence)) :
    BasketWF basket' ∧
      ∀ m, basket'.lookup m + amountOf m [⟨auction.sellMint, rawSellAmount⟩]
        = basket.lookup m := by
  simp only [sellFromBasket, bind_eq_ok, FolioBasket.getTokenAmountInFolioBasket, okOr_eq_ok] at h
  obtain ⟨basket₁, hremove, balance, hfind, h⟩ := h
  obtain ⟨hwf₁, hsum⟩ := FolioBasket.removeTokensFromBasket_spec hwf hremove
  split at h
  · next hzero =>
    simp only [bind_eq_ok, Except.ok.injEq, Prod.mk.injEq] at h
    obtain ⟨basket₂, hsoldOut, _, -, _, -, rfl, -⟩ := h
    obtain ⟨hwf₂, hlookup⟩ := FolioBasket.removeTokenMintFromBasket_spec hwf₁ hsoldOut
    refine ⟨hwf₂, fun m => ?_⟩
    -- the mint is only given up at a balance of zero
    have hsame : basket₂.lookup m = basket₁.lookup m := by
      rw [congrFun hlookup m]
      by_cases hm : m = auction.sellMint
      · rw [hm, Function.update_self, lookup_of_find hfind, hzero]
      · rw [Function.update_of_ne hm]
    rw [hsame]
    exact hsum m
  · simp only [ok_bind, bind_eq_ok, Except.ok.injEq, Prod.mk.injEq] at h
    obtain ⟨_, -, _, -, rfl, -⟩ := h
    exact ⟨hwf₁, hsum⟩

/-- The payment of a bid comes in, whether the bidder transfers it or the callback. -/
theorem collectPayment_moved {l l' : T.Ledger} {buyMint : Pubkey} {n : ℕ}
    {callback : Option (Callback T)} (hT : T.Lawful)
    (h : collectPayment l f bidder buyMint n callback = .ok l') :
    Moved f [⟨buyMint, n⟩] [] l l' := by
  cases callback with
  | none => exact Moved.transfer_in hT (notFolio_external bidder) (invoke_eq_ok.mp h)
  | some callback =>
      cases callback with
      | nothing =>
          simp only [collectPayment, ok_bind, bind_eq_ok, checkedSub_eq_ok, checkCondition_eq_ok,
            Except.ok.injEq] at h
          obtain ⟨_, ⟨-, rfl⟩, _, hn, rfl⟩ := h
          obtain rfl : n = 0 := by omega
          intro g m
          rw [amountOf_single, ite_self, ite_self, amountOf_nil, ite_self]
      | folioProgram =>
          simp only [collectPayment, error_bind] at h
          cases h
      | call call =>
          simp only [collectPayment, bind_eq_ok, invoke_eq_ok, checkedSub_eq_ok,
            checkCondition_eq_ok, Except.ok.injEq] at h
          obtain ⟨_, hcall, _, ⟨hle, rfl⟩, _, hn, rfl⟩ := h
          intro g m
          rw [amountOf_single, amountOf_nil, ite_self, Nat.add_zero]
          by_cases hg : g = f ∧ buyMint = m
          · obtain ⟨rfl, rfl⟩ := hg
            rw [if_pos rfl, if_pos rfl]
            exact hT.outside_in (p := .folio g) trivial hcall (by omega)
          · rw [← ite_and, if_neg hg]
            exact Keeps.outside hT hcall g m

theorem bid_settled {key : AuctionKey} {rawSellAmount rawMaxBuyAmount : ℕ}
    {callback : Option (Callback T)}
    (h : w.bid f bidder key rawSellAmount rawMaxBuyAmount callback = .ok w') :
    Settled user w.books w'.books := by
  simp only [bid, bind_eq_ok, Prod.exists, Except.ok.injEq, load_eq_ok, invoke_eq_ok] at h
  obtain ⟨auction, -, basket, hload, _, _, ends, -, folio, -, bought, supply, -, basket₁, _,
    hsell, l₁, htransfer, l₂, hcollect, basket₂, hadd, _, -, _, _, -, rfl⟩ := h
  have hspec := fun hwf : w.books.BasketsWF =>
    sellFromBasket_spec (hwf.folioBasket _ _ hload) hsell
  have hmoved := fun hT : T.Lawful =>
    (Moved.transfer_out hT htransfer).trans (collectPayment_moved hT hcollect)
  refine .of_basket rfl rfl
    (fun hwf => (FolioBasket.addTokensToBasket_spec (hspec hwf).1 hadd).1)
    (fun hT => (hmoved hT).others) fun hwf hT m => ?_
  have hsold := (hspec hwf).2 m
  have hbought := (FolioBasket.addTokensToBasket_spec (hspec hwf).1 hadd).2 m
  have hm := (hmoved hT).self m
  rw [List.nil_append, List.append_nil] at hm
  rw [basketAmount_of hload]
  simp only
  omega

theorem auction_settled {i : AuctionInstruction T} (h : w.auction i = .ok w') :
    Settled user w.books w'.books := by
  cases i with
  | startRebalance f manager window ttl mints pricesAndLimits added =>
      simp only [auction, startRebalance, bind_eq_ok, Except.ok.injEq] at h
      obtain ⟨_, -, _, -, _, -, _, -, rfl⟩ := h
      exact .of_keeps rfl rfl fun _ _ _ => le_rfl
  | addRebalanceDetails f manager mints pricesAndLimits added =>
      simp only [auction, addRebalanceDetails, bind_eq_ok, Except.ok.injEq] at h
      obtain ⟨_, -, _, -, _, -, _, -, rfl⟩ := h
      exact .refl
  | openAuction f launcher sellMint buyMint config =>
      simp only [auction, openAuction, bind_eq_ok] at h
      obtain ⟨_, -, h⟩ := h
      exact openFor_settled h
  | openAuctionPermissionless f sellMint buyMint =>
      simp only [auction, openAuctionPermissionless, bind_eq_ok] at h
      obtain ⟨_, -, h⟩ := h
      exact openFor_settled h
  | bid f bidder key rawSellAmount rawMaxBuyAmount callback => exact bid_settled h
  | closeAuction f actor key =>
      simp only [auction, closeAuction, bind_eq_ok] at h
      obtain ⟨_, -, _, -, _, -, _, -, h⟩ := h
      split at h
      · simp only [bind_eq_ok, Except.ok.injEq] at h
        obtain ⟨_, -, rfl⟩ := h
        exact .refl
      · cases h
        exact .refl

/-- **Every instruction settles** the vaults of all folios with some user. -/
theorem step_settled {i : Instruction T} (h : w.step i = .ok w') :
    ∃ user, Settled user w.books w'.books := by
  obtain ⟨j, -, hauction⟩ | ⟨hbooks, -⟩ := step_cases h
  · exact ⟨0, auction_settled hauction⟩
  · cases hbooks with
    | user i h => exact user_settled h
    | owner i h => exact ⟨0, owner_settled h⟩
    | crank i h => exact ⟨0, crank_settled h⟩
    | admin i h => exact ⟨0, administer_settled h⟩
    | elapse seconds h => exact ⟨0, h ▸ .of_keeps rfl rfl fun _ _ _ => le_rfl⟩
    | outside call ledger hcall h => exact ⟨0, h ▸ .of_keeps rfl rfl fun hT => .outside hT hcall⟩

/-! ### Runs -/

theorem Fresh.basketsWF (h : w.Fresh) : w.books.BasketsWF where
  folioBasket := fun f basket hb => by
    rw [h.folioBasket f] at hb
    cases hb
  userPendingBasket := fun k pending hp => by
    rw [h.userPendingBasket k] at hp
    cases hp

/-- The token lists are well formed in every reachable world. -/
theorem Reachable.basketsWF (h : w.Reachable) : w.books.BasketsWF :=
  Lib.Reachable.inv (I := fun w => w.books.BasketsWF) (fun _ => Fresh.basketsWF)
    (fun _ _ _ hwf hstep => (step_settled hstep).choose_spec.wf hwf) h

theorem Fresh.vaultSolvent (h : w.Fresh) (f m : Pubkey) : (w.books.vault f m).Solvent := by
  intro s
  simp only [vault, basketAmount, pendingAmounts, h.folioBasket, h.userPendingBasket,
    Option.elim_none, PendingAmounts.total_zero, Finset.sum_const_zero, Nat.zero_le, Nat.add_zero]

/-- **Solvency.** What the token accounts of a folio hold of a mint covers its basket and
the pending baskets of any number of users. -/
theorem solvent (hT : T.Lawful) (h : w.Reachable) (f m : Pubkey) (users : Finset Pubkey) :
    w.books.basketAmount f m +
        ∑ u ∈ users, ((w.books.pendingAmounts f u m).amountForMinting
          + (w.books.pendingAmounts f u m).amountForRedeeming)
      ≤ T.held w.books.ledger (.folio f) m := by
  have hinv : w.books.BasketsWF ∧ ∀ f m, (w.books.vault f m).Solvent := by
    refine Lib.Reachable.inv
      (I := fun w : World T => w.books.BasketsWF ∧ ∀ f m, (w.books.vault f m).Solvent)
      (fun _ h₀ => ⟨h₀.basketsWF, h₀.vaultSolvent⟩) (fun w₁ i w₂ hw₁ hstep => ?_) h
    obtain ⟨hwf, hsolvent⟩ := hw₁
    obtain ⟨user, hsettled⟩ := step_settled hstep
    exact ⟨hsettled.wf hwf, fun f m => (hsettled.vault hwf hT f m).keepsSolvent (hsolvent f m)⟩
  exact hinv.2 f m users

/-- The folio 5 of owner 3, who puts 600 of token 7 into its basket for the first shares
and keeps 400. -/
def launch : List (Instruction TokenProgram.simple) :=
  [.admin (.setDaoFeeConfig admin (some 9) (some 0) (some 0)),
    .owner (.initFolio 5 3 0 0 60 []),
    .outside (.openAccount (.external 3) 7),
    .outside (.issue (.external 3) 7 1000),
    .outside (.openAccount (.folio 5) 7),
    .outside (.openAccount (.external 3) 5),
    .owner (.addToBasket 5 3 [⟨7, (.external 3, 7), (.folio 5, 7)⟩] [600] (some 1000000000))]

/-- After the launch the owner puts another 100 into her pending basket. -/
theorem solvent_after_launch :
    let w := run step (genesis SimpleLedger.empty 1000000)
      (launch ++ [.user (.addToPendingBasket 5 3 [⟨7, (.external 3, 7), (.folio 5, 7)⟩] [100])])
    w.books.basketAmount 5 7 = 600 ∧ w.books.pendingAmounts 5 3 7 = ⟨100, 0⟩ ∧
      w.books.basketAmount 5 7 +
          ∑ u ∈ {3}, ((w.books.pendingAmounts 5 u 7).amountForMinting
            + (w.books.pendingAmounts 5 u 7).amountForRedeeming)
        ≤ TokenProgram.simple.held w.books.ledger (.folio 5) 7 :=
  ⟨by decide, by decide, solvent TokenProgram.simple_lawful (reachable_genesis ..) 5 7 {3}⟩

end World

end IndexDtf
