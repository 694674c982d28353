import IndexDtf.Folio.PokeTotal
import IndexDtf.Folio.Solvency

/-!
# IndexDtf.Folio.Migration

**A folio moves to another version of the program.** The old program sends the tokens of the
basket, mint by mint, and tells the new one about each of them; the new program keeps the
basket of the new folio. Its two instructions are those under the `test` feature
(`create_folio_from_old_program`, `update_basket_in_new_folio_program`).

`Migration` has both programs side by side. A call of `migrate_folio_tokens` names any mints
in any order. Between two calls each mint is in exactly one of the two baskets
(`SlotArray.Split`), what left the token account of the old folio is what the new basket has,
and the new folio is in use exactly when nothing is left in the old basket.
-/

namespace IndexDtf

open Lib SlotArray

/-! ### The new program -/

/-- The accounts of the new program: the new folio and its basket. -/
structure NewFolio where
  folio : Folio
  basket : FolioBasket

namespace NewFolio

/-- `create_folio_from_old_program`, for the folio with share mint `f`. -/
def createFolioFromOldProgram (f : Pubkey) (oldFolio : Folio) : Result NewFolio := do
  checkCondition (oldFolio.status = .Migrating) .InvalidFolioStatus
  checkCondition (f = oldFolio.folioTokenMint) .InvalidFolioTokenMint
  let folio ← Folio.setTvlFee
    { status := .Migrating, initializedAt := oldFolio.initializedAt, folioTokenMint := f
      tvlFee := 0, mintFee := oldFolio.mintFee, daoPendingFeeShares := 0
      feeRecipientsPendingFeeShares := 0, auctionLength := oldFolio.auctionLength
      lastPoke := oldFolio.lastPoke, mandate := oldFolio.mandate
      feeRecipientsPendingFeeSharesToBeMinted := 0 } oldFolio.tvlFee
  .ok ⟨folio, FolioBasket.init⟩

/-- The slots of the old basket that stay in use once a mint is gone. -/
def tokensLeft (oldBasket : FolioBasket) (mint : Pubkey) : ℕ :=
  oldBasket.countP fun ta => ta.key ≠ Pubkey.default ∧ ta.key ≠ mint

/-- `update_basket_in_new_folio_program` for the new folio with key `newFolio`. It reads the
old basket before the mint is taken from it. -/
def updateBasket (new : NewFolio) (newFolio : Pubkey) (registrar : ProgramRegistrar)
    (oldFolio : Folio) (oldBasket : FolioBasket) (mint : Pubkey)
    (folioTokenAccount : TokenAccount) : Result NewFolio := do
  guardOr .account
    (folioTokenAccount.owner = .external newFolio ∧ folioTokenAccount.mint = mint)
  checkCondition (oldFolio.status = .Migrating) .InvalidFolioStatus
  checkCondition (new.folio.folioTokenMint = oldFolio.folioTokenMint) .InvalidFolioTokenMint
  checkCondition (folioProgramId ∈ registrar) .ProgramNotInRegistrar
  let balance ← oldBasket.getTokenAmountInFolioBasket mint
  let basket ← new.basket.addTokensToBasket [⟨mint, balance⟩]
  checkCondition (balance ≤ folioTokenAccount.amount) .InvalidTokenBalance
  let status := if 0 < tokensLeft oldBasket mint then .Migrating else .Initialized
  .ok ⟨{ new.folio with status }, basket⟩

end NewFolio

/-! ### Both programs -/

/-- A folio on its way: the accounts of the old program, and those of the new one. -/
structure Migration (T : TokenProgram) where
  books : Books T
  /-- The program that owns the new folio. -/
  newProgram : Pubkey
  /-- The key of the new folio, which is the authority of the share mint. -/
  newFolio : Pubkey
  new : NewFolio

/-- A call of `migrate_folio_tokens`, which anybody can send. -/
structure MigrateCall (T : TokenProgram) where
  newProgram : Pubkey
  newFolio : Pubkey
  accounts : List (TokenAccounts T)

namespace Migration

variable {T : TokenProgram}

/-- One round of `migrate_folio_tokens`, with the call into the new program. -/
def moveToken (f newFolio : Pubkey) (registrar : ProgramRegistrar) (oldFolio : Folio)
    (ledger : T.Ledger) (basket : FolioBasket) (new : NewFolio) (accounts : TokenAccounts T) :
    Result (T.Ledger × FolioBasket × NewFolio) := do
  let { mint, sender, recipient } := accounts
  checkCondition (sender = T.associated (.folio f) mint) .InvalidSenderTokenAccount
  checkCondition (recipient = T.associated (.external newFolio) mint) .InvalidRecipientTokenAccount
  let rawMigrateBalance ← basket.getTokenAmountInFolioBasket mint
  Books.loadMint mint
  let ledger ← Books.invoke
    (T.transferChecked ledger (.folio f) sender recipient mint rawMigrateBalance)
  let folioTokenAccount ← Books.load (T.account ledger recipient)
  let new ← new.updateBasket newFolio registrar oldFolio basket mint folioTokenAccount
  let basket ← basket.removeTokenMintFromBasket mint
  .ok (ledger, basket, new)

/-- The loop of `migrate_folio_tokens`. -/
def moveAll (f newFolio : Pubkey) (registrar : ProgramRegistrar) (oldFolio : Folio) :
    T.Ledger → FolioBasket → NewFolio → List (TokenAccounts T) →
      Result (T.Ledger × FolioBasket × NewFolio)
  | ledger, basket, new, [] => .ok (ledger, basket, new)
  | ledger, basket, new, accounts :: rest => do
      let (ledger, basket, new) ←
        moveToken f newFolio registrar oldFolio ledger basket new accounts
      moveAll f newFolio registrar oldFolio ledger basket new rest

/-- `migrate_folio_tokens` for the folio with share mint `f`. -/
def migrateFolioTokens (f : Pubkey) (s : Migration T) (call : MigrateCall T) :
    Result (Migration T) := do
  guardOr .account (call.newFolio = s.newFolio)
  let oldFolio ← s.books.validateFolio f [.Migrating]
  let registrar ← Books.load s.books.programRegistrar
  checkCondition (call.newProgram ∈ registrar) .ProgramNotInRegistrar
  checkCondition (call.newProgram = s.newProgram) .NewFolioNotOwnedByNewFolioProgram
  checkCondition (call.newProgram ≠ folioProgramId) .CantMigrateToSameProgram
  let basket ← Books.load (s.books.folioBasket f)
  let (ledger, basket, new) ←
    moveAll f call.newFolio registrar oldFolio s.books.ledger basket s.new call.accounts
  .ok { s with
    books := { s.books with
      ledger, folioBasket := Function.update s.books.folioBasket f (some basket) }
    new }

/-! ### One mint -/

variable {f newFolio mint : Pubkey} {registrar : ProgramRegistrar} {oldFolio : Folio}
  {l l' : T.Ledger} {whole old old' : FolioBasket} {new new' : NewFolio}
  {accounts : TokenAccounts T} {l₀ : T.Ledger}

/-- Between two rounds: `whole` is shared out between the baskets, and the token accounts of
the old folio had at the start, with ledger `l₀`, what they have now and what the new basket
has. -/
structure Underway (f : Pubkey) (l₀ : T.Ledger) (whole : FolioBasket) (l : T.Ledger)
    (old : FolioBasket) (new : NewFolio) : Prop where
  split : Split Pubkey.default whole old new.basket
  amount : ∀ m, T.amount l (T.associated (.folio f) m) + new.basket.lookup m
    = T.amount l₀ (T.associated (.folio f) m)
  status : new.folio.status = .Initialized ↔ ∀ m, m ≠ Pubkey.default → old.find m = none

/-- The count of the new program tells whether the old basket will be empty. -/
theorem tokensLeft_eq_zero (hwf : BasketWF old) :
    NewFolio.tokensLeft old mint = 0 ↔
      ∀ m, m ≠ Pubkey.default → find m (old.replace mint ⟨Pubkey.default, 0⟩) = none := by
  rw [NewFolio.tokensLeft, List.countP_eq_zero, hwf.release_last]
  refine forall₂_congr fun ta _ => ?_
  rw [decide_eq_true_eq, not_and_or, not_not, not_not]

/-- What a round needs, and what it leaves. -/
theorem moveToken_spec (hT : T.Lawful) (hs : Underway f l₀ whole l old new)
    (h : moveToken f newFolio registrar oldFolio l old new accounts = .ok (l', old', new')) :
    accounts.mint ≠ Pubkey.default ∧ (old.find accounts.mint).isSome ∧
      old' = old.replace accounts.mint ⟨Pubkey.default, 0⟩ ∧
      Underway f l₀ whole l' old' new' := by
  obtain ⟨mint, sender, recipient⟩ := accounts
  simp only [moveToken, NewFolio.updateBasket, bind_eq_ok, checkCondition_eq_ok, guardOr_eq_ok,
    Books.invoke_eq_ok, Books.load_eq_ok, Books.loadMint,
    FolioBasket.getTokenAmountInFolioBasket, okOr_eq_ok, Except.ok.injEq, Prod.mk.injEq] at h
  obtain ⟨-, rfl, -, rfl, balance, hfind, -, hmint, l₁, htransfer, account, haccount, new₁,
    ⟨-, ⟨howner, -⟩, -, -, -, -, -, -, _, hbalance, basket, hadd, -, -, rfl⟩,
    _, hremove, rfl, rfl, rfl⟩ := h
  obtain rfl : balance = _ := Option.some.inj (hfind.symm.trans hbalance)
  have hnew := hs.split.absent hmint hfind
  rw [FolioBasket.addTokensToBasket_single] at hadd
  obtain ⟨hfree, rfl⟩ := FolioBasket.addToken_absent hnew hadd
  obtain rfl := FolioBasket.removeTokenMintFromBasket_of hfind hremove
  have hclaim := hs.split.right.lookup_claim (v := balance) hfree hmint hnew
  have hpda : (Authority.folio f).IsPda := trivial
  have hne : account.owner ≠ .folio f := by
    rw [howner]
    exact Authority.noConfusion
  refine ⟨hmint, by rw [hfind]; rfl, rfl, hs.split.move hmint hfind hfree, fun m => ?_, ?_⟩
  · have hout := hT.associated_out hpda htransfer haccount hne m
    have hm := hs.amount m
    rw [congrFun hclaim m]
    by_cases hmm : m = mint
    · subst hmm
      rw [if_pos rfl] at hout
      rw [lookup_of_find_none hnew] at hm
      rw [Function.update_self]
      omega
    · rw [if_neg hmm] at hout
      rw [Function.update_of_ne hmm]
      omega
  · rw [← tokensLeft_eq_zero hs.split.left]
    split
    · next hleft =>
      refine ⟨fun e => FolioStatus.noConfusion e, fun hzero => ?_⟩
      rw [hzero] at hleft
      exact absurd hleft (Nat.lt_irrefl 0)
    · next hleft => exact ⟨fun _ => Nat.eq_zero_of_not_pos hleft, fun _ => rfl⟩

/-! ### A batch -/

/-- What a batch needs: its mints are all in the old basket, each named once. -/
theorem moveAll_spec {batch : List (TokenAccounts T)} (hT : T.Lawful)
    (hs : Underway f l₀ whole l old new)
    (h : moveAll f newFolio registrar oldFolio l old new batch = .ok (l', old', new')) :
    Underway f l₀ whole l' old' new' ∧ (batch.map (·.mint)).Nodup ∧
      ∀ accounts ∈ batch,
        accounts.mint ≠ Pubkey.default ∧ (old.find accounts.mint).isSome := by
  induction batch generalizing l old new with
  | nil =>
      cases h
      exact ⟨hs, List.nodup_nil, fun _ h => absurd h List.not_mem_nil⟩
  | cons accounts rest ih =>
      simp only [moveAll, bind_eq_ok, Prod.exists] at h
      obtain ⟨l₁, old₁, new₁, hround, hrest⟩ := h
      obtain ⟨hmint, hsome, rfl, hs₁⟩ := moveToken_spec hT hs hround
      obtain ⟨hs', hnodup, hfound⟩ := ih hs₁ hrest
      -- the mint is gone, so no later round of the batch finds it
      have hgone : ∀ later ∈ rest, later.mint ≠ accounts.mint := by
        intro later hlater heq
        have hsome' := (hfound later hlater).2
        rw [heq, find_release hs.split.left hmint] at hsome'
        cases hsome'
      refine ⟨hs', ?_, fun later hlater => ?_⟩
      · rw [List.map_cons, List.nodup_cons]
        refine ⟨fun hmem => ?_, hnodup⟩
        obtain ⟨later, hlater, heq⟩ := List.mem_map.mp hmem
        exact hgone later hlater heq
      · cases hlater with
        | head => exact ⟨hmint, hsome⟩
        | tail _ hlater =>
            obtain ⟨hmint', hsome'⟩ := hfound later hlater
            rw [find_replace_of_ne (hgone later hlater) hmint'] at hsome'
            exact ⟨hmint', hsome'⟩

/-! ### Calls -/

/-- Between two calls. -/
structure Between (f : Pubkey) (start : Books T) (whole : FolioBasket) (s : Migration T) :
    Prop where
  pending : s.books.userPendingBasket = start.userPendingBasket
  underway : ∃ old, s.books.folioBasket f = some old ∧
    Underway f start.ledger whole s.books.ledger old s.new

theorem migrateFolioTokens_spec {s s' : Migration T} {start : Books T} {call : MigrateCall T}
    (hT : T.Lawful) (hs : Between f start whole s)
    (h : s.migrateFolioTokens f call = .ok s') :
    Between f start whole s' ∧ (call.accounts.map (·.mint)).Nodup ∧
      ∀ old, s.books.folioBasket f = some old → ∀ accounts ∈ call.accounts,
        accounts.mint ≠ Pubkey.default ∧ (old.find accounts.mint).isSome := by
  simp only [migrateFolioTokens, bind_eq_ok, Books.load_eq_ok, Prod.exists, Except.ok.injEq] at h
  obtain ⟨-, -, oldFolio, -, registrar, -, -, -, -, -, -, -, old, hold, l', old', new', hmove,
    rfl⟩ := h
  obtain ⟨_, hold', hunder⟩ := hs.underway
  obtain rfl := Option.some.inj (hold.symm.trans hold')
  obtain ⟨hunder', hnodup, hfound⟩ := moveAll_spec hT hunder hmove
  refine ⟨⟨hs.pending, old', Function.update_self .., hunder'⟩, hnodup, fun _ h => ?_⟩
  obtain rfl := Option.some.inj (hold.symm.trans h)
  exact hfound

theorem run_between {s : Migration T} {start : Books T} (hT : T.Lawful)
    (hs : Between f start whole s) (calls : List (MigrateCall T)) :
    Between f start whole (run (migrateFolioTokens f) s calls) :=
  run_inv (fun _ _ _ _ hs₁ h => (migrateFolioTokens_spec hT hs₁ h).1) hs

/-! ### The old program on its own

A call into a program that moves no tokens is one of the calls `Books.migrateFolioTokens` may
make, so the old program's side of a migration is a run of that program. -/

section OldProgram

variable {idle : T.Call} (hidle : ∀ l, T.outside l idle = some l)

include hidle

theorem moveAll_migrateAll {batch : List (TokenAccounts T)}
    (h : moveAll f newFolio registrar oldFolio l old new batch = .ok (l', old', new')) :
    Books.migrateAll f newFolio l old (batch.map fun accounts => (accounts, idle))
      = .ok (l', old') := by
  have hcall (ledger : T.Ledger) : Books.invoke (T.outside ledger idle) = .ok ledger :=
    Books.invoke_eq_ok.mpr (hidle ledger)
  induction batch generalizing l old new with
  | nil =>
      cases h
      rfl
  | cons accounts rest ih =>
      obtain ⟨mint, sender, recipient⟩ := accounts
      simp only [moveAll, moveToken, bind_eq_ok, Prod.exists, Except.ok.injEq,
        Prod.mk.injEq] at h
      obtain ⟨_, _, _, ⟨_, hsender, _, hrecipient, balance, hbalance, _, hmint, _, htransfer,
        _, -, _, -, _, hremove, rfl, rfl, rfl⟩, hrest⟩ := h
      simp only [List.map_cons, Books.migrateAll, hsender, hrecipient, hbalance, hmint,
        htransfer, hcall, hremove, ok_bind]
      exact ih hrest

theorem migrateFolioTokens_books {s s' : Migration T} {call : MigrateCall T}
    (h : s.migrateFolioTokens f call = .ok s') :
    s.books.migrateFolioTokens f call.newProgram call.newFolio
      (call.accounts.map fun accounts => (accounts, idle)) = .ok s'.books := by
  simp only [migrateFolioTokens, bind_eq_ok, Prod.exists, Except.ok.injEq] at h
  obtain ⟨_, -, oldFolio, hfolio, registrar, hregistrar, _, hregistered, _, -, _, hother, old,
    hold, l', old', new', hmove, rfl⟩ := h
  simp only [Books.migrateFolioTokens, Books.checkNewProgram, hfolio, hregistrar, hregistered,
    hother, hold, ok_bind, moveAll_migrateAll hidle hmove]

/-- Whatever holds of the reachable accounts of the old program holds during a migration:
that they cover what the users are owed, for one. -/
theorem run_reachable {s : Migration T} {rebalancing : Rebalancing}
    (hs : World.Reachable ⟨s.books, rebalancing⟩) (calls : List (MigrateCall T)) :
    World.Reachable ⟨(run (migrateFolioTokens f) s calls).books, rebalancing⟩ := by
  refine run_inv (I := fun s : Migration T => World.Reachable ⟨s.books, rebalancing⟩)
    (fun s₁ call s₂ _ hs₁ h => ?_) hs
  refine Lib.Reachable.step (i := .owner (.migrateFolioTokens f call.newProgram call.newFolio
    (call.accounts.map fun accounts => (accounts, idle)))) hs₁ ?_
  simp only [World.step, World.onBooks_eq_ok, and_true]
  exact migrateFolioTokens_books hidle h

end OldProgram

/-! ### From the start -/

/-- `start_folio_migration`, with its call into the new program. -/
def startFolioMigration (b : Books T) (f owner newProgram newFolio : Pubkey)
    (maxAllowedPendingFees : ℕ) (handOver : T.Call) : Result (Migration T) := do
  let books ← b.startFolioMigration f owner newProgram maxAllowedPendingFees handOver
  let oldFolio ← Books.load (books.folio f)
  let new ← NewFolio.createFolioFromOldProgram f oldFolio
  .ok { books, newProgram, newFolio, new }

/-- The old folio is migrating and the new program has just created the new one. -/
structure Started (f : Pubkey) (s : Migration T) : Prop where
  reachable : ∃ rebalancing, World.Reachable ⟨s.books, rebalancing⟩
  migrating : ∃ folio, s.books.folio f = some folio ∧ folio.status = .Migrating ∧
    NewFolio.createFolioFromOldProgram f folio = .ok s.new

theorem startFolioMigration_started {w : World T} {owner newProgram : Pubkey}
    {maxAllowedPendingFees : ℕ} {handOver : T.Call} {s : Migration T} (hw : w.Reachable)
    (h : startFolioMigration w.books f owner newProgram newFolio maxAllowedPendingFees handOver
      = .ok s) : s.Started f := by
  simp only [startFolioMigration, bind_eq_ok, Books.load_eq_ok, Except.ok.injEq] at h
  obtain ⟨books, hstart, folio, hfolio, new, hnew, rfl⟩ := h
  have hstep : w.step (.owner (.startFolioMigration f owner newProgram maxAllowedPendingFees
      handOver)) = .ok ⟨books, w.rebalancing⟩ := by
    simp only [World.step, World.onBooks_eq_ok, and_true]
    exact hstart
  refine ⟨⟨w.rebalancing, Lib.Reachable.step hw hstep⟩, folio, hfolio, ?_, hnew⟩
  simp only [NewFolio.createFolioFromOldProgram, bind_eq_ok, checkCondition_eq_ok] at hnew
  obtain ⟨-, hstatus, -⟩ := hnew
  exact hstatus

/-- The new folio starts with nothing, and not in use. -/
theorem createFolioFromOldProgram_spec
    (h : NewFolio.createFolioFromOldProgram f oldFolio = .ok new) :
    new.basket = FolioBasket.init ∧ new.folio.status = .Migrating := by
  simp only [NewFolio.createFolioFromOldProgram, bind_eq_ok, Except.ok.injEq] at h
  obtain ⟨-, -, -, -, folio, hfee, rfl⟩ := h
  obtain ⟨-, rfl, -⟩ := Folio.setTvlFee_spec hfee
  exact ⟨rfl, rfl⟩

theorem Started.between {s : Migration T} {basket : FolioBasket} (hs : s.Started f)
    (hbasket : s.books.folioBasket f = some basket)
    (hused : ∃ m, m ≠ Pubkey.default ∧ (basket.find m).isSome) :
    Between f s.books basket s := by
  obtain ⟨rebalancing, hreachable⟩ := hs.reachable
  obtain ⟨folio, -, -, hcreated⟩ := hs.migrating
  obtain ⟨hinit, hstatus⟩ := createFolioFromOldProgram_spec hcreated
  have hwf : BasketWF basket := hreachable.basketsWF.folioBasket f basket hbasket
  refine ⟨rfl, basket, hbasket, ?_, fun m => ?_, ?_⟩
  · rw [hinit]
    exact .start hwf _
  · rw [hinit, FolioBasket.lookup_init, Nat.add_zero]
  · obtain ⟨m, hm, hsome⟩ := hused
    refine ⟨fun e => ?_, fun hnone => ?_⟩
    · rw [hstatus] at e
      exact FolioStatus.noConfusion e
    · rw [hnone m hm] at hsome
      cases hsome

/-- **The basket moves exactly once.** Whatever batches anybody sends, between two calls the
old and the new basket share out the basket of the start, each token account of the old folio
has lost what the new basket has and nothing of what the users are owed, and the new folio is
in use exactly when the old basket is empty. A batch that names a mint twice, or one that the
old basket does not have, changes nothing. -/
theorem migration_moves_once (hT : T.Lawful) {s : Migration T} {basket : FolioBasket}
    (hs : s.Started f) (hbasket : s.books.folioBasket f = some basket)
    (hused : ∃ m, m ≠ Pubkey.default ∧ (basket.find m).isSome)
    (calls : List (MigrateCall T)) :
    let s' := run (migrateFolioTokens f) s calls
    ∃ old, s'.books.folioBasket f = some old ∧
      (∀ m, m ≠ Pubkey.default →
        (old.find m = none ∨ s'.new.basket.find m = none) ∧
          (old.find m <|> s'.new.basket.find m) = basket.find m) ∧
      (∀ m, T.amount s'.books.ledger (T.associated (.folio f) m) + s'.new.basket.lookup m
        = T.amount s.books.ledger (T.associated (.folio f) m)) ∧
      s'.books.userPendingBasket = s.books.userPendingBasket ∧
      (s'.new.folio.status = .Initialized ↔ ∀ m, m ≠ Pubkey.default → old.find m = none) ∧
      ∀ call : MigrateCall T,
        (¬ (call.accounts.map (·.mint)).Nodup ∨ ∃ accounts ∈ call.accounts,
          accounts.mint = Pubkey.default ∨ old.find accounts.mint = none) →
        (∃ e, s'.migrateFolioTokens f call = .error e) ∧
          attempt (migrateFolioTokens f) s' call = s' := by
  intro s'
  have hbetween : Between f s.books basket s' := run_between hT (hs.between hbasket hused) calls
  obtain ⟨hpending, old, hold, hunder⟩ := hbetween
  refine ⟨old, hold, fun m hm => ?_, hunder.amount, hpending, hunder.status,
    fun call hbad => ?_⟩
  · cases hunder.split.exact m hm with
    | inl hleft =>
        refine ⟨.inr hleft.2, ?_⟩
        rw [hleft.2, hleft.1]
        cases basket.find m <;> rfl
    | inr hright =>
        refine ⟨.inl hright.1, ?_⟩
        rw [hright.1, hright.2]
        rfl
  · cases hcall : s'.migrateFolioTokens f call with
    | error e => exact ⟨⟨e, rfl⟩, by rw [attempt, hcall]⟩
    | ok s'' =>
        obtain ⟨-, hnodup, hfound⟩ :=
          migrateFolioTokens_spec hT ⟨hpending, old, hold, hunder⟩ hcall
        rcases hbad with hrepeated | ⟨accounts, hmem, hunknown⟩
        · exact absurd hnodup hrepeated
        · obtain ⟨hmint, hsome⟩ := hfound old hold accounts hmem
          rcases hunknown with hdefault | hnone
          · exact absurd hdefault hmint
          · rw [hnone] at hsome
            cases hsome

/-- The folio 5 of owner 3, with 600 of token 7 and 40 of token 8 in its basket and 100 of
token 7 in the pending basket of its owner. Program 10 is registered. -/
def twoTokens : List (Instruction TokenProgram.simple) :=
  [.admin (.setDaoFeeConfig admin (some 9) (some 0) (some 0)),
    .admin (.initProgramRegistrar admin folioProgramId),
    .admin (.updateProgramRegistrar admin [10] false),
    .owner (.initFolio 5 3 0 0 60 []),
    .outside (.openAccount (.external 3) 5),
    .outside (.openAccount (.external 3) 7),
    .outside (.openAccount (.external 3) 8),
    .outside (.issue (.external 3) 7 700),
    .outside (.issue (.external 3) 8 40),
    .outside (.openAccount (.folio 5) 7),
    .outside (.openAccount (.folio 5) 8),
    .outside (.openAccount (.external 11) 7),
    .owner (.addToBasket 5 3 [⟨7, (.external 3, 7), (.folio 5, 7)⟩,
      ⟨8, (.external 3, 8), (.folio 5, 8)⟩] [600, 40] (some 1000000000)),
    .user (.addToPendingBasket 5 3 [⟨7, (.external 3, 7), (.folio 5, 7)⟩] [100])]

/-- Its owner has it move to the folio 11 of program 10. -/
def departing : Result (Migration TokenProgram.simple) :=
  startFolioMigration (run World.step (World.genesis SimpleLedger.empty 1000000) twoTokens).books
    5 3 10 11 1 (.openAccount (.external 11) 8)

/-- A batch of the migration of folio 5. -/
def batch (mints : List Pubkey) : MigrateCall TokenProgram.simple :=
  ⟨10, 11, mints.map fun mint => ⟨mint, (.folio 5, mint), (.external 11, mint)⟩⟩

/-- Token 8 goes first; a batch that names token 7 twice is refused; then token 7 goes. What
the owner has in her pending basket stays. -/
theorem migration_moves_once_two_tokens : ∃ s, departing = .ok s ∧
    let s' := run (migrateFolioTokens 5) s [batch [8], batch [7, 7], batch [7]]
    (s'.new.basket.lookup 7, s'.new.basket.lookup 8) = (600, 40) ∧
      TokenProgram.simple.amount s'.books.ledger (.folio 5, 7) = 100 ∧
      ∃ old, s'.books.folioBasket 5 = some old ∧
        (s'.new.folio.status = .Initialized ↔ ∀ m, m ≠ Pubkey.default → old.find m = none) := by
  obtain ⟨s, hstart, ⟨basket, hbasket, hused⟩, hamounts⟩ : ∃ s, departing = .ok s ∧
      (∃ basket, s.books.folioBasket 5 = some basket ∧ (basket.find 7).isSome) ∧
      let s' := run (migrateFolioTokens 5) s [batch [8], batch [7, 7], batch [7]]
      (s'.new.basket.lookup 7, s'.new.basket.lookup 8) = (600, 40) ∧
        TokenProgram.simple.amount s'.books.ledger (.folio 5, 7) = 100 := by
    decide +kernel
  have hstarted := startFolioMigration_started (World.reachable_genesis ..) hstart
  obtain ⟨old, hold, -, -, -, hdone, -⟩ := migration_moves_once TokenProgram.simple_lawful
    hstarted hbasket ⟨7, by decide, hused⟩ [batch [8], batch [7, 7], batch [7]]
  exact ⟨s, hstart, hamounts.1, hamounts.2, old, hold, hdone⟩

end Migration

end IndexDtf
