import IndexDtf.Admin.Accounts
import IndexDtf.Folio.Auction
import IndexDtf.Folio.FeeRecipients
import IndexDtf.Token.Program

/-!
# IndexDtf.Folio.World

The accounts the instructions work on. A folio is named by its share mint, which is
all its PDA is derived from; the other accounts of the program are found by their
seeds, so each kind is a partial function of them.

The accounts come in two groups. `Books` has what money is kept in: the tokens, the
folios, their baskets and fees. `Rebalancing` has the accounts of the auctions. Only
the instructions on auctions touch the second group.
-/

namespace IndexDtf

open Lib

/-- The accounts of the folios, the fees and the tokens. -/
structure Books (T : TokenProgram) where
  /-- The clock of the chain, in seconds. -/
  now : ℕ
  ledger : T.Ledger
  programRegistrar : Option ProgramRegistrar
  daoFeeConfig : Option DaoFeeConfig
  folioFeeConfig : Pubkey → Option FolioFeeConfig
  folio : Pubkey → Option Folio
  /-- The roles of an `Actor`, by folio and authority. -/
  actor : Pubkey × Pubkey → Option ℕ
  folioBasket : Pubkey → Option FolioBasket
  /-- By folio and owner. -/
  userPendingBasket : Pubkey × Pubkey → Option UserPendingBasket
  feeRecipients : Pubkey → Option FeeRecipients
  /-- By folio and index. -/
  feeDistribution : Pubkey × ℕ → Option FeeDistribution
  /-- When `init_folio` ran. No account has it and no instruction reads it. -/
  createdAt : Pubkey → ℕ

/-- The seeds of an `Auction`. -/
structure AuctionKey where
  folio : Pubkey
  nonce : ℕ
  id : ℕ
  deriving DecidableEq, Repr

/-- The seeds of an `AuctionEnds`: the mints are in order. -/
structure AuctionEndsKey where
  folio : Pubkey
  nonce : ℕ
  mints : Pubkey × Pubkey
  deriving DecidableEq, Repr

/-- The accounts of the rebalances and auctions. -/
structure Rebalancing where
  rebalance : Pubkey → Option Rebalance
  auction : AuctionKey → Option Auction
  auctionEnds : AuctionEndsKey → Option AuctionEnds

/-- The accounts of the program. -/
structure World (T : TokenProgram) where
  books : Books T
  rebalancing : Rebalancing

/-- A world before the first folio. -/
structure World.Fresh {T : TokenProgram} (w : World T) : Prop where
  folio : ∀ f, w.books.folio f = none
  actor : ∀ k, w.books.actor k = none
  folioBasket : ∀ f, w.books.folioBasket f = none
  userPendingBasket : ∀ k, w.books.userPendingBasket k = none
  feeRecipients : ∀ f, w.books.feeRecipients f = none
  feeDistribution : ∀ k, w.books.feeDistribution k = none
  rebalance : ∀ f, w.rebalancing.rebalance f = none
  auction : ∀ k, w.rebalancing.auction k = none
  auctionEnds : ∀ k, w.rebalancing.auctionEnds k = none

namespace Books

variable {T : TokenProgram}

/-- An account that has to exist. -/
def load {α : Type} (account : Option α) : Result α := okOr .account account

@[simp] theorem load_eq_ok {α : Type} {account : Option α} {a : α} :
    load account = .ok a ↔ account = some a :=
  okOr_eq_ok

/-- A call into a token program. -/
def invoke {α : Type} (outcome : Option α) : Result α := okOr .external outcome

@[simp] theorem invoke_eq_ok {α : Type} {outcome : Option α} {a : α} :
    invoke outcome = .ok a ↔ outcome = some a :=
  okOr_eq_ok

/-- `Mint::try_deserialize`: the account with the default key, the system program, is
no mint. -/
def loadMint (mint : Pubkey) : Result Unit := guardOr .account (mint ≠ Pubkey.default)

/-- `validate_permission_for_action`: the actor of the signer has one of the roles. -/
def validatePermission (b : Books T) (f signer : Pubkey) (requiredRoles : List Role) :
    Result Unit := do
  let roles ← load (b.actor (f, signer))
  checkCondition (requiredRoles.any (Role.hasRole roles)) .InvalidRole

/-- `validate_folio` of an instruction without an actor, for the folio with share
mint `f`. -/
def validateFolio (b : Books T) (f : Pubkey) (expectedStatuses : List FolioStatus) :
    Result Folio := do
  let folio ← load (b.folio f)
  checkCondition (folio.folioTokenMint = f) .InvalidPda
  checkCondition (folio.status ∈ expectedStatuses) .InvalidFolioStatus
  .ok folio

/-- `validate_folio` of an instruction of an actor. -/
def validateFolioFor (b : Books T) (f signer : Pubkey) (requiredRoles : List Role)
    (expectedStatuses : List FolioStatus) : Result Folio := do
  let folio ← load (b.folio f)
  checkCondition (folio.folioTokenMint = f) .InvalidPda
  b.validatePermission f signer requiredRoles
  checkCondition (folio.status ∈ expectedStatuses) .InvalidFolioStatus
  .ok folio

/-- The statuses of an instruction that checks none. -/
def anyStatus : List FolioStatus := [.Initializing, .Initialized, .Killed, .Migrating]

/-- The fee details of a folio. -/
def feeDetails (b : Books T) (f : Pubkey) : Result DaoFee := do
  let config ← load b.daoFeeConfig
  .ok (config.getFeeDetails (b.folioFeeConfig f))

/-- The folio after `poke` at the current time. -/
def poked (b : Books T) (f : Pubkey) (folio : Folio) : Result Folio := do
  let fee ← b.feeDetails f
  folio.poke (T.supply b.ledger f) b.now fee

/-- The books with another folio account. -/
def setFolio (b : Books T) (f : Pubkey) (folio : Folio) : Books T :=
  { b with folio := Function.update b.folio f (some folio) }

theorem validateFolio_eq_ok {b : Books T} {f : Pubkey} {statuses : List FolioStatus}
    {folio : Folio} :
    b.validateFolio f statuses = .ok folio ↔
      b.folio f = some folio ∧ folio.folioTokenMint = f ∧ folio.status ∈ statuses := by
  simp only [validateFolio, bind_eq_ok, load_eq_ok, checkCondition_eq_ok, Except.ok.injEq]
  constructor
  · rintro ⟨_, hf, _, hmint, _, hstatus, rfl⟩
    exact ⟨hf, hmint, hstatus⟩
  · rintro ⟨hf, hmint, hstatus⟩
    exact ⟨folio, hf, (), hmint, (), hstatus, rfl⟩

theorem validateFolioFor_eq_ok {b : Books T} {f signer : Pubkey} {roles : List Role}
    {statuses : List FolioStatus} {folio : Folio}
    (h : b.validateFolioFor f signer roles statuses = .ok folio) :
    b.folio f = some folio ∧ folio.folioTokenMint = f ∧ folio.status ∈ statuses := by
  simp only [validateFolioFor, bind_eq_ok, load_eq_ok, checkCondition_eq_ok,
    Except.ok.injEq] at h
  obtain ⟨_, hf, _, hmint, _, -, _, hstatus, rfl⟩ := h
  exact ⟨hf, hmint, hstatus⟩

end Books

end IndexDtf
