import IndexDtf.Folio.Account
import IndexDtf.Lib.SlotArray

/-!
# IndexDtf.Folio.Basket

The two kinds of token lists of a folio: the `FolioBasket` with what the folio
holds for its shares (`utils/accounts/folio_basket.rs`), and the
`UserPendingBasket` with what a user put in to mint shares and may take out
after burning some (`utils/accounts/user_pending_basket.rs`). Both are arrays of
slots keyed by mint; a slot of the default mint is free.
-/

namespace IndexDtf

open Lib SlotArray

/-- `FolioTokenAmount`: the key of the slot is the mint, its value the amount. -/
abbrev FolioTokenAmount := Slot Pubkey ℕ

/-- The token amounts of a `FolioBasket`. -/
abbrev FolioBasket := SlotArray Pubkey ℕ

/-- The two amounts of a `TokenAmount`. -/
structure PendingAmounts where
  amountForMinting : ℕ
  amountForRedeeming : ℕ
  deriving DecidableEq, Repr

/-- `TokenAmount`: the key of the slot is the mint. -/
abbrev TokenAmount := Slot Pubkey PendingAmounts

/-- The token amounts of a `UserPendingBasket`. -/
abbrev UserPendingBasket := SlotArray Pubkey PendingAmounts

/-- `PendingBasketType`. -/
inductive PendingBasketType
  | MintProcess
  | RedeemProcess
  deriving DecidableEq, Repr

/-- `MinimumOutForTokenAmount`. -/
structure MinimumOutForTokenAmount where
  mint : Pubkey
  minimumOut : ℕ
  deriving DecidableEq, Repr

namespace PendingAmounts

instance : Zero PendingAmounts := ⟨0, 0⟩

/-- The amount a process works on. -/
def get (a : PendingAmounts) : PendingBasketType → ℕ
  | .MintProcess => a.amountForMinting
  | .RedeemProcess => a.amountForRedeeming

/-- The amounts with another one for a process. -/
def set (a : PendingAmounts) (amount : ℕ) : PendingBasketType → PendingAmounts
  | .MintProcess => { a with amountForMinting := amount }
  | .RedeemProcess => { a with amountForRedeeming := amount }

/-- All the user has of a token. -/
def total (a : PendingAmounts) : ℕ := a.amountForMinting + a.amountForRedeeming

@[simp] theorem total_zero : (0 : PendingAmounts).total = 0 := rfl

@[simp] theorem get_zero (process : PendingBasketType) : (0 : PendingAmounts).get process = 0 := by
  cases process <;> rfl

@[simp] theorem redeeming_zero : (0 : PendingAmounts).amountForRedeeming = 0 := rfl

theorem total_set (a : PendingAmounts) (n : ℕ) (process : PendingBasketType) :
    (a.set n process).total + a.get process = a.total + n := by
  cases process <;> simp only [set, total, get] <;> omega

theorem eq_zero_of_total {a : PendingAmounts} (h : a.total = 0) : a = 0 := by
  obtain ⟨m, r⟩ := a
  simp only [total] at h
  obtain ⟨rfl, rfl⟩ : m = 0 ∧ r = 0 := by omega
  rfl

end PendingAmounts

/-! ### The folio's basket -/

namespace FolioBasket

open Decimal

/-- The basket of a new account. -/
def init : FolioBasket := SlotArray.empty Pubkey.default maxFolioTokenAmounts

/-- One round of `add_tokens_to_basket`. -/
def addToken (basket : FolioBasket) (added : FolioTokenAmount) : Result FolioBasket := do
  checkCondition (added.key ≠ Pubkey.default) .InvalidAddedTokenMints
  match basket.find added.key with
  | some amount => do
      let amount ← checkedAddU64 amount added.value
      .ok (basket.replace added.key ⟨added.key, amount⟩)
  | none =>
      match basket.find Pubkey.default with
      | some _ => .ok (basket.replace Pubkey.default added)
      | none => .error (.code .MaxNumberOfTokensReached)

/-- `add_tokens_to_basket`. -/
def addTokensToBasket (basket : FolioBasket) (added : List FolioTokenAmount) :
    Result FolioBasket :=
  added.foldlM addToken basket

/-- One round of `remove_tokens_from_basket`; the mint stays in the basket. -/
def removeToken (basket : FolioBasket) (removed : FolioTokenAmount) : Result FolioBasket :=
  match basket.find removed.key with
  | some amount => do
      let amount ← checkedSub amount removed.value
      .ok (basket.replace removed.key ⟨removed.key, amount⟩)
  | none => .error (.code .InvalidRemovedTokenMints)

/-- `remove_tokens_from_basket`. -/
def removeTokensFromBasket (basket : FolioBasket) (removed : List FolioTokenAmount) :
    Result FolioBasket :=
  removed.foldlM removeToken basket

/-- `remove_token_mint_from_basket`. -/
def removeTokenMintFromBasket (basket : FolioBasket) (mint : Pubkey) : Result FolioBasket :=
  match basket.find mint with
  | some _ => .ok (basket.replace mint ⟨Pubkey.default, 0⟩)
  | none => .error (.code .InvalidRemovedTokenMints)

/-- `get_token_amount_in_folio_basket`. -/
def getTokenAmountInFolioBasket (basket : FolioBasket) (mint : Pubkey) : Result ℕ :=
  okOr (.code .TokenMintNotInOldFolioBasket) (basket.find mint)

/-- `get_token_amount_in_folio_basket_or_zero`. -/
def getTokenAmountInFolioBasketOrZero (basket : FolioBasket) (mint : Pubkey) : ℕ :=
  basket.lookup mint

/-- `get_token_presence_per_share_in_basket`, in D18. -/
def getTokenPresencePerShareInBasket (basket : FolioBasket) (mint : Pubkey)
    (scaledFolioTokenTotalSupply : Decimal) : Result ℕ := do
  let totalTokenAmount := basket.getTokenAmountInFolioBasketOrZero mint
  if totalTokenAmount = 0 ∨ scaledFolioTokenTotalSupply.isZero then .ok 0
  else do
    let scaled ← (← fromTokenAmount totalTokenAmount).mul oneE18
    (← scaled.div scaledFolioTokenTotalSupply).toScaled .Ceiling

end FolioBasket

/-! ### A user's pending basket -/

namespace UserPendingBasket

open Decimal

/-- The pending basket of a new account. -/
def init : UserPendingBasket := SlotArray.empty Pubkey.default maxUserPendingBasketTokenAmounts

/-- One round of `add_token_amounts_to_folio`. -/
def addTokenAmount (canAddNewMints : Bool) (process : PendingBasketType)
    (pending : UserPendingBasket) (added : TokenAmount) : Result UserPendingBasket :=
  match pending.find added.key with
  | some amounts => do
      let amount ← checkedAddU64 (added.value.get process) (amounts.get process)
      .ok (pending.replace added.key ⟨added.key, amounts.set amount process⟩)
  | none =>
      if canAddNewMints then
        match pending.find Pubkey.default with
        | some amounts =>
            .ok (pending.replace Pubkey.default
              ⟨added.key, amounts.set (added.value.get process) process⟩)
        | none => .error (.code .InvalidAddedTokenMints)
      else .error (.code .InvalidAddedTokenMints)

/-- `add_token_amounts_to_folio`. -/
def addTokenAmountsToFolio (pending : UserPendingBasket) (tokenAmounts : List TokenAmount)
    (canAddNewMints : Bool) (process : PendingBasketType) : Result UserPendingBasket :=
  tokenAmounts.foldlM (addTokenAmount canAddNewMints process) pending

/-- One round of `remove_token_amounts_from_folio`. A slot whose amounts are both
used up is free again. -/
def removeTokenAmount (needsToValidateMintExistence : Bool) (process : PendingBasketType)
    (pending : UserPendingBasket) (removed : TokenAmount) : Result UserPendingBasket :=
  match pending.find removed.key with
  | some amounts => do
      guardOr (.code .InvalidShareAmountProvided)
        (removed.value.get process ≤ amounts.get process)
      let amounts := amounts.set (amounts.get process - removed.value.get process) process
      if amounts.amountForMinting = 0 ∧ amounts.amountForRedeeming = 0 then
        .ok (pending.replace removed.key ⟨Pubkey.default, amounts⟩)
      else .ok (pending.replace removed.key ⟨removed.key, amounts⟩)
  | none =>
      if needsToValidateMintExistence then .error (.code .InvalidRemovedTokenMints)
      else .ok pending

/-- `remove_token_amounts_from_folio`. -/
def removeTokenAmountsFromFolio (pending : UserPendingBasket) (tokenAmounts : List TokenAmount)
    (needsToValidateMintExistence : Bool) (process : PendingBasketType) :
    Result UserPendingBasket :=
  tokenAmounts.foldlM (removeTokenAmount needsToValidateMintExistence process) pending

/-- `is_empty`. -/
def isEmpty (pending : UserPendingBasket) : Bool :=
  pending.all fun ta => ta.value.amountForMinting = 0 ∧ ta.value.amountForRedeeming = 0

/-- `reset`. -/
def reset (_ : UserPendingBasket) : UserPendingBasket :=
  SlotArray.empty Pubkey.default maxUserPendingBasketTokenAmounts

/-- `to_assets_for_minting`: the user's and the folio's amounts after the user paid
for `shares` of a supply that a balance backs. -/
def toAssetsForMinting (user : PendingAmounts) (amount : ℕ)
    (scaledTotalSupply scaledBalance shares : Decimal) : Result (PendingAmounts × ℕ) := do
  let scaledCalculatedShares ←
    (← (← fromTokenAmount user.amountForMinting).mul scaledTotalSupply).div scaledBalance
  checkCondition (shares.val ≤ scaledCalculatedShares.val) .InvalidShareAmountProvided
  let rawUserAmountTaken ←
    (← (← shares.mul scaledBalance).div scaledTotalSupply).toTokenAmount .Ceiling
  let amountForMinting ← checkedSub user.amountForMinting rawUserAmountTaken
  let amount ← checkedAddU64 amount rawUserAmountTaken
  .ok ({ user with amountForMinting }, amount)

/-- `to_assets_for_redeeming`: the user's and the folio's amounts after the user got
her part for `shares` of a supply that a balance backs. -/
def toAssetsForRedeeming (user : PendingAmounts) (amount : ℕ)
    (scaledTotalSupply scaledBalance shares : Decimal) (minimumAmountOut : Option ℕ) :
    Result (PendingAmounts × ℕ) := do
  let rawAmountToGiveToUser ←
    (← (← shares.mul scaledBalance).div scaledTotalSupply).toTokenAmount .Floor
  let amountForRedeeming ← checkedAddU64 user.amountForRedeeming rawAmountToGiveToUser
  let amount ← checkedSub amount rawAmountToGiveToUser
  checkCondition (∀ minimum ∈ minimumAmountOut, minimum ≤ rawAmountToGiveToUser)
    .MinimumAmountOutNotMet
  .ok ({ user with amountForRedeeming }, amount)

/-- The slot of the user that `to_assets` works on: the one of the mint, or, for
redeeming, the first free one, which gets the mint. -/
def slotFor (pending : UserPendingBasket) (process : PendingBasketType) (mint : Pubkey) :
    Result (UserPendingBasket × PendingAmounts) :=
  match pending.find mint with
  | some amounts => .ok (pending, amounts)
  | none =>
      match process with
      | .RedeemProcess =>
          match pending.find Pubkey.default with
          | some amounts => .ok (pending.replace Pubkey.default ⟨mint, amounts⟩, amounts)
          | none => .error (.code .MintMismatch)
      | .MintProcess => .error (.code .MintMismatch)

/-- The amounts of the user and of the folio after one of the two conversions. -/
def exchange (process : PendingBasketType) (user : PendingAmounts) (amount : ℕ)
    (scaledTotalSupply shares : Decimal) (minimumAmountOut : Option ℕ) :
    Result (PendingAmounts × ℕ) := do
  let scaledBalance ← fromTokenAmount amount
  match process with
  | .MintProcess => toAssetsForMinting user amount scaledTotalSupply scaledBalance shares
  | .RedeemProcess =>
      toAssetsForRedeeming user amount scaledTotalSupply scaledBalance shares minimumAmountOut

/-- The bound `to_assets` finds for a mint: that of the first entry for it. -/
def minimumFor (minimumOut : List MinimumOutForTokenAmount) (mint : Pubkey) : Option ℕ :=
  (minimumOut.find? (·.mint = mint)).map (·.minimumOut)

/-- One round of the loop of `to_assets`: a token of the folio's basket. -/
def toAssetsRound (process : PendingBasketType) (scaledTotalSupply shares : Decimal)
    (minimumOut : List MinimumOutForTokenAmount) (pending : UserPendingBasket)
    (mint : Pubkey) (amount : ℕ) : Result (UserPendingBasket × ℕ) := do
  let (pending, user) ← pending.slotFor process mint
  let (user, amount) ←
    exchange process user amount scaledTotalSupply shares (minimumFor minimumOut mint)
  .ok (pending.replace mint ⟨mint, user⟩, amount)

/-- `to_assets`: the folio is poked, then every token of its basket moves between
the folio and the user. -/
def toAssets (pending : UserPendingBasket) (rawShares rawFolioTokenSupply : ℕ)
    (basket : FolioBasket) (folio : Folio) (process : PendingBasketType) (currentTime : ℕ)
    (fee : DaoFee) (minimumOut : List MinimumOutForTokenAmount) :
    Result (UserPendingBasket × FolioBasket × Folio) := do
  let folio ← folio.poke rawFolioTokenSupply currentTime fee
  let scaledTotalSupply ← folio.getTotalSupply rawFolioTokenSupply
  let shares ← fromTokenAmount rawShares
  let (pending, basket) ← editAll Pubkey.default
    (toAssetsRound process scaledTotalSupply shares minimumOut) pending basket
  .ok (pending, basket, folio)

end UserPendingBasket

end IndexDtf
