import IndexDtf.Folio.World

/-!
# IndexDtf.Folio.Instructions.User

The instructions of users (`instructions/user`): putting tokens in and taking them
back, minting shares for them, burning shares and taking out what they are worth.

An instruction is a function of the books. Accounts that its seeds or checks leave
no choice of are not arguments: giving another one only makes it fail.
-/

namespace IndexDtf

open Lib

/-- The remaining accounts of one token. -/
structure TokenAccounts (T : TokenProgram) where
  mint : Pubkey
  sender : T.Address
  recipient : T.Address

/-- The instructions of users. The folio is the first argument, the signer the second. -/
inductive UserInstruction (T : TokenProgram)
  | addToPendingBasket (f user : Pubkey) (accounts : List (TokenAccounts T))
      (rawAmounts : List ℕ)
  | removeFromPendingBasket (f user : Pubkey) (accounts : List (TokenAccounts T))
      (rawAmounts : List ℕ)
  | mintFolioToken (f user : Pubkey) (rawShares : ℕ) (minRawShares : Option ℕ)
  | burnFolioToken (f user : Pubkey) (rawShares : ℕ)
      (minimumOut : List MinimumOutForTokenAmount)
  | redeemFromPendingBasket (f user : Pubkey) (accounts : List (TokenAccounts T))
      (rawAmounts : List ℕ)
  | closeUserPendingTokenAmount (f user : Pubkey)
  | transferFromUserPendingBasketAta (f user : Pubkey) (tokenMint : Pubkey)

namespace Books

variable {T : TokenProgram}

/-! ### Token movements -/

/-- The remaining accounts with their amounts, of which there must be as many. -/
def pairUp (accounts : List (TokenAccounts T)) (rawAmounts : List ℕ) :
    Result (List (TokenAccounts T × ℕ)) := do
  checkCondition (accounts.length = rawAmounts.length) .InvalidNumberOfRemainingAccounts
  .ok (accounts.zip rawAmounts)

/-- A loop over remaining accounts: each round moves tokens and says how many, and the
loop collects the amounts by mint. -/
def moveAll (round : T.Ledger → TokenAccounts T → ℕ → Result (T.Ledger × ℕ)) :
    T.Ledger → List (TokenAccounts T × ℕ) → Result (T.Ledger × List FolioTokenAmount)
  | ledger, [] => .ok (ledger, [])
  | ledger, (accounts, rawAmount) :: rest => do
      let (ledger, amount) ← round ledger accounts rawAmount
      let (ledger, moved) ← moveAll round ledger rest
      .ok (ledger, ⟨accounts.mint, amount⟩ :: moved)

/-- A round of `add_to_pending_basket`. From the token account of the user's pending
basket everything is taken, and the account is closed. -/
def addToPendingRound (f user : Pubkey) (ledger : T.Ledger) (accounts : TokenAccounts T)
    (rawAmount : ℕ) : Result (T.Ledger × ℕ) := do
  let { mint, sender, recipient } := accounts
  checkCondition (recipient = T.associated (.folio f) mint) .InvalidRecipientTokenAccount
  loadMint mint
  if sender = T.associated (.userPendingBasket f user) mint then do
    let rawAmount := max (T.amount ledger sender) rawAmount
    let ledger ← invoke
      (T.transferChecked ledger (.userPendingBasket f user) sender recipient mint rawAmount)
    let ledger ← invoke (T.closeAccount ledger (.userPendingBasket f user) sender)
    .ok (ledger, rawAmount)
  else do
    let ledger ← invoke
      (T.transferChecked ledger (.external user) sender recipient mint rawAmount)
    .ok (ledger, rawAmount)

/-- A round of `remove_from_pending_basket` and of `redeem_from_pending_basket`: the
folio pays the user out of an account of its own. -/
def payUserRound (f user : Pubkey) (ledger : T.Ledger) (accounts : TokenAccounts T)
    (rawAmount : ℕ) : Result (T.Ledger × ℕ) := do
  let { mint, sender, recipient } := accounts
  checkCondition (recipient = T.associated (.external user) mint) .InvalidRecipientTokenAccount
  loadMint mint
  let ledger ← invoke (T.transferChecked ledger (.folio f) sender recipient mint rawAmount)
  .ok (ledger, rawAmount)

/-- An amount as a `TokenAmount` for a process. -/
def tokenAmountFor (process : PendingBasketType) (ta : FolioTokenAmount) : TokenAmount :=
  ⟨ta.key, PendingAmounts.set 0 ta.value process⟩

/-! ### The handlers -/

/-- `add_to_pending_basket`. -/
def addToPendingBasket (b : Books T) (f user : Pubkey) (accounts : List (TokenAccounts T))
    (rawAmounts : List ℕ) : Result (Books T) := do
  let _ ← b.validateFolio f [.Initialized]
  let _ ← load (b.folioBasket f)
  let moves ← pairUp accounts rawAmounts
  let (ledger, moved) ← moveAll (addToPendingRound f user) b.ledger moves
  let pending := (b.userPendingBasket (f, user)).getD UserPendingBasket.init
  let pending ← pending.addTokenAmountsToFolio
    (moved.map (tokenAmountFor .MintProcess)) true .MintProcess
  .ok { b with
    ledger, userPendingBasket := Function.update b.userPendingBasket (f, user) (some pending) }

/-- `remove_from_pending_basket` and `redeem_from_pending_basket`, which differ in the
amounts they take from. -/
def takeFromPendingBasket (process : PendingBasketType) (b : Books T) (f user : Pubkey)
    (accounts : List (TokenAccounts T)) (rawAmounts : List ℕ) : Result (Books T) := do
  let _ ← b.validateFolio f anyStatus
  let _ ← load (b.folioBasket f)
  let pending ← load (b.userPendingBasket (f, user))
  let moves ← pairUp accounts rawAmounts
  let (ledger, moved) ← moveAll (payUserRound f user) b.ledger moves
  let pending ← pending.removeTokenAmountsFromFolio
    (moved.map (tokenAmountFor process)) true process
  .ok { b with
    ledger, userPendingBasket := Function.update b.userPendingBasket (f, user) (some pending) }

/-- `remove_from_pending_basket`. -/
def removeFromPendingBasket (b : Books T) (f user : Pubkey)
    (accounts : List (TokenAccounts T)) (rawAmounts : List ℕ) : Result (Books T) :=
  takeFromPendingBasket .MintProcess b f user accounts rawAmounts

/-- `redeem_from_pending_basket`. -/
def redeemFromPendingBasket (b : Books T) (f user : Pubkey)
    (accounts : List (TokenAccounts T)) (rawAmounts : List ℕ) : Result (Books T) :=
  takeFromPendingBasket .RedeemProcess b f user accounts rawAmounts

/-- `mint_folio_token`. -/
def mintFolioToken (b : Books T) (f user : Pubkey) (rawShares : ℕ) (minRawShares : Option ℕ) :
    Result (Books T) := do
  let folio ← b.validateFolio f [.Initialized]
  let basket ← load (b.folioBasket f)
  let pending ← load (b.userPendingBasket (f, user))
  let fee ← b.feeDetails f
  let (pending, basket, folio) ←
    pending.toAssets rawShares (T.supply b.ledger f) basket folio .MintProcess b.now fee []
  let (folio, feeShares) ← folio.calculateFeesForMinting rawShares fee
  let rawAmountToMint ← checkedSub rawShares feeShares
  checkCondition (∀ least ∈ minRawShares, least ≤ rawAmountToMint) .SlippageExceeded
  let ledger ← invoke
    (T.mintTo b.ledger (.folio f) f (T.associated (.external user) f) rawAmountToMint)
  .ok { b.setFolio f folio with
    ledger
    folioBasket := Function.update b.folioBasket f (some basket)
    userPendingBasket := Function.update b.userPendingBasket (f, user) (some pending) }

/-- `burn_folio_token`. -/
def burnFolioToken (b : Books T) (f user : Pubkey) (rawShares : ℕ)
    (minimumOut : List MinimumOutForTokenAmount) : Result (Books T) := do
  let folio ← b.validateFolio f [.Initialized, .Killed]
  let basket ← load (b.folioBasket f)
  let pending ← load (b.userPendingBasket (f, user))
  let fee ← b.feeDetails f
  let (pending, basket, folio) ←
    pending.toAssets rawShares (T.supply b.ledger f) basket folio .RedeemProcess b.now fee
      minimumOut
  let ledger ← invoke
    (T.burn b.ledger (.external user) f (T.associated (.external user) f) rawShares)
  .ok { b.setFolio f folio with
    ledger
    folioBasket := Function.update b.folioBasket f (some basket)
    userPendingBasket := Function.update b.userPendingBasket (f, user) (some pending) }

/-- `close_user_pending_token_amount`. -/
def closeUserPendingTokenAmount (b : Books T) (f user : Pubkey) : Result (Books T) := do
  let _ ← b.validateFolio f anyStatus
  let pending ← load (b.userPendingBasket (f, user))
  checkCondition (pending.isEmpty = true) .PendingBasketIsNotEmpty
  .ok { b with userPendingBasket := Function.update b.userPendingBasket (f, user) none }

/-- `transfer_from_user_pending_basket_ata`. -/
def transferFromUserPendingBasketAta (b : Books T) (f user tokenMint : Pubkey) :
    Result (Books T) := do
  let _ ← load (b.folio f)
  let _ ← load (b.userPendingBasket (f, user))
  let authority := Authority.userPendingBasket f user
  let source := T.associated authority tokenMint
  let ledger ← invoke (T.transferChecked b.ledger authority source
    (T.associated (.external user) tokenMint) tokenMint (T.amount b.ledger source))
  let ledger ← invoke (T.closeAccount ledger authority source)
  .ok { b with ledger }

/-- An instruction of a user. -/
def user (b : Books T) : UserInstruction T → Result (Books T)
  | .addToPendingBasket f user accounts rawAmounts =>
      b.addToPendingBasket f user accounts rawAmounts
  | .removeFromPendingBasket f user accounts rawAmounts =>
      b.removeFromPendingBasket f user accounts rawAmounts
  | .mintFolioToken f user rawShares minRawShares => b.mintFolioToken f user rawShares minRawShares
  | .burnFolioToken f user rawShares minimumOut => b.burnFolioToken f user rawShares minimumOut
  | .redeemFromPendingBasket f user accounts rawAmounts =>
      b.redeemFromPendingBasket f user accounts rawAmounts
  | .closeUserPendingTokenAmount f user => b.closeUserPendingTokenAmount f user
  | .transferFromUserPendingBasketAta f user tokenMint =>
      b.transferFromUserPendingBasketAta f user tokenMint

end Books

end IndexDtf
