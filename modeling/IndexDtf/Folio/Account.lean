import IndexDtf.Shared.Decimal

/-!
# IndexDtf.Folio.Account

The `Folio` account and its fees (`programs/folio/src/utils/accounts/folio.rs`):
setting the TVL fee, the fee on minting, and `poke`, which turns the full days
since the last one into pending fee shares.
-/

namespace IndexDtf

open Lib

/-- `FolioStatus`. -/
inductive FolioStatus
  | Initializing
  | Initialized
  | Killed
  | Migrating
  deriving DecidableEq, Repr

/-- `Role`, one bit of an actor's roles each. -/
inductive Role
  | Owner
  | RebalanceManager
  | AuctionLauncher
  | BrandManager
  deriving DecidableEq, Repr

/-- The bit of a role. -/
def Role.bit : Role → ℕ
  | .Owner => 1
  | .RebalanceManager => 2
  | .AuctionLauncher => 4
  | .BrandManager => 8

/-- `Role::has_role`. -/
def Role.hasRole (roles : ℕ) (role : Role) : Bool := roles / role.bit % 2 = 1

/-- `Role::add_role`. -/
def Role.addRole (roles : ℕ) (role : Role) : ℕ :=
  if Role.hasRole roles role then roles else roles + role.bit

/-- `Role::remove_role`. -/
def Role.removeRole (roles : ℕ) (role : Role) : ℕ :=
  if Role.hasRole roles role then roles - role.bit else roles

/-- The `Folio` account. Fees are in D18, pending shares in D18, times in seconds. -/
structure Folio where
  status : FolioStatus
  initializedAt : ℕ
  folioTokenMint : Pubkey
  tvlFee : ℕ
  mintFee : ℕ
  daoPendingFeeShares : ℕ
  feeRecipientsPendingFeeShares : ℕ
  auctionLength : ℕ
  lastPoke : ℕ
  mandate : List ℕ
  feeRecipientsPendingFeeSharesToBeMinted : ℕ
  deriving DecidableEq, Repr

/-- What the fee functions are given of the DAO's configuration. -/
structure DaoFee where
  numerator : ℕ
  denominator : ℕ
  floor : ℕ
  deriving DecidableEq, Repr

namespace Folio

open Decimal

/-- `set_tvl_fee`: the yearly fee, stored as a rate per second. -/
def setTvlFee (folio : Folio) (scaledNewFeeAnnually : ℕ) : Result Folio := do
  checkCondition (scaledNewFeeAnnually ≤ maxTvlFee) .TVLFeeTooHigh
  if scaledNewFeeAnnually = 0 then .ok { folio with tvlFee := 0 }
  else do
    let oneMinusFee ← oneE18.sub (fromScaled scaledNewFeeAnnually)
    let result ← oneMinusFee.nthRoot yearInSeconds
    let scaledTvlFee ← oneE18.sub result
    checkCondition (scaledNewFeeAnnually = 0 ∨ scaledTvlFee ≠ zero) .TVLFeeTooLow
    let tvlFee ← scaledTvlFee.toScaled .Floor
    .ok { folio with tvlFee := tvlFee }

/-- A fee rounded up: `x * rate`, plus the denominator less one, over the
denominator. The fee functions write it out at every use. -/
def feeUp (x rate denominator : Decimal) : Result Decimal := do
  (← (← (← x.mul rate).add denominator).sub one).div denominator

/-- `calculate_fees_for_minting`: the shares kept back from a mint, and the folio
that remembers whom they belong to. -/
def calculateFeesForMinting (folio : Folio) (rawUserShares : ℕ) (fee : DaoFee) :
    Result (Folio × ℕ) := do
  let scaledUserShares ← fromTokenAmount rawUserShares
  let scaledTotalFeeShares ← feeUp scaledUserShares (fromScaled folio.mintFee) oneE18
  let scaledDaoFeeShares ←
    feeUp scaledTotalFeeShares (fromScaled fee.numerator) (fromScaled fee.denominator)
  let scaledMinDaoShares ← feeUp scaledUserShares (fromScaled fee.floor) oneE18
  let scaledDaoFeeShares :=
    if scaledDaoFeeShares.val < scaledMinDaoShares.val then scaledMinDaoShares
    else scaledDaoFeeShares
  let scaledTotalFeeShares :=
    if scaledTotalFeeShares.val < scaledDaoFeeShares.val then scaledDaoFeeShares
    else scaledTotalFeeShares
  let daoPendingFeeShares ←
    checkedAddU128 folio.daoPendingFeeShares (← scaledDaoFeeShares.toScaled .Floor)
  let recipientShares ← scaledTotalFeeShares.sub scaledDaoFeeShares
  let feeRecipientsPendingFeeShares ←
    checkedAddU128 folio.feeRecipientsPendingFeeShares (← recipientShares.toScaled .Floor)
  let fees ← scaledTotalFeeShares.toTokenAmount .Ceiling
  .ok ({ folio with daoPendingFeeShares, feeRecipientsPendingFeeShares }, fees)

/-- `get_account_fee_until`: the start of the day of `currentTime`. -/
def getAccountFeeUntil (currentTime : ℕ) : Result ℕ :=
  checkedMulU64 (currentTime / dayInSeconds) dayInSeconds

/-- `get_total_supply`: minted shares and the three kinds of pending ones, in D18. -/
def getTotalSupply (folio : Folio) (rawFolioTokenSupply : ℕ) : Result Decimal := do
  let scaledTotalSupply ← fromTokenAmount rawFolioTokenSupply
  let withDao ← scaledTotalSupply.add (fromScaled folio.daoPendingFeeShares)
  let withRecipients ← withDao.add (fromScaled folio.feeRecipientsPendingFeeShares)
  withRecipients.add (fromScaled folio.feeRecipientsPendingFeeSharesToBeMinted)

/-- The floor as a rate per second, to compare it with the stored fee. -/
def feeFloorPerSecond (scaledDaoFeeFloor : ℕ) : Result Decimal := do
  let scaledOneMinusFeeFloor ← oneE18.sub (fromScaled scaledDaoFeeFloor)
  oneE18.sub (← scaledOneMinusFeeFloor.nthRoot yearInSeconds)

/-- What the supply grows by when it is divided by what is left of one. -/
def feeShares (supply scaledDenominator : Decimal) : Result Decimal := do
  (← (← supply.mul oneE18).div scaledDenominator).sub supply

/-- The DAO's part of the fee: its ratio, or the correction when that is more. -/
def daoShares (fee : DaoFee) (scaledFeeShares scaledFeeFloor scaledTvlFeeToUse : Decimal) :
    Result Decimal := do
  let scaledCorrection ← feeUp scaledFeeFloor oneE18 scaledTvlFeeToUse
  let scaledDaoRatio ← feeUp (fromScaled fee.numerator) oneE18 (fromScaled fee.denominator)
  if scaledCorrection.val > scaledDaoRatio.val then
    feeUp scaledFeeShares scaledCorrection oneE18
  else
    feeUp scaledFeeShares (fromScaled fee.numerator) (fromScaled fee.denominator)

/-- `get_pending_fee_shares`: what the fee recipients and the DAO earn from
`last_poke` until `accountUntil`. -/
def getPendingFeeShares (folio : Folio) (rawFolioTokenSupply accountUntil : ℕ) (fee : DaoFee) :
    Result (Decimal × Decimal) := do
  let supply ← folio.getTotalSupply rawFolioTokenSupply
  let elapsed := accountUntil - folio.lastPoke
  let scaledFeeFloor ← feeFloorPerSecond fee.floor
  let scaledTvlFee := fromScaled folio.tvlFee
  let scaledTvlFeeToUse :=
    if scaledFeeFloor.val > scaledTvlFee.val then scaledFeeFloor else scaledTvlFee
  let scaledOneMinusTvlFee ← oneE18.sub scaledTvlFeeToUse
  let scaledDenominator ← scaledOneMinusTvlFee.pow elapsed
  let scaledFeeShares ← feeShares supply scaledDenominator
  let scaledDaoShares ← daoShares fee scaledFeeShares scaledFeeFloor scaledTvlFeeToUse
  let scaledFeeRecipientShares ← scaledFeeShares.sub scaledDaoShares
  .ok (scaledFeeRecipientShares, scaledDaoShares)

/-- `poke`. Nothing happens before the first full day since the last one. -/
def poke (folio : Folio) (rawFolioTokenSupply currentTime : ℕ) (fee : DaoFee) : Result Folio := do
  let accountFeeUntil ← getAccountFeeUntil currentTime
  if accountFeeUntil - folio.lastPoke = 0 then .ok folio
  else do
    let (recipients, dao) ← folio.getPendingFeeShares rawFolioTokenSupply accountFeeUntil fee
    let daoPendingFeeShares ←
      checkedAddU128 folio.daoPendingFeeShares (← dao.toScaled .Floor)
    let feeRecipientsPendingFeeShares ←
      checkedAddU128 folio.feeRecipientsPendingFeeShares (← recipients.toScaled .Floor)
    .ok { folio with
      daoPendingFeeShares, feeRecipientsPendingFeeShares, lastPoke := accountFeeUntil }

end Folio

end IndexDtf
