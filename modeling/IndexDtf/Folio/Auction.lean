import IndexDtf.Folio.Rebalance

/-!
# IndexDtf.Folio.Auction

Auctions (`utils/accounts/auction.rs`, `utils/accounts/auction_ends.rs`): opening
one, its status, its price at a time, and what a bid gets and pays.
-/

namespace IndexDtf

open Lib SlotArray Decimal

/-- `PricesInAuction`, in D18. -/
structure PricesInAuction where
  start : ℕ
  end_ : ℕ
  deriving DecidableEq, Repr

/-- `OpenAuctionConfig`: what the auction launcher chooses. -/
structure OpenAuctionConfig where
  price : PricesInAuction
  sellLimitSpot : ℕ
  buyLimitSpot : ℕ
  deriving DecidableEq, Repr

/-- The `Auction` account. -/
structure Auction where
  id : ℕ
  nonce : ℕ
  folio : Pubkey
  sellMint : Pubkey
  buyMint : Pubkey
  sellLimit : ℕ
  buyLimit : ℕ
  start : ℕ
  end_ : ℕ
  prices : PricesInAuction
  deriving DecidableEq, Repr

/-- `AuctionStatus`. -/
inductive AuctionStatus
  | APPROVED
  | Open
  | Closed
  deriving DecidableEq, Repr

/-- The `AuctionEnds` account of a pair of mints. -/
structure AuctionEnds where
  rebalanceNonce : ℕ
  tokenMint1 : Pubkey
  tokenMint2 : Pubkey
  endTime : ℕ
  deriving DecidableEq, Repr

namespace AuctionEnds

/-- A zeroed account. -/
def blank : AuctionEnds := ⟨0, Pubkey.default, Pubkey.default, 0⟩

/-- `keys_pair_in_order`. -/
def keysPairInOrder (sellToken buyToken : Pubkey) : Pubkey × Pubkey :=
  if sellToken < buyToken then (sellToken, buyToken) else (buyToken, sellToken)

/-- `process_init_if_needed`. The bump it is given is the one the account holds. -/
def processInitIfNeeded (ends : AuctionEnds) (sellToken buyToken : Pubkey)
    (rebalanceNonce : ℕ) : AuctionEnds :=
  let keys := keysPairInOrder sellToken buyToken
  if keys.1 = ends.tokenMint1 ∧ keys.2 = ends.tokenMint2 then ends
  else ⟨rebalanceNonce, keys.1, keys.2, 0⟩

end AuctionEnds

namespace Auction

/-! ### Opening -/

/-- The price of the sell token in the buy token, from a price of each, rounded up. -/
def priceRatio (sellPrice buyPrice : ℕ) : Result ℕ := do
  let scaled ← (fromScaled sellPrice).mul oneE18
  (← scaled.div (fromScaled buyPrice)).toScaled .Ceiling

/-- The prices of a new auction: the config's, within bounds if the rebalance has
prices, or those of the rebalance. -/
def auctionPrice (sellPrices buyPrices : PricesInRebalance) (config : Option OpenAuctionConfig) :
    Result PricesInAuction :=
  if buyPrices.low = 0 then
    match config with
    | some config => .ok config.price
    | none => .error (.code .AuctionCannotBeOpenedPermissionlesslyWithDeferredPrice)
  else do
    let oldStartPrice ← priceRatio sellPrices.high buyPrices.low
    let oldEndPrice ← priceRatio sellPrices.low buyPrices.high
    match config with
    | some config => do
        let prices := config.price
        -- the product is only computed if the first comparison holds
        checkCondition (oldStartPrice ≤ prices.start) .InvalidPrices
        let highest ← fitting u128Max .panic (100 * oldStartPrice)
        checkCondition (prices.start ≤ highest ∧ oldEndPrice ≤ prices.end_) .InvalidPrices
        .ok prices
    | none => .ok ⟨oldStartPrice, oldEndPrice⟩

/-- The sell token is in surplus and the buy token in deficit at the two limits. -/
def checkBalances (folio : Folio) (basket : FolioBasket) (rawFolioTokenSupply : ℕ)
    (sellMint buyMint : Pubkey) (sellLimit buyLimit : ℕ) : Result Unit := do
  let supply ← folio.getTotalSupply rawFolioTokenSupply
  let sellTokens ← (← supply.mulD18 (fromScaled sellLimit)).toTokenAmount .Ceiling
  let sellBalance ← basket.getTokenAmountInFolioBasket sellMint
  checkCondition (sellTokens < sellBalance) .SellTokenNotSurplus
  let buyTokens ← (← supply.mulD18 (fromScaled buyLimit)).toTokenAmount .Floor
  let buyBalance := basket.getTokenAmountInFolioBasketOrZero buyMint
  checkCondition (buyBalance < buyTokens) .BuyTokenNotDeficit

/-- The limits of a token an auction sells: nothing is bought back above the limit. -/
def narrowSell (limit : ℕ) (detail : RebalanceDetailsToken) : RebalanceDetailsToken :=
  { detail with value.limits.spot := limit, value.limits.high := limit }

/-- The limits of a token an auction buys: nothing is sold again below the limit. -/
def narrowBuy (limit : ℕ) (detail : RebalanceDetailsToken) : RebalanceDetailsToken :=
  { detail with value.limits.spot := limit, value.limits.low := limit }

/-- The checks of `open_auction` on the times. -/
def checkTimes (rebalance : Rebalance) (ends : AuctionEnds) (currentTime auctionBuffer : ℕ)
    (isPriceDeferred isPermissionless : Bool) : Result Unit := do
  if isPermissionless then do
    checkCondition
      (rebalance.restrictedUntil ≤ currentTime ∧ currentTime ≤ rebalance.availableUntil)
      .AuctionCannotBeOpenedPermissionlesslyYet
    checkCondition (isPriceDeferred = false) .AuctionCannotBeOpenedPermissionlesslyWithDeferredPrice
  else .ok ()
  let earliest ← addU64 rebalance.startedAt auctionBuffer
  checkCondition (earliest ≤ currentTime ∧ currentTime ≤ rebalance.availableUntil ∧
    rebalance.allRebalanceDetailsAdded = true) .FolioNotRebalancing
  let ended ← addU64 ends.endTime auctionBuffer
  checkCondition (ended < currentTime) .AuctionCollision

/-- `open_auction`: the new auction, and the rebalance and the `AuctionEnds` account
after it. -/
def openAuction (folio : Folio) (folioPubkey : Pubkey) (basket : FolioBasket)
    (ends : AuctionEnds) (rawFolioTokenSupply : ℕ) (rebalance : Rebalance)
    (sellMint buyMint : Pubkey) (currentTime auctionBuffer : ℕ)
    (config : Option OpenAuctionConfig) (isPermissionless : Bool) :
    Result (Auction × Rebalance × AuctionEnds) := do
  checkCondition (currentTime ≤ rebalance.availableUntil) .AuctionTimeout
  let (sellIndex, buyIndex) := rebalance.getTokenDetailsPair sellMint buyMint
  let i ← okOr (.code .TokensNotAvailableForRebalance) sellIndex
  let j ← okOr (.code .TokensNotAvailableForRebalance) buyIndex
  let sellDetails ← okOr .panic rebalance.details[i]?
  let buyDetails ← okOr .panic rebalance.details[j]?
  let isPriceDeferred : Bool := buyDetails.value.prices.low = 0
  checkTimes rebalance ends currentTime auctionBuffer isPriceDeferred isPermissionless
  let sellLimit := (config.map (·.sellLimitSpot)).getD sellDetails.value.limits.spot
  let buyLimit := (config.map (·.buyLimitSpot)).getD buyDetails.value.limits.spot
  checkCondition (sellDetails.value.limits.low ≤ sellLimit ∧
    sellLimit ≤ sellDetails.value.limits.high) .InvalidSellLimit
  checkCondition (buyDetails.value.limits.low ≤ buyLimit ∧
    buyLimit ≤ buyDetails.value.limits.high) .InvalidBuyLimit
  checkBalances folio basket rawFolioTokenSupply sellMint buyMint sellLimit buyLimit
  let prices ← auctionPrice sellDetails.value.prices buyDetails.value.prices config
  let details := (rebalance.details.modify i (narrowSell sellLimit)).modify j (narrowBuy buyLimit)
  let id ← rebalance.getNextAuctionId
  let end_ ← addU64 currentTime folio.auctionLength
  let endTime ← addU64 currentTime (end_ - currentTime)
  .ok
    ({ id, nonce := rebalance.nonce, folio := folioPubkey, sellMint, buyMint, sellLimit, buyLimit,
       start := currentTime, end_, prices },
     { rebalance with details, currentAuctionId := id },
     { ends with endTime })

/-! ### Status and price -/

/-- `try_get_status`. -/
def tryGetStatus (auction : Auction) (currentTime : ℕ) : Option AuctionStatus :=
  if auction.start = 0 ∧ auction.end_ = 0 then some .APPROVED
  else if auction.start ≤ currentTime ∧ currentTime ≤ auction.end_ then some .Open
  else if auction.end_ < currentTime then some .Closed
  else none

/-- `auction_length`. -/
def auctionLength (auction : Auction) : Result ℕ := checkedSub auction.end_ auction.start

/-- `calculate_k`: the rate at which the price falls. -/
def calculateK (auction : Auction) : Result ℕ := do
  let auctionLength ← auction.auctionLength
  let scaled ← (fromScaled auction.prices.start).mul oneE18
  let scaledPriceRatio ← scaled.div (fromScaled auction.prices.end_)
  let ln ← okOr .panic (← scaledPriceRatio.ln)
  (← ln.div (fromScaled auctionLength)).toScaled .Floor

/-- `get_price`. -/
def getPrice (auction : Auction) (currentTime : ℕ) : Result ℕ := do
  checkCondition (auction.start ≤ currentTime ∧ currentTime ≤ auction.end_) .AuctionNotOngoing
  if currentTime = auction.start then .ok auction.prices.start
  else if currentTime = auction.end_ then .ok auction.prices.end_
  else do
    let elapsed ← checkedSub currentTime auction.start
    let k ← auction.calculateK
    let scaledTimeValue ← (fromScaled k).mul (fromScaled elapsed)
    let exponent ← okOr .panic (← scaledTimeValue.exp true)
    let scaledP ← (← (fromScaled auction.prices.start).mulD18 exponent).toScaled .Ceiling
    if scaledP < auction.prices.end_ then .ok auction.prices.end_ else .ok scaledP

/-! ### Bids -/

/-- `get_bid`: what the bidder has to pay, and the total supply it was computed at. -/
def getBid (auction : Auction) (folio : Folio) (basket : FolioBasket)
    (rawFolioTokenSupply currentTime rawSellAmount rawMaxBuyAmount : ℕ) :
    Result (ℕ × Decimal) := do
  let scaledPrice := fromScaled (← auction.getPrice currentTime)
  let supply ← folio.getTotalSupply rawFolioTokenSupply
  let rawSellBalance ← basket.getTokenAmountInFolioBasket auction.sellMint
  let rawLimitSellBalance ←
    (← (fromScaled auction.sellLimit).mulD18 supply).toTokenAmount .Ceiling
  let rawSellAvailable := rawSellBalance - rawLimitSellBalance
  let rawBuyBalance := basket.getTokenAmountInFolioBasketOrZero auction.buyMint
  let buyLimitBalance ← (← (fromScaled auction.buyLimit).mulD18 supply).toTokenAmount .Floor
  let buyAmountAvailable := buyLimitBalance - rawBuyBalance
  let scaledBuyAmount ← (← fromTokenAmount buyAmountAvailable).mul oneE18
  let sellAmountAvailableFromBuy ← (← scaledBuyAmount.div scaledPrice).toTokenAmount .Floor
  let sellAmountAvailable := min sellAmountAvailableFromBuy rawSellAvailable
  checkCondition (rawSellAmount ≤ sellAmountAvailable) .InsufficientBalance
  let bidAmount ←
    (← (← fromTokenAmount rawSellAmount).mulD18 scaledPrice).toTokenAmount .Floor
  checkCondition (bidAmount ≠ 0 ∧ bidAmount ≤ rawMaxBuyAmount) .SlippageExceeded
  .ok (bidAmount, supply)

end Auction

end IndexDtf
