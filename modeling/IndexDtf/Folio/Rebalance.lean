import IndexDtf.Folio.Basket

/-!
# IndexDtf.Folio.Rebalance

The `Rebalance` account (`utils/accounts/rebalance.rs`): the tokens of a
rebalance with their limits and prices, added in one or several batches, and
looked up in pairs when an auction is opened.
-/

namespace IndexDtf

open Lib SlotArray

/-- `BasketRange`, in D18. -/
structure BasketRange where
  spot : ℕ
  low : ℕ
  high : ℕ
  deriving DecidableEq, Repr

/-- `PricesInRebalance`, in D18. -/
structure PricesInRebalance where
  low : ℕ
  high : ℕ
  deriving DecidableEq, Repr

/-- `RebalancePriceAndLimits`, which is also what a `RebalanceDetailsToken` has
besides its mint. -/
structure RebalancePriceAndLimits where
  prices : PricesInRebalance
  limits : BasketRange
  deriving DecidableEq, Repr

instance : Zero RebalancePriceAndLimits := ⟨⟨0, 0⟩, ⟨0, 0, 0⟩⟩

/-- `RebalanceDetailsToken`: the key of the slot is the mint. -/
abbrev RebalanceDetailsToken := Slot Pubkey RebalancePriceAndLimits

/-- The `Rebalance` account. Its two-valued `all_rebalance_details_added` is a `Bool`. -/
structure Rebalance where
  allRebalanceDetailsAdded : Bool
  currentAuctionId : ℕ
  nonce : ℕ
  startedAt : ℕ
  restrictedUntil : ℕ
  availableUntil : ℕ
  details : SlotArray Pubkey RebalancePriceAndLimits
  deriving DecidableEq, Repr

namespace Rebalance

/-- `RebalanceDetails::default()`. -/
def noDetails : SlotArray Pubkey RebalancePriceAndLimits :=
  SlotArray.empty Pubkey.default maxRebalanceDetailsTokens

/-- A new account, after `process_init_if_needed`. -/
def init : Rebalance where
  allRebalanceDetailsAdded := false
  currentAuctionId := 0
  nonce := 0
  startedAt := 0
  restrictedUntil := 0
  availableUntil := 0
  details := noDetails

/-- `clear`. -/
def clear (r : Rebalance) : Rebalance :=
  { r with allRebalanceDetailsAdded := false, currentAuctionId := 0, details := noDetails }

/-- The checks on the limits of an added token. -/
def checkLimits (limit : BasketRange) : Result Unit := do
  checkCondition (limit.high ≤ maxRate ∧ limit.low ≤ limit.spot ∧ limit.spot ≤ limit.high)
    .InvalidRebalanceLimit
  checkCondition (limit.low ≠ 0 ∨ limit.high = 0) .InvalidRebalanceLimitAllZeroOrAllGreaterThanZero

/-- The checks on the prices of an added token. -/
def checkPrices (isPriceDeferred : Bool) (prices : PricesInRebalance) : Result Unit :=
  if isPriceDeferred then checkCondition (prices.low = 0 ∧ prices.high = 0) .InvalidPrices
  else
    checkCondition
      (prices.low ≠ 0 ∧ prices.high ≠ 0 ∧ prices.low ≤ prices.high ∧
        prices.high ≤ maxTokenPrice ∧ prices.high / prices.low ≤ maxTokenPriceRange)
      .InvalidPrices

/-- The loop of `add_rebalance_details` over the slots. `seen` is the hash set; the
tokens that are left when the slots are used up are dropped without an error. -/
def fillSlots (isPriceDeferred : Bool) : List Pubkey → List RebalanceDetailsToken →
    SlotArray Pubkey RebalancePriceAndLimits → Result (SlotArray Pubkey RebalancePriceAndLimits)
  | _, _, [] => .ok []
  | _, [], slots => .ok slots
  | seen, added :: more, slot :: rest =>
      if slot.key ≠ Pubkey.default then do
        .ok (slot :: (← fillSlots isPriceDeferred (slot.key :: seen) (added :: more) rest))
      else do
        checkLimits added.value.limits
        checkCondition (added.key ∉ seen) .RebalanceTokenAlreadyAdded
        checkPrices isPriceDeferred added.value.prices
        .ok (added :: (← fillSlots isPriceDeferred (added.key :: seen) more rest))

/-- Whether the prices of a batch are deferred: as those of the first token that is
there already, else as those of the first token of the batch. -/
def isPriceDeferred (details : SlotArray Pubkey RebalancePriceAndLimits)
    (pricesAndLimits : List RebalancePriceAndLimits) : Bool :=
  match details with
  | first :: _ =>
      if first.key ≠ Pubkey.default then first.value.prices.low = 0
      else pricesAndLimits.head?.any (·.prices.low = 0)
  | [] => pricesAndLimits.head?.any (·.prices.low = 0)

/-- `add_rebalance_details`. -/
def addRebalanceDetails (r : Rebalance) (mints : List Pubkey)
    (pricesAndLimits : List RebalancePriceAndLimits) (allRebalanceDetailsAdded : Bool) :
    Result Rebalance := do
  checkCondition (r.allRebalanceDetailsAdded = false) .RebalanceNotOpenForDetailUpdates
  checkCondition (mints.length = pricesAndLimits.length)
    .RebalanceMintsAndPricesAndLimitsLengthMismatch
  let added := mints.zipWith Slot.mk pricesAndLimits
  let details ← fillSlots (isPriceDeferred r.details pricesAndLimits) [] added r.details
  .ok { r with details, allRebalanceDetailsAdded }

/-- `start_rebalance`. -/
def startRebalance (r : Rebalance) (currentTime auctionLauncherWindow ttl : ℕ)
    (mints : List Pubkey) (pricesAndLimits : List RebalancePriceAndLimits)
    (allRebalanceDetailsAdded : Bool) : Result Rebalance := do
  checkCondition (ttl ≤ maxTtl) .RebalanceTTLExceeded
  checkCondition (auctionLauncherWindow ≤ ttl) .RebalanceAuctionLauncherWindowTooLong
  let nonce ← checkedAddU64 r.nonce 1
  let restrictedUntil ← addU64 currentTime auctionLauncherWindow
  let availableUntil ← addU64 currentTime ttl
  let r := { r with nonce, startedAt := currentTime, restrictedUntil, availableUntil }.clear
  r.addRebalanceDetails mints pricesAndLimits allRebalanceDetailsAdded

/-- The loop of `get_token_details_pair`: the last slot of each mint wins, and a slot
of the sell mint is never one of the buy mint. Slots are named by their position. -/
def findPair (sellMint buyMint : Pubkey) :
    ℕ → SlotArray Pubkey RebalancePriceAndLimits → Option ℕ × Option ℕ → Option ℕ × Option ℕ
  | _, [], found => found
  | i, detail :: rest, (sell, buy) =>
      findPair sellMint buyMint (i + 1) rest
        (if detail.key = sellMint then (some i, buy)
          else if detail.key = buyMint then (sell, some i)
          else (sell, buy))

/-- `get_token_details_pair` and `get_token_details_pair_mut`. -/
def getTokenDetailsPair (r : Rebalance) (sellMint buyMint : Pubkey) : Option ℕ × Option ℕ :=
  findPair sellMint buyMint 0 r.details (none, none)

/-- `get_next_auction_id`. -/
def getNextAuctionId (r : Rebalance) : Result ℕ := addU64 r.currentAuctionId 1

end Rebalance

end IndexDtf
