import Mathlib.Algebra.Ring.Nat
import Mathlib.Data.Int.Notation
import IndexDtf.Lib.Fallible

/-!
# IndexDtf.Shared.Basic

What the programs of the workspace share: the error codes, the outcome of an
instruction, machine integers and the constants of `shared/src/constants`.

Machine integers are natural numbers. Every operation that can leave the range
of its type says so in the code (`checked_add`, or a plain `+` under
`overflow-checks = true`), and the model makes the same check in the same place.
Times are the non-negative values of the clock, on which the casts between `i64`
and `u64` are the identity.
-/

namespace IndexDtf

open Lib

/-! ### Outcomes -/

/-- The error codes of `shared/src/errors.rs` that the modelled code raises. -/
inductive ErrorCode
  | Unauthorized
  | InvalidProgramCount
  | ProgramNotInRegistrar
  | InvalidRole
  | InvalidPda
  | InvalidTokenMint
  | InvalidAccountData
  | InvalidFeeRecipientCount
  | InvalidFeeRecipientContainsDuplicates
  | InvalidFeeRecipient
  | TVLFeeTooLow
  | TVLFeeTooHigh
  | InvalidFeeRecipientPortion
  | InvalidFolioStatus
  | InvalidRecipientTokenAccount
  | InvalidSenderTokenAccount
  | InvalidDaoFeeRecipient
  | InvalidNumberOfRemainingAccounts
  | InvalidAddedTokenMints
  | InvalidRemovedTokenMints
  | MaxNumberOfTokensReached
  | MintMismatch
  | InvalidShareAmountProvided
  | InvalidTokenAmount
  | InvalidFolioTokenMint
  | PendingBasketIsNotEmpty
  | TokenMintNotInOldFolioBasket
  | InvalidMintFee
  | InvalidFeeDistribution
  | MissingFeeDistributionIndex
  | InvalidAuctionLength
  | InvalidDistributionIndex
  | InvalidCranker
  | InvalidAuctionId
  | MintCantBeEqual
  | InvalidRebalanceLimit
  | InvalidRebalanceLimitAllZeroOrAllGreaterThanZero
  | InvalidSellLimit
  | InvalidBuyLimit
  | InvalidPrices
  | AuctionCannotBeOpened
  | AuctionTimeout
  | AuctionCollision
  | AuctionCannotBeOpenedPermissionlesslyYet
  | FolioNotRebalancing
  | AuctionCannotBeOpenedPermissionlesslyWithDeferredPrice
  | AuctionNotOngoing
  | SlippageExceeded
  | InvalidAuctionSellTokenMint
  | InvalidAuctionBuyTokenMint
  | InsufficientBalance
  | ExcessiveBid
  | InsufficientBid
  | UnsupportedSPLToken
  | DisallowedRewardToken
  | RewardAlreadyRegistered
  | NoMoreRoomForNewRewardToken
  | RewardNotRegistered
  | InvalidRewardHalfLife
  | NoRewardsToClaim
  | MathOverflow
  | InvalidFeeNumerator
  | NewFolioNotOwnedByNewFolioProgram
  | InvalidNewFolio
  | CantMigrateToSameProgram
  | FolioNotMigrating
  | InvalidFeeFloor
  | InvalidMandateLength
  | InvalidCallbackProgram
  | RebalanceTTLExceeded
  | RebalanceAuctionLauncherWindowTooLong
  | RebalanceNotOpenForDetailUpdates
  | RebalanceTokenAlreadyAdded
  | TokensNotAvailableForRebalance
  | SellTokenNotSurplus
  | BuyTokenNotDeficit
  | InvalidRebalanceNonceAuctionEnded
  | BidInvariantViolated
  | RebalanceMintsAndPricesAndLimitsLengthMismatch
  | MinimumAmountOutNotMet
  | InvalidTokenBalance
  | MigrationFailedFolioNotPoked
  | MigrationFailedDaoPendingFeeSharesTooHigh
  | MigrationFailedFeeRecipientsPendingFeeSharesTooHigh
  | MigrationFailedFeeRecipientsPendingFeeShareToBeMintedTooHigh
  deriving DecidableEq, Repr

/-- Why a transaction fails. All of them undo what it did. -/
inductive Abort
  /-- `error!(ErrorCode::…)`. -/
  | code (e : ErrorCode)
  /-- A panic: overflow of a plain operator, `unwrap` of `None`, index out of range. -/
  | panic
  /-- An account that does not satisfy the constraints its instruction declares. -/
  | account
  /-- A call into another program that failed. -/
  | external
  /-- A `GovernanceError`. -/
  | governance
  deriving DecidableEq, Repr

/-- The outcome of a function of the programs. -/
abbrev Result (α : Type) := Except Abort α

/-- `check_condition!`. -/
def checkCondition (c : Prop) [Decidable c] (e : ErrorCode) : Result Unit :=
  guardOr (.code e) c

@[simp] theorem checkCondition_eq_ok {c : Prop} [Decidable c] {e : ErrorCode} {u : Unit} :
    checkCondition c e = .ok u ↔ c :=
  guardOr_eq_ok

/-- A failed condition is an error of the program, not a panic. -/
theorem checkCondition_ne_panic {c : Prop} [Decidable c] {e : ErrorCode} :
    checkCondition c e ≠ .error .panic := fun h => nomatch (guardOr_eq_error.mp h).2

theorem checkCondition_of {c : Prop} [Decidable c] {e : ErrorCode} (h : c) :
    checkCondition c e = .ok () :=
  guardOr_of h

/-! ### Machine integers -/

/-- `u64::MAX`. -/
def u64Max : ℕ := 18446744073709551615

/-- `u128::MAX`. -/
def u128Max : ℕ := 340282366920938463463374607431768211455

/-- `2 ^ 256`, the first number a `U256` cannot hold. -/
def u256Bound : ℕ :=
  115792089237316195423570985008687907853269984665640564039457584007913129639936

/-- A result that must fit under `bound`; `abort` is what the code does otherwise. -/
def fitting (bound : ℕ) (abort : Abort) (n : ℕ) : Result ℕ :=
  if n ≤ bound then .ok n else .error abort

@[simp] theorem fitting_eq_ok {bound : ℕ} {abort : Abort} {n m : ℕ} :
    fitting bound abort n = .ok m ↔ n ≤ bound ∧ n = m := by
  by_cases h : n ≤ bound <;> simp [fitting, h]

theorem fitting_eq_error {bound : ℕ} {abort : Abort} {n : ℕ} :
    fitting bound abort n = .error abort ↔ bound < n := by
  by_cases h : n ≤ bound <;> simp [fitting, h]; omega

/-- `checked_add(…).ok_or(MathOverflow)?` on `u64`. -/
def checkedAddU64 (a b : ℕ) : Result ℕ := fitting u64Max (.code .MathOverflow) (a + b)

/-- `checked_mul(…).ok_or(MathOverflow)?` on `u64`. -/
def checkedMulU64 (a b : ℕ) : Result ℕ := fitting u64Max (.code .MathOverflow) (a * b)

/-- `checked_add(…).ok_or(MathOverflow)?` on `u128`. -/
def checkedAddU128 (a b : ℕ) : Result ℕ := fitting u128Max (.code .MathOverflow) (a + b)

/-- `checked_mul(…).ok_or(MathOverflow)?` on `u128`. -/
def checkedMulU128 (a b : ℕ) : Result ℕ := fitting u128Max (.code .MathOverflow) (a * b)

/-- A plain `+` on `u64`. -/
def addU64 (a b : ℕ) : Result ℕ := fitting u64Max .panic (a + b)

/-- A plain `-`, of any unsigned type. -/
def subPlain (a b : ℕ) : Result ℕ := if b ≤ a then .ok (a - b) else .error .panic

/-- `checked_sub(…).ok_or(MathOverflow)?`, of any unsigned type. -/
def checkedSub (a b : ℕ) : Result ℕ :=
  if b ≤ a then .ok (a - b) else .error (.code .MathOverflow)

@[simp] theorem checkedSub_eq_ok {a b c : ℕ} : checkedSub a b = .ok c ↔ b ≤ a ∧ a - b = c := by
  by_cases h : b ≤ a <;> simp [checkedSub, h]

@[simp] theorem subPlain_eq_ok {a b c : ℕ} : subPlain a b = .ok c ↔ b ≤ a ∧ a - b = c := by
  by_cases h : b ≤ a <;> simp [subPlain, h]

@[simp] theorem addU64_eq_ok {a b c : ℕ} :
    addU64 a b = .ok c ↔ a + b ≤ u64Max ∧ a + b = c :=
  fitting_eq_ok

@[simp] theorem checkedAddU64_eq_ok {a b c : ℕ} :
    checkedAddU64 a b = .ok c ↔ a + b ≤ u64Max ∧ a + b = c :=
  fitting_eq_ok

@[simp] theorem checkedMulU64_eq_ok {a b c : ℕ} :
    checkedMulU64 a b = .ok c ↔ a * b ≤ u64Max ∧ a * b = c :=
  fitting_eq_ok

@[simp] theorem checkedAddU128_eq_ok {a b c : ℕ} :
    checkedAddU128 a b = .ok c ↔ a + b ≤ u128Max ∧ a + b = c :=
  fitting_eq_ok

@[simp] theorem checkedMulU128_eq_ok {a b c : ℕ} :
    checkedMulU128 a b = .ok c ↔ a * b ≤ u128Max ∧ a * b = c :=
  fitting_eq_ok

/-! ### Keys -/

/-- A `Pubkey`; only equality and order of keys matter to the programs. -/
abbrev Pubkey := ℕ

/-- `Pubkey::default()`, which marks an unused slot. -/
def Pubkey.default : Pubkey := 0

/-- `ADMIN`. Which key it is does not matter, only that it is one. -/
def admin : Pubkey := 1

/-! ### Constants -/

/-- `MAX_DAO_FEE`, 50% in D18. -/
def maxDaoFee : ℕ := 500000000000000000
/-- `MAX_FEE_FLOOR`, 15 bps in D18. -/
def maxFeeFloor : ℕ := 1500000000000000
/-- `FEE_DENOMINATOR`. -/
def feeDenominator : ℕ := 1000000000000000000
/-- `MAX_TVL_FEE`, 10% annually in D18. -/
def maxTvlFee : ℕ := 100000000000000000
/-- `DAY_IN_SECONDS`. -/
def dayInSeconds : ℕ := 86400
/-- `YEAR_IN_SECONDS`. -/
def yearInSeconds : ℕ := 365 * dayInSeconds
/-- `MAX_MINT_FEE`, 5% in D18. -/
def maxMintFee : ℕ := 50000000000000000
/-- `MIN_AUCTION_LENGTH`, 1 minute. -/
def minAuctionLength : ℕ := 60
/-- `MAX_AUCTION_LENGTH`, 1 week. -/
def maxAuctionLength : ℕ := 604800
/-- `MAX_TTL`, 4 weeks. -/
def maxTtl : ℕ := 604800 * 4
/-- `MAX_RATE`, the largest rebalance limit, 1e27. -/
def maxRate : ℕ := 1000000000000000000000000000
/-- `MAX_PRICE_RANGE`, 1e9. -/
def maxPriceRange : ℕ := 1000000000
/-- `MAX_TOKEN_PRICE_RANGE`. -/
def maxTokenPriceRange : ℕ := 100
/-- `MAX_TOKEN_PRICE`, 1e36. -/
def maxTokenPrice : ℕ := 1000000000000000000000000000000000000
/-- `RESTRICTED_AUCTION_BUFFER`. -/
def restrictedAuctionBuffer : ℕ := 0
/-- `MAX_FEE_RECIPIENTS`. -/
def maxFeeRecipients : ℕ := 64
/-- `MAX_FEE_RECIPIENTS_PORTION`. -/
def maxFeeRecipientsPortion : ℕ := 1000000000000000000
/-- `MAX_FOLIO_TOKEN_AMOUNTS`. -/
def maxFolioTokenAmounts : ℕ := 100
/-- `MAX_USER_PENDING_BASKET_TOKEN_AMOUNTS`. -/
def maxUserPendingBasketTokenAmounts : ℕ := 110
/-- `MAX_REBALANCE_DETAILS_TOKENS`. -/
def maxRebalanceDetailsTokens : ℕ := 30
/-- `MAX_REWARD_TOKENS`. -/
def maxRewardTokens : ℕ := 4
/-- `LN_2`, the natural logarithm of 2 in D18. -/
def ln2 : ℕ := 693147180559945309
/-- `MIN_REWARD_HALF_LIFE`, a day. -/
def minRewardHalfLife : ℕ := 86400
/-- `MAX_REWARD_HALF_LIFE`, two weeks. -/
def maxRewardHalfLife : ℕ := 604800 * 2

end IndexDtf
