import IndexDtf.Shared.Decimal

/-!
# IndexDtf.Rewards.Account

The accounts of the rewards program and what `accrue_rewards` does to them
(`programs/rewards/src/utils/accounts`): a `RewardInfo` for each reward token
hands the vault out over time by raising an index, and a `UserRewardInfo`
remembers up to which index its user was credited.
-/

namespace IndexDtf

open Lib

/-- `RewardInfo`. Balances and the index are in D18, times in seconds. -/
structure RewardInfo where
  payoutLastPaid : ℕ
  rewardIndex : ℕ
  balanceAccounted : ℕ
  balanceLastKnown : ℕ
  totalClaimed : ℕ
  isDisallowed : Bool
  deriving DecidableEq, Repr

/-- `UserRewardInfo`; the account `process_init_if_needed` writes first is the default. -/
structure UserRewardInfo where
  lastRewardIndex : ℕ := 0
  accruedRewards : ℕ := 0
  deriving DecidableEq, Repr

namespace RewardInfo

open Decimal

/-- A new account, after `process_init_if_needed`: the balance is noted as it is, in D9. -/
def init (currentTime rawLastKnownBalance : ℕ) : RewardInfo :=
  ⟨currentTime, 0, 0, rawLastKnownBalance, 0, false⟩

/-- The part of the vault not accounted for that decays in `elapsed` seconds. -/
def tokensToHandout (info : RewardInfo) (scaledRewardRatio elapsed : ℕ) : Result Decimal := do
  let scaledUnaccountedBalance ← checkedSub info.balanceLastKnown info.balanceAccounted
  let scaledBase ← oneE18.sub (fromScaled scaledRewardRatio)
  let scaledPowResult ← scaledBase.pow elapsed
  let scaledHandoutPercentage ← (← oneE18.sub scaledPowResult).sub one
  (← (fromScaled scaledUnaccountedBalance).mul scaledHandoutPercentage).div oneE18

/-- `calculate_delta_index`: the new index. The quotient is a number of D18
digits already, so the ceiling looks at its remainder by D18. -/
def calculateDeltaIndex (info : RewardInfo) (scaledTokensToHandout : Decimal)
    (rawStaked decimals : ℕ) : Result ℕ := do
  let exponent ← fitting u128Max (.code .MathOverflow) (10 ^ decimals)
  let scaledDeltaIndex ← oneE18.mul scaledTokensToHandout
  let scaledDeltaIndex ← scaledDeltaIndex.mul (fromScaled exponent)
  let scaledDeltaIndex ← scaledDeltaIndex.div (fromScaled rawStaked)
  let scaledDeltaIndex ← scaledDeltaIndex.div oneE18
  checkedAddU128 info.rewardIndex (← scaledDeltaIndex.toScaled .Ceiling)

/-- `accrue_rewards` of the global account. -/
def accrueRewards (info : RewardInfo) (scaledRewardRatio rawRewardBalance rawStaked decimals
    currentTime : ℕ) : Result RewardInfo :=
  if info.isDisallowed then .ok info
  -- `overflowing_sub`: no time has passed, or the clock is behind
  else if currentTime ≤ info.payoutLastPaid then .ok info
  else do
    let balance ← (← fromTokenAmount rawRewardBalance).add (fromScaled info.totalClaimed)
    let balanceLastKnown ← balance.toScaled .Ceiling
    -- the handout is computed from the balance known before this call
    let handout ← info.tokensToHandout scaledRewardRatio (currentTime - info.payoutLastPaid)
    if rawStaked > 0 then do
      let rewardIndex ← info.calculateDeltaIndex handout rawStaked decimals
      let balanceAccounted ←
        checkedAddU128 info.balanceAccounted (← handout.toScaled .Ceiling)
      .ok { info with
        rewardIndex, balanceAccounted, balanceLastKnown, payoutLastPaid := currentTime }
    else .ok { info with balanceLastKnown, payoutLastPaid := currentTime }

end RewardInfo

namespace UserRewardInfo

open Decimal

/-- `accrue_rewards` of a user's account. The balance is read as a D9 amount
whatever the decimals of the governance token. -/
def accrueRewards (user : UserRewardInfo) (info : RewardInfo) (rawUserBalance : ℕ) :
    Result UserRewardInfo :=
  -- `overflowing_sub`: the index has not moved, or the bookmark is ahead of it
  if info.rewardIndex ≤ user.lastRewardIndex then .ok user
  else do
    let scaledUserBalance ← fromTokenAmount rawUserBalance
    let scaledSupplierDelta ←
      (← scaledUserBalance.mul (fromScaled (info.rewardIndex - user.lastRewardIndex))).div oneE18
    let accruedRewards ←
      checkedAddU128 user.accruedRewards (← scaledSupplierDelta.toScaled .Floor)
    .ok { lastRewardIndex := info.rewardIndex, accruedRewards }

end UserRewardInfo

/-- `RewardTokens::set_reward_ratio`: the ratio of a half life in seconds. -/
def setRewardRatio (rewardHalfLife : ℕ) : Result ℕ := do
  checkCondition (minRewardHalfLife ≤ rewardHalfLife ∧ rewardHalfLife ≤ maxRewardHalfLife)
    .InvalidRewardHalfLife
  let scaledCalculatedRewardRatio ← (Decimal.fromScaled ln2).div (Decimal.fromScaled rewardHalfLife)
  scaledCalculatedRewardRatio.toScaled .Floor

/-- The account update of `claim_rewards`: what the user is sent, in D9, and both
accounts with that amount, in D18, moved from accrued to claimed. -/
def claimUpdate (info : RewardInfo) (user : UserRewardInfo) :
    Result (ℕ × RewardInfo × UserRewardInfo) := do
  let rawClaimableRewards ← (Decimal.fromScaled user.accruedRewards).toTokenAmount .Floor
  let scaledClaimableRewardsWithoutDust ← checkedMulU128 rawClaimableRewards Decimal.d9
  let totalClaimed ← checkedAddU128 info.totalClaimed scaledClaimableRewardsWithoutDust
  let accruedRewards ← checkedSub user.accruedRewards scaledClaimableRewardsWithoutDust
  checkCondition (rawClaimableRewards > 0) .NoRewardsToClaim
  .ok (rawClaimableRewards, { info with totalClaimed }, { user with accruedRewards })

end IndexDtf
