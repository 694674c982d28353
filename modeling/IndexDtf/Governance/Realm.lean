import IndexDtf.Lib.Transition
import IndexDtf.Rewards.AccountSpec

/-!
# IndexDtf.Governance.Realm

A realm as the governance and the rewards programs see it together. Stakes live
in governance: `DepositGoverningTokens` and `WithdrawGoverningTokens` change
them, after a call into the rewards program with the reward accounts *their
caller passes*. Indices and bookmarks live in rewards: `accrue_rewards` and
`claim_rewards` move them, reading the stakes.

An instruction that signs for a user names that user; the groups of reward
accounts it passes are the list of their reward tokens, in order.
-/

namespace IndexDtf

open Lib

/-- One realm: the token accounts, the governance records and the reward accounts. -/
structure Realm where
  clock : ℕ
  /-- Whether the realm's configuration admits deposits and withdrawals. -/
  canDeposit : Bool
  canWithdraw : Bool
  /-- The decimals of the governance token. -/
  decimals : ℕ
  /-- `RewardTokens.reward_ratio`. -/
  rewardRatio : ℕ
  /-- The account that holds the governance tokens of all depositors. -/
  holding : ℕ
  /-- Other governance token accounts. -/
  wallet : Pubkey → ℕ
  /-- Whether votes, proposals or locks keep a depositor from withdrawing. -/
  locked : Pubkey → Bool
  /-- `governing_token_deposit_amount` of the existing token owner records. -/
  deposit : Pubkey → Option ℕ
  /-- The rewards program's token account, by reward token. -/
  vault : Pubkey → ℕ
  rewardInfo : Pubkey → Option RewardInfo
  /-- The user reward accounts, by reward token and user. -/
  userRewardInfo : Pubkey → Pubkey → Option UserRewardInfo
  /-- The reward tokens claims have sent, by reward token and user. -/
  received : Pubkey → Pubkey → ℕ

namespace Realm

/-- Where deposited tokens come from: a token account, or the mint itself. -/
inductive Source
  | account (key : Pubkey)
  | mint
  deriving DecidableEq, Repr

/-- What happens to a realm. -/
inductive Instruction
  | depositGoverningTokens (owner : Pubkey) (source : Source) (amount : ℕ)
      (rewardTokens : List Pubkey)
  | withdrawGoverningTokens (owner destination : Pubkey) (rewardTokens : List Pubkey)
  | accrueRewards (caller user : Pubkey) (rewardTokens : List Pubkey)
  | claimRewards (user : Pubkey) (rewardTokens : List Pubkey)
  /-- Time passes. -/
  | tick (seconds : ℕ)
  /-- Reward tokens arrive in a vault. -/
  | topUp (rewardToken : Pubkey) (amount : ℕ)
  /-- Governance locks or unlocks a depositor. -/
  | setLocked (user : Pubkey) (locked : Bool)
  | setRewardRatio (ratio : ℕ)
  deriving DecidableEq, Repr

/-! ### The rewards program -/

/-- `get_governance_account_balance`: the stake in a user's token owner record. -/
def governanceBalance (r : Realm) (user : Pubkey) : Result ℕ :=
  okOr (.code .InvalidAccountData) (r.deposit user)

def setRewardInfo (r : Realm) (token : Pubkey) (info : RewardInfo) : Realm :=
  { r with rewardInfo := Function.update r.rewardInfo token (some info) }

def setUserRewardInfo (r : Realm) (token user : Pubkey) (account : UserRewardInfo) : Realm :=
  { r with
    userRewardInfo := Function.update r.userRewardInfo token
      (Function.update (r.userRewardInfo token) user (some account)) }

/-- The global part of the loop of `accrue_rewards`. -/
def accrueGlobal (r : Realm) (token : Pubkey) : Result Realm := do
  let info ← okOr .account (r.rewardInfo token)
  let info ←
    info.accrueRewards r.rewardRatio (r.vault token) r.holding r.decimals r.clock
  .ok (r.setRewardInfo token info)

/-- `UserRewardInfo::process_init_if_needed`: a new account starts with bookmark
0, and is accrued like any other. -/
def accrueUser (r : Realm) (token user : Pubkey) : Result Realm := do
  let info ← okOr .account (r.rewardInfo token)
  let stake ← r.governanceBalance user
  let account ← ((r.userRewardInfo token user).getD {}).accrueRewards info stake
  .ok (r.setUserRewardInfo token user account)

/-- One round of `accrue_rewards`: the global account, the caller, and the user
when that is someone else. -/
def accrueRewardToken (caller user : Pubkey) (r : Realm) (token : Pubkey) : Result Realm := do
  let r ← r.accrueGlobal token
  let r ← r.accrueUser token caller
  if user = caller then .ok r else r.accrueUser token user

/-- `accrue_rewards`, over the reward tokens whose accounts were passed. -/
def accrueRewards (r : Realm) (caller user : Pubkey) (rewardTokens : List Pubkey) :
    Result Realm :=
  rewardTokens.foldlM (accrueRewardToken caller user) r

/-- What is left of a round of `claim_rewards` after the accrual. -/
def payOut (user : Pubkey) (r : Realm) (token : Pubkey) : Result Realm := do
  let info ← okOr .account (r.rewardInfo token)
  let account ← okOr .account (r.userRewardInfo token user)
  let (rawClaimableRewards, info, account) ← claimUpdate info account
  guardOr .external (rawClaimableRewards ≤ r.vault token)
  .ok { (r.setRewardInfo token info).setUserRewardInfo token user account with
    vault := Function.update r.vault token (r.vault token - rawClaimableRewards)
    received := Function.update r.received token (Function.update (r.received token) user
      (r.received token user + rawClaimableRewards)) }

/-- One round of `claim_rewards`. -/
def claimRewardToken (user : Pubkey) (r : Realm) (token : Pubkey) : Result Realm := do
  (← accrueRewardToken user user r token).payOut user token

/-! ### The governance program -/

def setDeposit (r : Realm) (owner : Pubkey) (amount : ℕ) : Realm :=
  { r with deposit := Function.update r.deposit owner (some amount) }

/-- The transfer of a deposit into the holding account. -/
def transferIn (r : Realm) (source : Source) (amount : ℕ) : Result Realm := do
  let holding ← fitting u64Max .external (r.holding + amount)
  match source with
  | .account key => do
      guardOr .external (amount ≤ r.wallet key)
      .ok { r with holding, wallet := Function.update r.wallet key (r.wallet key - amount) }
  | .mint => .ok { r with holding }

/-- `process_deposit_governing_tokens`. A new record starts with nothing, the
rewards are accrued, and only then is the amount added. -/
def depositGoverningTokens (r : Realm) (owner : Pubkey) (source : Source) (amount : ℕ)
    (rewardTokens : List Pubkey) : Result Realm := do
  guardOr .governance (r.canDeposit = true)
  let r ← (r.setDeposit owner ((r.deposit owner).getD 0)).accrueRewards owner owner rewardTokens
  let r ← r.transferIn source amount
  let stake ← fitting u64Max .panic ((r.deposit owner).getD 0 + amount)
  .ok (r.setDeposit owner stake)

/-- `process_withdraw_governing_tokens`: the whole deposit, after an accrual. -/
def withdrawGoverningTokens (r : Realm) (owner destination : Pubkey)
    (rewardTokens : List Pubkey) : Result Realm := do
  guardOr .governance (r.canWithdraw = true)
  let amount ← okOr .governance (r.deposit owner)
  guardOr .governance (r.locked owner = false)
  let r ← r.accrueRewards owner owner rewardTokens
  guardOr .external (amount ≤ r.holding)
  let r := { r with
    holding := r.holding - amount
    wallet := Function.update r.wallet destination (r.wallet destination + amount) }
  .ok (r.setDeposit owner 0)

/-- One instruction. -/
def step (r : Realm) : Instruction → Result Realm
  | .depositGoverningTokens owner source amount rewardTokens =>
      r.depositGoverningTokens owner source amount rewardTokens
  | .withdrawGoverningTokens owner destination rewardTokens =>
      r.withdrawGoverningTokens owner destination rewardTokens
  | .accrueRewards caller user rewardTokens => r.accrueRewards caller user rewardTokens
  | .claimRewards user rewardTokens => rewardTokens.foldlM (claimRewardToken user) r
  | .tick seconds => .ok { r with clock := r.clock + seconds }
  | .topUp token amount =>
      .ok { r with vault := Function.update r.vault token (r.vault token + amount) }
  | .setLocked user locked => .ok { r with locked := Function.update r.locked user locked }
  | .setRewardRatio ratio => .ok { r with rewardRatio := ratio }

/-! ### Observations -/

/-- The reward index of a token. -/
def index (r : Realm) (token : Pubkey) : ℕ := (r.rewardInfo token).elim 0 (·.rewardIndex)

/-- A user's stake. -/
def stake (r : Realm) (user : Pubkey) : ℕ := (r.deposit user).getD 0

/-- A user's account, or the one that would be created for her. -/
def account (r : Realm) (token user : Pubkey) : UserRewardInfo :=
  (r.userRewardInfo token user).getD {}

/-- What a user was credited in a reward token: accrued or already claimed, in D18. -/
def credited (r : Realm) (token user : Pubkey) : ℕ :=
  (r.account token user).accruedRewards + r.received token user * Decimal.d9

/-- A realm before anything was staked, handed out or claimed in it. -/
structure Fresh (r : Realm) : Prop where
  index_eq : ∀ token, r.index token = 0
  deposit_eq : ∀ user, r.deposit user = none
  userRewardInfo_eq : ∀ token user, r.userRewardInfo token user = none
  received_eq : ∀ token user, r.received token user = 0

/-- What a user is entitled to after a run: each increment of the index, times
her stake at that moment. No instruction changes a stake before it has moved the
indices, so that is her stake before the instruction. -/
def entitled (token user : Pubkey) : Realm → List Instruction → ℕ
  | _, [] => 0
  | r, i :: rest =>
      ((attempt step r i).index token - r.index token) * r.stake user
        + entitled token user (attempt step r i) rest

end Realm

end IndexDtf
