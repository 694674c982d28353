import IndexDtf.Lib.Transition
import IndexDtf.Rewards.AccountSpec

/-!
# IndexDtf.Rewards.Pool

**Reward solvency.** One reward token of a realm whose governance token has nine
decimals: the vault, its `RewardInfo`, and any finite set of members with their
stakes and accounts. A user is accrued before her stake changes, and the staked
supply is the sum of the stakes.

What the members are due, settled or not, is `IndexShare.totalDue`. It stays
below what was accounted as handed out as long as the index is not rounded up
further than the accounted balance: `rewards_covered`. The index rounds up by a
unit *per staked unit*, the balance by a single unit, so with more than a whole
token staked the condition can fail, and then more is promised than was handed
out: `rewards_overpromised`.
-/

namespace IndexDtf

open Lib Decimal

/-- One reward token: its accounts, its vault, and the users' stakes in D9. -/
structure Pool where
  ratio : ℕ
  vault : ℕ
  info : RewardInfo
  stake : Pubkey → ℕ
  user : Pubkey → UserRewardInfo

namespace Pool

/-- The decimals of the governance token. -/
def decimals : ℕ := 9

/-- What happens to a pool. -/
inductive Op
  /-- `RewardInfo::accrue_rewards` at a time. -/
  | accrueGlobal (now : ℕ)
  /-- `UserRewardInfo::accrue_rewards` of a user. -/
  | accrueUser (user : Pubkey)
  /-- `claim_rewards` of a user, which accrues both accounts first. -/
  | claimRewards (user : Pubkey) (now : ℕ)
  /-- Reward tokens arrive in the vault. -/
  | topUp (amount : ℕ)
  /-- A user is accrued, then her stake changes. -/
  | changeStake (user : Pubkey) (stake : ℕ)
  /-- The realm sets another reward ratio. -/
  | setRewardRatio (ratio : ℕ)
  deriving DecidableEq, Repr

variable (members : Finset Pubkey)

/-- The staked supply: the sum of the members' stakes. -/
def staked (p : Pool) : ℕ := ∑ u ∈ members, p.stake u

/-- The pool with another account of one user. -/
def setUser (p : Pool) (u : Pubkey) (user : UserRewardInfo) : Pool :=
  { p with user := Function.update p.user u user }

/-- The global account is accrued with the vault and the stakes as they are. -/
def accrueGlobal (p : Pool) (now : ℕ) : Result Pool := do
  let info ← p.info.accrueRewards p.ratio p.vault (p.staked members) decimals now
  .ok { p with info }

/-- A member's account is accrued against the global one. -/
def accrueUser (p : Pool) (u : Pubkey) : Result Pool := do
  guardOr .account (u ∈ members)
  let user ← (p.user u).accrueRewards p.info (p.stake u)
  .ok (p.setUser u user)

/-- What is left of `claim_rewards` after both accounts were accrued. -/
def payOut (p : Pool) (u : Pubkey) : Result Pool := do
  let (rawClaimableRewards, info, user) ← claimUpdate p.info (p.user u)
  guardOr .external (rawClaimableRewards ≤ p.vault)
  .ok { p with
    info, vault := p.vault - rawClaimableRewards, user := Function.update p.user u user }

/-- One operation on a pool. -/
def step (p : Pool) : Op → Result Pool
  | .accrueGlobal now => p.accrueGlobal members now
  | .accrueUser u => p.accrueUser members u
  | .claimRewards u now => do (← (← p.accrueGlobal members now).accrueUser members u).payOut u
  | .topUp amount => .ok { p with vault := p.vault + amount }
  | .changeStake u stake => do
      let accrued ← p.accrueUser members u
      .ok { accrued with stake := Function.update accrued.stake u stake }
  | .setRewardRatio ratio => .ok { p with ratio }

/-- A pool as it is created: nothing was handed out, credited or claimed. -/
structure Fresh (p : Pool) : Prop where
  rewardIndex_eq : p.info.rewardIndex = 0
  balanceAccounted_eq : p.info.balanceAccounted = 0
  totalClaimed_eq : p.info.totalClaimed = 0
  balanceLastKnown_le : p.info.balanceLastKnown ≤ u128Max
  user_eq : ∀ u, p.user u = {}

/-! ### The condition -/

/-- The index update at `now` would not promise more than it hands out: there is
nothing to round in the index, or what its rounding adds for the whole staked
supply is covered by the unit the accounted balance is rounded up by. -/
def RoundingCovered (info : RewardInfo) (ratio staked now : ℕ) : Prop :=
  match info.tokensToHandout ratio (now - info.payoutLastPaid) with
  | .error _ => True
  | .ok handout =>
      info.isDisallowed = true ∨ now ≤ info.payoutLastPaid ∨
        handout.val * 10 ^ decimals / staked % d18 = 0 ∨
        staked - handout.val * 10 ^ decimals % staked
          ≤ if handout.val % d18 = 0 then 0 else 10 ^ decimals

instance (info : RewardInfo) (ratio staked now : ℕ) :
    Decidable (RoundingCovered info ratio staked now) := by
  unfold RoundingCovered
  split <;> infer_instance

/-- The condition on an operation: it concerns those that accrue the global account. -/
def Covered (p : Pool) : Op → Prop
  | .accrueGlobal now => RoundingCovered p.info p.ratio (p.staked members) now
  | .claimRewards _ now => RoundingCovered p.info p.ratio (p.staked members) now
  | _ => True

instance (p : Pool) (op : Op) : Decidable (p.Covered members op) := by
  cases op <;> unfold Covered <;> infer_instance

/-! ### The invariant -/

/-- The members as holders of the index. -/
def share (p : Pool) (u : Pubkey) : IndexShare := (p.user u).share (p.stake u)

/-- Nobody is settled beyond the index, and what the holders are due or have
claimed was handed out. -/
structure Sound (info : RewardInfo) (share : Pubkey → IndexShare) : Prop where
  marks : ∀ u ∈ members, (share u).bookmark ≤ info.rewardIndex
  due : IndexShare.totalDue d18 info.rewardIndex members share + info.totalClaimed * d18
    ≤ info.balanceAccounted * d18
  known : info.balanceLastKnown ≤ u128Max

/-- The invariant of a pool. -/
def Inv (p : Pool) : Prop := Sound members p.info p.share

variable {members} {p p' : Pool} {info info' : RewardInfo} {share : Pubkey → IndexShare}
  {u : Pubkey} {now : ℕ}

theorem Fresh.inv (h : p.Fresh) : p.Inv members := by
  refine ⟨fun u _ => ?_, ?_, h.balanceLastKnown_le⟩
  · simp [Pool.share, UserRewardInfo.share, h.user_eq u]
  · rw [h.rewardIndex_eq, h.totalClaimed_eq, h.balanceAccounted_eq]
    simp [IndexShare.totalDue, IndexShare.due, Pool.share, UserRewardInfo.share, h.user_eq]

/-! ### The steps of the invariant -/

/-- The rounding of one index update: what it promises to the whole staked
supply is at most what it accounts for. -/
theorem promised_le_accounted {handout staked : ℕ} (hpos : 0 < staked)
    (h : handout * 10 ^ decimals / staked % d18 = 0 ∨
      staked - handout * 10 ^ decimals % staked ≤ if handout % d18 = 0 then 0 else 10 ^ decimals) :
    staked * ceilTail (handout * 10 ^ decimals / staked) ≤ 10 ^ decimals * ceilTail handout := by
  have hdiv := Nat.div_add_mod (handout * 10 ^ decimals) staked
  have hmod := Nat.mod_lt (handout * 10 ^ decimals) hpos
  have hge : 10 ^ decimals * handout ≤ 10 ^ decimals * ceilTail handout :=
    Nat.mul_le_mul_left _ (le_ceilTail handout)
  rw [Nat.mul_comm (10 ^ decimals) handout] at hge
  by_cases hwhole : handout * 10 ^ decimals / staked % d18 = 0
  · rw [ceilTail, if_pos hwhole]
    omega
  · have hmissing := h.resolve_left hwhole
    rw [ceilTail, if_neg hwhole, Nat.mul_add_one]
    by_cases hh : handout % d18 = 0
    · rw [if_pos hh] at hmissing
      omega
    · rw [if_neg hh] at hmissing
      rw [ceilTail, if_neg hh, Nat.mul_add_one, Nat.mul_comm (10 ^ decimals) handout]
      omega

/-- Raising the index by `i` and the accounted balance by `a`: the balance has to
pay for the index. -/
theorem Sound.raise {i a : ℕ} (h : Sound members info share)
    (hknown : info'.balanceLastKnown ≤ u128Max) (hclaimed : info'.totalClaimed = info.totalClaimed)
    (hindex : info'.rewardIndex = info.rewardIndex + i)
    (haccounted : info'.balanceAccounted = info.balanceAccounted + a)
    (hpays : (∑ u ∈ members, (share u).weight) * i ≤ a * d18) : Sound members info' share := by
  refine ⟨fun u hu => ?_, ?_, hknown⟩
  · rw [hindex]
    exact (h.marks u hu).trans (Nat.le_add_right ..)
  · have hdue := h.due
    rw [hindex, hclaimed, haccounted, IndexShare.totalDue_advance h.marks, Nat.add_mul]
    omega

/-- A member is replaced by one who is settled no further than the index and,
with `k` units on top that were claimed, is due no more. -/
theorem Sound.replace {b : IndexShare} (k : ℕ) (h : Sound members info share) (hu : u ∈ members)
    (hmark : b.bookmark ≤ info.rewardIndex)
    (hdue : b.due d18 info.rewardIndex + k * d18 ≤ (share u).due d18 info.rewardIndex) :
    Sound members { info with totalClaimed := info.totalClaimed + k }
      (Function.update share u b) := by
  refine ⟨fun v hv => ?_, ?_, h.known⟩
  · by_cases hvu : v = u
    · subst hvu
      rw [Function.update_self]
      exact hmark
    · rw [Function.update_of_ne hvu]
      exact h.marks v hv
  · have htotal := IndexShare.totalDue_update_le hu hdue
    have hcovered := h.due
    dsimp only
    rw [Nat.add_mul]
    omega

/-- The holders do not depend on the global account or the vault. -/
theorem Sound.inv (q : Pool) (h : Sound members p.info q.share) (huser : p.user = q.user)
    (hstake : p.stake = q.stake) : p.Inv members := by
  have hshare : p.share = q.share := by
    funext v
    rw [Pool.share, Pool.share, huser, hstake]
  rw [Inv, hshare]
  exact h

theorem share_setUser (p : Pool) (u : Pubkey) (user : UserRewardInfo) :
    (p.setUser u user).share = Function.update p.share u (user.share (p.stake u)) := by
  funext v
  by_cases hv : v = u
  · subst hv
    simp [Pool.share, setUser]
  · simp [Pool.share, setUser, hv]

/-- Accruing the global account keeps the invariant when its rounding is covered. -/
theorem accrueGlobal_inv (hinv : p.Inv members)
    (hcov : RoundingCovered p.info p.ratio (p.staked members) now)
    (h : p.accrueGlobal members now = .ok p') : p'.Inv members := by
  rw [accrueGlobal, bind_eq_ok] at h
  obtain ⟨info, h, heq⟩ := h
  cases heq
  refine Sound.inv p ?_ rfl rfl
  obtain ⟨hclaimed, -, rfl | ⟨hknown, ⟨hi, ha⟩ | hout⟩⟩ := RewardInfo.accrueRewards_spec h
  · exact hinv
  · exact hinv.raise (i := 0) (a := 0) hknown hclaimed hi ha (by simp)
  · obtain ⟨handout, hpos, hdis, htime, hhandout, hi, ha⟩ := hout
    -- the accounted balance is not saturated, the handout being part of a `u128`
    have hfits : ceilTail handout.val ≤ u128Max := by
      have := hinv.known
      obtain ⟨-, h0 | hlt⟩ := RewardInfo.tokensToHandout_le hhandout
      · rw [h0]
        decide
      · unfold ceilTail
        split <;> omega
    rw [Nat.min_eq_left hfits] at ha
    refine hinv.raise hknown hclaimed hi ha ?_
    rw [RoundingCovered, hhandout] at hcov
    have hround := promised_le_accounted hpos <| by
      rcases hcov with hc | hc | hc
      · exact absurd (hdis.symm.trans hc) (by decide)
      · omega
      · exact hc
    have hweights : ∑ u ∈ members, (p.share u).weight = p.staked members * 10 ^ decimals := by
      simp only [Pool.share, UserRewardInfo.share, staked, Finset.sum_mul]
      rfl
    have hd18 : d18 = 10 ^ decimals * 10 ^ decimals := by decide
    calc (∑ u ∈ members, (p.share u).weight) * min (ceilTail _) u128Max
        ≤ p.staked members * 10 ^ decimals * ceilTail _ := by
          rw [hweights]
          exact Nat.mul_le_mul_left _ (Nat.min_le_left ..)
      _ = 10 ^ decimals * (p.staked members * ceilTail _) := by ring
      _ ≤ 10 ^ decimals * (10 ^ decimals * ceilTail handout.val) := Nat.mul_le_mul_left _ hround
      _ = ceilTail handout.val * d18 := by rw [hd18]; ring

/-- Settling a member keeps the invariant and brings her up to the index. -/
theorem accrueUser_inv (hinv : p.Inv members) (h : p.accrueUser members u = .ok p') :
    u ∈ members ∧ p'.info = p.info ∧ (p'.user u).lastRewardIndex = p.info.rewardIndex ∧
      p'.Inv members := by
  rw [accrueUser, bind_eq_ok] at h
  obtain ⟨_, hu, h⟩ := h
  rw [guardOr_eq_ok] at hu
  rw [bind_eq_ok] at h
  obtain ⟨user, h, heq⟩ := h
  cases heq
  obtain ⟨hmark, hdue⟩ := UserRewardInfo.accrueRewards_due (hinv.marks u hu) h
  refine ⟨hu, rfl, by simp [setUser, hmark], ?_⟩
  rw [Inv, share_setUser]
  exact hinv.replace 0 hu hmark.le (by rw [Nat.zero_mul, Nat.add_zero]; exact hdue)

/-- The stake of a settled member may change. -/
theorem changeStake_inv (hinv : p.Inv members)
    (hmark : (p.user u).lastRewardIndex = p.info.rewardIndex) (stake : ℕ) :
    ({ p with stake := Function.update p.stake u stake } : Pool).Inv members := by
  have hdue : ∀ v, (Pool.share { p with stake := Function.update p.stake u stake } v).due d18
      p.info.rewardIndex = (p.share v).due d18 p.info.rewardIndex := by
    intro v
    by_cases hvu : v = u
    · subst hvu
      simp [Pool.share, UserRewardInfo.share, IndexShare.due, hmark]
    · simp [Pool.share, hvu]
  refine ⟨hinv.marks, ?_, hinv.known⟩
  rw [IndexShare.totalDue, Finset.sum_congr rfl fun v _ => hdue v]
  exact hinv.due

/-- A claim pays what it takes off the user's account. -/
theorem payOut_inv (hinv : p.Inv members) (hu : u ∈ members) (h : p.payOut u = .ok p') :
    p'.Inv members := by
  rw [payOut, bind_eq_ok] at h
  obtain ⟨⟨raw, info, user⟩, hclaim, h⟩ := h
  rw [bind_eq_ok] at h
  obtain ⟨_, -, heq⟩ := h
  cases heq
  obtain ⟨-, hle, hinfo, huser⟩ := claimUpdate_spec hclaim
  have hmark : user.lastRewardIndex = (p.user u).lastRewardIndex := by rw [huser]
  have hcredit : user.accruedRewards = (p.user u).accruedRewards - raw * d9 := by rw [huser]
  have hpaid : (user.share (p.stake u)).due d18 p.info.rewardIndex + raw * d9 * d18
      = (p.share u).due d18 p.info.rewardIndex := by
    simp only [UserRewardInfo.share, Pool.share, IndexShare.due, hmark, hcredit, Nat.sub_mul]
    have := Nat.mul_le_mul_right d18 hle
    omega
  refine Sound.inv (p.setUser u user) ?_ rfl rfl
  rw [share_setUser, hinfo]
  exact hinv.replace (raw * d9) hu (hmark.trans_le (hinv.marks u hu)) hpaid.le

/-! ### Runs -/

theorem step_inv {op : Op} (hcov : p.Covered members op) (hinv : p.Inv members)
    (h : p.step members op = .ok p') : p'.Inv members := by
  cases op with
  | accrueGlobal now => exact accrueGlobal_inv hinv hcov h
  | accrueUser u => exact (accrueUser_inv hinv h).2.2.2
  | claimRewards u now =>
      simp only [step, bind_eq_ok] at h
      obtain ⟨p₁, h₁, p₂, h₂, h₃⟩ := h
      obtain ⟨hu, -, -, hinv₂⟩ := accrueUser_inv (accrueGlobal_inv hinv hcov h₁) h₂
      exact payOut_inv hinv₂ hu h₃
  | topUp amount =>
      cases h
      exact ⟨hinv.marks, hinv.due, hinv.known⟩
  | changeStake u stake =>
      simp only [step, bind_eq_ok] at h
      obtain ⟨p₁, h₁, heq⟩ := h
      cases heq
      obtain ⟨-, hinfo, hmark, hinv₁⟩ := accrueUser_inv hinv h₁
      exact changeStake_inv hinv₁ (hinfo ▸ hmark) stake
  | setRewardRatio ratio =>
      cases h
      exact ⟨hinv.marks, hinv.due, hinv.known⟩

/-- **Reward solvency.** In a run whose index updates are covered, what users
accrued or claimed was accounted for as handed out, in every state. -/
theorem rewards_covered (ops : List Op) (hfresh : p.Fresh)
    (hcov : RunMeets (step members) (Covered members) p ops) :
    let q := run (step members) p ops
    (∑ u ∈ members, (q.user u).accruedRewards) + q.info.totalClaimed
      ≤ q.info.balanceAccounted := by
  intro q
  have hinv : q.Inv members := hcov.inv (fun _ _ _ => step_inv) hfresh.inv
  have hcredited := IndexShare.credited_mul_le_totalDue d18 q.info.rewardIndex members q.share
  have hdue := hinv.due
  have hpos : 0 < d18 := by decide
  refine Nat.le_of_mul_le_mul_right ?_ hpos
  rw [Nat.add_mul]
  exact (Nat.add_le_add_right hcredited _).trans hdue

/-- A new pool whose vault holds one reward token, with a half life of a day. -/
def newPool (stake : Pubkey → ℕ) : Pool where
  ratio := ln2 / dayInSeconds
  vault := 1000000000
  info := ⟨0, 0, 0, 0, 0, false⟩
  stake := stake
  user := fun _ => {}

theorem newPool_fresh (stake : Pubkey → ℕ) : (newPool stake).Fresh :=
  ⟨rfl, rfl, rfl, Nat.zero_le _, fun _ => rfl⟩

/-- Two users with half a governance token each: the rounding is covered. -/
theorem rewards_covered_one_token :
    let q := run (step {1, 2}) (newPool fun _ => 500000000)
      [.accrueGlobal 1, .accrueGlobal 86401, .accrueUser 2, .claimRewards 1 90000]
    (∑ u ∈ ({1, 2} : Finset Pubkey), (q.user u).accruedRewards) + q.info.totalClaimed
      ≤ q.info.balanceAccounted :=
  rewards_covered _ (newPool_fresh _) (by decide)

/-- With a billion governance tokens staked, the unit the index is rounded up by
is worth more than the handout: the user is credited more than was accounted. -/
theorem rewards_overpromised :
    let p := newPool fun u => if u = 1 then 1000000000000000000 else 0
    let q := run (step {1}) p [.accrueGlobal 1, .accrueGlobal 2, .accrueUser 1]
    p.Fresh ∧ q.info.balanceAccounted
      < (∑ u ∈ ({1} : Finset Pubkey), (q.user u).accruedRewards) + q.info.totalClaimed :=
  ⟨newPool_fresh _, by decide⟩

end Pool

end IndexDtf
