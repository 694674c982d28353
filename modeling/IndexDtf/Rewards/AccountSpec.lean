import IndexDtf.Lib.IndexShare
import IndexDtf.Rewards.Account

/-!
# IndexDtf.Rewards.AccountSpec

One specification for each account update of the rewards program. Everything
proved about runs of the programs is read off these, never off the code:

* `RewardInfo.accrueRewards_spec` — nothing is claimed, the index only grows, and
  by how much it and the accounted balance grow;
* `UserRewardInfo.accrueRewards_spec` — settling as an `IndexShare`;
* `claimUpdate_spec` — an amount moves from accrued to claimed.
-/

namespace IndexDtf

open Lib

open Decimal

namespace RewardInfo

/-! ### The global account -/

theorem calculateDeltaIndex_spec {info : RewardInfo} {handout : Decimal} {staked decimals i : ℕ}
    (h : info.calculateDeltaIndex handout staked decimals = .ok i) :
    i = info.rewardIndex + min (ceilTail (handout.val * 10 ^ decimals / staked)) u128Max := by
  simp only [calculateDeltaIndex, bind_eq_ok, fitting_eq_ok, mul_eq_ok, div_eq_ok,
    fromScaled_val] at h
  obtain ⟨_, ⟨-, rfl⟩, _, ⟨-, rfl⟩, _, ⟨-, rfl⟩, _, ⟨-, rfl⟩, _, ⟨-, rfl⟩, δ, hδ, hi⟩ := h
  have hquot : oneE18.val * handout.val * 10 ^ decimals / staked / oneE18.val
      = handout.val * 10 ^ decimals / staked := by
    rw [Nat.div_div_eq_div_mul, Nat.mul_comm staked, Nat.mul_assoc]
    exact Nat.mul_div_mul_left _ _ (by decide)
  rw [checkedAddU128_eq_ok] at hi
  obtain ⟨-, rfl⟩ := hi
  rw [toScaled_ceiling hδ]
  simp only [hquot]

/-- What an accrual does: it may do nothing; without stakes it only takes note of
the time and the balance; else it hands out. -/
theorem accrueRewards_spec {info info' : RewardInfo} {ratio balance staked decimals now : ℕ}
    (h : info.accrueRewards ratio balance staked decimals now = .ok info') :
    info'.totalClaimed = info.totalClaimed ∧ info'.isDisallowed = info.isDisallowed ∧
      (info' = info ∨ info'.balanceLastKnown ≤ u128Max ∧
        (info'.rewardIndex = info.rewardIndex ∧
          info'.balanceAccounted = info.balanceAccounted ∨
        ∃ handout, 0 < staked ∧ info.isDisallowed = false ∧ info.payoutLastPaid < now ∧
          info.tokensToHandout ratio (now - info.payoutLastPaid) = .ok handout ∧
          info'.rewardIndex = info.rewardIndex
            + min (ceilTail (handout.val * 10 ^ decimals / staked)) u128Max ∧
          info'.balanceAccounted = info.balanceAccounted
            + min (ceilTail handout.val) u128Max)) := by
  unfold accrueRewards at h
  by_cases hdis : info.isDisallowed
  · rw [if_pos hdis] at h
    cases h
    exact ⟨rfl, rfl, .inl rfl⟩
  by_cases htime : now ≤ info.payoutLastPaid
  · rw [if_neg hdis, if_pos htime] at h
    cases h
    exact ⟨rfl, rfl, .inl rfl⟩
  rw [if_neg hdis, if_neg htime, bind_eq_ok] at h
  obtain ⟨_, -, h⟩ := h
  rw [bind_eq_ok] at h
  obtain ⟨_, -, h⟩ := h
  rw [bind_eq_ok] at h
  obtain ⟨known, hknown, h⟩ := h
  have hle : known ≤ u128Max := toScaled_ceiling hknown ▸ Nat.min_le_right ..
  rw [bind_eq_ok] at h
  obtain ⟨handout, hhandout, h⟩ := h
  by_cases hstaked : staked > 0
  · rw [if_pos hstaked, bind_eq_ok] at h
    obtain ⟨index, hindex, h⟩ := h
    rw [bind_eq_ok] at h
    obtain ⟨scaled, hscaled, h⟩ := h
    rw [bind_eq_ok] at h
    obtain ⟨accounted, haccounted, h⟩ := h
    rw [checkedAddU128_eq_ok] at haccounted
    cases h
    refine ⟨rfl, rfl, .inr ⟨hle, .inr ⟨handout, hstaked, by simpa using hdis, by omega, hhandout,
      calculateDeltaIndex_spec hindex, ?_⟩⟩⟩
    rw [← toScaled_ceiling hscaled]
    exact haccounted.2.symm
  · rw [if_neg hstaked] at h
    cases h
    exact ⟨rfl, rfl, .inr ⟨hle, .inl ⟨rfl, rfl⟩⟩⟩

/-- Nothing happens to an account that is disallowed or was accrued at that time. -/
theorem accrueRewards_idle {info : RewardInfo} {ratio balance staked decimals now : ℕ}
    (h : info.isDisallowed = true ∨ now ≤ info.payoutLastPaid) :
    info.accrueRewards ratio balance staked decimals now = .ok info := by
  unfold accrueRewards
  by_cases hdis : info.isDisallowed = true
  · rw [if_pos hdis]
  · rw [if_neg hdis, if_pos (h.resolve_left hdis)]

/-- Else it takes note of the time, and of the vault with all that was claimed. -/
theorem accrueRewards_update {info info' : RewardInfo} {ratio balance staked decimals now : ℕ}
    (hdis : info.isDisallowed = false) (htime : info.payoutLastPaid < now)
    (h : info.accrueRewards ratio balance staked decimals now = .ok info') :
    info'.payoutLastPaid = now ∧
      info'.balanceLastKnown = min (ceilTail (balance * d9 + info.totalClaimed)) u128Max := by
  rw [accrueRewards, hdis, if_neg Bool.false_ne_true, if_neg htime.not_ge] at h
  simp only [bind_eq_ok, fromTokenAmount_eq_ok, add_eq_ok, fromScaled_val] at h
  obtain ⟨_, ⟨-, rfl⟩, _, ⟨-, rfl⟩, known, hknown, handout, -, h⟩ := h
  have hknown := toScaled_ceiling hknown
  split at h
  · simp only [bind_eq_ok, Except.ok.injEq] at h
    obtain ⟨_, -, _, -, _, -, rfl⟩ := h
    exact ⟨rfl, hknown⟩
  · cases h
    exact ⟨rfl, hknown⟩

theorem accrueRewards_notes {info info' : RewardInfo} {ratio balance staked decimals now : ℕ}
    (h : info.accrueRewards ratio balance staked decimals now = .ok info') :
    info' = info ∨ info.payoutLastPaid < now ∧ info'.payoutLastPaid = now ∧
      info'.balanceLastKnown = min (ceilTail (balance * d9 + info.totalClaimed)) u128Max := by
  by_cases hidle : info.isDisallowed = true ∨ now ≤ info.payoutLastPaid
  · rw [accrueRewards_idle hidle] at h
    exact .inl (Except.ok.inj h).symm
  · rw [not_or, Bool.not_eq_true, Nat.not_le] at hidle
    exact .inr ⟨hidle.2, accrueRewards_update hidle.1 hidle.2 h⟩

/-- An accrual with stakes: nothing happens to an account that is disallowed or was accrued at that
time, or it hands out. -/
theorem accrueRewards_staked {info info' : RewardInfo} {ratio balance staked decimals now : ℕ}
    (hstaked : 0 < staked)
    (h : info.accrueRewards ratio balance staked decimals now = .ok info') :
    ((info.isDisallowed = true ∨ now ≤ info.payoutLastPaid) ∧ info' = info) ∨
      ∃ handout, info.isDisallowed = false ∧ info.payoutLastPaid < now ∧
        info.tokensToHandout ratio (now - info.payoutLastPaid) = .ok handout ∧
        info' = { info with
          payoutLastPaid := now
          rewardIndex := info.rewardIndex
            + min (ceilTail (handout.val * 10 ^ decimals / staked)) u128Max
          balanceAccounted := info.balanceAccounted + min (ceilTail handout.val) u128Max
          balanceLastKnown := min (ceilTail (balance * d9 + info.totalClaimed)) u128Max } := by
  unfold accrueRewards at h
  split at h
  · next hdis =>
    cases h
    exact .inl ⟨.inl hdis, rfl⟩
  · next hdis =>
    split at h
    · next htime =>
      cases h
      exact .inl ⟨.inr htime, rfl⟩
    · next htime =>
      simp only [bind_eq_ok, fromTokenAmount_eq_ok, add_eq_ok, fromScaled_val,
        checkedAddU128_eq_ok, Except.ok.injEq] at h
      obtain ⟨_, ⟨-, rfl⟩, _, ⟨-, rfl⟩, known, hknown, handout, hhandout, index, hindex, scaled,
        hscaled, _, ⟨-, rfl⟩, rfl⟩ := h
      refine .inr ⟨handout, Bool.not_eq_true _ ▸ hdis, Nat.not_le.mp htime, hhandout, ?_⟩
      rw [calculateDeltaIndex_spec hindex, toScaled_ceiling hscaled, toScaled_ceiling hknown]

/-- The index never goes back. -/
theorem accrueRewards_index_le {info info' : RewardInfo} {ratio balance staked decimals now : ℕ}
    (h : info.accrueRewards ratio balance staked decimals now = .ok info') :
    info.rewardIndex ≤ info'.rewardIndex := by
  obtain ⟨-, -, rfl | ⟨-, ⟨hi, -⟩ | ⟨_, -, -, -, -, hi, -⟩⟩⟩ := accrueRewards_spec h
  · exact le_rfl
  · exact hi.ge
  · omega

/-- A handout is part of what is not accounted for. -/
theorem tokensToHandout_le {info : RewardInfo} {ratio elapsed : ℕ} {handout : Decimal}
    (h : info.tokensToHandout ratio elapsed = .ok handout) :
    info.balanceAccounted ≤ info.balanceLastKnown ∧
      (handout.val = 0 ∨ handout.val < info.balanceLastKnown - info.balanceAccounted) := by
  simp only [tokensToHandout, bind_eq_ok, checkedSub_eq_ok, sub_eq_ok, mul_eq_ok, div_eq_ok,
    fromScaled_val] at h
  obtain ⟨_, ⟨hle, rfl⟩, _, ⟨-, rfl⟩, power, -, _, ⟨-, rfl⟩, _, ⟨hone, rfl⟩, _, ⟨-, rfl⟩, -,
    rfl⟩ := h
  refine ⟨hle, ?_⟩
  simp only [oneE18, one] at hone ⊢
  rcases Nat.eq_zero_or_pos (info.balanceLastKnown - info.balanceAccounted) with h0 | hpos
  · exact .inl (by rw [h0]; simp)
  · refine .inr ?_
    rw [Nat.div_lt_iff_lt_mul (by decide)]
    exact Nat.mul_lt_mul_of_pos_left (by unfold d18 at *; omega) hpos

end RewardInfo

/-! ### A user's account -/

namespace UserRewardInfo

/-- A user's account and stake, as a holder of the index. Stakes weigh in D18,
as `from_token_amount` scales them. -/
def share (user : UserRewardInfo) (stake : ℕ) : IndexShare :=
  ⟨user.accruedRewards, stake * d9, user.lastRewardIndex⟩

/-- Settling a user: nothing happens, or she is credited up to the index. -/
theorem accrueRewards_spec {user user' : UserRewardInfo} {info : RewardInfo} {stake : ℕ}
    (h : user.accrueRewards info stake = .ok user') :
    (info.rewardIndex ≤ user.lastRewardIndex ∧ user' = user) ∨
      user'.lastRewardIndex = info.rewardIndex ∧
        user'.accruedRewards ≤ user.accruedRewards
          + stake * d9 * (info.rewardIndex - user.lastRewardIndex) / d18 := by
  unfold accrueRewards at h
  by_cases hle : info.rewardIndex ≤ user.lastRewardIndex
  · rw [if_pos hle] at h
    cases h
    exact .inl ⟨hle, rfl⟩
  · rw [if_neg hle] at h
    simp only [bind_eq_ok, fromTokenAmount_eq_ok, mul_eq_ok, div_eq_ok, toScaled_floor,
      checkedAddU128_eq_ok, fromScaled_val, Except.ok.injEq] at h
    obtain ⟨_, ⟨-, rfl⟩, _, ⟨-, rfl⟩, _, ⟨-, rfl⟩, _, rfl, _, ⟨-, rfl⟩, rfl⟩ := h
    exact .inr ⟨rfl, Nat.add_le_add_left (Nat.min_le_left ..) _⟩

/-- Settling brings the bookmark up to the index and does not increase what the
user is due. -/
theorem accrueRewards_due {user user' : UserRewardInfo} {info : RewardInfo} {stake : ℕ}
    (hmark : user.lastRewardIndex ≤ info.rewardIndex)
    (h : user.accrueRewards info stake = .ok user') :
    user'.lastRewardIndex = info.rewardIndex ∧
      (user'.share stake).due d18 info.rewardIndex
        ≤ (user.share stake).due d18 info.rewardIndex := by
  rcases accrueRewards_spec h with ⟨hge, rfl⟩ | ⟨hindex, hcredit⟩
  · exact ⟨by omega, le_rfl⟩
  · refine ⟨hindex, ?_⟩
    unfold share
    rw [hindex]
    exact IndexShare.due_settle_le (a := user.share stake) hcredit

end UserRewardInfo

/-- A claim moves an amount from accrued to claimed, and touches nothing else. -/
theorem claimUpdate_spec {info info' : RewardInfo} {user user' : UserRewardInfo} {raw : ℕ}
    (h : claimUpdate info user = .ok (raw, info', user')) :
    0 < raw ∧ raw * d9 ≤ user.accruedRewards ∧
      info' = { info with totalClaimed := info.totalClaimed + raw * d9 } ∧
      user' = { user with accruedRewards := user.accruedRewards - raw * d9 } := by
  simp only [claimUpdate, bind_eq_ok, toTokenAmount_floor, checkedMulU128_eq_ok,
    checkedAddU128_eq_ok, checkedSub_eq_ok, checkCondition_eq_ok, Except.ok.injEq,
    Prod.mk.injEq] at h
  obtain ⟨_, rfl, _, ⟨-, rfl⟩, _, ⟨-, rfl⟩, _, ⟨hle, rfl⟩, -, hpos, rfl, rfl, rfl⟩ := h
  exact ⟨hpos, hle, rfl, rfl⟩

end IndexDtf
