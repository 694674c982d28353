import Mathlib.Algebra.Order.Field.Basic
import Mathlib.Data.Nat.Cast.Order.Field
import Mathlib.Data.Rat.Floor
import Mathlib.Tactic.FieldSimp
import Mathlib.Tactic.Linarith
import Mathlib.Tactic.Positivity
import Mathlib.Tactic.Ring
import IndexDtf.Rewards.AccountSpec

/-!
# IndexDtf.Rewards.Decimals

**The scale of the index.** `calculate_delta_index` scales the index by the decimals of the
governance token, but a user's account reads her stake with nine decimals. The two scales cancel
for a token with nine decimals only: `proportional_iff_nine_decimals`.
-/

namespace IndexDtf

open Lib Decimal

/-- An accrual that hands out an amount, and the next one of a user who was up to date. Neither the
index nor what the user is credited is cut off at the size of its type. -/
structure RewardAccrual (decimals staked stake handout : ℕ) (info info' : RewardInfo)
    (user user' : UserRewardInfo) : Prop where
  accrued : ∃ ratio balance now, info.isDisallowed = false ∧ info.payoutLastPaid < now ∧
    info.tokensToHandout ratio (now - info.payoutLastPaid) = .ok ⟨handout⟩ ∧
    info.accrueRewards ratio balance staked decimals now = .ok info'
  upToDate : user.lastRewardIndex = info.rewardIndex
  credited : user.accrueRewards info' stake = .ok user'
  index_fits : handout * 10 ^ decimals / staked < u128Max
  credit_fits : stake * d9 * (info'.rewardIndex - info.rewardIndex) / d18 ≤ u128Max

/-- How far a credit may be from the part of the handout. -/
def tolerance (decimals stake : ℕ) : ℚ := stake / 10 ^ decimals + stake / 10 ^ 9 + 1

/-- The credit is the user's part of the handout, up to the tolerance. -/
def Proportional (decimals staked stake handout credit : ℕ) : Prop :=
  |(credit : ℚ) - handout * stake / staked| ≤ tolerance decimals stake

/-! ### What is credited -/

/-- An accrual with stakes raises the index by what it hands out. -/
theorem RewardInfo.accrueRewards_index {info info' : RewardInfo}
    {ratio balance staked decimals now : ℕ} {handout : Decimal} (hdis : info.isDisallowed = false)
    (htime : info.payoutLastPaid < now) (hstaked : 0 < staked)
    (hhandout : info.tokensToHandout ratio (now - info.payoutLastPaid) = .ok handout)
    (h : info.accrueRewards ratio balance staked decimals now = .ok info') :
    info'.rewardIndex = info.rewardIndex
      + min (ceilTail (handout.val * 10 ^ decimals / staked)) u128Max := by
  rcases accrueRewards_staked hstaked h with ⟨hidle | hidle, -⟩ | ⟨handout', -, -, hhandout', rfl⟩
  · rw [hdis] at hidle
    cases hidle
  · exact absurd hidle (Nat.not_le.mpr htime)
  · obtain rfl : handout = handout' := Except.ok.inj (hhandout.symm.trans hhandout')
    rfl

/-- A user is credited her stake, in D18, times the growth of the index. -/
theorem UserRewardInfo.accrueRewards_credit {user user' : UserRewardInfo} {info : RewardInfo}
    {stake : ℕ} (h : user.accrueRewards info stake = .ok user') :
    user'.accruedRewards = user.accruedRewards
      + min (stake * d9 * (info.rewardIndex - user.lastRewardIndex) / d18) u128Max := by
  unfold accrueRewards at h
  split at h
  · next hle =>
    cases h
    rw [Nat.sub_eq_zero_of_le hle, Nat.mul_zero, Nat.zero_div, Nat.zero_min, Nat.add_zero]
  · simp only [bind_eq_ok, fromTokenAmount_eq_ok, mul_eq_ok, div_eq_ok, toScaled_floor,
      checkedAddU128_eq_ok, fromScaled_val, Except.ok.injEq] at h
    obtain ⟨_, ⟨-, rfl⟩, _, ⟨-, rfl⟩, _, ⟨-, rfl⟩, _, rfl, _, ⟨-, rfl⟩, rfl⟩ := h
    rfl

variable {decimals staked stake handout : ℕ} {info info' : RewardInfo}
  {user user' : UserRewardInfo}

/-- The credit, as a number. -/
theorem RewardAccrual.credit_eq
    (h : RewardAccrual decimals staked stake handout info info' user user')
    (hstaked : 0 < staked) :
    user'.accruedRewards - user.accruedRewards
      = stake * ceilTail (handout * 10 ^ decimals / staked) / d9 := by
  obtain ⟨ratio, balance, now, hdis, htime, hhandout, haccrue⟩ := h.accrued
  have hindex := RewardInfo.accrueRewards_index hdis htime hstaked hhandout haccrue
  have hceil : ceilTail (handout * 10 ^ decimals / staked) ≤ u128Max :=
    (ceilTail_le _).trans h.index_fits
  rw [Nat.min_eq_left hceil] at hindex
  have hfits := h.credit_fits
  have hcredit := UserRewardInfo.accrueRewards_credit h.credited
  rw [h.upToDate, Nat.min_eq_left hfits] at hcredit
  have hd18 : d18 = d9 * d9 := by decide
  have hd9 : 0 < d9 := by decide
  rw [hcredit, Nat.add_sub_cancel_left, hindex, Nat.add_sub_cancel_left, hd18, Nat.mul_right_comm,
    Nat.mul_div_mul_right _ _ hd9]

theorem ceilTail_div_bounds (n : ℕ) (hstaked : 0 < staked) :
    (n / staked : ℚ) - 1 ≤ ceilTail (n / staked) ∧
      (ceilTail (n / staked) : ℚ) ≤ (n / staked : ℚ) + 1 := by
  have hpos : (0 : ℚ) < staked := by exact_mod_cast hstaked
  have hge : ((n / staked : ℕ) : ℚ) ≤ ceilTail (n / staked) := by
    exact_mod_cast le_ceilTail (n / staked)
  have hle : (ceilTail (n / staked) : ℚ) ≤ (n / staked : ℕ) + 1 := by
    exact_mod_cast ceilTail_le (n / staked)
  have hfloor : ((n / staked : ℕ) : ℚ) ≤ n / staked := Nat.cast_div_le
  have hlt : (n / staked : ℚ) < (n / staked : ℕ) + 1 := by
    rw [div_lt_iff₀ hpos]
    exact_mod_cast Nat.lt_mul_of_div_lt (Nat.lt_succ_self _) hstaked
  exact ⟨by linarith, by linarith⟩

/-- **What is credited**: the user's part of the handout in the scale of the index, read with nine
decimals. -/
theorem RewardAccrual.credit_bounds
    (h : RewardAccrual decimals staked stake handout info info' user user')
    (hstaked : 0 < staked) :
    (handout * stake / staked : ℚ) * (10 ^ decimals / 10 ^ 9) - stake / 10 ^ 9 - 1
        ≤ (user'.accruedRewards - user.accruedRewards : ℕ) ∧
      ((user'.accruedRewards - user.accruedRewards : ℕ) : ℚ)
        ≤ (handout * stake / staked : ℚ) * (10 ^ decimals / 10 ^ 9) + stake / 10 ^ 9 := by
  rw [h.credit_eq hstaked]
  obtain ⟨hge, hle⟩ := ceilTail_div_bounds (handout * 10 ^ decimals) hstaked
  have hd9 : ((d9 : ℕ) : ℚ) = 10 ^ 9 := by norm_num [d9]
  have hscale : (handout * stake / staked : ℚ) * (10 ^ decimals / 10 ^ 9)
      = stake * ((handout * 10 ^ decimals : ℕ) / staked : ℚ) / 10 ^ 9 := by
    push_cast
    ring
  generalize ceilTail (handout * 10 ^ decimals / staked) = δ at *
  have hfloor : ((stake * δ / d9 : ℕ) : ℚ) ≤ stake * δ / 10 ^ 9 := by
    rw [← hd9]
    exact_mod_cast (Nat.cast_div_le : ((stake * δ / d9 : ℕ) : ℚ) ≤ (stake * δ : ℕ) / d9)
  have hlt : (stake * δ / 10 ^ 9 : ℚ) < (stake * δ / d9 : ℕ) + 1 := by
    rw [← hd9, div_lt_iff₀ (by norm_num [d9])]
    exact_mod_cast Nat.lt_mul_of_div_lt (Nat.lt_succ_self (stake * δ / d9)) (by decide)
  have hs : (0 : ℚ) ≤ stake := Nat.cast_nonneg _
  have hlow := mul_le_mul_of_nonneg_left hge hs
  have hhigh := mul_le_mul_of_nonneg_left hle hs
  rw [hscale]
  constructor
  · linarith
  · linarith

/-! ### Nine decimals -/

theorem RewardAccrual.proportional (h : RewardAccrual 9 staked stake handout info info' user user')
    (hstaked : 0 < staked) :
    Proportional 9 staked stake handout (user'.accruedRewards - user.accruedRewards) := by
  obtain ⟨hge, hle⟩ := h.credit_bounds hstaked
  have hone : ((10 : ℚ) ^ 9 / 10 ^ 9) = 1 := by norm_num
  have hs : (0 : ℚ) ≤ stake / 10 ^ 9 := by positivity
  rw [hone, mul_one] at hge hle
  rw [Proportional, tolerance, abs_le]
  constructor
  · linarith
  · linarith

/-- With fewer decimals the scale of the index is at most a tenth of the one the stake is read
with, with more it is at least ten times that. -/
theorem scale_of_ne (hne : decimals ≠ 9) :
    (10 ^ decimals / 10 ^ 9 : ℚ) ≤ 1 / 10 ∨ 10 ≤ (10 ^ decimals / 10 ^ 9 : ℚ) := by
  rcases Nat.lt_or_gt_of_ne hne with hless | hmore
  · left
    have hpow : (10 : ℚ) ^ decimals ≤ 10 ^ 8 := pow_le_pow_right₀ (by norm_num) (by omega)
    rw [div_le_iff₀ (by norm_num)]
    linarith
  · right
    have hpow : (10 : ℚ) ^ 10 ≤ 10 ^ decimals := pow_le_pow_right₀ (by norm_num) (by omega)
    rw [le_div_iff₀ (by norm_num)]
    linarith

/-- With any other decimals a part of the handout that is several times the tolerance is not what
is credited. -/
theorem RewardAccrual.not_proportional
    (h : RewardAccrual decimals staked stake handout info info' user user')
    (hstaked : 0 < staked) (hne : decimals ≠ 9)
    (hlarge : 4 * tolerance decimals stake ≤ handout * stake / staked) :
    ¬ Proportional decimals staked stake handout
      (user'.accruedRewards - user.accruedRewards) := by
  obtain ⟨hge, hle⟩ := h.credit_bounds hstaked
  have hs : (0 : ℚ) ≤ stake / 10 ^ 9 := by positivity
  have ht : (stake / 10 ^ 9 : ℚ) + 1 ≤ tolerance decimals stake := by
    have hown : (0 : ℚ) ≤ stake / 10 ^ decimals := by positivity
    rw [tolerance]
    linarith
  have hpart : (0 : ℚ) ≤ handout * stake / staked := by positivity
  rw [Proportional, not_le]
  rcases scale_of_ne hne with hscale | hscale
  · -- the credit is at most a tenth of the part
    have hmul := mul_le_mul_of_nonneg_left hscale hpart
    refine lt_of_lt_of_le ?_ (neg_le_abs _)
    linarith
  · -- the credit is at least ten times the part
    have hmul := mul_le_mul_of_nonneg_left hscale hpart
    refine lt_of_lt_of_le ?_ (le_abs_self _)
    linarith

/-- A vault with a hundred tokens of which nothing was handed out. -/
def hundredTokens : RewardInfo := ⟨0, 0, 0, 100 * d18, 0, false⟩

/-- After a day, for any decimals: half of the tokens is handed out to a single staker. -/
theorem settled_of_decimals (hdecimals : decimals ≤ 18) :
    ∃ info' user',
      RewardAccrual decimals d18 d18 50000139020520522000 hundredTokens info' {} user' := by
  have hrun : ∀ d ≤ 18, ∃ info', hundredTokens.accrueRewards (ln2 / 86400) 100000000000 d18 d 86400
        = .ok info' ∧
      ∃ user', UserRewardInfo.accrueRewards {} info' d18 = .ok user' ∧
        50000139020520522000 * 10 ^ d / d18 < u128Max ∧
        d18 * d9 * (info'.rewardIndex - hundredTokens.rewardIndex) / d18 ≤ u128Max := by
    decide +kernel
  obtain ⟨info', haccrue, user', hcredit, hindex, hfits⟩ := hrun decimals hdecimals
  have hhandout : hundredTokens.tokensToHandout (ln2 / 86400) (86400 - 0)
      = .ok ⟨50000139020520522000⟩ := by decide +kernel
  exact ⟨info', user', ⟨⟨_, _, _, rfl, by decide, hhandout, haccrue⟩, rfl, hcredit, hindex, hfits⟩⟩

/-- **Rewards are proportional to stakes exactly when the governance token has nine decimals.** With
any other decimals it is not only some accruals that go wrong: every one does in which the user's
part of the handout is several times the tolerance. -/
theorem proportional_iff_nine_decimals (hdecimals : decimals ≤ 18) :
    ((∀ staked stake handout info info' user user', 0 < staked → stake ≤ staked →
        RewardAccrual decimals staked stake handout info info' user user' →
        Proportional decimals staked stake handout
          (user'.accruedRewards - user.accruedRewards)) ↔ decimals = 9) ∧
      (decimals ≠ 9 → ∀ staked stake handout info info' user user', 0 < staked →
        RewardAccrual decimals staked stake handout info info' user user' →
        4 * tolerance decimals stake ≤ handout * stake / staked →
        ¬ Proportional decimals staked stake handout
          (user'.accruedRewards - user.accruedRewards)) := by
  refine ⟨⟨fun hall => ?_, ?_⟩, ?_⟩
  · by_contra hne
    obtain ⟨info', user', hsettled⟩ := settled_of_decimals hdecimals
    have hstaked : 0 < d18 := by decide
    refine hsettled.not_proportional hstaked hne ?_ (hall _ _ _ _ _ _ _ hstaked le_rfl hsettled)
    have hd18 : ((d18 : ℕ) : ℚ) = 10 ^ 18 := by norm_num [d18]
    have hown : (10 ^ 18 / 10 ^ decimals : ℚ) ≤ 10 ^ 18 :=
      div_le_self (by norm_num) (one_le_pow₀ (by norm_num))
    rw [tolerance, hd18, mul_div_assoc, div_self (by norm_num)]
    norm_num at hown ⊢
    linarith
  · rintro rfl staked stake handout info info' user user' hstaked - hsettled
    exact hsettled.proportional hstaked
  · intro hne staked stake handout info info' user user' hstaked hsettled hlarge
    exact hsettled.not_proportional hstaked hne hlarge

/-- A governance token with six decimals. -/
theorem proportional_six_decimals :
    ((∀ staked stake handout info info' user user', 0 < staked → stake ≤ staked →
        RewardAccrual 6 staked stake handout info info' user user' →
        Proportional 6 staked stake handout (user'.accruedRewards - user.accruedRewards)) ↔ 6 = 9) ∧
      (6 ≠ 9 → ∀ staked stake handout info info' user user', 0 < staked →
        RewardAccrual 6 staked stake handout info info' user user' →
        4 * tolerance 6 stake ≤ handout * stake / staked →
        ¬ Proportional 6 staked stake handout (user'.accruedRewards - user.accruedRewards)) :=
  proportional_iff_nine_decimals (by decide)

/-- With six decimals, the only staker of a million tokens is credited a thousandth of the fifty
tokens that are handed out. -/
theorem six_decimals_credit :
    ∃ info', hundredTokens.accrueRewards (ln2 / 86400) 100000000000 1000000000000 6 86400
        = .ok info' ∧
      info'.balanceAccounted = 50000139020520522001 ∧
      ∃ user', UserRewardInfo.accrueRewards {} info' 1000000000000 = .ok user' ∧
        user'.accruedRewards = 50000139020521000 ∧
        ¬ Proportional 6 1000000000000 1000000000000 50000139020520522000 user'.accruedRewards := by
  have hrun : ∃ info', hundredTokens.accrueRewards (ln2 / 86400) 100000000000 1000000000000 6 86400
        = .ok info' ∧
      info'.balanceAccounted = 50000139020520522001 ∧
      ∃ user', UserRewardInfo.accrueRewards {} info' 1000000000000 = .ok user' ∧
        user'.accruedRewards = 50000139020521000 := by
    decide +kernel
  obtain ⟨info', haccrue, haccounted, user', hcredit, haccrued⟩ := hrun
  refine ⟨info', haccrue, haccounted, user', hcredit, haccrued, ?_⟩
  rw [haccrued, Proportional, tolerance, not_le]
  refine lt_of_lt_of_le ?_ (neg_le_abs _)
  norm_num

end IndexDtf
