import Mathlib.Analysis.Complex.ExponentialBounds
import IndexDtf.Lib.Decay
import IndexDtf.Lib.TruncatedSeries
import IndexDtf.Rewards.Ledger
import IndexDtf.Shared.DecimalReal

/-!
# IndexDtf.Rewards.Emission

**The half life of a vault.** Anybody can have the rewards accrued at any time. What is not
accounted for decays with the half life that was set, however often that happens.

* `accrual_remaining` — an accrual multiplies what is left by a power that is off by a unit a
  second, and rounds by a unit;
* `Emitting` — what is known of a ledger after some accruals and claims;
* `emission_follows_half_life` — what is left against the decay that was meant.
-/

namespace IndexDtf.RewardLedger

open Lib Decimal

variable {l l₀ l' : RewardLedger} {info info' : RewardInfo} {k : ℕ}

/-! ### One accrual -/

/-- What is left of one after a second, as the code computes it. -/
noncomputable def secondlyDecay (ratio : ℕ) : ℝ := 1 - ratio / d18

theorem secondlyDecay_bounds {ratio : ℕ} (h : ratio ≤ d18) :
    0 ≤ secondlyDecay ratio ∧ secondlyDecay ratio ≤ 1 := by
  have hd18 := cast_d18_pos
  have hle : (ratio / d18 : ℝ) ≤ 1 := by
    rw [div_le_one hd18]
    exact_mod_cast h
  have hge : (0 : ℝ) ≤ ratio / d18 := by positivity
  rw [secondlyDecay]
  exact ⟨by linarith, by linarith⟩

/-- The power that is computed, with the unit that is added to it. -/
theorem power_close {ratio elapsed : ℕ} {power : Decimal} (hratio : ratio ≤ d18)
    (helapsed : 0 < elapsed) (h : (Decimal.mk (d18 - ratio)).pow elapsed = .ok power) :
    |((power.val + 1 : ℕ) : ℝ) / d18 - secondlyDecay ratio ^ elapsed| ≤ elapsed * (1 / d18) := by
  have hpow := pow_of_le_one (x := ⟨d18 - ratio⟩) (Nat.sub_le ..) elapsed
  obtain rfl := Except.ok.inj (hpow.symm.trans h)
  have hd18 := cast_d18_pos
  have hbase : (((d18 - ratio : ℕ) : ℝ) / d18) = secondlyDecay ratio := by
    rw [secondlyDecay, Nat.cast_sub hratio, sub_div, div_self hd18.ne']
  have hlow := (Rat.cast_le (K := ℝ)).mpr
    (powTrunc_lower (S := d18) (n := elapsed) (by decide) (Nat.sub_le d18 ratio))
  have hupper : (powTrunc d18 (elapsed.log2 + 1) (d18 - ratio) d18 elapsed : ℚ)
      ≤ (d18 : ℕ) * (((d18 - ratio : ℕ) : ℚ) / (d18 : ℕ)) ^ elapsed :=
    powTrunc_upper Nat.lt_log2_self
  have hhigh := (Rat.cast_le (K := ℝ)).mpr hupper
  push_cast [hbase] at hlow hhigh
  have hone : (1 : ℝ) ≤ elapsed := by exact_mod_cast helapsed
  have hscaled : ((powTrunc d18 (elapsed.log2 + 1) (d18 - ratio) d18 elapsed + 1 : ℕ) : ℝ) / d18
      - secondlyDecay ratio ^ elapsed
      = (powTrunc d18 (elapsed.log2 + 1) (d18 - ratio) d18 elapsed + 1
          - d18 * secondlyDecay ratio ^ elapsed) / d18 := by
    push_cast
    field_simp
  rw [hscaled, abs_div, abs_of_pos hd18, mul_one_div]
  refine div_le_div_of_nonneg_right (abs_le.mpr ⟨?_, ?_⟩) hd18.le
  · linarith
  · linarith

theorem tokensToHandout_eq {ratio elapsed : ℕ} {handout : Decimal}
    (h : info.tokensToHandout ratio elapsed = .ok handout) :
    ratio ≤ d18 ∧ ∃ power : Decimal, (Decimal.mk (d18 - ratio)).pow elapsed = .ok power ∧
      power.val + 1 ≤ d18 ∧
      handout.val = (info.balanceLastKnown - info.balanceAccounted)
        * (d18 - (power.val + 1)) / d18 := by
  simp only [RewardInfo.tokensToHandout, bind_eq_ok, checkedSub_eq_ok, sub_eq_ok, mul_eq_ok,
    div_eq_ok, fromScaled_val] at h
  obtain ⟨_, ⟨-, rfl⟩, _, ⟨hratio, rfl⟩, power, hpower, _, ⟨hle, rfl⟩, _, ⟨hone, rfl⟩, _,
    ⟨-, rfl⟩, -, rfl⟩ := h
  simp only [oneE18, one] at hratio hpower hle hone ⊢
  refine ⟨hratio, power, hpower, by omega, ?_⟩
  rw [Nat.sub_sub]

/-- **An accrual.** What is not accounted for is multiplied by the power, up to a unit and what
comes to be known. -/
theorem accrual_remaining {ratio elapsed known accounted : ℕ} {handout : Decimal}
    (helapsed : 0 < elapsed)
    (h : info.tokensToHandout ratio elapsed = .ok handout)
    (hknown : info.balanceLastKnown ≤ known)
    (haccounted : accounted = info.balanceAccounted + ceilTail handout.val) :
    ∃ q : ℝ, 0 ≤ q ∧ q ≤ 1 ∧ |q - secondlyDecay ratio ^ elapsed| ≤ elapsed * (1 / d18) ∧
      |((known - accounted : ℕ) : ℝ)
          - (info.balanceLastKnown - info.balanceAccounted : ℕ) * q|
        ≤ 1 + ((known : ℝ) - info.balanceLastKnown) := by
  have hfits := handout_fits h
  obtain ⟨hratio, power, hpower, hone, hhandout⟩ := tokensToHandout_eq h
  have hd18 := cast_d18_pos
  have hone' : ((power.val + 1 : ℕ) : ℝ) ≤ d18 := by exact_mod_cast hone
  refine ⟨((power.val + 1 : ℕ) : ℝ) / d18, by positivity, (div_le_one hd18).mpr hone',
    power_close hratio helapsed hpower, ?_⟩
  have hcovered : info.balanceAccounted ≤ info.balanceLastKnown := by omega
  have hcovered' : accounted ≤ known := by omega
  have hceil : (handout.val : ℝ) ≤ ceilTail handout.val := by exact_mod_cast le_ceilTail _
  have hceil' : (ceilTail handout.val : ℝ) ≤ handout.val + 1 := by exact_mod_cast ceilTail_le _
  -- the handout is its part of what is left, rounded down
  have hpart : ((info.balanceLastKnown - info.balanceAccounted : ℕ) : ℝ)
      * ((d18 - (power.val + 1) : ℕ) : ℝ) / d18
      = (info.balanceLastKnown - info.balanceAccounted : ℕ)
        - (info.balanceLastKnown - info.balanceAccounted : ℕ)
          * (((power.val + 1 : ℕ) : ℝ) / d18) := by
    rw [Nat.cast_sub hone]
    field_simp
  obtain ⟨hlow, hhigh⟩ := cast_div_bounds (a := (info.balanceLastKnown - info.balanceAccounted)
    * (d18 - (power.val + 1))) (show 0 < d18 by decide)
  rw [← hhandout, Nat.cast_mul, hpart] at hlow hhigh
  rw [Nat.cast_sub hcovered', haccounted, Nat.cast_add]
  rw [Nat.cast_sub hcovered] at hlow hhigh ⊢
  have hbump : (info.balanceLastKnown : ℝ) ≤ known := by exact_mod_cast hknown
  rw [abs_le]
  constructor
  · linarith
  · linarith

/-! ### Accruals and claims -/

/-- Accruals with something staked, and claims: no rewards arrive and the half life stays. -/
def Op.Staked : Op → Prop
  | .accrueRewards rawStaked _ _ => 0 < rawStaked
  | .claimRewards _ _ rawStaked _ _ => 0 < rawStaked
  | _ => False

/-- The accruals of a run: the operations that move the time up to which rewards were paid. -/
def accruals (l : RewardLedger) (ops : List Op) : List Op :=
  trace step (fun l op =>
    if (attempt step l op).info.payoutLastPaid = l.info.payoutLastPaid then [] else [op]) l ops

/-- What is known of a ledger that was `l₀` and had `U` left, after `k` accruals. -/
structure Emitting (l₀ : RewardLedger) (U k : ℕ) (l : RewardLedger) : Prop where
  ratio : l.ratio = l₀.ratio
  value : l.vault * d9 + l.info.totalClaimed = l₀.info.balanceLastKnown
  later : l₀.info.payoutLastPaid ≤ l.info.payoutLastPaid
  /-- The first accrual rounds the balance up. -/
  known : l.info.balanceLastKnown = l₀.info.balanceLastKnown ∨
    0 < k ∧ l.info.balanceLastKnown = min (ceilTail l₀.info.balanceLastKnown) u128Max
  covered : l.info.balanceAccounted ≤ l.info.balanceLastKnown
  decayed : Decayed U (secondlyDecay l₀.ratio) (1 / d18)
    (l.info.payoutLastPaid - l₀.info.payoutLastPaid)
    (k + ((l.info.balanceLastKnown : ℝ) - l₀.info.balanceLastKnown))
    (l.info.balanceLastKnown - l.info.balanceAccounted : ℕ)

variable {U staked decimals now : ℕ}

theorem Emitting.start (hvalue : l₀.info.balanceLastKnown = l₀.vault * d9 + l₀.info.totalClaimed)
    (hU : l₀.info.balanceAccounted + U = l₀.info.balanceLastKnown) : Emitting l₀ U 0 l₀ where
  ratio := rfl
  value := hvalue.symm
  later := le_rfl
  known := .inl rfl
  covered := by omega
  decayed := by
    have hleft : l₀.info.balanceLastKnown - l₀.info.balanceAccounted = U := by omega
    rw [hleft, Nat.sub_self, sub_self, Nat.cast_zero, add_zero]
    exact Decayed.start

/-- What is known of the balance. -/
theorem Emitting.known_bounds (h : Emitting l₀ U k l) (hfits : l₀.info.balanceLastKnown ≤ u128Max) :
    l₀.info.balanceLastKnown ≤ l.info.balanceLastKnown ∧
      l.info.balanceLastKnown ≤ l₀.info.balanceLastKnown + k ∧
      l.info.balanceLastKnown ≤ min (ceilTail l₀.info.balanceLastKnown) u128Max := by
  have hle := le_ceilTail l₀.info.balanceLastKnown
  have hone := ceilTail_le l₀.info.balanceLastKnown
  rcases h.known with hsame | ⟨hk, hnoted⟩
  · rw [hsame]
    exact ⟨le_rfl, Nat.le_add_right .., le_min hle hfits⟩
  · rw [hnoted]
    exact ⟨le_min hle hfits, by omega, le_rfl⟩

/-- An accrual at a later time is a round of the decay; at any other it does nothing. -/
theorem Emitting.accrueRewards (h : Emitting l₀ U k l)
    (hfits : l₀.info.balanceLastKnown ≤ u128Max) (hstaked : 0 < staked)
    (haccrue : l.accrueRewards staked decimals now = .ok l') :
    l' = l ∨ l.info.payoutLastPaid < l'.info.payoutLastPaid ∧ Emitting l₀ U (k + 1) l' := by
  simp only [RewardLedger.accrueRewards, bind_eq_ok, Except.ok.injEq] at haccrue
  obtain ⟨info', haccrue, rfl⟩ := haccrue
  rcases RewardInfo.accrueRewards_staked hstaked haccrue with
    ⟨-, rfl⟩ | ⟨handout, -, htime, hhandout, rfl⟩
  · exact .inl rfl
  obtain ⟨hge, -, hle⟩ := h.known_bounds hfits
  have hroom := handout_fits hhandout
  have hceil : ceilTail handout.val ≤ u128Max := by omega
  rw [h.ratio] at hhandout
  refine .inr ⟨htime, h.ratio, h.value, h.later.trans htime.le, .inr ⟨Nat.succ_pos k, ?_⟩, ?_, ?_⟩
  · dsimp only
    rw [h.value]
  · dsimp only
    rw [h.value, Nat.min_eq_left hceil]
    exact hroom.trans hle
  · have hknown : l.info.balanceLastKnown
        ≤ min (ceilTail (l.vault * d9 + l.info.totalClaimed)) u128Max := by
      rw [h.value]
      exact hle
    have haccounted : l.info.balanceAccounted + min (ceilTail handout.val) u128Max
        = l.info.balanceAccounted + ceilTail handout.val := by
      rw [Nat.min_eq_left hceil]
    obtain ⟨q, hq, hq', hpow, hround⟩ :=
      accrual_remaining (Nat.sub_pos_of_lt htime) hhandout hknown haccounted
    have hdecay := secondlyDecay_bounds (tokensToHandout_eq hhandout).1
    have hstep := h.decayed.step (Nat.cast_nonneg U) hdecay.1 hdecay.2 hq hq' hpow hround
    have hsum : l.info.payoutLastPaid - l₀.info.payoutLastPaid + (now - l.info.payoutLastPaid)
        = now - l₀.info.payoutLastPaid := by
      have := h.later
      omega
    rw [hsum] at hstep
    refine le_of_le_of_eq hstep ?_
    push_cast
    ring

/-- A claim moves an amount from the vault to what was claimed. -/
theorem Emitting.payOut {user : UserRewardInfo} {stake : ℕ} (h : Emitting l₀ U k l)
    (hpay : l.payOut user stake = .ok l') :
    l'.info.payoutLastPaid = l.info.payoutLastPaid ∧ Emitting l₀ U k l' := by
  obtain ⟨vault, totalClaimed, rfl, -, hsum⟩ := payOut_spec hpay
  exact ⟨rfl, h.ratio, hsum.trans h.value, h.later, h.known, h.covered, h.decayed⟩

/-- An operation of the run: an accrual that counts, or nothing that matters to the decay. -/
theorem Emitting.step {op : Op} (h : Emitting l₀ U k l)
    (hfits : l₀.info.balanceLastKnown ≤ u128Max) (hop : op.Staked) (hstep : l.step op = .ok l') :
    l'.info.payoutLastPaid = l.info.payoutLastPaid ∧ Emitting l₀ U k l' ∨
      l.info.payoutLastPaid < l'.info.payoutLastPaid ∧ Emitting l₀ U (k + 1) l' := by
  cases op with
  | accrueRewards staked decimals now =>
      rcases h.accrueRewards hfits hop hstep with rfl | hmoved
      · exact .inl ⟨rfl, h⟩
      · exact .inr hmoved
  | claimRewards user stake staked decimals now =>
      simp only [RewardLedger.step, bind_eq_ok] at hstep
      obtain ⟨l₁, haccrue, hpay⟩ := hstep
      rcases h.accrueRewards hfits hop haccrue with rfl | ⟨hmoved, h₁⟩
      · exact .inl (h.payOut hpay)
      · obtain ⟨hsame, h₂⟩ := h₁.payOut hpay
        exact .inr ⟨hmoved.trans_eq hsame.symm, h₂⟩
  | topUp rawAmount => exact hop.elim
  | setRewardRatio rewardHalfLife => exact hop.elim

/-- A run of accruals and claims. -/
theorem Emitting.run (h : Emitting l₀ U 0 l₀) (hfits : l₀.info.balanceLastKnown ≤ u128Max)
    {ops : List Op} (hops : ∀ op ∈ ops, op.Staked) :
    Emitting l₀ U (accruals l₀ ops).length (Lib.run RewardLedger.step l₀ ops) := by
  refine trace_inv_of_mem (I := fun l (past : List Op) => Emitting l₀ U past.length l) (p := [])
    (fun l past op l' hmem hl hstep => ?_) h
  rw [attempt_ok hstep, List.length_append]
  rcases hl.step hfits (hops op hmem) hstep with ⟨hsame, hl'⟩ | ⟨hmoved, hl'⟩
  · rw [if_pos hsame]
    exact hl'
  · rw [if_neg hmoved.ne']
    exact hl'

/-! ### The half life -/

/-- The ratio of a half life is its rate, rounded down. -/
theorem setRewardRatio_eq {halfLife ratio : ℕ} (h : IndexDtf.setRewardRatio halfLife = .ok ratio) :
    minRewardHalfLife ≤ halfLife ∧ halfLife ≤ maxRewardHalfLife ∧ ratio = ln2 / halfLife := by
  simp only [IndexDtf.setRewardRatio, bind_eq_ok, checkCondition_eq_ok, div_eq_ok, fromScaled_val,
    toScaled_floor, Except.ok.injEq] at h
  obtain ⟨_, ⟨hmin, hmax⟩, _, ⟨-, rfl⟩, rfl⟩ := h
  refine ⟨hmin, hmax, Nat.min_eq_left ?_⟩
  exact (Nat.div_le_self ..).trans (by decide)

/-- The constant of the code is the logarithm, up to what Mathlib knows of it. -/
theorem abs_ln2_sub_log_two_le : |(ln2 / d18 : ℝ) - Real.log 2| ≤ 1 / 10 ^ 9 := by
  have hlow := Real.log_two_gt_d9
  have hhigh := Real.log_two_lt_d9
  rw [abs_le]
  norm_num [ln2, d18] at *
  constructor
  · linarith
  · linarith

/-- The rate of a half life, to the last place of the constant and a unit. -/
theorem rate_close {halfLife : ℕ} (hpos : 0 < halfLife) :
    |((ln2 / halfLife : ℕ) : ℝ) / d18 - Real.log 2 / halfLife|
      ≤ 1 / 10 ^ 9 / halfLife + 1 / d18 := by
  have hd18 := cast_d18_pos
  have hhalfLife : (0 : ℝ) < halfLife := by exact_mod_cast hpos
  obtain ⟨hlow, hhigh⟩ := cast_div_bounds (a := ln2) hpos
  obtain ⟨hlog, hlog'⟩ := abs_le.mp abs_ln2_sub_log_two_le
  have hquot : ((ln2 / halfLife : ℕ) : ℝ) / d18 ≤ (ln2 / d18 : ℝ) / halfLife := by
    rw [div_right_comm]
    exact div_le_div_of_nonneg_right hhigh hd18.le
  have hquot' : (ln2 / d18 : ℝ) / halfLife - 1 / d18 ≤ ((ln2 / halfLife : ℕ) : ℝ) / d18 := by
    rw [div_right_comm, ← sub_div]
    exact div_le_div_of_nonneg_right hlow hd18.le
  have hup : ((ln2 / d18 : ℝ) - Real.log 2) / halfLife ≤ 1 / 10 ^ 9 / halfLife :=
    div_le_div_of_nonneg_right hlog' hhalfLife.le
  have hdown : -(1 / 10 ^ 9) / halfLife ≤ ((ln2 / d18 : ℝ) - Real.log 2) / halfLife :=
    div_le_div_of_nonneg_right hlog hhalfLife.le
  rw [sub_div] at hup hdown
  rw [neg_div] at hdown
  have hunit : (0 : ℝ) ≤ 1 / d18 := by positivity
  rw [abs_le]
  constructor
  · linarith
  · linarith

/-- It is at most that of a day. -/
theorem rate_le {halfLife : ℕ} (hmin : minRewardHalfLife ≤ halfLife) :
    ((ln2 / halfLife : ℕ) : ℝ) / d18 ≤ 1 / 10 ^ 5 := by
  have hday : ((ln2 / halfLife : ℕ) : ℝ) ≤ (ln2 / minRewardHalfLife : ℕ) := by
    exact_mod_cast Nat.div_le_div_left hmin (by decide)
  rw [cast_d18, div_le_iff₀ (by norm_num)]
  refine hday.trans ?_
  norm_num [ln2, minRewardHalfLife]

/-- The rate that is used, against the half life. -/
theorem secondlyDecay_half_life {halfLife ratio t : ℕ}
    (h : IndexDtf.setRewardRatio halfLife = .ok ratio) (ht : t ≤ 10 * halfLife) :
    |secondlyDecay ratio ^ t - 2 ^ (-(t : ℝ) / halfLife)| + t * (1 / d18) ≤ 1 / 10 ^ 4 := by
  obtain ⟨hmin, hmax, rfl⟩ := setRewardRatio_eq h
  have hweeks : (halfLife : ℝ) ≤ 1209600 := by exact_mod_cast hmax
  have ht' : (t : ℝ) ≤ 10 * halfLife := by exact_mod_cast ht
  have ht₀ : (0 : ℝ) ≤ t := Nat.cast_nonneg t
  have hpos' : 0 < halfLife := lt_of_lt_of_le (by decide) hmin
  have hpos : (0 : ℝ) < halfLife := by exact_mod_cast hpos'
  have hd18 := cast_d18
  have hrate := rate_le hmin
  have hclose := rate_close hpos'
  have hdecay : 0 ≤ Real.log 2 / halfLife := div_nonneg (Real.log_nonneg (by norm_num)) hpos.le
  have hexponent : |t * (((ln2 / halfLife : ℕ) : ℝ) / d18) - t * (Real.log 2 / halfLife)|
      ≤ 1 / 10 ^ 8 + 1 / 10 ^ 8 := by
    rw [← mul_sub, abs_mul, abs_of_nonneg ht₀]
    refine (mul_le_mul_of_nonneg_left hclose ht₀).trans ?_
    rw [mul_add]
    refine add_le_add ?_ ?_
    · rw [← mul_div_assoc, div_le_iff₀ hpos]
      linarith
    · rw [hd18, mul_one_div, div_le_iff₀ (by norm_num)]
      linarith
  have hpow : (2 : ℝ) ^ (-(t : ℝ) / halfLife) = Real.exp (-(t * (Real.log 2 / halfLife))) := by
    rw [Real.rpow_def_of_pos (by norm_num)]
    congr 1
    ring
  have hbound := abs_one_sub_pow_sub_exp_le (n := t) (f := ((ln2 / halfLife : ℕ) : ℝ) / d18)
    (by positivity) (hrate.trans (by norm_num)) (mul_nonneg ht₀ hdecay)
  have hunits : t * (1 / d18 : ℝ) ≤ 1 / 10 ^ 8 := by
    rw [hd18, mul_one_div, div_le_iff₀ (by norm_num)]
    linarith
  rw [hpow, secondlyDecay]
  linarith

/-- A vault with one token that is known, and a half life of a day. -/
def knownLedger : RewardLedger := ⟨ln2 / dayInSeconds, 1000000000, ⟨0, 0, 0, d18, 0, false⟩⟩

/-- Three accruals in two days; the only staker claims at the second one. -/
def twoDays : List Op :=
  [.accrueRewards 1000000000 9 3600, .claimRewards {} 1000000000 1000000000 9 86400,
    .accrueRewards 1000000000 9 172800]

example : (accruals knownLedger twoDays).length = 3 := by decide +kernel

end IndexDtf.RewardLedger
