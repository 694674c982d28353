import IndexDtf.Lib.Transition
import IndexDtf.Rewards.AccountSpec
import IndexDtf.Shared.DecimalPow

/-!
# IndexDtf.Rewards.Ledger

**The ledger of a reward token.** The vault, the ratio and the global account, with
whatever stakes, decimals and times they are accrued at. Nothing in the ledger goes
back (`Grown`), and what is accounted for never exceeds the balance that was noted,
although it is rounded up: a handout leaves at least a unit of the balance behind
(`tokensToHandout_total`). So no accrual fails for want of balance.

All this as long as the first update of the index finds the balance that was noted when
the account was created (`NotedInTime`). The balance noted then need not be that of the
vault: `add_reward_token` reads it off any token account of the realm.
-/

namespace IndexDtf

open Lib Decimal

/-- The ledger of a reward token. -/
structure RewardLedger where
  /-- The reward ratio of the realm, in D18. -/
  ratio : ℕ
  /-- The balance of the vault, in D9. -/
  vault : ℕ
  info : RewardInfo

namespace RewardLedger

/-- What happens to a ledger. -/
inductive Op
  /-- `accrue_rewards`, with the staked balance and the decimals of the governance token. -/
  | accrueRewards (rawStaked decimals now : ℕ)
  /-- `claim_rewards` of a user, whatever her account and her stake are. -/
  | claimRewards (user : UserRewardInfo) (rawUserBalance rawStaked decimals now : ℕ)
  /-- Reward tokens arrive in the vault. -/
  | topUp (rawAmount : ℕ)
  | setRewardRatio (rewardHalfLife : ℕ)
  deriving DecidableEq, Repr

/-- `accrue_rewards` of the global account. -/
def accrueRewards (l : RewardLedger) (rawStaked decimals now : ℕ) : Result RewardLedger := do
  let info ← l.info.accrueRewards l.ratio l.vault rawStaked decimals now
  .ok { l with info }

/-- What is left of `claim_rewards` after the global account was accrued. -/
def payOut (l : RewardLedger) (user : UserRewardInfo) (rawUserBalance : ℕ) :
    Result RewardLedger := do
  let user ← user.accrueRewards l.info rawUserBalance
  let (rawClaimableRewards, info, _) ← claimUpdate l.info user
  guardOr .external (rawClaimableRewards ≤ l.vault)
  .ok { l with info, vault := l.vault - rawClaimableRewards }

/-- One operation. -/
def step (l : RewardLedger) : Op → Result RewardLedger
  | .accrueRewards rawStaked decimals now => l.accrueRewards rawStaked decimals now
  | .claimRewards user rawUserBalance rawStaked decimals now => do
      (← l.accrueRewards rawStaked decimals now).payOut user rawUserBalance
  | .topUp rawAmount => .ok { l with vault := l.vault + rawAmount }
  | .setRewardRatio rewardHalfLife => do
      .ok { l with ratio := ← IndexDtf.setRewardRatio rewardHalfLife }

/-- A ledger as it is created, with a ratio that was set. The account whose balance was noted is
one of the same mint and owner as the vault, but not always the vault. -/
structure Fresh (l : RewardLedger) : Prop where
  ratio : ∃ rewardHalfLife, IndexDtf.setRewardRatio rewardHalfLife = .ok l.ratio
  info : ∃ now rawLastKnownBalance, rawLastKnownBalance ≤ u64Max ∧
    l.info = RewardInfo.init now rawLastKnownBalance

/-! ### The order of ledgers -/

/-- Nothing in the ledger goes back. -/
structure Grown (info info' : RewardInfo) : Prop where
  payoutLastPaid : info.payoutLastPaid ≤ info'.payoutLastPaid
  rewardIndex : info.rewardIndex ≤ info'.rewardIndex
  balanceAccounted : info.balanceAccounted ≤ info'.balanceAccounted
  balanceLastKnown : info.balanceLastKnown ≤ info'.balanceLastKnown
  totalClaimed : info.totalClaimed ≤ info'.totalClaimed

theorem Grown.refl (info : RewardInfo) : Grown info info := ⟨le_rfl, le_rfl, le_rfl, le_rfl, le_rfl⟩

theorem Grown.trans {info₁ info₂ info₃ : RewardInfo} (h : Grown info₁ info₂)
    (h' : Grown info₂ info₃) : Grown info₁ info₃ where
  payoutLastPaid := h.payoutLastPaid.trans h'.payoutLastPaid
  rewardIndex := h.rewardIndex.trans h'.rewardIndex
  balanceAccounted := h.balanceAccounted.trans h'.balanceAccounted
  balanceLastKnown := h.balanceLastKnown.trans h'.balanceLastKnown
  totalClaimed := h.totalClaimed.trans h'.totalClaimed

/-- What a run asks of the ledger: in every state it goes through the balance that was noted covers
what is accounted for, and a handout can be computed whenever time has passed; and nothing goes
back from there to any later state. -/
def Kept (l : RewardLedger) (ops : List Op) : Prop :=
  ∀ before after, before ++ after <+: ops →
    let l₁ := run step l before
    l₁.info.balanceAccounted ≤ l₁.info.balanceLastKnown ∧
      (∀ elapsed, 0 < elapsed → ∃ handout, l₁.info.tokensToHandout l₁.ratio elapsed = .ok handout) ∧
      Grown l₁.info (run step l (before ++ after)).info

/-! ### What the first update finds -/

/-- The operation updates the index, if it succeeds: time has passed since the last update. -/
def Updates (l : RewardLedger) : Op → Prop
  | .accrueRewards _ _ now => l.info.isDisallowed = false ∧ l.info.payoutLastPaid < now
  | .claimRewards _ _ _ _ now => l.info.isDisallowed = false ∧ l.info.payoutLastPaid < now
  | .topUp _ => False
  | .setRewardRatio _ => False

/-- The condition on the first update of an account: the balance noted when it was created is in the
vault, or was claimed from it. -/
def NotedInTime (created : RewardInfo) (l : RewardLedger) (op : Op) : Prop :=
  l.info.payoutLastPaid = created.payoutLastPaid → l.Updates op →
    created.balanceLastKnown ≤ ceilTail (l.vault * d9 + l.info.totalClaimed)

/-! ### The invariants -/

/-- Until its first update the account is as it was created, apart from what was claimed. -/
structure SinceCreated (created : RewardInfo) (l : RewardLedger) : Prop where
  allowed : l.info.isDisallowed = false
  payoutLastPaid : created.payoutLastPaid ≤ l.info.payoutLastPaid
  noted : l.info.payoutLastPaid = created.payoutLastPaid →
    l.info.balanceLastKnown = created.balanceLastKnown

/-- The ratio is one of those that can be set, and the balance that was noted covers what is
accounted for; since the first update it is no more than the vault with all that was claimed. -/
structure Sound (created : RewardInfo) (l : RewardLedger) : Prop where
  ratio_pos : 0 < l.ratio
  ratio_le : l.ratio ≤ d18
  covered : l.info.balanceAccounted ≤ l.info.balanceLastKnown
  known_le : l.info.balanceLastKnown ≤ u128Max
  noted : l.info.payoutLastPaid ≠ created.payoutLastPaid →
    l.info.balanceLastKnown ≤ ceilTail (l.vault * d9 + l.info.totalClaimed)

variable {l l' : RewardLedger} {created : RewardInfo} {ops : List Op}

theorem setRewardRatio_spec {rewardHalfLife ratio : ℕ}
    (h : IndexDtf.setRewardRatio rewardHalfLife = .ok ratio) : 0 < ratio ∧ ratio ≤ d18 := by
  simp only [IndexDtf.setRewardRatio, bind_eq_ok, checkCondition_eq_ok, div_eq_ok, fromScaled_val,
    toScaled_floor, Except.ok.injEq] at h
  obtain ⟨_, ⟨hmin, hmax⟩, _, ⟨hpos, rfl⟩, rfl⟩ := h
  have hlong : rewardHalfLife ≤ ln2 := hmax.trans (by decide)
  refine ⟨lt_min (Nat.div_pos hlong hpos) (by decide), (min_le_left ..).trans ?_⟩
  exact (Nat.div_le_self ..).trans (by decide)

theorem Fresh.sinceCreated (h : l.Fresh) : l.SinceCreated l.info := by
  obtain ⟨now, noted, -, hinfo⟩ := h.info
  exact ⟨by rw [hinfo]; rfl, le_rfl, fun _ => rfl⟩

theorem Fresh.sound (h : l.Fresh) : l.Sound l.info := by
  obtain ⟨rewardHalfLife, hratio⟩ := h.ratio
  obtain ⟨now, noted, hnoted, hinfo⟩ := h.info
  obtain ⟨hpos, hle⟩ := setRewardRatio_spec hratio
  refine ⟨hpos, hle, ?_, ?_, fun hne => absurd rfl hne⟩
  · rw [hinfo]
    exact Nat.zero_le _
  · rw [hinfo]
    exact hnoted.trans (by decide)

/-- Neither the balance nor the percentage of a handout can go below zero. -/
theorem tokensToHandout_total {info : RewardInfo} {ratio elapsed : ℕ} (hpos : 0 < ratio)
    (hratio : ratio ≤ d18) (helapsed : 0 < elapsed)
    (hcovered : info.balanceAccounted ≤ info.balanceLastKnown)
    (hknown : info.balanceLastKnown ≤ u128Max) :
    ∃ handout, info.tokensToHandout ratio elapsed = .ok handout := by
  have hbase : d18 - ratio ≤ d18 := Nat.sub_le ..
  -- the power is at most the base, which is below one
  obtain ⟨power, hpower, hle⟩ : ∃ power, (Decimal.mk (d18 - ratio)).pow elapsed = .ok power ∧
      power.val ≤ d18 - ratio :=
    ⟨_, pow_of_le_one hbase elapsed, powTrunc_le_base hbase le_rfl helapsed Nat.lt_log2_self⟩
  have hmul : (info.balanceLastKnown - info.balanceAccounted) * (d18 - power.val - 1)
      < u256Bound := by
    calc _ ≤ u128Max * d18 :=
          Nat.mul_le_mul ((Nat.sub_le ..).trans hknown) ((Nat.sub_le ..).trans (Nat.sub_le ..))
      _ < u256Bound := by decide
  rw [RewardInfo.tokensToHandout, checkedSub_eq_ok.mpr ⟨hcovered, rfl⟩, ok_bind,
    sub_of (x := oneE18) (y := fromScaled ratio) hratio, ok_bind]
  simp only [oneE18, fromScaled_val]
  rw [hpower, ok_bind, sub_of (x := ⟨d18⟩) (hle.trans hbase), ok_bind,
    sub_of (by simp only [one]; omega), ok_bind,
    mul_of (by simpa only [fromScaled_val, one] using hmul), ok_bind]
  exact ⟨_, div_of (by decide)⟩

/-- What is handed out is less than what was not accounted for, so there is room to round up. -/
theorem handout_fits {info : RewardInfo} {ratio elapsed : ℕ} {handout : Decimal}
    (h : info.tokensToHandout ratio elapsed = .ok handout) :
    info.balanceAccounted + ceilTail handout.val ≤ info.balanceLastKnown := by
  obtain ⟨hle, hzero | hlt⟩ := RewardInfo.tokensToHandout_le h
  · rw [hzero, ceilTail, Nat.zero_mod, if_pos rfl]
    exact hle
  · have hceil := ceilTail_le handout.val
    omega

/-- The accounted balance grows, up to the balance that was noted before. -/
theorem accounted_le {info info' : RewardInfo} {ratio balance staked decimals now : ℕ}
    (hcovered : info.balanceAccounted ≤ info.balanceLastKnown)
    (h : info.accrueRewards ratio balance staked decimals now = .ok info') :
    info.balanceAccounted ≤ info'.balanceAccounted ∧
      info'.balanceAccounted ≤ info.balanceLastKnown := by
  obtain ⟨-, -, rfl | ⟨-, ⟨-, ha⟩ | ⟨handout, -, -, -, hhandout, -, ha⟩⟩⟩ :=
    RewardInfo.accrueRewards_spec h
  · exact ⟨le_rfl, hcovered⟩
  · rw [ha]
    exact ⟨le_rfl, hcovered⟩
  · rw [ha]
    exact ⟨Nat.le_add_right ..,
      (Nat.add_le_add_left (min_le_left ..) _).trans (handout_fits hhandout)⟩

/-! ### Accruals -/

/-- An accrual that updates the index notes the vault with all that was claimed. -/
theorem accrueRewards_known {staked decimals now : ℕ} (hallowed : l.info.isDisallowed = false)
    (htime : l.info.payoutLastPaid < now) (h : l.accrueRewards staked decimals now = .ok l') :
    l'.info.balanceLastKnown = min (ceilTail (l.vault * d9 + l.info.totalClaimed)) u128Max := by
  simp only [accrueRewards, bind_eq_ok, Except.ok.injEq] at h
  obtain ⟨info', haccrue, rfl⟩ := h
  exact (RewardInfo.accrueRewards_update hallowed htime haccrue).2

theorem accrueRewards_sinceCreated {staked decimals now : ℕ} (h : l.SinceCreated created)
    (haccrue : l.accrueRewards staked decimals now = .ok l') : l'.SinceCreated created := by
  simp only [accrueRewards, bind_eq_ok, Except.ok.injEq] at haccrue
  obtain ⟨info', haccrue, rfl⟩ := haccrue
  obtain ⟨-, hdisallowed, -⟩ := RewardInfo.accrueRewards_spec haccrue
  rcases RewardInfo.accrueRewards_notes haccrue with rfl | ⟨htime, hpaid, -⟩
  · exact h
  · -- the account was updated, so it is no longer as it was created
    have hlater : created.payoutLastPaid < info'.payoutLastPaid := by
      rw [hpaid]
      exact h.payoutLastPaid.trans_lt htime
    exact ⟨hdisallowed.trans h.allowed, hlater.le, fun heq => absurd heq hlater.ne'⟩

/-- An accrual keeps the ledger sound, and nothing in it goes back, if the first one finds what was
noted when the account was created. -/
theorem accrueRewards_sound {staked decimals now : ℕ} (hcreated : l.SinceCreated created)
    (h : l.Sound created) (hnoted : l.NotedInTime created (.accrueRewards staked decimals now))
    (haccrue : l.accrueRewards staked decimals now = .ok l') :
    l'.Sound created ∧ Grown l.info l'.info := by
  simp only [accrueRewards, bind_eq_ok, Except.ok.injEq] at haccrue
  obtain ⟨info', haccrue, rfl⟩ := haccrue
  rcases RewardInfo.accrueRewards_notes haccrue with rfl | ⟨htime, hpaid, hknown⟩
  · exact ⟨h, .refl _⟩
  · obtain ⟨hclaimed, -⟩ := RewardInfo.accrueRewards_spec haccrue
    obtain ⟨hgrows, hcovered⟩ := accounted_le h.covered haccrue
    have hfound : l.info.balanceLastKnown ≤ ceilTail (l.vault * d9 + l.info.totalClaimed) := by
      by_cases hfirst : l.info.payoutLastPaid = created.payoutLastPaid
      · rw [hcreated.noted hfirst]
        exact hnoted hfirst ⟨hcreated.allowed, htime⟩
      · exact h.noted hfirst
    have hgrown : l.info.balanceLastKnown ≤ info'.balanceLastKnown := by
      rw [hknown]
      exact le_min hfound h.known_le
    refine ⟨⟨h.ratio_pos, h.ratio_le, hcovered.trans hgrown, ?_, fun _ => ?_⟩, ?_⟩
    · rw [hknown]
      exact min_le_right ..
    · simp only [hclaimed, hknown]
      exact min_le_left ..
    · exact ⟨htime.le.trans hpaid.ge, RewardInfo.accrueRewards_index_le haccrue, hgrows, hgrown,
        hclaimed.ge⟩

/-! ### Claims -/

/-- A claim moves an amount from the vault to what was claimed. -/
theorem payOut_spec {user : UserRewardInfo} {stake : ℕ} (hpay : l.payOut user stake = .ok l') :
    ∃ vault totalClaimed, l' = { l with vault, info := { l.info with totalClaimed } } ∧
      l.info.totalClaimed ≤ totalClaimed ∧
      vault * d9 + totalClaimed = l.vault * d9 + l.info.totalClaimed := by
  simp only [payOut, bind_eq_ok, Prod.exists, guardOr_eq_ok, Except.ok.injEq] at hpay
  obtain ⟨user', -, raw, info', user'', hclaim, _, hraw, rfl⟩ := hpay
  -- the scaled amount is named, so that it is not computed
  obtain ⟨claimed, hclaimed, rfl⟩ : ∃ claimed, claimed = raw * d9 ∧
      info' = { l.info with totalClaimed := l.info.totalClaimed + claimed } :=
    ⟨_, rfl, (claimUpdate_spec hclaim).2.2.1⟩
  refine ⟨l.vault - raw, l.info.totalClaimed + claimed, rfl, Nat.le_add_right .., ?_⟩
  rw [hclaimed, Nat.add_left_comm, ← Nat.add_mul, Nat.sub_add_cancel hraw, Nat.add_comm]

theorem payOut_sinceCreated {user : UserRewardInfo} {stake : ℕ} (h : l.SinceCreated created)
    (hpay : l.payOut user stake = .ok l') : l'.SinceCreated created := by
  obtain ⟨vault, totalClaimed, rfl, -⟩ := payOut_spec hpay
  exact ⟨h.allowed, h.payoutLastPaid, h.noted⟩

theorem payOut_sound {user : UserRewardInfo} {stake : ℕ} (h : l.Sound created)
    (hpay : l.payOut user stake = .ok l') : l'.Sound created ∧ Grown l.info l'.info := by
  obtain ⟨vault, totalClaimed, rfl, hle, hsum⟩ := payOut_spec hpay
  refine ⟨⟨h.ratio_pos, h.ratio_le, h.covered, h.known_le, ?_⟩, ?_⟩
  · simp only [hsum]
    exact h.noted
  · exact ⟨le_rfl, le_rfl, le_rfl, le_rfl, hle⟩

/-! ### Runs -/

theorem step_sinceCreated {op : Op} (h : l.SinceCreated created) (hstep : l.step op = .ok l') :
    l'.SinceCreated created := by
  cases op with
  | accrueRewards staked decimals now => exact accrueRewards_sinceCreated h hstep
  | claimRewards user stake staked decimals now =>
      simp only [step, bind_eq_ok] at hstep
      obtain ⟨l₁, haccrue, hpay⟩ := hstep
      exact payOut_sinceCreated (accrueRewards_sinceCreated h haccrue) hpay
  | topUp rawAmount =>
      cases hstep
      exact ⟨h.allowed, h.payoutLastPaid, h.noted⟩
  | setRewardRatio rewardHalfLife =>
      simp only [step, bind_eq_ok, Except.ok.injEq] at hstep
      obtain ⟨ratio, -, rfl⟩ := hstep
      exact ⟨h.allowed, h.payoutLastPaid, h.noted⟩

theorem step_sound {op : Op} (hcreated : l.SinceCreated created) (h : l.Sound created)
    (hnoted : l.NotedInTime created op) (hstep : l.step op = .ok l') :
    l'.Sound created ∧ Grown l.info l'.info := by
  cases op with
  | accrueRewards staked decimals now => exact accrueRewards_sound hcreated h hnoted hstep
  | claimRewards user stake staked decimals now =>
      simp only [step, bind_eq_ok] at hstep
      obtain ⟨l₁, haccrue, hpay⟩ := hstep
      obtain ⟨h₁, hgrown⟩ := accrueRewards_sound hcreated h hnoted haccrue
      obtain ⟨h₂, hgrown'⟩ := payOut_sound h₁ hpay
      exact ⟨h₂, hgrown.trans hgrown'⟩
  | topUp rawAmount =>
      cases hstep
      refine ⟨⟨h.ratio_pos, h.ratio_le, h.covered, h.known_le, fun hlater => ?_⟩, .refl _⟩
      refine (h.noted hlater).trans (ceilTail_mono (Nat.add_le_add_right ?_ _))
      exact Nat.mul_le_mul_right d9 (Nat.le_add_right ..)
  | setRewardRatio rewardHalfLife =>
      simp only [step, bind_eq_ok, Except.ok.injEq] at hstep
      obtain ⟨ratio, hratio, rfl⟩ := hstep
      obtain ⟨hpos, hle⟩ := setRewardRatio_spec hratio
      exact ⟨⟨hpos, hle, h.covered, h.known_le, h.noted⟩, .refl _⟩

/-- The operations of a run that succeed meet the condition on the first update. -/
def MeetsNoted (created : RewardInfo) (l : RewardLedger) (ops : List Op) : Prop :=
  RunMeets step (fun l₁ op => (∃ l₂, l₁.step op = .ok l₂) → l₁.NotedInTime created op) l ops

theorem run_sinceCreated (h : l.SinceCreated created) (ops : List Op) :
    (run step l ops).SinceCreated created :=
  run_inv (I := SinceCreated created) (fun _ _ _ _ => step_sinceCreated) h

theorem run_grown (hcreated : l.SinceCreated created) (h : l.Sound created)
    (hnoted : MeetsNoted created l ops) :
    (run step l ops).Sound created ∧ Grown l.info (run step l ops).info := by
  have hkept : ((run step l ops).SinceCreated created ∧ (run step l ops).Sound created) ∧
      Grown l.info (run step l ops).info := by
    refine RunMeets.inv (I := fun l' : RewardLedger => (l'.SinceCreated created ∧
      l'.Sound created) ∧ Grown l.info l'.info) (fun l₁ op l₂ hop hl₁ hstep => ?_) hnoted
      ⟨⟨hcreated, h⟩, .refl _⟩
    obtain ⟨⟨hcreated₁, h₁⟩, hgrown⟩ := hl₁
    obtain ⟨h₂, hgrown'⟩ := step_sound hcreated₁ h₁ (hop ⟨l₂, hstep⟩) hstep
    exact ⟨⟨step_sinceCreated hcreated₁ hstep, h₂⟩, hgrown.trans hgrown'⟩
  exact ⟨hkept.1.2, hkept.2⟩

theorem kept_of_meetsNoted (hfresh : l.Fresh) (h : MeetsNoted l.info l ops) : l.Kept ops := by
  rintro before after ⟨rest, rfl⟩
  have hsplit := RunMeets.append.mp (RunMeets.append.mp h).1
  obtain ⟨hsound, -⟩ := run_grown hfresh.sinceCreated hfresh.sound hsplit.1
  refine ⟨hsound.covered, fun elapsed helapsed => ?_, ?_⟩
  · exact tokensToHandout_total hsound.ratio_pos hsound.ratio_le helapsed hsound.covered
      hsound.known_le
  · rw [run_append]
    exact (run_grown (run_sinceCreated hfresh.sinceCreated before) hsound hsplit.2).2

/-- An update that takes note of less than what was noted before lets the balance go back. -/
theorem noted_of_updates {op : Op} (hupdates : l.Updates op) (hstep : l.step op = .ok l')
    (hgrown : Grown l.info l'.info) :
    l.info.balanceLastKnown ≤ ceilTail (l.vault * d9 + l.info.totalClaimed) := by
  refine hgrown.balanceLastKnown.trans ?_
  cases op with
  | accrueRewards staked decimals now =>
      exact (accrueRewards_known hupdates.1 hupdates.2 hstep).trans_le (min_le_left ..)
  | claimRewards user stake staked decimals now =>
      simp only [step, bind_eq_ok] at hstep
      obtain ⟨l₁, haccrue, hpay⟩ := hstep
      obtain ⟨vault, totalClaimed, rfl, -⟩ := payOut_spec hpay
      exact (accrueRewards_known hupdates.1 hupdates.2 haccrue).trans_le (min_le_left ..)
  | topUp rawAmount => exact hupdates.elim
  | setRewardRatio rewardHalfLife => exact hupdates.elim

/-- **The reward ledger is monotone, and its subtraction is safe, exactly when the first update
finds what was noted.** -/
theorem ledger_monotone_iff (hfresh : l.Fresh) (ops : List Op) :
    l.Kept ops ↔ MeetsNoted l.info l ops := by
  refine ⟨fun h => RunMeets.iff_splits.mpr ?_, kept_of_meetsNoted hfresh⟩
  rintro before op after rfl ⟨l₂, hstep⟩ hfirst hupdates
  rw [← (run_sinceCreated hfresh.sinceCreated before).noted hfirst]
  obtain ⟨-, -, hgrown⟩ := h before [op] ⟨after, by rw [List.append_assoc, List.singleton_append]⟩
  rw [run_append, run_cons, run_nil, attempt_ok hstep] at hgrown
  exact noted_of_updates hupdates hstep hgrown

/-- A ledger whose vault holds one reward token, with a half life of a day. -/
def newLedger : RewardLedger := ⟨ln2 / dayInSeconds, 1000000000, RewardInfo.init 0 1000000000⟩

theorem newLedger_fresh : newLedger.Fresh :=
  ⟨⟨dayInSeconds, by decide⟩, 0, 1000000000, by decide, rfl⟩

/-- A day, a claim and a longer half life. -/
def claimed : List Op :=
  [.accrueRewards 1000000000 9 1, .accrueRewards 1000000000 9 86401,
    .claimRewards {} 1000000000 1000000000 9 90000, .setRewardRatio 604800, .topUp 5]

theorem ledger_monotone_claimed :
    newLedger.Kept claimed ↔ MeetsNoted newLedger.info newLedger claimed :=
  ledger_monotone_iff newLedger_fresh claimed

/-- The vault is empty, but an account with a billion tokens was given instead. -/
def misnoted : RewardLedger := ⟨ln2 / dayInSeconds, 0, RewardInfo.init 0 1000000000000000000⟩

/-- A day later part of the billion that is not there is handed out, as it was noted in D9, and the
balance is noted to be zero: from now on the subtraction fails. -/
theorem misnoted_stuck :
    misnoted.Fresh ∧
      let l := run step misnoted [.accrueRewards 1000000000 9 86400]
      l.info.balanceLastKnown < misnoted.info.balanceLastKnown ∧
        l.info.balanceLastKnown < l.info.balanceAccounted ∧
        l.accrueRewards 1000000000 9 86401 = .error (.code .MathOverflow) :=
  ⟨⟨⟨dayInSeconds, by decide⟩, 0, 1000000000000000000, by decide, rfl⟩, by decide +kernel⟩

/-! ### Accounts that were given the vault -/

theorem step_vault_le {op : Op} (hstep : l.step op = .ok l') :
    l.vault * d9 + l.info.totalClaimed ≤ l'.vault * d9 + l'.info.totalClaimed := by
  have haccrues {l₁ : RewardLedger} {staked decimals now : ℕ}
      (h : l.accrueRewards staked decimals now = .ok l₁) :
      l.vault * d9 + l.info.totalClaimed = l₁.vault * d9 + l₁.info.totalClaimed := by
    simp only [accrueRewards, bind_eq_ok, Except.ok.injEq] at h
    obtain ⟨info', haccrue, rfl⟩ := h
    rw [(RewardInfo.accrueRewards_spec haccrue).1]
  cases op with
  | accrueRewards staked decimals now => exact (haccrues hstep).le
  | claimRewards user stake staked decimals now =>
      simp only [step, bind_eq_ok] at hstep
      obtain ⟨l₁, haccrue, hpay⟩ := hstep
      obtain ⟨vault, totalClaimed, rfl, -, hsum⟩ := payOut_spec hpay
      exact (haccrues haccrue).trans hsum.symm |>.le
  | topUp rawAmount =>
      cases hstep
      exact Nat.add_le_add_right (Nat.mul_le_mul_right d9 (Nat.le_add_right ..)) _
  | setRewardRatio rewardHalfLife =>
      simp only [step, bind_eq_ok, Except.ok.injEq] at hstep
      obtain ⟨ratio, -, rfl⟩ := hstep
      exact le_rfl

/-- Whatever is done to a ledger whose account was given the vault, or less, the first update finds
what was noted: tokens leave the vault by claims only. -/
theorem kept_of_vault (hfresh : l.Fresh) (hvault : l.info.balanceLastKnown ≤ l.vault * d9)
    (ops : List Op) : l.Kept ops := by
  refine kept_of_meetsNoted hfresh (RunMeets.iff_splits.mpr ?_)
  rintro before op after - - - -
  have hkept : l.vault * d9 ≤ (run step l before).vault * d9
      + (run step l before).info.totalClaimed :=
    run_inv (I := fun l₁ : RewardLedger => l.vault * d9 ≤ l₁.vault * d9 + l₁.info.totalClaimed)
      (fun _ _ _ _ h hstep => h.trans (step_vault_le hstep)) (Nat.le_add_right ..)
  exact (hvault.trans hkept).trans (le_ceilTail _)

end RewardLedger

end IndexDtf
