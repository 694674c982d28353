import IndexDtf.Governance.Realm

/-!
# IndexDtf.Governance.StakeRewards

**Rewards follow the stake.** A user and a reward token are an `IndexShare`: what
she was credited, her stake, and her bookmark. Everything the rewards program
does to it is *accruing* (`Accrues`): an index grows, a user is settled, a claim
moves what was accrued to what was received. An accrual never adds more to what
a user is due than the increments of the index times her stake.

The stake itself is changed by governance. A withdrawal forfeits what was not
settled; a deposit is only safe for a user whose bookmark is at the index, and
whether it gets there is up to the reward accounts the depositor passes
(`DepositSettled`). `credited_le_entitled` is the law for the runs that pass
them, `deposit_earns_the_past` a run that does not.
-/

namespace IndexDtf.Realm

open Lib Decimal

variable {r r' r'' : Realm} {token user caller : Pubkey} {info : RewardInfo}
  {acct : UserRewardInfo}

/-- A user and a reward token as a holder of the index. -/
def share (r : Realm) (token user : Pubkey) : IndexShare :=
  ⟨r.credited token user, r.stake user * d9, (r.account token user).lastRewardIndex⟩

/-! ### What the updates change -/

theorem index_setRewardInfo (r : Realm) (token : Pubkey) (info : RewardInfo) (t : Pubkey) :
    (r.setRewardInfo token info).index t = if t = token then info.rewardIndex else r.index t := by
  by_cases h : t = token <;> simp [index, setRewardInfo, h]

theorem account_setUserRewardInfo (r : Realm) (token user : Pubkey) (acct : UserRewardInfo)
    (t u : Pubkey) : (r.setUserRewardInfo token user acct).account t u
      = if t = token ∧ u = user then acct else r.account t u := by
  by_cases ht : t = token
  · subst ht
    by_cases hu : u = user <;> simp [account, setUserRewardInfo, hu]
  · simp [account, setUserRewardInfo, ht]

theorem share_setUserRewardInfo (r : Realm) (token user : Pubkey) (acct : UserRewardInfo)
    (t u : Pubkey) : (r.setUserRewardInfo token user acct).share t u
      = if t = token ∧ u = user then
          ⟨acct.accruedRewards + r.received token user * d9, r.stake user * d9,
            acct.lastRewardIndex⟩
        else r.share t u := by
  simp only [share, credited, account_setUserRewardInfo]
  by_cases h : t = token ∧ u = user
  · obtain ⟨rfl, rfl⟩ := h
    simp [setUserRewardInfo, stake]
  · simp only [if_neg h]
    rfl

theorem share_setDeposit (r : Realm) (owner : Pubkey) (amount : ℕ) (t u : Pubkey) :
    (r.setDeposit owner amount).share t u
      = { r.share t u with weight := (if u = owner then amount else r.stake u) * d9 } := by
  by_cases hu : u = owner
  · simp [share, credited, account, stake, setDeposit, hu]
  · simp [share, credited, account, stake, setDeposit, hu]

/-! ### Accruing -/

/-- From `r` to `r'` nobody's stake changed, no index went back, and nobody is
due more than the increments of the index times her stake. -/
structure Accrues (r r' : Realm) : Prop where
  deposit_eq : r'.deposit = r.deposit
  index_le : ∀ t, r.index t ≤ r'.index t
  bookmark_le : ∀ t u, (r.share t u).bookmark ≤ r.index t →
    (r'.share t u).bookmark ≤ r'.index t
  due_le : ∀ t u, (r.share t u).bookmark ≤ r.index t →
    (r'.share t u).due d18 (r'.index t)
      ≤ (r.share t u).due d18 (r.index t) + (r.share t u).weight * (r'.index t - r.index t)

theorem Accrues.refl (r : Realm) : Accrues r r :=
  ⟨rfl, fun _ => le_rfl, fun _ _ => id, fun _ _ _ => Nat.le_add_right ..⟩

theorem Accrues.weight_eq (h : Accrues r r') (t u : Pubkey) :
    (r'.share t u).weight = (r.share t u).weight := by
  simp only [share, stake, h.deposit_eq]

theorem Accrues.trans (h₁ : Accrues r r') (h₂ : Accrues r' r'') : Accrues r r'' := by
  refine ⟨h₂.deposit_eq.trans h₁.deposit_eq, fun t => (h₁.index_le t).trans (h₂.index_le t),
    fun t u h => h₂.bookmark_le t u (h₁.bookmark_le t u h), fun t u h => ?_⟩
  have hdue₁ := h₁.due_le t u h
  have hdue₂ := h₂.due_le t u (h₁.bookmark_le t u h)
  have hle₁ := h₁.index_le t
  have hle₂ := h₂.index_le t
  rw [h₁.weight_eq] at hdue₂
  have hsplit : r''.index t - r.index t
      = (r'.index t - r.index t) + (r''.index t - r'.index t) := by omega
  rw [hsplit, Nat.mul_add]
  omega

/-- An update that leaves the stakes and the indices alone, and every holder due
no more than before, is an accrual. -/
theorem Accrues.of_same_index (hdeposit : r'.deposit = r.deposit)
    (hindex : ∀ t, r'.index t = r.index t)
    (hshare : ∀ t u, (r.share t u).bookmark ≤ r.index t →
      (r'.share t u).bookmark ≤ r.index t ∧
        (r'.share t u).due d18 (r.index t) ≤ (r.share t u).due d18 (r.index t)) :
    Accrues r r' := by
  refine ⟨hdeposit, fun t => (hindex t).ge, fun t u h => ?_, fun t u h => ?_⟩
  · rw [hindex]
    exact (hshare t u h).1
  · rw [hindex]
    exact (hshare t u h).2.trans (Nat.le_add_right ..)

theorem accrueGlobal_accrues (h : r.accrueGlobal token = .ok r') : Accrues r r' := by
  simp only [accrueGlobal, bind_eq_ok, okOr_eq_ok] at h
  obtain ⟨info, hinfo, info', haccrue, heq⟩ := h
  cases heq
  have hle : ∀ t, r.index t ≤ (r.setRewardInfo token info').index t := by
    intro t
    rw [index_setRewardInfo]
    by_cases ht : t = token
    · subst ht
      rw [if_pos rfl, index, hinfo]
      exact RewardInfo.accrueRewards_index_le haccrue
    · rw [if_neg ht]
  refine ⟨rfl, hle, fun t u h => h.trans (hle t), fun t u h => ?_⟩
  obtain ⟨δ, hδ⟩ := Nat.exists_eq_add_of_le (hle t)
  have hsame : (r.setRewardInfo token info').share t u = r.share t u := rfl
  rw [hsame, hδ, IndexShare.due_advance h, Nat.add_sub_cancel_left]

theorem accrueUser_accrues (h : r.accrueUser token user = .ok r') : Accrues r r' := by
  simp only [accrueUser, bind_eq_ok, okOr_eq_ok, governanceBalance] at h
  obtain ⟨info, hinfo, stake, hstake, acct, haccrue, heq⟩ := h
  cases heq
  refine Accrues.of_same_index rfl (fun _ => rfl) fun t u hmark => ?_
  rw [share_setUserRewardInfo]
  by_cases htu : t = token ∧ u = user
  · obtain ⟨rfl, rfl⟩ := htu
    have hindex : r.index t = info.rewardIndex := by rw [index, hinfo]; rfl
    have hstake' : r.stake u = stake := by rw [Realm.stake, hstake]; rfl
    rw [if_pos ⟨rfl, rfl⟩]
    rcases UserRewardInfo.accrueRewards_spec haccrue with ⟨-, rfl⟩ | ⟨hlast, hcredit⟩
    · exact ⟨hmark, le_rfl⟩
    · rw [hlast, hindex]
      refine ⟨le_rfl, IndexShare.due_settle_le (a := r.share t u) ?_⟩
      simp only [share, credited, hstake', account]
      omega
  · rw [if_neg htu]
    exact ⟨hmark, le_rfl⟩

/-- A claim changes what is accrued and what was received by the same amount. -/
theorem payOut_accrues (h : payOut user r token = .ok r') : Accrues r r' := by
  simp only [payOut, bind_eq_ok, okOr_eq_ok, Prod.exists, guardOr_eq_ok] at h
  obtain ⟨info, hinfo, acct, hacct, raw, info', acct', hclaim, -, -, heq⟩ := h
  cases heq
  obtain ⟨-, hle, hinfo', hacct'⟩ := claimUpdate_spec hclaim
  have hindex : ∀ t, (r.setRewardInfo token info').index t = r.index t := by
    intro t
    rw [index_setRewardInfo]
    by_cases ht : t = token
    · rw [if_pos ht, ht, index, hinfo, hinfo']
      rfl
    · rw [if_neg ht]
  refine Accrues.of_same_index rfl hindex fun t u hmark => ?_
  suffices hshare : Realm.share _ t u = r.share t u by
    rw [hshare]
    exact ⟨hmark, le_rfl⟩
  by_cases htu : t = token ∧ u = user
  · obtain ⟨rfl, rfl⟩ := htu
    have hcredit : acct.accruedRewards - raw * d9 + (r.received t u + raw) * d9
        = acct.accruedRewards + r.received t u * d9 := by
      rw [Nat.add_mul]
      omega
    simp [share, credited, account, stake, setRewardInfo, setUserRewardInfo, hacct, hacct', hcredit]
  · by_cases ht : t = token
    · subst ht
      have hu : u ≠ user := fun hu => htu ⟨rfl, hu⟩
      simp [share, credited, account, stake, setRewardInfo, setUserRewardInfo, hu]
    · simp [share, credited, account, stake, setRewardInfo, setUserRewardInfo, ht]

theorem accrueRewardToken_accrues (h : accrueRewardToken caller user r token = .ok r') :
    Accrues r r' := by
  simp only [accrueRewardToken, bind_eq_ok] at h
  obtain ⟨r₁, h₁, r₂, h₂, h⟩ := h
  have h₁₂ := (accrueGlobal_accrues h₁).trans (accrueUser_accrues h₂)
  by_cases huser : user = caller
  · rw [if_pos huser] at h
    cases h
    exact h₁₂
  · rw [if_neg huser] at h
    exact h₁₂.trans (accrueUser_accrues h)

theorem accrueRewards_accrues {tokens : List Pubkey}
    (h : r.accrueRewards caller user tokens = .ok r') : Accrues r r' :=
  foldlM_inv (fun _ _ _ _ hI hstep => hI.trans (accrueRewardToken_accrues hstep))
    (Accrues.refl r) h

theorem claimRewards_accrues {tokens : List Pubkey}
    (h : tokens.foldlM (claimRewardToken user) r = .ok r') : Accrues r r' := by
  refine foldlM_inv (I := Accrues r) (fun _ _ _ _ hI hstep => ?_) (Accrues.refl r) h
  rw [claimRewardToken, bind_eq_ok] at hstep
  obtain ⟨_, haccrue, hpay⟩ := hstep
  exact (hI.trans (accrueRewardToken_accrues haccrue)).trans (payOut_accrues hpay)

/-! ### Who is settled after an accrual -/

/-- The user's bookmark is at the index. -/
def Settled (r : Realm) (token user : Pubkey) : Prop :=
  (r.account token user).lastRewardIndex = r.index token

instance (r : Realm) (token user : Pubkey) : Decidable (r.Settled token user) :=
  inferInstanceAs (Decidable (_ = _))

theorem accrueUser_settles (hmark : (r.share token user).bookmark ≤ r.index token)
    (h : r.accrueUser token user = .ok r') : r'.Settled token user := by
  simp only [accrueUser, bind_eq_ok, okOr_eq_ok, governanceBalance] at h
  obtain ⟨info, hinfo, stake, -, acct, haccrue, heq⟩ := h
  cases heq
  have hindex : r.index token = info.rewardIndex := by rw [index, hinfo]; rfl
  rw [Settled, account_setUserRewardInfo, if_pos ⟨rfl, rfl⟩]
  change acct.lastRewardIndex = r.index token
  rw [hindex] at hmark ⊢
  rcases UserRewardInfo.accrueRewards_spec haccrue with ⟨hge, rfl⟩ | ⟨hlast, -⟩
  · exact le_antisymm hmark hge
  · exact hlast

/-- Settling a user does not unsettle another one, or the same one elsewhere. -/
theorem accrueUser_keeps {t u : Pubkey} (hne : t ≠ token ∨ u ≠ user)
    (h : r.accrueUser token user = .ok r') (hs : r.Settled t u) : r'.Settled t u := by
  simp only [accrueUser, bind_eq_ok, okOr_eq_ok] at h
  obtain ⟨info, -, stake, -, acct, -, heq⟩ := h
  cases heq
  have htu : ¬(t = token ∧ u = user) := by
    rintro ⟨ht, hu⟩
    rcases hne with hne | hne
    · exact hne ht
    · exact hne hu
  rw [Settled, account_setUserRewardInfo, if_neg htu]
  exact hs

/-- A round settles the caller in its token, and unsettles her in no other. -/
theorem accrueRewardToken_settles {t : Pubkey}
    (hmark : (r.share t caller).bookmark ≤ r.index t) (hs : t = token ∨ r.Settled t caller)
    (h : accrueRewardToken caller user r token = .ok r') : r'.Settled t caller := by
  simp only [accrueRewardToken, bind_eq_ok] at h
  obtain ⟨r₁, h₁, r₂, h₂, h⟩ := h
  have hsettled : r₂.Settled t caller := by
    by_cases ht : t = token
    · subst ht
      exact accrueUser_settles ((accrueGlobal_accrues h₁).bookmark_le t caller hmark) h₂
    · refine accrueUser_keeps (.inl ht) h₂ ?_
      simp only [accrueGlobal, bind_eq_ok] at h₁
      obtain ⟨_, -, info, -, heq⟩ := h₁
      cases heq
      rw [Settled, index_setRewardInfo, if_neg ht]
      exact hs.resolve_left ht
  by_cases huser : user = caller
  · rw [if_pos huser] at h
    cases h
    exact hsettled
  · rw [if_neg huser] at h
    exact accrueUser_keeps (.inr (Ne.symm huser)) h hsettled

/-- After an accrual the caller is settled in every token that was passed, and in
every token she was settled in. -/
theorem accrueRewards_settles {t : Pubkey} {tokens : List Pubkey}
    (hmark : (r.share t caller).bookmark ≤ r.index t) (hs : t ∈ tokens ∨ r.Settled t caller)
    (h : r.accrueRewards caller user tokens = .ok r') : r'.Settled t caller := by
  induction tokens generalizing r with
  | nil =>
      cases h
      exact hs.resolve_left List.not_mem_nil
  | cons token rest ih =>
      rw [accrueRewards, List.foldlM_cons, bind_eq_ok] at h
      obtain ⟨r₁, h₁, hrest⟩ := h
      refine ih ((accrueRewardToken_accrues h₁).bookmark_le t caller hmark) ?_ hrest
      by_cases hmem : t ∈ rest
      · exact .inl hmem
      · refine .inr (accrueRewardToken_settles hmark ?_ h₁)
        rcases hs with hs | hs
        · exact .inl ((List.mem_cons.mp hs).resolve_right hmem)
        · exact .inr hs

/-! ### The law -/

/-- What a user was credited, or would be, is covered by an entitlement. -/
def Earned (token user : Pubkey) (entitlement : ℕ) (r : Realm) : Prop :=
  (r.share token user).bookmark ≤ r.index token ∧
    (r.share token user).due d18 (r.index token) ≤ entitlement * d9

/-- An accrual is covered by the increments of the index. -/
theorem Accrues.earned {e : ℕ} (h : Accrues r r') (he : Earned token user e r) :
    Earned token user (e + (r'.index token - r.index token) * r.stake user) r' := by
  refine ⟨h.bookmark_le token user he.1, ?_⟩
  have hdue := h.due_le token user he.1
  have hweight : (r.share token user).weight = r.stake user * d9 := rfl
  rw [hweight] at hdue
  have hcovered := he.2
  have hcomm : (r'.index token - r.index token) * r.stake user * d9
      = r.stake user * d9 * (r'.index token - r.index token) := by ring
  rw [Nat.add_mul, hcomm]
  omega

/-- The condition on a deposit, for one user and reward token: it adds nothing,
or the token's reward accounts are passed, or the depositor is settled in it. -/
def DepositSettled (token user : Pubkey) (r : Realm) : Instruction → Prop
  | .depositGoverningTokens owner _ amount rewardTokens =>
      owner = user → amount = 0 ∨ token ∈ rewardTokens ∨
        (r.account token user).lastRewardIndex = r.index token
  | _ => True

instance (token user : Pubkey) (r : Realm) (i : Instruction) :
    Decidable (DepositSettled token user r i) := by
  cases i <;> unfold DepositSettled <;> infer_instance

/-- The law only looks at the holder and the index. -/
theorem Earned.congr {e : ℕ} (he : Earned token user e r)
    (hshare : r'.share token user = r.share token user)
    (hindex : r'.index token = r.index token) : Earned token user e r' := by
  rw [Earned, hshare, hindex]
  exact he

/-- The stake of a user may shrink, and that of a settled user may change. -/
theorem Earned.setDeposit {owner : Pubkey} {e amount : ℕ} (he : Earned token user e r)
    (h : owner = user → amount ≤ r.stake user ∨ r.Settled token user) :
    Earned token user e (r.setDeposit owner amount) := by
  have hindex : (r.setDeposit owner amount).index token = r.index token := rfl
  rw [Earned, share_setDeposit, hindex]
  refine ⟨he.1, le_trans ?_ he.2⟩
  by_cases howner : user = owner
  · rw [if_pos howner]
    rcases h howner.symm with hle | hsettled
    · exact Nat.add_le_add_left (Nat.mul_le_mul_right _ (Nat.mul_le_mul_right _ hle)) _
    · exact (IndexShare.due_reweigh (a := r.share token user) hsettled).le
  · rw [if_neg howner]
    exact le_rfl

theorem transferIn_spec {source : Source} {amount : ℕ} (h : r.transferIn source amount = .ok r') :
    (∀ t u, r'.share t u = r.share t u) ∧ (∀ t, r'.index t = r.index t) ∧
      r'.deposit = r.deposit ∧ r'.account = r.account := by
  rw [transferIn, bind_eq_ok] at h
  obtain ⟨holding, -, h⟩ := h
  cases source with
  | account key =>
      rw [bind_eq_ok] at h
      obtain ⟨_, -, heq⟩ := h
      cases heq
      exact ⟨fun _ _ => rfl, fun _ => rfl, rfl, rfl⟩
  | mint =>
      cases h
      exact ⟨fun _ _ => rfl, fun _ => rfl, rfl, rfl⟩

/-- A deposit that adds to the stake of a settled user earns nothing by itself. -/
theorem depositGoverningTokens_earned {owner : Pubkey} {source : Source} {amount e : ℕ}
    {tokens : List Pubkey} (he : Earned token user e r)
    (hc : DepositSettled token user r (.depositGoverningTokens owner source amount tokens))
    (h : r.depositGoverningTokens owner source amount tokens = .ok r') :
    Earned token user (e + (r'.index token - r.index token) * r.stake user) r' := by
  simp only [depositGoverningTokens, bind_eq_ok, fitting_eq_ok] at h
  obtain ⟨_, -, r₁, haccrue, r₂, htransfer, _, ⟨-, rfl⟩, heq⟩ := h
  cases heq
  -- creating the record changes no stake
  generalize hr₀ : r.setDeposit owner ((r.deposit owner).getD 0) = r₀ at haccrue
  have hstake₀ : r₀.stake user = r.stake user := by
    rw [← hr₀]
    by_cases hu : user = owner <;> simp [stake, setDeposit, hu]
  have hshare₀ : r₀.share token user = r.share token user := by
    rw [share, hstake₀, ← hr₀]
    rfl
  have hindex₀ : r₀.index token = r.index token := by rw [← hr₀]; rfl
  have hearned := (accrueRewards_accrues haccrue).earned (he.congr hshare₀ hindex₀)
  rw [hindex₀, hstake₀] at hearned
  obtain ⟨hshare₂, hindex₂, hdeposit₂, haccount₂⟩ := transferIn_spec htransfer
  change Earned token user (e + (r₂.index token - r.index token) * r.stake user) _
  rw [hindex₂]
  refine (hearned.congr (hshare₂ token user) (hindex₂ token)).setDeposit fun howner => ?_
  subst howner
  rcases hc rfl with rfl | hsettled
  · exact .inl (by rw [Nat.add_zero]; exact le_rfl)
  · refine .inr ?_
    rw [Settled, haccount₂, hindex₂]
    refine accrueRewards_settles (by rw [hshare₀, hindex₀]; exact he.1) ?_ haccrue
    rcases hsettled with hmem | hmark
    · exact .inl hmem
    · refine .inr ?_
      rw [Settled, hindex₀, ← hmark, ← hr₀]
      rfl

/-- A withdrawal forfeits what was not settled. -/
theorem withdrawGoverningTokens_earned {owner destination : Pubkey} {e : ℕ}
    {tokens : List Pubkey} (he : Earned token user e r)
    (h : r.withdrawGoverningTokens owner destination tokens = .ok r') :
    Earned token user (e + (r'.index token - r.index token) * r.stake user) r' := by
  simp only [withdrawGoverningTokens, bind_eq_ok] at h
  obtain ⟨_, -, amount, -, _, -, r₁, haccrue, _, -, heq⟩ := h
  cases heq
  have hearned := (accrueRewards_accrues haccrue).earned he
  exact (hearned.congr rfl rfl).setDeposit fun _ => .inl (Nat.zero_le _)

/-- Time, top-ups and the administration of the realm touch no holder. -/
theorem Earned.unchanged {e : ℕ} (he : Earned token user e r)
    (hshare : r'.share token user = r.share token user)
    (hindex : r'.index token = r.index token) :
    Earned token user (e + (r'.index token - r.index token) * r.stake user) r' := by
  rw [hindex, Nat.sub_self, Nat.zero_mul, Nat.add_zero]
  exact he.congr hshare hindex

/-- What one instruction earns is covered by what it entitles to. -/
theorem step_earned {i : Instruction} {e : ℕ} (hc : DepositSettled token user r i)
    (he : Earned token user e r) (h : r.step i = .ok r') :
    Earned token user (e + (r'.index token - r.index token) * r.stake user) r' := by
  cases i with
  | depositGoverningTokens owner source amount tokens =>
      exact depositGoverningTokens_earned he hc h
  | withdrawGoverningTokens owner destination tokens =>
      exact withdrawGoverningTokens_earned he h
  | accrueRewards caller other tokens => exact (accrueRewards_accrues h).earned he
  | claimRewards claimer tokens => exact (claimRewards_accrues h).earned he
  | tick seconds =>
      cases h
      exact he.unchanged rfl rfl
  | topUp rewardToken amount =>
      cases h
      exact he.unchanged rfl rfl
  | setLocked other locked =>
      cases h
      exact he.unchanged rfl rfl
  | setRewardRatio ratio =>
      cases h
      exact he.unchanged rfl rfl

theorem run_earned {ops : List Instruction} {e : ℕ} (he : Earned token user e r)
    (hrun : RunMeets step (DepositSettled token user) r ops) :
    Earned token user (e + entitled token user r ops) (run step r ops) := by
  induction ops generalizing r e with
  | nil => exact he
  | cons i rest ih =>
      obtain ⟨hc, hrest⟩ := hrun
      rw [entitled, ← Nat.add_assoc, run_cons]
      refine ih ?_ hrest
      unfold attempt
      split
      · next r' h => exact step_earned hc he h
      · rw [Nat.sub_self, Nat.zero_mul, Nat.add_zero]
        exact he

/-- **Rewards follow the stake.** In a run whose deposits settle the user first,
what she was credited is at most what the increments of the index earned on the
stakes she held. -/
theorem credited_le_entitled (token user : Pubkey) (ops : List Instruction) (hfresh : r.Fresh)
    (hrun : RunMeets step (DepositSettled token user) r ops) :
    (run step r ops).credited token user * d18 ≤ entitled token user r ops * d9 := by
  have hstart : Earned token user 0 r := by
    simp [Earned, share, IndexShare.due, credited, account, hfresh.userRewardInfo_eq,
      hfresh.received_eq, hfresh.index_eq]
  have hend := (run_earned hstart hrun).2
  rw [Nat.zero_add] at hend
  exact (Nat.le_add_right ..).trans hend

/-- A new realm with one reward token, whose vault is filled. -/
def newRealm : Realm where
  clock := 1000
  canDeposit := true
  canWithdraw := true
  decimals := 9
  rewardRatio := ln2 / dayInSeconds
  holding := 0
  wallet := fun _ => 1000000000000
  locked := fun _ => false
  deposit := fun _ => none
  vault := fun _ => 1000000000000
  rewardInfo := fun token => if token = 7 then some ⟨1000, 0, 0, 0, 0, false⟩ else none
  userRewardInfo := fun _ _ => none
  received := fun _ _ => 0

theorem newRealm_fresh : newRealm.Fresh := by
  refine ⟨fun token => ?_, fun _ => rfl, fun _ _ => rfl, fun _ _ => rfl⟩
  by_cases h : token = 7 <;> simp [index, newRealm, h]

/-- Two depositors pass the reward accounts; the later one earns from then on. -/
theorem credited_le_entitled_second_depositor :
    let ops := [.depositGoverningTokens 1 (.account 11) 1000000000 [7], .tick 10,
      .accrueRewards 1 1 [7], .tick 86400, .depositGoverningTokens 2 (.account 12) 1000000000 [7],
      .tick 86400, .claimRewards 2 [7], .withdrawGoverningTokens 2 12 [7]]
    (run step newRealm ops).credited 7 2 * d18 ≤ entitled 7 2 newRealm ops * d9 :=
  credited_le_entitled 7 2 _ newRealm_fresh (by decide)

/-- A depositor who passes no reward accounts starts with bookmark 0, and is then
credited the whole index on her new stake. -/
theorem deposit_earns_the_past :
    let ops := [.depositGoverningTokens 1 (.account 11) 1000000000 [7], .tick 10,
      .accrueRewards 1 1 [7], .tick 86400, .accrueRewards 1 1 [7],
      .depositGoverningTokens 2 (.account 12) 1000000000 [], .accrueRewards 2 2 [7]]
    newRealm.Fresh ∧ entitled 7 2 newRealm ops * d9
      < (run step newRealm ops).credited 7 2 * d18 :=
  ⟨newRealm_fresh, by decide⟩

end IndexDtf.Realm
