import IndexDtf.Rewards.Ledger

/-!
# IndexDtf.Rewards.Registration

**The life of a reward token**, from its registration to its removal. The global account notes the
balance of the vault twice over: when it is created, and with every index update. What it has noted
is meant to be in D18, but at its creation the amount is stored as it is.

* `Registry` — the reward tokens of a realm, and what is done to them;
* `Registry.Known` — the balances that were noted last are those that are known;
* `balance_known_iff` — the runs in which this holds all along.
-/

namespace IndexDtf

open Lib Decimal

/-! ### The list of reward tokens -/

namespace RewardTokens

/-- `add_reward_token` of the list; the default key is a free slot. -/
def addRewardToken (rewardTokens : List Pubkey) (newRewardToken : Pubkey)
    (newRewardInfo : RewardInfo) : Result (List Pubkey) := do
  checkCondition (newRewardInfo.isDisallowed = false) .DisallowedRewardToken
  checkCondition (newRewardToken ∉ rewardTokens) .RewardAlreadyRegistered
  let index ← okOr (.code .NoMoreRoomForNewRewardToken) (rewardTokens.idxOf? Pubkey.default)
  .ok (rewardTokens.set index newRewardToken)

/-- `remove_reward_token` of the list. -/
def removeRewardToken (rewardTokens : List Pubkey) (rewardToken : Pubkey) :
    Result (List Pubkey) := do
  let position ← okOr (.code .RewardNotRegistered) (rewardTokens.idxOf? rewardToken)
  .ok (rewardTokens.set position Pubkey.default)

end RewardTokens

/-- The `RewardTokens` of a realm, with the vault and the `RewardInfo` of each token. -/
structure Registry where
  rewardRatio : ℕ
  rewardTokens : List Pubkey
  vault : Pubkey → ℕ
  info : Pubkey → Option RewardInfo

/-- The token account `add_reward_token` is given. It belongs to the realm's `RewardTokens`, but
only the other instructions ask for the associated one. -/
inductive RewardTokenAccount
  | vault
  | other (amount : ℕ)
  deriving DecidableEq, Repr

namespace Registry

/-- What happens to the reward tokens of a realm. -/
inductive Op
  | addRewardToken (rewardToken : Pubkey) (account : RewardTokenAccount) (now : ℕ)
  | removeRewardToken (rewardToken : Pubkey) (rawStaked decimals now : ℕ)
  | accrueRewards (rewardToken : Pubkey) (rawStaked decimals now : ℕ)
  /-- `claim_rewards` of a user, whatever her account and her stake are. -/
  | claimRewards (rewardToken : Pubkey) (user : UserRewardInfo)
      (rawUserBalance rawStaked decimals now : ℕ)
  /-- Reward tokens arrive in a vault. -/
  | topUp (rewardToken : Pubkey) (rawAmount : ℕ)
  | setRewardRatio (rewardHalfLife : ℕ)
  deriving DecidableEq, Repr

/-- A realm without reward tokens. Its vaults may hold tokens all the same. -/
def start (vault : Pubkey → ℕ) : Registry :=
  ⟨0, List.replicate maxRewardTokens Pubkey.default, vault, fun _ => none⟩

/-- What is in the account that `add_reward_token` is given. -/
def amountOf (r : Registry) (token : Pubkey) : RewardTokenAccount → ℕ
  | .vault => r.vault token
  | .other amount => amount

/-- `process_init_if_needed`: an account that exists already is left as it is. -/
def processInitIfNeeded (r : Registry) (token : Pubkey) (account : RewardTokenAccount) (now : ℕ) :
    RewardInfo :=
  (r.info token).getD (RewardInfo.init now (r.amountOf token account))

/-- The ledger of a token whose account was created. -/
def ledger (r : Registry) (token : Pubkey) : Result RewardLedger := do
  let info ← okOr .account (r.info token)
  .ok ⟨r.rewardRatio, r.vault token, info⟩

/-- The registry with the ledger of a token as it is then. -/
def setLedger (r : Registry) (token : Pubkey) (l : RewardLedger) : Registry :=
  { r with
    vault := Function.update r.vault token l.vault
    info := Function.update r.info token (some l.info) }

/-- One operation. -/
def step (r : Registry) : Op → Result Registry
  | .addRewardToken token account now => do
      let info := r.processInitIfNeeded token account now
      let rewardTokens ← RewardTokens.addRewardToken r.rewardTokens token info
      .ok { r with rewardTokens, info := Function.update r.info token (some info) }
  | .removeRewardToken token rawStaked decimals now => do
      let l ← (← r.ledger token).accrueRewards rawStaked decimals now
      let rewardTokens ← RewardTokens.removeRewardToken r.rewardTokens token
      .ok { r.setLedger token { l with info := { l.info with isDisallowed := true } } with
        rewardTokens }
  | .accrueRewards token rawStaked decimals now => do
      let l ← (← r.ledger token).accrueRewards rawStaked decimals now
      .ok (r.setLedger token l)
  | .claimRewards token user rawUserBalance rawStaked decimals now => do
      let l ← (← r.ledger token).accrueRewards rawStaked decimals now
      .ok (r.setLedger token (← l.payOut user rawUserBalance))
  | .topUp token rawAmount =>
      .ok { r with vault := Function.update r.vault token (r.vault token + rawAmount) }
  | .setRewardRatio rewardHalfLife => do
      .ok { r with rewardRatio := ← IndexDtf.setRewardRatio rewardHalfLife }

/-! ### What is noted -/

/-- The vault and what was claimed when the balance of a token was noted. -/
structure Note where
  token : Pubkey
  vault : ℕ
  totalClaimed : ℕ
  /-- Whether the account was created then. -/
  created : Bool
  deriving DecidableEq, Repr

/-- What an accrual takes note of: nothing, when it does not get to the balance. -/
def updateNotes (r : Registry) (token : Pubkey) (now : ℕ) : List Note :=
  match r.info token with
  | none => []
  | some info =>
      if info.isDisallowed = true ∨ now ≤ info.payoutLastPaid then []
      else [⟨token, r.vault token, info.totalClaimed, false⟩]

/-- What an operation takes note of. -/
def notes (r : Registry) : Op → List Note
  | .addRewardToken token _ _ =>
      if r.info token = none then [⟨token, r.vault token, 0, true⟩] else []
  | .removeRewardToken token _ _ now => r.updateNotes token now
  | .accrueRewards token _ _ now => r.updateNotes token now
  | .claimRewards token _ _ _ _ now => r.updateNotes token now
  | .topUp _ _ => []
  | .setRewardRatio _ => []

/-- What was noted last of a token. -/
def lastNote (token : Pubkey) (log : List Note) : Option Note :=
  (log.filter (·.token = token)).getLast?

/-- Within a unit of each other. -/
def Near (a b : ℕ) : Prop := a ≤ b + 1 ∧ b ≤ a + 1

instance (a b : ℕ) : Decidable (Near a b) := inferInstanceAs (Decidable (_ ∧ _))

/-- The balance of an account is that of a note, in D18; a new account emits on all of it. -/
def Agrees (info : RewardInfo) (n : Note) : Prop :=
  Near info.balanceLastKnown (n.vault * d9 + n.totalClaimed) ∧
    (n.created = true → Near (info.balanceLastKnown - info.balanceAccounted) (n.vault * d9))

/-- The balances that are known are those that were noted last. -/
def Known (r : Registry) (log : List Note) : Prop :=
  ∀ token info, r.info token = some info → ∃ n, lastNote token log = some n ∧ Agrees info n

/-- The condition on what is noted: a new account is given a balance that is that of the vault in
D18 as it stands, as an empty one is, and an update does not saturate. -/
def NotedInD18 (r : Registry) : Op → Prop
  | .addRewardToken token account _ =>
      r.info token = none → Near (r.amountOf token account) (r.vault token * d9)
  | op => ∀ n ∈ r.notes op, n.vault * d9 + n.totalClaimed ≤ u128Max + 1

variable {r r' : Registry} {log : List Note} {token : Pubkey} {info info' : RewardInfo} {n : Note}

/-! ### The last note -/

@[simp] theorem lastNote_append_self : lastNote n.token (log ++ [n]) = some n := by
  simp [lastNote, List.filter_append]

theorem lastNote_append_of_ne (h : n.token ≠ token) :
    lastNote token (log ++ [n]) = lastNote token log := by
  simp [lastNote, List.filter_append, h]

/-- After something was noted of a token, it is that what counts. -/
theorem Known.write (h : r.Known log)
    (hinfo : r'.info = Function.update r.info n.token (some info')) :
    r'.Known (log ++ [n]) ↔ Agrees info' n := by
  constructor
  · intro h'
    obtain ⟨m, hm, hagrees⟩ := h' n.token info' (by rw [hinfo, Function.update_self])
    rw [lastNote_append_self] at hm
    exact Option.some.inj hm ▸ hagrees
  · intro hagrees token info htoken
    rw [hinfo] at htoken
    by_cases heq : token = n.token
    · subst heq
      rw [Function.update_self] at htoken
      exact ⟨n, lastNote_append_self, Option.some.inj htoken ▸ hagrees⟩
    · rw [Function.update_of_ne heq] at htoken
      rw [lastNote_append_of_ne (Ne.symm heq)]
      exact h token info htoken

/-- Nothing was noted, and the balances of the token are as they were. -/
theorem Known.keep (h : r.Known log) (hold : r.info token = some info)
    (hinfo : r'.info = Function.update r.info token (some info'))
    (hknown : info'.balanceLastKnown = info.balanceLastKnown)
    (haccounted : info'.balanceAccounted = info.balanceAccounted) : r'.Known log := by
  intro token₁ info₁ htoken
  rw [hinfo] at htoken
  by_cases heq : token₁ = token
  · subst heq
    rw [Function.update_self] at htoken
    obtain ⟨n, hn, hagrees⟩ := h token₁ info hold
    refine ⟨n, hn, ?_⟩
    rw [← Option.some.inj htoken, Agrees, hknown, haccounted]
    exact hagrees
  · rw [Function.update_of_ne heq] at htoken
    exact h token₁ info₁ htoken

/-! ### One operation -/

theorem agrees_init {now amount vault : ℕ} :
    Agrees (RewardInfo.init now amount) ⟨token, vault, 0, true⟩ ↔ Near amount (vault * d9) := by
  simp [Agrees, RewardInfo.init]

theorem agrees_update {vault totalClaimed : ℕ}
    (h : info.balanceLastKnown = min (ceilTail (vault * d9 + totalClaimed)) u128Max) :
    Agrees info ⟨token, vault, totalClaimed, false⟩ ↔
      vault * d9 + totalClaimed ≤ u128Max + 1 := by
  simp only [Agrees, h, Bool.false_eq_true, false_imp_iff, and_true]
  generalize vault * d9 + totalClaimed = balance
  have hge := le_ceilTail balance
  have hle := ceilTail_le balance
  unfold Near
  generalize u128Max = bound
  omega

/-- An accrual of a token, and what follows it that does not touch its balances. -/
theorem accrual_known {l l' : RewardLedger} {staked decimals now : ℕ} (h : r.Known log)
    (hledger : r.ledger token = .ok l) (haccrue : l.accrueRewards staked decimals now = .ok l')
    (hinfo : r'.info = Function.update r.info token (some info'))
    (hknown : info'.balanceLastKnown = l'.info.balanceLastKnown)
    (haccounted : info'.balanceAccounted = l'.info.balanceAccounted) :
    r'.Known (log ++ r.updateNotes token now) ↔
      ∀ n ∈ r.updateNotes token now, n.vault * d9 + n.totalClaimed ≤ u128Max + 1 := by
  simp only [ledger, bind_eq_ok, okOr_eq_ok, Except.ok.injEq] at hledger
  obtain ⟨info, hold, rfl⟩ := hledger
  simp only [RewardLedger.accrueRewards, bind_eq_ok, Except.ok.injEq] at haccrue
  obtain ⟨accrued, haccrue, rfl⟩ := haccrue
  simp only [updateNotes, hold]
  by_cases hidle : info.isDisallowed = true ∨ now ≤ info.payoutLastPaid
  · rw [RewardInfo.accrueRewards_idle hidle] at haccrue
    obtain rfl := Except.ok.inj haccrue
    simp only [if_pos hidle, List.append_nil, List.not_mem_nil, false_imp_iff, implies_true,
      iff_true]
    exact h.keep hold hinfo hknown haccounted
  · simp only [if_neg hidle, List.mem_singleton, forall_eq]
    rw [not_or, Bool.not_eq_true, Nat.not_le] at hidle
    have hupdate := (RewardInfo.accrueRewards_update hidle.1 hidle.2 haccrue).2
    rw [h.write (n := ⟨token, r.vault token, info.totalClaimed, false⟩) hinfo]
    exact agrees_update (hknown.trans hupdate)

/-- What is noted agrees with the vault exactly when it is noted in D18. -/
theorem step_known {op : Op} (h : r.Known log) (hstep : r.step op = .ok r') :
    r'.Known (log ++ r.notes op) ↔ r.NotedInD18 op := by
  cases op with
  | addRewardToken token account now =>
      simp only [step, bind_eq_ok, Except.ok.injEq] at hstep
      obtain ⟨rewardTokens, -, rfl⟩ := hstep
      simp only [notes, NotedInD18, processInitIfNeeded]
      cases hold : r.info token with
      | none =>
          simp only [if_pos, Option.getD_none, forall_const]
          rw [h.write (n := ⟨token, r.vault token, 0, true⟩) rfl]
          exact agrees_init
      | some info =>
          simp only [reduceCtorEq, if_false, List.append_nil, false_imp_iff, iff_true]
          exact h.keep hold rfl rfl rfl
  | removeRewardToken token staked decimals now =>
      simp only [step, bind_eq_ok, Except.ok.injEq] at hstep
      obtain ⟨l, hledger, l', haccrue, rewardTokens, -, rfl⟩ := hstep
      exact accrual_known h hledger haccrue rfl rfl rfl
  | accrueRewards token staked decimals now =>
      simp only [step, bind_eq_ok, Except.ok.injEq] at hstep
      obtain ⟨l, hledger, l', haccrue, rfl⟩ := hstep
      exact accrual_known h hledger haccrue rfl rfl rfl
  | claimRewards token user stake staked decimals now =>
      simp only [step, bind_eq_ok, Except.ok.injEq] at hstep
      obtain ⟨l, hledger, l', haccrue, l'', hpay, rfl⟩ := hstep
      obtain ⟨vault, totalClaimed, rfl, -⟩ := RewardLedger.payOut_spec hpay
      exact accrual_known h hledger haccrue rfl rfl rfl
  | topUp token rawAmount =>
      cases hstep
      simp only [notes, NotedInD18, List.append_nil, List.not_mem_nil, false_imp_iff, implies_true,
        iff_true]
      exact h
  | setRewardRatio rewardHalfLife =>
      simp only [step, bind_eq_ok, Except.ok.injEq] at hstep
      obtain ⟨rewardRatio, -, rfl⟩ := hstep
      simp only [notes, NotedInD18, List.append_nil, List.not_mem_nil, false_imp_iff, implies_true,
        iff_true]
      exact h

/-! ### Runs -/

/-- **The known balances are those of the vaults**, all along a run, exactly if every account is
created for an empty vault, or with a balance that happens to be right, and no update saturates. -/
theorem balance_known_iff (vault : Pubkey → ℕ) (ops : List Op) :
    (∀ before, before <+: ops →
      (run step (start vault) before).Known (trace step notes (start vault) before)) ↔
      RunMeets step (fun r op => (∃ r', r.step op = .ok r') → r.NotedInD18 op) (start vault) ops :=
  trace_inv_iff (I := Known) (p := []) (fun _ _ _ _ _ => step_known)
    (fun token info hinfo => by simp [start] at hinfo)

/-- A vault with one reward token when it is registered, and an accrual a day later. -/
def registered : List Op :=
  [.setRewardRatio dayInSeconds, .addRewardToken 7 .vault 0,
    .accrueRewards 7 1000000000 9 dayInSeconds]

/-- It is known as `10 ^ 9` in place of `10 ^ 18`, and half of that is handed out. -/
theorem registered_in_d9 :
    ¬ (run step (start fun _ => 1000000000) (registered.take 2)).Known
        (trace step notes (start fun _ => 1000000000) (registered.take 2)) ∧
      ∃ info, (run step (start fun _ => 1000000000) registered).info 7 = some info ∧
        info.balanceAccounted = 500001391 := by
  refine ⟨fun h => ?_, by decide +kernel⟩
  obtain ⟨n, hn, hagrees, -⟩ := h 7 (RewardInfo.init 0 1000000000) (by decide)
  have hlast : lastNote 7 (trace step notes (start fun _ => 1000000000) (registered.take 2))
      = some ⟨7, 1000000000, 0, true⟩ := by decide
  obtain rfl := Option.some.inj (hn.symm.trans hlast)
  exact absurd hagrees (by decide)

end Registry

end IndexDtf
