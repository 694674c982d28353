import Mathlib.Algebra.BigOperators.Group.List.Basic
import IndexDtf.Folio.Basket

/-!
# IndexDtf.Folio.BasketSpec

What the operations on the two baskets do to the amounts they hold, read as
functions from mints to amounts. Every operation keeps the arrays well formed;
`addTokensToBasket` and its siblings add or take exactly what they are given, and
`toAssets` moves each token between the folio and the user without loss.
-/

namespace IndexDtf

open Lib SlotArray Decimal

/-- An array of slots keyed by mint, none of them twice. -/
abbrev BasketWF {α : Type} [Zero α] (l : SlotArray Pubkey α) : Prop := WF Pubkey.default l

/-- What a list of amounts has of a mint, over all its entries. -/
def amountOf (mint : Pubkey) (amounts : List FolioTokenAmount) : ℕ :=
  (amounts.map fun ta => if ta.key = mint then ta.value else 0).sum

@[simp] theorem amountOf_nil (mint : Pubkey) : amountOf mint [] = 0 := rfl

@[simp] theorem amountOf_cons (mint : Pubkey) (ta : FolioTokenAmount)
    (rest : List FolioTokenAmount) :
    amountOf mint (ta :: rest) = (if ta.key = mint then ta.value else 0) + amountOf mint rest := by
  simp [amountOf]

theorem amountOf_single (mint key : Pubkey) (n : ℕ) :
    amountOf mint [⟨key, n⟩] = if key = mint then n else 0 := by
  rw [amountOf_cons, amountOf_nil, Nat.add_zero]

theorem amountOf_append (mint : Pubkey) (amounts rest : List FolioTokenAmount) :
    amountOf mint (amounts ++ rest) = amountOf mint amounts + amountOf mint rest := by
  simp [amountOf]

/-! ### The folio's basket -/

namespace FolioBasket

variable {basket basket' : FolioBasket} {ta : FolioTokenAmount} {tas : List FolioTokenAmount}
  {mint : Pubkey}

theorem init_wf : BasketWF FolioBasket.init := WF.empty _

@[simp] theorem lookup_init : FolioBasket.init.lookup mint = 0 := lookup_empty _

theorem addToken_spec (hwf : BasketWF basket) (h : basket.addToken ta = .ok basket') :
    BasketWF basket' ∧ (fun m => basket'.lookup m)
      = Function.update (fun m => basket.lookup m) ta.key (basket.lookup ta.key + ta.value) := by
  simp only [addToken, bind_eq_ok, checkCondition_eq_ok] at h
  obtain ⟨-, hkey, h⟩ := h
  split at h
  · next amount hfind =>
    simp only [bind_eq_ok, checkedAddU64_eq_ok, Except.ok.injEq] at h
    obtain ⟨_, ⟨-, rfl⟩, rfl⟩ := h
    refine ⟨hwf.replace (fun e => absurd e hkey) (.inr (.inl rfl)), ?_⟩
    rw [lookup_set (by rw [hfind]; rfl), lookup_of_find hfind]
  · next hfind =>
    split at h
    · next hfree =>
      cases h
      refine ⟨hwf.replace (fun e => absurd e hkey) (.inr (.inr hfind)), ?_⟩
      rw [hwf.lookup_claim (by rw [hfree]; rfl) hkey hfind, lookup_of_find_none hfind, Nat.zero_add]
    · cases h

/-- Adding tokens adds exactly their amounts. -/
theorem addTokensToBasket_spec (hwf : BasketWF basket)
    (h : basket.addTokensToBasket tas = .ok basket') :
    BasketWF basket' ∧ ∀ m, basket'.lookup m = basket.lookup m + amountOf m tas := by
  induction tas generalizing basket with
  | nil =>
      cases h
      exact ⟨hwf, fun _ => rfl⟩
  | cons ta rest ih =>
      simp only [addTokensToBasket, List.foldlM_cons, bind_eq_ok] at h
      obtain ⟨basket₁, hadd, hrest⟩ := h
      obtain ⟨hwf₁, hlookup⟩ := addToken_spec hwf hadd
      obtain ⟨hwf', hsum⟩ := ih hwf₁ hrest
      refine ⟨hwf', fun m => ?_⟩
      rw [hsum, congrFun hlookup m, amountOf_cons]
      by_cases hm : m = ta.key
      · rw [hm, Function.update_self, if_pos rfl, Nat.add_assoc]
      · rw [Function.update_of_ne hm, if_neg (Ne.symm hm), Nat.zero_add]

theorem removeToken_spec (hwf : BasketWF basket) (h : basket.removeToken ta = .ok basket') :
    BasketWF basket' ∧ ta.value ≤ basket.lookup ta.key ∧ (fun m => basket'.lookup m)
      = Function.update (fun m => basket.lookup m) ta.key (basket.lookup ta.key - ta.value) := by
  unfold removeToken at h
  split at h
  · next amount hfind =>
    simp only [bind_eq_ok, checkedSub_eq_ok, Except.ok.injEq] at h
    obtain ⟨_, ⟨hle, rfl⟩, rfl⟩ := h
    have hlookup := lookup_of_find hfind
    refine ⟨hwf.replace (fun e => ?_) (.inr (.inl rfl)), hlookup ▸ hle, ?_⟩
    · have hzero : amount = 0 := hwf.vacant _ (mem_of_find hfind) e
      rw [hzero, Nat.zero_sub]
    · rw [lookup_set (by rw [hfind]; rfl), hlookup]
  · cases h

/-- Removing tokens takes exactly their amounts. -/
theorem removeTokensFromBasket_spec (hwf : BasketWF basket)
    (h : basket.removeTokensFromBasket tas = .ok basket') :
    BasketWF basket' ∧ ∀ m, basket'.lookup m + amountOf m tas = basket.lookup m := by
  induction tas generalizing basket with
  | nil =>
      cases h
      exact ⟨hwf, fun _ => rfl⟩
  | cons ta rest ih =>
      simp only [removeTokensFromBasket, List.foldlM_cons, bind_eq_ok] at h
      obtain ⟨basket₁, hremove, hrest⟩ := h
      obtain ⟨hwf₁, hle, hlookup⟩ := removeToken_spec hwf hremove
      obtain ⟨hwf', hsum⟩ := ih hwf₁ hrest
      refine ⟨hwf', fun m => ?_⟩
      have hm' := hsum m
      rw [congrFun hlookup m] at hm'
      rw [amountOf_cons]
      by_cases hm : m = ta.key
      · rw [hm, Function.update_self] at hm'
        rw [hm, if_pos rfl]
        omega
      · rw [Function.update_of_ne hm] at hm'
        rw [if_neg (Ne.symm hm), Nat.zero_add, hm']

theorem removeTokenMintFromBasket_spec (hwf : BasketWF basket)
    (h : basket.removeTokenMintFromBasket mint = .ok basket') :
    BasketWF basket' ∧
      (fun m => basket'.lookup m) = Function.update (fun m => basket.lookup m) mint 0 := by
  unfold removeTokenMintFromBasket at h
  split at h
  · cases h
    exact ⟨hwf.replace (fun _ => rfl) (.inl rfl), hwf.lookup_release⟩
  · cases h

/-! What the operations on one mint do to the slots. -/

theorem addTokensToBasket_single (basket : FolioBasket) (ta : FolioTokenAmount) :
    basket.addTokensToBasket [ta] = basket.addToken ta := by
  rw [addTokensToBasket, List.foldlM_cons]
  cases basket.addToken ta <;> rfl

theorem removeTokensFromBasket_single (basket : FolioBasket) (ta : FolioTokenAmount) :
    basket.removeTokensFromBasket [ta] = basket.removeToken ta := by
  rw [removeTokensFromBasket, List.foldlM_cons]
  cases basket.removeToken ta <;> rfl

/-- A mint the basket does not have is added in a free slot. -/
theorem addToken_absent (hnew : basket.find ta.key = none)
    (h : basket.addToken ta = .ok basket') :
    (basket.find Pubkey.default).isSome ∧ basket' = basket.replace Pubkey.default ta := by
  simp only [addToken, bind_eq_ok, checkCondition_eq_ok] at h
  obtain ⟨-, -, h⟩ := h
  rw [hnew] at h
  cases hfree : basket.find Pubkey.default with
  | none => rw [hfree] at h; cases h
  | some v =>
      rw [hfree] at h
      cases h
      exact ⟨rfl, rfl⟩

/-- Adding an amount, whether the basket has the mint or not. -/
theorem addToken_find (h : basket.addToken ta = .ok basket') :
    ta.key ≠ Pubkey.default ∧ basket'.find ta.key = some (basket.lookup ta.key + ta.value) ∧
      ∀ m, m ≠ Pubkey.default → m ≠ ta.key → basket'.find m = basket.find m := by
  have hkey : ta.key ≠ Pubkey.default := by
    simp only [addToken, bind_eq_ok, checkCondition_eq_ok] at h
    obtain ⟨-, hkey, -⟩ := h
    exact hkey
  cases hfind : basket.find ta.key with
  | none =>
      obtain ⟨hfree, rfl⟩ := addToken_absent hfind h
      refine ⟨hkey, ?_, fun m hm hmk => find_replace_of_ne hm hmk⟩
      rw [lookup_of_find_none hfind, Nat.zero_add]
      exact find_replace_self hfree (.inr hfind)
  | some n =>
      simp only [addToken, bind_eq_ok, hfind, checkedAddU64_eq_ok, Except.ok.injEq] at h
      obtain ⟨-, -, _, ⟨-, rfl⟩, rfl⟩ := h
      refine ⟨hkey, ?_, fun m _ hmk => find_replace_of_ne hmk hmk⟩
      rw [lookup_of_find hfind]
      exact find_replace_self (by rw [hfind]; rfl) (.inl rfl)

theorem removeToken_of {n : ℕ} (hfind : basket.find ta.key = some n)
    (h : basket.removeToken ta = .ok basket') :
    ta.value ≤ n ∧ basket' = basket.replace ta.key ⟨ta.key, n - ta.value⟩ := by
  simp only [removeToken, hfind, bind_eq_ok, checkedSub_eq_ok, Except.ok.injEq] at h
  obtain ⟨_, ⟨hle, rfl⟩, rfl⟩ := h
  exact ⟨hle, rfl⟩

theorem removeTokenMintFromBasket_of {n : ℕ} (hfind : basket.find mint = some n)
    (h : basket.removeTokenMintFromBasket mint = .ok basket') :
    basket' = basket.replace mint ⟨Pubkey.default, 0⟩ := by
  rw [removeTokenMintFromBasket, hfind] at h
  exact (Except.ok.inj h).symm

end FolioBasket

/-! ### A user's pending basket -/

namespace UserPendingBasket

variable {pending pending' : UserPendingBasket} {ta : TokenAmount} {tas : List TokenAmount}
  {process : PendingBasketType} {canAdd : Bool} {mint : Pubkey}

theorem init_wf : BasketWF UserPendingBasket.init := WF.empty _

@[simp] theorem lookup_init : UserPendingBasket.init.lookup mint = 0 := lookup_empty _

/-- What a list of token amounts has of a mint for a process. -/
def amountFor (process : PendingBasketType) (mint : Pubkey) (tas : List TokenAmount) : ℕ :=
  amountOf mint (tas.map fun ta => ⟨ta.key, ta.value.get process⟩)

@[simp] theorem amountFor_nil : amountFor process mint [] = 0 := rfl

@[simp] theorem amountFor_cons :
    amountFor process mint (ta :: tas)
      = (if ta.key = mint then ta.value.get process else 0) + amountFor process mint tas :=
  amountOf_cons ..

theorem addTokenAmount_spec (hwf : BasketWF pending) (hkey : ta.key ≠ Pubkey.default)
    (h : pending.addTokenAmount canAdd process ta = .ok pending') :
    BasketWF pending' ∧ ∃ amounts : PendingAmounts,
      amounts.total = (pending.lookup ta.key).total + ta.value.get process ∧
      (fun m => pending'.lookup m) = Function.update (fun m => pending.lookup m) ta.key amounts := by
  unfold addTokenAmount at h
  split at h
  · next amounts hfind =>
    simp only [bind_eq_ok, checkedAddU64_eq_ok, Except.ok.injEq] at h
    obtain ⟨_, ⟨-, rfl⟩, rfl⟩ := h
    refine ⟨hwf.replace (fun e => absurd e hkey) (.inr (.inl rfl)), _, ?_,
      lookup_set (by rw [hfind]; rfl)⟩
    have := amounts.total_set (ta.value.get process + amounts.get process) process
    rw [lookup_of_find hfind]
    omega
  · next hfind =>
    split at h
    · split at h
      · next amounts hfree =>
        cases h
        obtain rfl : amounts = 0 := hwf.vacant _ (mem_of_find hfree) rfl
        refine ⟨hwf.replace (fun e => absurd e hkey) (.inr (.inr hfind)), _, ?_,
          hwf.lookup_claim (by rw [hfree]; rfl) hkey hfind⟩
        have := PendingAmounts.total_set 0 (ta.value.get process) process
        rw [PendingAmounts.get_zero] at this
        rw [lookup_of_find_none hfind, ← this, Nat.add_zero]
      · cases h
    · cases h

/-- Adding token amounts adds exactly what they name. -/
theorem addTokenAmountsToFolio_spec (hwf : BasketWF pending)
    (hkeys : ∀ ta ∈ tas, ta.key ≠ Pubkey.default)
    (h : pending.addTokenAmountsToFolio tas canAdd process = .ok pending') :
    BasketWF pending' ∧
      ∀ m, (pending'.lookup m).total = (pending.lookup m).total + amountFor process m tas := by
  induction tas generalizing pending with
  | nil =>
      cases h
      exact ⟨hwf, fun _ => rfl⟩
  | cons ta rest ih =>
      simp only [addTokenAmountsToFolio, List.foldlM_cons, bind_eq_ok] at h
      obtain ⟨pending₁, hadd, hrest⟩ := h
      obtain ⟨hwf₁, amounts, htotal, hlookup⟩ :=
        addTokenAmount_spec hwf (hkeys ta (List.mem_cons_self ..)) hadd
      obtain ⟨hwf', hsum⟩ :=
        ih hwf₁ (fun t ht => hkeys t (List.mem_cons_of_mem _ ht)) hrest
      refine ⟨hwf', fun m => ?_⟩
      rw [hsum, congrFun hlookup m, amountFor_cons]
      by_cases hm : m = ta.key
      · rw [hm, Function.update_self, if_pos rfl, htotal, Nat.add_assoc]
      · rw [Function.update_of_ne hm, if_neg (Ne.symm hm), Nat.zero_add]

theorem removeTokenAmount_spec (hwf : BasketWF pending)
    (h : pending.removeTokenAmount true process ta = .ok pending') :
    BasketWF pending' ∧ ∃ amounts : PendingAmounts,
      amounts.total + ta.value.get process = (pending.lookup ta.key).total ∧
      (fun m => pending'.lookup m) = Function.update (fun m => pending.lookup m) ta.key amounts := by
  unfold removeTokenAmount at h
  split at h
  · next amounts hfind =>
    simp only [bind_eq_ok, guardOr_eq_ok] at h
    obtain ⟨-, hle, h⟩ := h
    have htotal := amounts.total_set (amounts.get process - ta.value.get process) process
    have hlookup := lookup_of_find hfind
    split at h
    · next hzero =>
      cases h
      -- both amounts are used up, so the slot given back holds zero
      have hzero : amounts.set (amounts.get process - ta.value.get process) process = 0 :=
        PendingAmounts.eq_zero_of_total (by rw [PendingAmounts.total]; omega)
      rw [hzero] at htotal ⊢
      refine ⟨hwf.replace (fun _ => rfl) (.inl rfl), 0, ?_, hwf.lookup_release⟩
      rw [hlookup]
      omega
    · cases h
      refine ⟨hwf.replace (fun e => ?_) (.inr (.inl rfl)), _, ?_, lookup_set (by rw [hfind]; rfl)⟩
      · obtain rfl : amounts = 0 := hwf.vacant _ (mem_of_find hfind) e
        rw [PendingAmounts.get_zero, Nat.zero_sub, PendingAmounts.total_zero] at htotal
        rw [PendingAmounts.get_zero, Nat.zero_sub]
        exact PendingAmounts.eq_zero_of_total htotal
      · rw [hlookup]
        omega
  · cases h

/-- Removing token amounts takes exactly what they name. -/
theorem removeTokenAmountsFromFolio_spec (hwf : BasketWF pending)
    (h : pending.removeTokenAmountsFromFolio tas true process = .ok pending') :
    BasketWF pending' ∧
      ∀ m, (pending'.lookup m).total + amountFor process m tas = (pending.lookup m).total := by
  induction tas generalizing pending with
  | nil =>
      cases h
      exact ⟨hwf, fun _ => rfl⟩
  | cons ta rest ih =>
      simp only [removeTokenAmountsFromFolio, List.foldlM_cons, bind_eq_ok] at h
      obtain ⟨pending₁, hremove, hrest⟩ := h
      obtain ⟨hwf₁, amounts, htotal, hlookup⟩ := removeTokenAmount_spec hwf hremove
      obtain ⟨hwf', hsum⟩ := ih hwf₁ hrest
      refine ⟨hwf', fun m => ?_⟩
      have hm' := hsum m
      rw [congrFun hlookup m] at hm'
      rw [amountFor_cons]
      by_cases hm : m = ta.key
      · rw [hm, Function.update_self] at hm'
        rw [hm, if_pos rfl]
        omega
      · rw [Function.update_of_ne hm] at hm'
        rw [if_neg (Ne.symm hm), Nat.zero_add, hm']

/-! ### Converting shares -/

variable {user user' : PendingAmounts} {amount amount' : ℕ} {supply shares balance : Decimal}
  {minimum : Option ℕ} {minimumOut : List MinimumOutForTokenAmount}

/-- Minting moves what it takes from the user to the folio. -/
theorem toAssetsForMinting_total
    (h : toAssetsForMinting user amount supply balance shares = .ok (user', amount')) :
    user'.total + amount' = user.total + amount := by
  simp only [toAssetsForMinting, bind_eq_ok, checkCondition_eq_ok, checkedSub_eq_ok,
    checkedAddU64_eq_ok, Except.ok.injEq, Prod.mk.injEq] at h
  obtain ⟨_, -, _, -, _, -, _, _, _, -, _, -, taken, -, _, ⟨hle, rfl⟩, _, ⟨-, rfl⟩, rfl, rfl⟩ := h
  simp only [PendingAmounts.total]
  omega

/-- What redeeming gives for `shares` of a supply that a balance backs. -/
def givenFor (shares supply balance : Decimal) : ℕ :=
  min (shares.val * balance.val / supply.val / d9) u64Max

theorem toAssetsForRedeeming_eq_ok
    (h : toAssetsForRedeeming user amount supply balance shares minimum = .ok (user', amount')) :
    0 < supply.val ∧ givenFor shares supply balance ≤ amount ∧
      user' = { user with
        amountForRedeeming := user.amountForRedeeming + givenFor shares supply balance } ∧
      amount' = amount - givenFor shares supply balance ∧
      ∀ n ∈ minimum, n ≤ givenFor shares supply balance := by
  simp only [toAssetsForRedeeming, bind_eq_ok, mul_eq_ok, div_eq_ok, toTokenAmount_floor,
    checkCondition_eq_ok, checkedSub_eq_ok, checkedAddU64_eq_ok, Except.ok.injEq,
    Prod.mk.injEq] at h
  obtain ⟨_, ⟨-, rfl⟩, _, ⟨hpos, rfl⟩, _, rfl, _, ⟨-, rfl⟩, _, ⟨hle, rfl⟩, _, hmin, rfl, rfl⟩ := h
  exact ⟨hpos, hle, rfl, rfl, hmin⟩

/-- Either conversion moves what one side loses to the other. -/
theorem exchange_total
    (h : exchange process user amount supply shares minimum = .ok (user', amount')) :
    user'.total + amount' = user.total + amount := by
  simp only [exchange, bind_eq_ok] at h
  obtain ⟨balance, -, h⟩ := h
  cases process with
  | MintProcess => exact toAssetsForMinting_total h
  | RedeemProcess =>
      obtain ⟨-, hle, rfl, rfl, -⟩ := toAssetsForRedeeming_eq_ok h
      simp only [PendingAmounts.total]
      omega

theorem slotFor_spec (hwf : BasketWF pending) (hmint : mint ≠ Pubkey.default)
    (h : pending.slotFor process mint = .ok (pending', user)) :
    BasketWF pending' ∧ (pending'.find mint).isSome ∧ user = pending.lookup mint ∧
      ∀ m, pending'.lookup m = pending.lookup m := by
  unfold slotFor at h
  split at h
  · next amounts hfind =>
    cases h
    exact ⟨hwf, by rw [hfind]; rfl, (lookup_of_find hfind).symm, fun _ => rfl⟩
  · next hfind =>
    split at h
    · split at h
      · next amounts hfree =>
        cases h
        obtain rfl : user = 0 := hwf.vacant _ (mem_of_find hfree) rfl
        have hsome : (pending.find Pubkey.default).isSome := by rw [hfree]; rfl
        refine ⟨hwf.replace (fun _ => rfl) (.inr (.inr hfind)), ?_,
          (lookup_of_find_none hfind).symm, fun m => ?_⟩
        · rw [find_replace_self hsome (.inr hfind)]
          rfl
        · rw [congrFun (hwf.lookup_claim hsome hmint hfind) m]
          by_cases hm : m = mint
          · rw [hm, Function.update_self, lookup_of_find_none hfind]
          · rw [Function.update_of_ne hm]
      · cases h
    · cases h

/-- What a round of `to_assets` does at its mint. -/
def Exchanged (process : PendingBasketType) (supply shares : Decimal)
    (minimumOut : List MinimumOutForTokenAmount) (mint : Pubkey) (user : PendingAmounts)
    (amount : ℕ) (user' : PendingAmounts) (amount' : ℕ) : Prop :=
  exchange process user amount supply shares (minimumFor minimumOut mint) = .ok (user', amount')

theorem toAssetsRound_spec (hwf : BasketWF pending) (hmint : mint ≠ Pubkey.default)
    (h : toAssetsRound process supply shares minimumOut pending mint amount
      = .ok (pending', amount')) :
    BasketWF pending' ∧
      Exchanged process supply shares minimumOut mint (pending.lookup mint) amount
        (pending'.lookup mint) amount' ∧
      ∀ m, m ≠ mint → pending'.lookup m = pending.lookup m := by
  simp only [toAssetsRound, bind_eq_ok, Prod.exists, Except.ok.injEq, Prod.mk.injEq] at h
  obtain ⟨pending₁, user, hslot, user', _, hexchange, rfl, rfl⟩ := h
  obtain ⟨hwf₁, hsome, rfl, hsame⟩ := slotFor_spec hwf hmint hslot
  have hset := lookup_set (v := user') hsome
  refine ⟨hwf₁.replace (fun e => absurd e hmint) (.inr (.inl rfl)), ?_, fun m hm => ?_⟩
  · rw [congrFun hset mint, Function.update_self]
    exact hexchange
  · rw [congrFun hset m, Function.update_of_ne hm, hsame]

/-- **`to_assets`.** Every token of the folio's basket goes through one exchange
with the user, at the supply after the poke; nothing else changes. -/
theorem toAssets_spec {basket basket' : FolioBasket} {folio folio' : Folio}
    {rawShares rawSupply now : ℕ} {fee : DaoFee}
    (hp : BasketWF pending) (hb : BasketWF basket)
    (h : pending.toAssets rawShares rawSupply basket folio process now fee minimumOut
      = .ok (pending', basket', folio')) :
    folio.poke rawSupply now fee = .ok folio' ∧
      ∃ supply, folio'.getTotalSupply rawSupply = .ok supply ∧
        BasketWF pending' ∧ BasketWF basket' ∧
        ∀ m, m ≠ Pubkey.default →
          Passed (Exchanged process supply ⟨rawShares * d9⟩ minimumOut m)
            (pending.lookup m) (pending'.lookup m) (basket.find m) (basket'.find m) := by
  simp only [toAssets, bind_eq_ok, fromTokenAmount_eq_ok, Prod.exists, Except.ok.injEq,
    Prod.mk.injEq] at h
  obtain ⟨folio₁, hpoke, supply, hsupply, _, ⟨-, rfl⟩, _, _, hedit, rfl, rfl, rfl⟩ := h
  obtain ⟨hp', hb', hpass⟩ := editAll_spec
    (I := fun p => BasketWF p) (g := fun p m => lookup m p)
    (R := fun m => Exchanged process supply ⟨rawShares * d9⟩ minimumOut m)
    (fun _ _ _ _ _ hm hwf hround => toAssetsRound_spec hwf hm hround) hb hp hedit
  exact ⟨hpoke, supply, hsupply, hp', hb', hpass⟩

/-- A conversion neither creates nor destroys tokens. -/
theorem toAssets_total {basket basket' : FolioBasket} {folio folio' : Folio}
    {rawShares rawSupply now : ℕ} {fee : DaoFee}
    (hp : BasketWF pending) (hb : BasketWF basket)
    (h : pending.toAssets rawShares rawSupply basket folio process now fee minimumOut
      = .ok (pending', basket', folio')) (m : Pubkey) :
    (pending'.lookup m).total + basket'.lookup m
      = (pending.lookup m).total + basket.lookup m := by
  obtain ⟨-, supply, -, hp', hb', hpass⟩ := toAssets_spec hp hb h
  by_cases hm : m = Pubkey.default
  · rw [hm, hp.lookup_free, hp'.lookup_free, hb.lookup_free, hb'.lookup_free]
  · cases hpass m hm with
    | inl hround =>
        obtain ⟨amount, amount', hx, hx', hexchange⟩ := hround
        rw [lookup_of_find hx, lookup_of_find hx']
        exact exchange_total hexchange
    | inr hsame =>
        obtain ⟨hx, hx', heq⟩ := hsame
        rw [lookup_of_find_none hx, lookup_of_find_none hx', heq]

end UserPendingBasket

end IndexDtf
