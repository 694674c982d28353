import IndexDtf.Folio.BasketSpec
import IndexDtf.Folio.PokeErrors
import IndexDtf.Lib.SlotMap
import IndexDtf.Lib.Transition

/-!
# IndexDtf.Folio.BasketMaps

**The baskets are finite maps.** What the operations on the arrays of a folio and its users come to
is an update of maps from mints to amounts, wherever the slots are, and there is no room for a new
mint only if no slot is free.

* `FolioMap`, `PendingMap` — the maps, with the updates that are meant;
* `addToken_becomes`, … — one round of each operation;
* `Baskets` — the arrays of a folio and its users, and what is done to them;
* `baskets_are_maps` — every operation in every run against its update.
-/

namespace IndexDtf

open Lib SlotArray

/-! ### The maps that are meant -/

/-- What a folio has of each token. -/
abbrev FolioMap := Pubkey → Option ℕ

/-- What a user has pending of each token. -/
abbrev PendingMap := Pubkey → Option PendingAmounts

namespace FolioMap

def add (m : FolioMap) (added : FolioTokenAmount) : FolioMap :=
  Function.update m added.key (some ((m added.key).getD 0 + added.value))

def remove (m : FolioMap) (removed : FolioTokenAmount) : FolioMap :=
  Function.update m removed.key ((m removed.key).map (· - removed.value))

def removeMint (m : FolioMap) (mint : Pubkey) : FolioMap := Function.update m mint none

end FolioMap

namespace PendingMap

def add (process : PendingBasketType) (m : PendingMap) (added : TokenAmount) : PendingMap :=
  let old := (m added.key).getD 0
  Function.update m added.key
    (some (old.set (added.value.get process + old.get process) process))

/-- A token of which nothing is left is forgotten. -/
def remove (process : PendingBasketType) (m : PendingMap) (removed : TokenAmount) : PendingMap :=
  Function.update m removed.key ((m removed.key).bind fun old =>
    let new := old.set (old.get process - removed.value.get process) process
    if new = 0 then none else some new)

end PendingMap

/-- What the user and the folio have of a token after `to_assets`, if the folio has the token. -/
def exchangedAt (process : PendingBasketType) (supply shares : Decimal)
    (minimumOut : List MinimumOutForTokenAmount) (pending : PendingMap) (folio : FolioMap)
    (mint : Pubkey) : Option (PendingAmounts × ℕ) :=
  (folio mint).bind fun amount =>
    (UserPendingBasket.exchange process ((pending mint).getD 0) amount supply shares
      (UserPendingBasket.minimumFor minimumOut mint)).toOption

/-- A user's tokens after `to_assets`. -/
def PendingMap.toAssets (process : PendingBasketType) (supply shares : Decimal)
    (minimumOut : List MinimumOutForTokenAmount) (pending : PendingMap) (folio : FolioMap) :
    PendingMap := fun mint =>
  ((exchangedAt process supply shares minimumOut pending folio mint).map Prod.fst).or (pending mint)

/-- A folio's tokens after `to_assets`. -/
def FolioMap.toAssets (process : PendingBasketType) (supply shares : Decimal)
    (minimumOut : List MinimumOutForTokenAmount) (pending : PendingMap) (folio : FolioMap) :
    FolioMap := fun mint =>
  ((exchangedAt process supply shares minimumOut pending folio mint).map Prod.snd).or (folio mint)

/-! ### One round of the operations -/

namespace FolioBasket

variable {basket basket' : FolioBasket} {ta : FolioTokenAmount} {mint : Pubkey}

theorem addToken_becomes (hwf : BasketWF basket) (h : basket.addToken ta = .ok basket') :
    Becomes Pubkey.default basket basket' (FolioMap.add (contents Pubkey.default basket) ta) := by
  have hwf' := (addToken_spec hwf h).1
  obtain ⟨hkey, -⟩ := addToken_find h
  rw [FolioMap.add, contents_of_ne hkey]
  cases hfind : basket.find ta.key with
  | none =>
      obtain ⟨hfree, rfl⟩ := addToken_absent hfind h
      refine ⟨hwf', length_replace, ?_⟩
      rw [Option.getD_none, Nat.zero_add]
      exact contents_claim hkey hfree hfind
  | some n =>
      simp only [addToken, bind_eq_ok, hfind, checkedAddU64_eq_ok, Except.ok.injEq] at h
      obtain ⟨-, -, _, ⟨-, rfl⟩, rfl⟩ := h
      exact ⟨hwf', length_replace, contents_set hkey (by rw [hfind]; rfl)⟩

/-- There is no slot for a token exactly if it is new and none is free. -/
theorem addToken_full (h : basket.addToken ta = .error (.code .MaxNumberOfTokensReached)) :
    ta.key ≠ Pubkey.default ∧ basket.find ta.key = none ∧
      basket.find Pubkey.default = none := by
  rw [addToken, bind_eq_error] at h
  rcases h with h | ⟨_, hkey, h⟩
  · exact absurd (guardOr_eq_error.mp h).2 (by decide)
  · rw [checkCondition_eq_ok] at hkey
    split at h
    · rw [bind_eq_error] at h
      rcases h with h | ⟨_, -, h⟩
      · rcases checkedAddU64_errors _ h with he | he
        · exact absurd he (by decide)
        · exact absurd he (by decide)
      · cases h
    · next hfind =>
      split at h
      · cases h
      · next hfree => exact ⟨hkey, hfind, hfree⟩

theorem removeToken_becomes (hwf : BasketWF basket) (h : basket.removeToken ta = .ok basket') :
    Becomes Pubkey.default basket basket'
      (FolioMap.remove (contents Pubkey.default basket) ta) := by
  have hwf' := (removeToken_spec hwf h).1
  rw [FolioMap.remove]
  cases hfind : basket.find ta.key with
  | none => rw [removeToken, hfind] at h; cases h
  | some n =>
      obtain ⟨hle, rfl⟩ := removeToken_of hfind h
      refine ⟨hwf', length_replace, ?_⟩
      by_cases hkey : ta.key = Pubkey.default
      · -- a free slot holds nothing that could be taken
        rw [hkey] at hfind ⊢
        have hzero : n = 0 := hwf.vacant _ (mem_of_find hfind) rfl
        rw [hzero, Nat.zero_sub, contents_release hwf, contents_free, Option.map_none]
      · rw [contents_of_ne hkey, hfind, Option.map_some]
        exact contents_set hkey (by rw [hfind]; rfl)

theorem removeTokenMintFromBasket_becomes (hwf : BasketWF basket)
    (h : basket.removeTokenMintFromBasket mint = .ok basket') :
    Becomes Pubkey.default basket basket'
      (FolioMap.removeMint (contents Pubkey.default basket) mint) := by
  have hwf' := (removeTokenMintFromBasket_spec hwf h).1
  cases hfind : basket.find mint with
  | none => rw [removeTokenMintFromBasket, hfind] at h; cases h
  | some n =>
      obtain rfl := removeTokenMintFromBasket_of hfind h
      exact ⟨hwf', length_replace, contents_release hwf⟩

end FolioBasket

namespace UserPendingBasket

variable {pending pending' : UserPendingBasket} {ta : TokenAmount} {process : PendingBasketType}
  {canAdd validate : Bool} {mint : Pubkey}

theorem addTokenAmount_becomes (hwf : BasketWF pending) (hkey : ta.key ≠ Pubkey.default)
    (h : pending.addTokenAmount canAdd process ta = .ok pending') :
    Becomes Pubkey.default pending pending'
      (PendingMap.add process (contents Pubkey.default pending) ta) := by
  have hwf' := (addTokenAmount_spec hwf hkey h).1
  rw [PendingMap.add, contents_of_ne hkey]
  unfold addTokenAmount at h
  split at h
  · next amounts hfind =>
    simp only [bind_eq_ok, checkedAddU64_eq_ok, Except.ok.injEq] at h
    obtain ⟨_, ⟨-, rfl⟩, rfl⟩ := h
    rw [hfind, Option.getD_some]
    exact ⟨hwf', length_replace, contents_set hkey (by rw [hfind]; rfl)⟩
  · next hfind =>
    split at h
    · split at h
      · next amounts hfree =>
        cases h
        -- the amounts of a free slot are zero, so the one that is not written is, too
        obtain rfl : amounts = 0 := hwf.vacant _ (mem_of_find hfree) rfl
        rw [hfind, Option.getD_none, PendingAmounts.get_zero, Nat.add_zero]
        exact ⟨hwf', length_replace, contents_claim hkey (by rw [hfree]; rfl) hfind⟩
      · cases h
    · cases h

theorem addTokenAmount_full
    (h : pending.addTokenAmount true process ta = .error (.code .InvalidAddedTokenMints)) :
    pending.find ta.key = none ∧ pending.find Pubkey.default = none := by
  unfold addTokenAmount at h
  split at h
  · rw [bind_eq_error] at h
    rcases h with h | ⟨_, -, h⟩
    · rcases checkedAddU64_errors _ h with he | he
      · exact absurd he (by decide)
      · exact absurd he (by decide)
    · cases h
  · next hfind =>
    rw [if_pos rfl] at h
    split at h
    · cases h
    · next hfree => exact ⟨hfind, hfree⟩

theorem removeTokenAmount_becomes (hwf : BasketWF pending) (hkey : ta.key ≠ Pubkey.default)
    (h : pending.removeTokenAmount validate process ta = .ok pending') :
    Becomes Pubkey.default pending pending'
      (PendingMap.remove process (contents Pubkey.default pending) ta) := by
  rw [PendingMap.remove, contents_of_ne hkey]
  unfold removeTokenAmount at h
  split at h
  · next amounts hfind =>
    simp only [bind_eq_ok, guardOr_eq_ok] at h
    obtain ⟨-, -, h⟩ := h
    simp only [hfind, Option.bind_some]
    generalize amounts.set (amounts.get process - ta.value.get process) process = new at h ⊢
    by_cases hzero : new = 0
    · subst hzero
      rw [if_pos ⟨rfl, rfl⟩] at h
      cases h
      rw [if_pos rfl]
      exact ⟨hwf.replace (fun _ => rfl) (.inl rfl), length_replace, contents_release hwf⟩
    · have hne : ¬ (new.amountForMinting = 0 ∧ new.amountForRedeeming = 0) := fun hboth =>
        hzero (PendingAmounts.eq_zero_of_total (by rw [PendingAmounts.total, hboth.1, hboth.2]))
      rw [if_neg hne] at h
      cases h
      rw [if_neg hzero]
      exact ⟨hwf.replace (fun e => absurd e hkey) (.inr (.inl rfl)), length_replace,
        contents_set hkey (by rw [hfind]; rfl)⟩
  · next hfind =>
    split at h
    · cases h
    · cases h
      have hnone : contents Pubkey.default pending ta.key = none := by
        rw [contents_of_ne hkey, hfind]
      rw [hfind, Option.bind_none, ← hnone, Function.update_eq_self]
      exact .refl hwf

/-! ### Conversions -/

variable {amount amount' : ℕ} {supply shares : Decimal} {minimumOut : List MinimumOutForTokenAmount}
  {basket basket' : FolioBasket}

theorem toAssetsRound_becomes (hwf : BasketWF pending) (hmint : mint ≠ Pubkey.default)
    (h : toAssetsRound process supply shares minimumOut pending mint amount
      = .ok (pending', amount')) :
    ∃ user, exchange process ((contents Pubkey.default pending mint).getD 0) amount supply shares
        (minimumFor minimumOut mint) = .ok (user, amount') ∧
      Becomes Pubkey.default pending pending'
        (Function.update (contents Pubkey.default pending) mint (some user)) := by
  have hwf' := (toAssetsRound_spec hwf hmint h).1
  simp only [toAssetsRound, bind_eq_ok, Prod.exists, Except.ok.injEq, Prod.mk.injEq] at h
  obtain ⟨pending₁, user, hslot, user', _, hexchange, rfl, rfl⟩ := h
  have hrest : (pending₁.replace mint ⟨mint, user'⟩).length = pending.length ∧
      contents Pubkey.default (pending₁.replace mint ⟨mint, user'⟩)
        = Function.update (contents Pubkey.default pending) mint (some user') := by
    unfold slotFor at hslot
    split at hslot
    · next hfind =>
      cases hslot
      exact ⟨length_replace, contents_set hmint (by rw [hfind]; rfl)⟩
    · next hfind =>
      split at hslot
      · split at hslot
        · next hfree =>
          cases hslot
          have hclaim := contents_claim (v := user) hmint (by rw [hfree]; rfl) hfind
          refine ⟨by rw [length_replace, length_replace], ?_⟩
          rw [contents_set hmint, hclaim, Function.update_idem]
          rw [find_replace_self (by rw [hfree]; rfl) (.inr hfind)]
          rfl
        · cases hslot
      · cases hslot
  obtain ⟨-, -, rfl, -⟩ := slotFor_spec hwf hmint hslot
  refine ⟨user', ?_, hwf', hrest.1, hrest.2⟩
  rw [contents_of_ne hmint]
  exact hexchange

theorem editAll_becomes (hp : BasketWF pending) (hb : BasketWF basket)
    (h : editAll Pubkey.default (toAssetsRound process supply shares minimumOut) pending basket
      = .ok (pending', basket')) :
    Becomes Pubkey.default pending pending' (PendingMap.toAssets process supply shares minimumOut
        (contents Pubkey.default pending) (contents Pubkey.default basket)) ∧
      Becomes Pubkey.default basket basket' (FolioMap.toAssets process supply shares minimumOut
        (contents Pubkey.default pending) (contents Pubkey.default basket)) := by
  obtain ⟨⟨hp', hlength⟩, hb', hpass⟩ := editAll_spec
    (I := fun p : UserPendingBasket => BasketWF p ∧ p.length = pending.length)
    (g := fun p => contents Pubkey.default p)
    (R := fun m b v b' v' => ∃ user, exchange process (b.getD 0) v supply shares
      (minimumFor minimumOut m) = .ok (user, v') ∧ b' = some user)
    (fun p m v p' v' hm hI hround => by
      obtain ⟨user, hexchange, hbecomes⟩ := toAssetsRound_becomes hI.1 hm hround
      refine ⟨⟨hbecomes.wf, hbecomes.length.trans hI.2⟩, ⟨user, hexchange, ?_⟩, fun k hk => ?_⟩
      · rw [hbecomes.contents, Function.update_self]
      · rw [hbecomes.contents, Function.update_of_ne hk])
    hb ⟨hp, rfl⟩ h
  have hat (mint : Pubkey) :
      contents Pubkey.default pending' mint = PendingMap.toAssets process supply shares minimumOut
          (contents Pubkey.default pending) (contents Pubkey.default basket) mint ∧
        contents Pubkey.default basket' mint = FolioMap.toAssets process supply shares minimumOut
          (contents Pubkey.default pending) (contents Pubkey.default basket) mint := by
    rw [PendingMap.toAssets, FolioMap.toAssets, exchangedAt]
    by_cases hmint : mint = Pubkey.default
    · rw [hmint]
      simp
    rcases hpass mint hmint with ⟨x, x', hx, hx', user, hexchange, huser⟩ | ⟨hx, hx', hsame⟩
    · rw [contents_of_ne hmint (l := basket), contents_of_ne hmint (l := basket'), hx, hx', huser,
        Option.bind_some, hexchange]
      exact ⟨rfl, rfl⟩
    · rw [contents_of_ne hmint (l := basket), contents_of_ne hmint (l := basket'), hx, hx', hsame]
      exact ⟨rfl, rfl⟩
  refine ⟨⟨hp', hlength, funext fun mint => (hat mint).1⟩,
    ⟨hb', ?_, funext fun mint => (hat mint).2⟩⟩
  have hkeys := congrArg List.length (editAll_keys h)
  rwa [List.length_map, List.length_map] at hkeys

/-- An exchange never fails for want of a slot. -/
theorem exchange_errors {user : PendingAmounts} {minimum : Option ℕ} :
    FailsIn (· ≠ .code .MintMismatch) (exchange process user amount supply shares minimum) := by
  have harith : ∀ e, Arithmetic e → e ≠ .code .MintMismatch := by
    rintro _ (rfl | rfl)
    · decide
    · decide
  refine .bind (Decimal.fromTokenAmount_errors.mono harith) fun balance _ => ?_
  cases process with
  | MintProcess =>
      exact .bind (Decimal.fromTokenAmount_errors.mono harith) fun _ _ =>
        .bind (Decimal.mul_errors.mono harith) fun _ _ =>
        .bind (Decimal.div_errors.mono harith) fun _ _ =>
        .bind (.guardOr (by decide)) fun _ _ =>
        .bind (Decimal.mul_errors.mono harith) fun _ _ =>
        .bind (Decimal.div_errors.mono harith) fun _ _ =>
        .bind (Decimal.toTokenAmount_errors.mono harith) fun _ _ =>
        .bind (checkedSub_errors.mono harith) fun _ _ =>
        .bind (checkedAddU64_errors.mono harith) fun _ _ => .ok _
  | RedeemProcess =>
      exact .bind (Decimal.mul_errors.mono harith) fun _ _ =>
        .bind (Decimal.div_errors.mono harith) fun _ _ =>
        .bind (Decimal.toTokenAmount_errors.mono harith) fun _ _ =>
        .bind (checkedAddU64_errors.mono harith) fun _ _ =>
        .bind (checkedSub_errors.mono harith) fun _ _ =>
        .bind (.guardOr (by decide)) fun _ _ => .ok _

theorem toAssetsRound_full
    (h : toAssetsRound .RedeemProcess supply shares minimumOut pending mint amount
      = .error (.code .MintMismatch)) :
    pending.find mint = none ∧ pending.find Pubkey.default = none := by
  rw [toAssetsRound, bind_eq_error] at h
  rcases h with h | ⟨⟨pending₁, user⟩, -, h⟩
  · unfold slotFor at h
    split at h
    · cases h
    · next hfind =>
      simp only at h
      split at h
      · cases h
      · next hfree => exact ⟨hfind, hfree⟩
  · rw [bind_eq_error] at h
    rcases h with h | ⟨⟨user', amount'⟩, -, h⟩
    · exact absurd rfl (exchange_errors _ h)
    · cases h

/-- A redemption that finds no slot had more new mints than there were free slots. -/
theorem toAssets_shortage {folio : Folio} {rawShares rawSupply now : ℕ} {fee : DaoFee}
    (hp : BasketWF pending) (hb : BasketWF basket)
    (h : pending.toAssets rawShares rawSupply basket folio .RedeemProcess now fee minimumOut
      = .error (.code .MintMismatch)) :
    freeSlots Pubkey.default pending
      < (used Pubkey.default basket \ used Pubkey.default pending).card := by
  have harith (e : Abort) (he : e = .code .MintMismatch) (hfails : Arithmetic e) : False := by
    subst he
    rcases hfails with he | he
    · exact absurd he (by decide)
    · exact absurd he (by decide)
  rw [toAssets, bind_eq_error] at h
  rcases h with h | ⟨folio', -, h⟩
  · exact (harith _ rfl (Folio.poke_errors _ h)).elim
  rw [bind_eq_error] at h
  rcases h with h | ⟨supply, -, h⟩
  · exact (harith _ rfl (Folio.getTotalSupply_errors _ h)).elim
  rw [bind_eq_error] at h
  rcases h with h | ⟨shares, -, h⟩
  · exact (harith _ rfl (Decimal.fromTokenAmount_errors _ h)).elim
  rw [bind_eq_error] at h
  rcases h with h | ⟨⟨pending', basket'⟩, -, h⟩
  · obtain ⟨before, slot, after, pending₁, before', rfl, hslot, hbefore, hround⟩ := editAll_error h
    obtain ⟨h₁, -⟩ := editAll_becomes hp hb.of_append hbefore
    obtain ⟨hnew, hfree⟩ := toAssetsRound_full hround
    have hmem {k : Pubkey} {l : FolioBasket} (hk : k ≠ Pubkey.default)
        (hl : k ∈ l.map Slot.key) (hsub : l.Sublist (before ++ slot :: after)) :
        k ∈ used Pubkey.default (before ++ slot :: after) := by
      rw [mem_used, contents_of_ne hk, find_isSome]
      exact (hsub.map Slot.key).subset hl
    refine shortage hp h₁.wf h₁.length (fun k hk => ?_) hslot
      (hmem (l := [slot]) hslot (List.mem_singleton_self _) ?_) hnew hfree
    · rw [mem_used, h₁.contents, PendingMap.toAssets, exchangedAt] at hk
      rw [Finset.mem_union, mem_used]
      by_cases hkd : k = Pubkey.default
      · rw [hkd] at hk
        simp at hk
      cases hfind : before.find k with
      | none =>
          rw [contents_of_ne hkd (l := before), hfind] at hk
          exact .inl hk
      | some amount =>
          exact .inr (hmem hkd (find_isSome.mp (by rw [hfind]; rfl)) (List.sublist_append_left ..))
    · exact (List.singleton_sublist.mpr (List.mem_cons_self ..)).trans
        (List.sublist_append_right ..)
  · cases h

end UserPendingBasket

end IndexDtf
