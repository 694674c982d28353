import IndexDtf.Folio.BasketMaps

/-!
# IndexDtf.Folio.BasketRuns

**The baskets of a folio and its users, over any sequence of operations.** `Baskets` holds the
arrays and `BasketMaps` what they mean. An operation on the arrays that succeeds does to the maps
what `BasketMaps.apply` says (`step_refines`), which touches only what the operation names
(`apply_frame`); one that finds no slot was short of them (`step_shortage`).
-/

namespace IndexDtf

open Lib SlotArray Decimal

/-- The basket of a folio, and those its users have pending. -/
structure Baskets where
  folio : FolioBasket
  pending : Pubkey → UserPendingBasket

/-- What the baskets mean. -/
structure BasketMaps where
  folio : FolioMap
  pending : Pubkey → PendingMap

namespace Baskets

/-- The operations on the baskets. -/
inductive Op
  | addTokensToBasket (added : List FolioTokenAmount)
  | removeTokensFromBasket (removed : List FolioTokenAmount)
  | removeTokenMintFromBasket (mint : Pubkey)
  | addTokenAmountsToFolio (user : Pubkey) (tokenAmounts : List TokenAmount)
      (canAddNewMints : Bool) (process : PendingBasketType)
  | removeTokenAmountsFromFolio (user : Pubkey) (tokenAmounts : List TokenAmount)
      (needsToValidateMintExistence : Bool) (process : PendingBasketType)
  | toAssets (user : Pubkey) (rawShares rawFolioTokenSupply : ℕ) (folio : Folio)
      (process : PendingBasketType) (currentTime : ℕ) (fee : DaoFee)
      (minimumOut : List MinimumOutForTokenAmount)
  | reset (user : Pubkey)

/-- The empty accounts. -/
def init : Baskets := ⟨FolioBasket.init, fun _ => UserPendingBasket.init⟩

/-- The baskets with another pending one of a user. -/
def setPending (s : Baskets) (user : Pubkey) (pending : UserPendingBasket) : Baskets :=
  { s with pending := Function.update s.pending user pending }

/-- One operation. -/
def step (s : Baskets) : Op → Result Baskets
  | .addTokensToBasket added => do
      .ok { s with folio := ← s.folio.addTokensToBasket added }
  | .removeTokensFromBasket removed => do
      .ok { s with folio := ← s.folio.removeTokensFromBasket removed }
  | .removeTokenMintFromBasket mint => do
      .ok { s with folio := ← s.folio.removeTokenMintFromBasket mint }
  | .addTokenAmountsToFolio user tokenAmounts canAdd process => do
      .ok (s.setPending user
        (← (s.pending user).addTokenAmountsToFolio tokenAmounts canAdd process))
  | .removeTokenAmountsFromFolio user tokenAmounts validate process => do
      .ok (s.setPending user
        (← (s.pending user).removeTokenAmountsFromFolio tokenAmounts validate process))
  | .toAssets user rawShares rawSupply folio process now fee minimumOut => do
      let (pending, basket, _) ←
        (s.pending user).toAssets rawShares rawSupply s.folio folio process now fee minimumOut
      .ok { s.setPending user pending with folio := basket }
  | .reset user => .ok (s.setPending user (s.pending user).reset)

/-- What the arrays mean. -/
def maps (s : Baskets) : BasketMaps where
  folio := contents Pubkey.default s.folio
  pending user := contents Pubkey.default (s.pending user)

/-- No mint has two slots, free slots hold zero, and no slot is lost. -/
structure WF (s : Baskets) : Prop where
  folio : BasketWF s.folio
  pending : ∀ user, BasketWF (s.pending user)
  folio_length : s.folio.length = maxFolioTokenAmounts
  pending_length : ∀ user, (s.pending user).length = maxUserPendingBasketTokenAmounts

namespace Op

/-- The amounts of a user are named by mints other than the default one. -/
def NonDefault : Op → Prop
  | addTokenAmountsToFolio _ tokenAmounts _ _ => ∀ ta ∈ tokenAmounts, ta.key ≠ Pubkey.default
  | removeTokenAmountsFromFolio _ tokenAmounts _ _ => ∀ ta ∈ tokenAmounts, ta.key ≠ Pubkey.default
  | _ => True

/-- Whether an operation names a mint; a conversion names those of the folio. -/
def Names (m : BasketMaps) (mint : Pubkey) : Op → Prop
  | addTokensToBasket added => ∃ ta ∈ added, ta.key = mint
  | removeTokensFromBasket removed => ∃ ta ∈ removed, ta.key = mint
  | removeTokenMintFromBasket removed => removed = mint
  | addTokenAmountsToFolio _ tokenAmounts _ _ => ∃ ta ∈ tokenAmounts, ta.key = mint
  | removeTokenAmountsFromFolio _ tokenAmounts _ _ => ∃ ta ∈ tokenAmounts, ta.key = mint
  | toAssets .. => (m.folio mint).isSome
  | reset _ => True

/-- The user whose basket is concerned. -/
def user : Op → Option Pubkey
  | addTokenAmountsToFolio user _ _ _ => some user
  | removeTokenAmountsFromFolio user _ _ _ => some user
  | toAssets user _ _ _ _ _ _ _ => some user
  | reset user => some user
  | _ => none

/-- The process whose amounts are concerned. -/
def process : Op → Option PendingBasketType
  | addTokenAmountsToFolio _ _ _ process => some process
  | removeTokenAmountsFromFolio _ _ _ process => some process
  | toAssets _ _ _ _ process _ _ _ => some process
  | _ => none

/-- What an operation leaves alone. -/
structure Frame (op : Op) (m m' : BasketMaps) : Prop where
  unnamed : ∀ mint, ¬ op.Names m mint →
    m'.folio mint = m.folio mint ∧ ∀ u, m'.pending u mint = m.pending u mint
  others : ∀ u, op.user ≠ some u → m'.pending u = m.pending u
  otherProcess : ∀ p, op.process = some p → ∀ p', p' ≠ p → ∀ u mint,
    ((m'.pending u mint).getD 0).get p' = ((m.pending u mint).getD 0).get p'

/-- What an operation fails with when it finds no slot for a new mint. -/
def noRoom : Op → Option Abort
  | addTokensToBasket _ => some (.code .MaxNumberOfTokensReached)
  | addTokenAmountsToFolio _ _ true _ => some (.code .InvalidAddedTokenMints)
  | toAssets _ _ _ _ .RedeemProcess _ _ _ => some (.code .MintMismatch)
  | _ => none

/-- An operation names more new mints than there are free slots. -/
def Short (s : Baskets) : Op → Prop
  | addTokensToBasket added =>
      freeSlots Pubkey.default s.folio
        < ((added.map Slot.key).toFinset \ used Pubkey.default s.folio).card
  | addTokenAmountsToFolio user tokenAmounts _ _ =>
      freeSlots Pubkey.default (s.pending user)
        < ((tokenAmounts.map Slot.key).toFinset \ used Pubkey.default (s.pending user)).card
  | toAssets user _ _ _ _ _ _ _ =>
      freeSlots Pubkey.default (s.pending user)
        < (used Pubkey.default s.folio \ used Pubkey.default (s.pending user)).card
  | _ => False

end Op

end Baskets

/-- The total supply at which `to_assets` converts. -/
def Folio.supplyAfterPoke (folio : Folio) (rawSupply now : ℕ) (fee : DaoFee) : Result Decimal := do
  (← folio.poke rawSupply now fee).getTotalSupply rawSupply

/-- What an operation means. -/
def BasketMaps.apply (m : BasketMaps) : Baskets.Op → BasketMaps
  | .addTokensToBasket added => { m with folio := added.foldl FolioMap.add m.folio }
  | .removeTokensFromBasket removed => { m with folio := removed.foldl FolioMap.remove m.folio }
  | .removeTokenMintFromBasket mint => { m with folio := m.folio.removeMint mint }
  | .addTokenAmountsToFolio user tokenAmounts _ process =>
      { m with
        pending := Function.update m.pending user
          (tokenAmounts.foldl (PendingMap.add process) (m.pending user)) }
  | .removeTokenAmountsFromFolio user tokenAmounts _ process =>
      { m with
        pending := Function.update m.pending user
          (tokenAmounts.foldl (PendingMap.remove process) (m.pending user)) }
  | .toAssets user rawShares rawSupply folio process now fee minimumOut =>
      match folio.supplyAfterPoke rawSupply now fee with
      | .error _ => m
      | .ok supply =>
          { folio := FolioMap.toAssets process supply ⟨rawShares * Decimal.d9⟩ minimumOut
              (m.pending user) m.folio
            pending := Function.update m.pending user
              (PendingMap.toAssets process supply ⟨rawShares * Decimal.d9⟩ minimumOut
                (m.pending user) m.folio) }
  | .reset user => { m with pending := Function.update m.pending user fun _ => none }

theorem BasketMaps.apply_toAssets {m : BasketMaps} {user : Pubkey} {rawShares rawSupply now : ℕ}
    {folio : Folio} {process : PendingBasketType} {fee : DaoFee}
    {minimumOut : List MinimumOutForTokenAmount} {supply : Decimal}
    (h : folio.supplyAfterPoke rawSupply now fee = .ok supply) :
    m.apply (.toAssets user rawShares rawSupply folio process now fee minimumOut)
      = { folio := FolioMap.toAssets process supply ⟨rawShares * d9⟩ minimumOut
            (m.pending user) m.folio
          pending := Function.update m.pending user
            (PendingMap.toAssets process supply ⟨rawShares * d9⟩ minimumOut
              (m.pending user) m.folio) } := by
  rw [BasketMaps.apply, h]

/-! ### What the updates leave alone -/

namespace PendingAmounts

variable {a : PendingAmounts} {n : ℕ} {p p' : PendingBasketType}

theorem get_set_of_ne (h : p' ≠ p) : (a.set n p).get p' = a.get p' := by
  cases p <;> cases p' <;> simp [set, get] at h ⊢

end PendingAmounts

section Frame

variable {m : PendingMap} {ta : TokenAmount} {tas : List TokenAmount} {p p' : PendingBasketType}
  {mint : Pubkey}

theorem PendingMap.add_other (h : p' ≠ p) :
    ((PendingMap.add p m ta mint).getD 0).get p' = ((m mint).getD 0).get p' := by
  rw [PendingMap.add, Function.update_apply]
  split
  · next heq => rw [Option.getD_some, PendingAmounts.get_set_of_ne h, heq]
  · rfl

theorem PendingMap.remove_other (h : p' ≠ p) :
    ((PendingMap.remove p m ta mint).getD 0).get p' = ((m mint).getD 0).get p' := by
  rw [PendingMap.remove, Function.update_apply]
  split
  · next heq =>
    subst heq
    cases hold : m ta.key with
    | none => rfl
    | some old =>
        rw [Option.bind_some, Option.getD_some]
        have hsame := PendingAmounts.get_set_of_ne (a := old)
          (n := old.get p - ta.value.get p) h
        simp only
        split
        · next hzero =>
          rw [hzero] at hsame
          exact hsame
        · exact hsame
  · rfl

theorem foldl_other {g : PendingMap → TokenAmount → PendingMap}
    (hg : ∀ m ta, ((g m ta mint).getD 0).get p' = ((m mint).getD 0).get p') :
    ((tas.foldl g m mint).getD 0).get p' = ((m mint).getD 0).get p' := by
  induction tas generalizing m with
  | nil => rfl
  | cons ta rest ih => rw [List.foldl_cons, ih, hg]

theorem exchange_other {user user' : PendingAmounts} {amount amount' : ℕ}
    {supply shares : Decimal} {minimum : Option ℕ} (hp : p' ≠ p)
    (h : UserPendingBasket.exchange p user amount supply shares minimum = .ok (user', amount')) :
    user'.get p' = user.get p' := by
  simp only [UserPendingBasket.exchange, bind_eq_ok] at h
  obtain ⟨balance, -, h⟩ := h
  cases p with
  | MintProcess =>
      simp only [UserPendingBasket.toAssetsForMinting, bind_eq_ok, Except.ok.injEq,
        Prod.mk.injEq] at h
      obtain ⟨_, -, _, -, _, -, _, -, _, -, _, -, _, -, _, -, _, -, rfl, -⟩ := h
      cases p' with
      | MintProcess => exact absurd rfl hp
      | RedeemProcess => rfl
  | RedeemProcess =>
      obtain ⟨-, -, rfl, -⟩ := UserPendingBasket.toAssetsForRedeeming_eq_ok h
      cases p' with
      | MintProcess => rfl
      | RedeemProcess => exact absurd rfl hp

theorem PendingMap.toAssets_other {folio : FolioMap} {supply shares : Decimal}
    {minimumOut : List MinimumOutForTokenAmount} (h : p' ≠ p) :
    ((PendingMap.toAssets p supply shares minimumOut m folio mint).getD 0).get p'
      = ((m mint).getD 0).get p' := by
  rw [PendingMap.toAssets, exchangedAt]
  cases hfolio : folio mint with
  | none => rfl
  | some amount =>
      rw [Option.bind_some]
      cases hexchange : UserPendingBasket.exchange p ((m mint).getD 0) amount supply shares
          (UserPendingBasket.minimumFor minimumOut mint) with
      | error e => rfl
      | ok result => exact exchange_other h hexchange

/-- A token the folio does not have stays as it is. -/
theorem toAssets_unnamed {folio : FolioMap} {supply shares : Decimal}
    {minimumOut : List MinimumOutForTokenAmount} (h : ¬ (folio mint).isSome) :
    FolioMap.toAssets p supply shares minimumOut m folio mint = folio mint ∧
      PendingMap.toAssets p supply shares minimumOut m folio mint = m mint := by
  rw [Option.not_isSome_iff_eq_none] at h
  rw [FolioMap.toAssets, PendingMap.toAssets, exchangedAt, h]
  exact ⟨rfl, rfl⟩

end Frame

namespace Baskets

variable {s s' : Baskets} {m : BasketMaps} {op : Op}

/-- The pending map of one user is updated at the mints that are named. -/
theorem update_unnamed {user mint : Pubkey} {new : PendingMap}
    (h : new mint = m.pending user mint) (u : Pubkey) :
    Function.update m.pending user new u mint = m.pending u mint := by
  rw [Function.update_apply]
  split
  · next heq => rw [h, heq]
  · rfl

theorem update_other {user mint : Pubkey} {new : PendingMap} {p' : PendingBasketType}
    (h : ((new mint).getD 0).get p' = ((m.pending user mint).getD 0).get p') (u : Pubkey) :
    ((Function.update m.pending user new u mint).getD 0).get p'
      = ((m.pending u mint).getD 0).get p' := by
  rw [Function.update_apply]
  split
  · next heq => rw [h, heq]
  · rfl

theorem apply_frame (m : BasketMaps) (op : Op) : op.Frame m (m.apply op) := by
  have hupdate {user : Pubkey} {new : PendingMap} (u : Pubkey) (hu : some user ≠ some u) :
      Function.update m.pending user new u = m.pending u :=
    Function.update_of_ne (fun e => hu (congrArg some e.symm)) ..
  cases op with
  | addTokensToBasket added =>
      refine ⟨fun mint h => ⟨?_, fun _ => rfl⟩, fun _ _ => rfl, fun _ h => by cases h⟩
      exact foldl_frame (fun _ _ _ hk => Function.update_of_ne hk ..)
        fun ta hta heq => h ⟨ta, hta, heq⟩
  | removeTokensFromBasket removed =>
      refine ⟨fun mint h => ⟨?_, fun _ => rfl⟩, fun _ _ => rfl, fun _ h => by cases h⟩
      exact foldl_frame (fun _ _ _ hk => Function.update_of_ne hk ..)
        fun ta hta heq => h ⟨ta, hta, heq⟩
  | removeTokenMintFromBasket removed =>
      refine ⟨fun mint h => ⟨?_, fun _ => rfl⟩, fun _ _ => rfl, fun _ h => by cases h⟩
      exact Function.update_of_ne (Ne.symm h) ..
  | addTokenAmountsToFolio user tas canAdd process =>
      refine ⟨fun mint h => ⟨rfl, update_unnamed ?_⟩, hupdate, fun p hp p' hne u mint => ?_⟩
      · exact foldl_frame (fun _ _ _ hk => Function.update_of_ne hk ..)
          fun ta hta heq => h ⟨ta, hta, heq⟩
      · obtain rfl := Option.some.inj hp
        exact update_other (foldl_other fun _ _ => PendingMap.add_other hne) u
  | removeTokenAmountsFromFolio user tas validate process =>
      refine ⟨fun mint h => ⟨rfl, update_unnamed ?_⟩, hupdate, fun p hp p' hne u mint => ?_⟩
      · exact foldl_frame (fun _ _ _ hk => Function.update_of_ne hk ..)
          fun ta hta heq => h ⟨ta, hta, heq⟩
      · obtain rfl := Option.some.inj hp
        exact update_other (foldl_other fun _ _ => PendingMap.remove_other hne) u
  | toAssets user rawShares rawSupply folio process now fee minimumOut =>
      cases hsupply : folio.supplyAfterPoke rawSupply now fee with
      | error e =>
          rw [BasketMaps.apply, hsupply]
          exact ⟨fun _ _ => ⟨rfl, fun _ => rfl⟩, fun _ _ => rfl, fun _ _ _ _ _ _ => rfl⟩
      | ok supply =>
          rw [BasketMaps.apply_toAssets hsupply]
          refine ⟨fun mint h => ?_, hupdate, fun p hp p' hne u mint => ?_⟩
          · obtain ⟨hfolio, hpending⟩ := toAssets_unnamed h
            exact ⟨hfolio, update_unnamed hpending⟩
          · obtain rfl := Option.some.inj hp
            exact update_other (PendingMap.toAssets_other hne) u
  | reset user =>
      exact ⟨fun _ h => (h trivial).elim, hupdate, fun _ h => by cases h⟩

/-! ### What the operations do -/

theorem init_wf : init.WF where
  folio := FolioBasket.init_wf
  pending _ := UserPendingBasket.init_wf
  folio_length := by rw [init, FolioBasket.init, length_empty]
  pending_length _ := by rw [init, UserPendingBasket.init, length_empty]

/-- The folio's basket became another one. -/
theorem WF.becomes_folio {basket : FolioBasket} {folio : FolioMap} (h : s.WF)
    (hb : Becomes Pubkey.default s.folio basket folio) :
    WF { s with folio := basket } ∧
      maps { s with folio := basket } = { s.maps with folio } :=
  ⟨⟨hb.wf, h.pending, hb.length.trans h.folio_length, h.pending_length⟩, by
    rw [maps, hb.contents]
    rfl⟩

/-- A user's basket became another one. -/
theorem WF.becomes_pending {user : Pubkey} {pending : UserPendingBasket} {new : PendingMap}
    (h : s.WF) (hp : Becomes Pubkey.default (s.pending user) pending new) :
    (s.setPending user pending).WF ∧
      (s.setPending user pending).maps
        = { s.maps with pending := Function.update s.maps.pending user new } := by
  refine ⟨⟨h.folio, fun u => ?_, h.folio_length, fun u => ?_⟩, ?_⟩
  · simp only [setPending, Function.update_apply]
    split
    · exact hp.wf
    · exact h.pending u
  · simp only [setPending, Function.update_apply]
    split
    · exact hp.length.trans (h.pending_length user)
    · exact h.pending_length u
  · have hpending (u : Pubkey) : contents Pubkey.default (Function.update s.pending user pending u)
        = Function.update s.maps.pending user new u := by
      rw [Function.update_apply, Function.update_apply]
      split
      · exact hp.contents
      · rfl
    simp only [maps, setPending, hpending]

/-- **An operation on the arrays is one on the maps.** -/
theorem step_refines (hs : s.WF) (hop : op.NonDefault) (h : s.step op = .ok s') :
    s'.WF ∧ s'.maps = s.maps.apply op := by
  cases op with
  | addTokensToBasket added =>
      simp only [step, bind_eq_ok, Except.ok.injEq] at h
      obtain ⟨basket, h, rfl⟩ := h
      exact hs.becomes_folio
        (foldlM_becomes (fun _ _ _ _ hwf => FolioBasket.addToken_becomes hwf) hs.folio h)
  | removeTokensFromBasket removed =>
      simp only [step, bind_eq_ok, Except.ok.injEq] at h
      obtain ⟨basket, h, rfl⟩ := h
      exact hs.becomes_folio
        (foldlM_becomes (fun _ _ _ _ hwf => FolioBasket.removeToken_becomes hwf) hs.folio h)
  | removeTokenMintFromBasket mint =>
      simp only [step, bind_eq_ok, Except.ok.injEq] at h
      obtain ⟨basket, h, rfl⟩ := h
      exact hs.becomes_folio (FolioBasket.removeTokenMintFromBasket_becomes hs.folio h)
  | addTokenAmountsToFolio user tas canAdd process =>
      simp only [step, bind_eq_ok, Except.ok.injEq] at h
      obtain ⟨pending, h, rfl⟩ := h
      exact hs.becomes_pending (foldlM_becomes
        (fun _ ta _ hta hwf => UserPendingBasket.addTokenAmount_becomes hwf (hop ta hta))
        (hs.pending user) h)
  | removeTokenAmountsFromFolio user tas validate process =>
      simp only [step, bind_eq_ok, Except.ok.injEq] at h
      obtain ⟨pending, h, rfl⟩ := h
      exact hs.becomes_pending (foldlM_becomes
        (fun _ ta _ hta hwf => UserPendingBasket.removeTokenAmount_becomes hwf (hop ta hta))
        (hs.pending user) h)
  | toAssets user rawShares rawSupply folio process now fee minimumOut =>
      simp only [step, bind_eq_ok, Prod.exists, Except.ok.injEq] at h
      obtain ⟨pending, basket, folio', h, rfl⟩ := h
      simp only [UserPendingBasket.toAssets, bind_eq_ok, fromTokenAmount_eq_ok, Prod.exists,
        Except.ok.injEq, Prod.mk.injEq] at h
      obtain ⟨poked, hpoke, supply, hsupply, _, ⟨-, rfl⟩, _, _, hedit, rfl, rfl, -⟩ := h
      obtain ⟨hp, hb⟩ := UserPendingBasket.editAll_becomes (hs.pending user) hs.folio hedit
      obtain ⟨hs₁, hmaps₁⟩ := hs.becomes_pending hp
      obtain ⟨hs₂, hmaps₂⟩ := hs₁.becomes_folio (s := s.setPending user _) hb
      refine ⟨hs₂, ?_⟩
      have hat : folio.supplyAfterPoke rawSupply now fee = .ok supply := by
        rw [Folio.supplyAfterPoke, hpoke, ok_bind, hsupply]
      rw [BasketMaps.apply_toAssets hat, hmaps₂, hmaps₁]
      rfl
  | reset user =>
      cases h
      refine hs.becomes_pending ⟨WF.empty _, ?_, contents_empty _⟩
      rw [hs.pending_length user, UserPendingBasket.reset, length_empty]

/-- An operation that finds no slot was short of them. -/
theorem step_shortage {e : Abort} (hs : s.WF) (hop : op.NonDefault) (he : op.noRoom = some e)
    (h : s.step op = .error e) : op.Short s := by
  cases op with
  | addTokensToBasket added =>
      obtain rfl := Option.some.inj he
      simp only [step, bind_eq_error, reduceCtorEq, and_false, exists_false, or_false] at h
      exact foldlM_shortage (fun _ _ _ hk => Function.update_of_ne hk ..)
        (fun _ _ _ _ hwf => FolioBasket.addToken_becomes hwf)
        (fun _ _ _ _ hround => FolioBasket.addToken_full hround) hs.folio h
  | addTokenAmountsToFolio user tas canAdd process =>
      cases canAdd with
      | false => cases he
      | true =>
          obtain rfl := Option.some.inj he
          simp only [step, bind_eq_error, reduceCtorEq, and_false, exists_false, or_false] at h
          exact foldlM_shortage (fun _ _ _ hk => Function.update_of_ne hk ..)
            (fun _ ta _ hta hwf => UserPendingBasket.addTokenAmount_becomes hwf (hop ta hta))
            (fun _ ta hta _ hround =>
              ⟨hop ta hta, UserPendingBasket.addTokenAmount_full hround⟩) (hs.pending user) h
  | toAssets user rawShares rawSupply folio process now fee minimumOut =>
      cases process with
      | MintProcess => cases he
      | RedeemProcess =>
          obtain rfl := Option.some.inj he
          simp only [step, bind_eq_error, reduceCtorEq, and_false, exists_false, or_false] at h
          exact UserPendingBasket.toAssets_shortage (hs.pending user) hs.folio h
  | removeTokensFromBasket removed => cases he
  | removeTokenMintFromBasket mint => cases he
  | removeTokenAmountsFromFolio user tas validate process => cases he
  | reset user => cases he

/-! ### Runs -/

theorem run_wf {ops : List Op} (hops : ∀ op ∈ ops, op.NonDefault) : (run step init ops).WF :=
  run_inv (I := WF) (fun _ op _ hop hs h => (step_refines hs (hops op hop) h).1) init_wf

/-- **The basket arrays are finite maps**, after any operations. -/
theorem baskets_are_maps {ops : List Op} (hops : ∀ op ∈ ops, op.NonDefault) :
    (run step init ops).WF ∧ ∀ op, op.NonDefault →
      (∀ s', (run step init ops).step op = .ok s' →
        s'.maps = (run step init ops).maps.apply op ∧
          op.Frame (run step init ops).maps s'.maps) ∧
      ∀ e, op.noRoom = some e → (run step init ops).step op = .error e →
        op.Short (run step init ops) := by
  have hwf := run_wf hops
  refine ⟨hwf, fun op hop => ⟨fun s' h => ?_, fun e he h => step_shortage hwf hop he h⟩⟩
  obtain ⟨-, hmaps⟩ := step_refines hwf hop h
  exact ⟨hmaps, hmaps ▸ apply_frame _ op⟩

/-- Slots that are given back and taken again, by the folio and by a user. -/
def refilled : List Op :=
  [.addTokensToBasket [⟨7, 5⟩, ⟨8, 6⟩], .removeTokenMintFromBasket 7,
    .addTokenAmountsToFolio 1 [⟨8, ⟨3, 0⟩⟩] true .MintProcess,
    .removeTokenAmountsFromFolio 1 [⟨8, ⟨3, 0⟩⟩] true .MintProcess, .addTokensToBasket [⟨9, 1⟩]]

theorem baskets_are_maps_refilled :
    (run step init refilled).WF ∧ ∀ op, op.NonDefault →
      (∀ s', (run step init refilled).step op = .ok s' →
        s'.maps = (run step init refilled).maps.apply op ∧
          op.Frame (run step init refilled).maps s'.maps) ∧
      ∀ e, op.noRoom = some e → (run step init refilled).step op = .error e →
        op.Short (run step init refilled) :=
  baskets_are_maps (by simp [refilled, Op.NonDefault, Pubkey.default])

end Baskets

end IndexDtf
