import IndexDtf.Folio.Solvency

/-!
# IndexDtf.Folio.Redemption

The minimum amounts of `burn_folio_token`. They are compared in a loop over the
folio's basket, each token with the first entry for it. `minimum_met_iff` says which
entries that protects: those of tokens that are in the basket, unless an earlier
entry for the token asks for less.
-/

namespace IndexDtf

open Lib SlotArray Decimal

namespace UserPendingBasket

variable {user user' : PendingAmounts} {amount amount' rawShares n : ℕ} {supply : Decimal}
  {minimumOut : List MinimumOutForTokenAmount} {mint : Pubkey}

/-- An amount is given for shares when they are worth it, as a part of the supply. -/
theorem le_givenFor_iff (hsupply : 0 < supply.val) (hn : n ≤ u64Max) :
    n ≤ givenFor ⟨rawShares * d9⟩ supply ⟨amount * d9⟩
      ↔ n * supply.val ≤ rawShares * d9 * amount := by
  have hd9 : 0 < d9 := by decide
  rw [givenFor, le_min_iff, and_iff_left hn, Nat.le_div_iff_mul_le hd9,
    Nat.le_div_iff_mul_le hsupply]
  have hleft : n * d9 * supply.val = n * supply.val * d9 := Nat.mul_right_comm ..
  have hright : rawShares * d9 * (amount * d9) = rawShares * d9 * amount * d9 :=
    (Nat.mul_assoc ..).symm
  rw [hleft, hright]
  exact Nat.mul_le_mul_right_iff hd9

/-- What redeeming does at a token of the basket. -/
theorem redeemed_of_exchanged
    (h : Exchanged .RedeemProcess supply ⟨rawShares * d9⟩ minimumOut mint user amount user' amount') :
    0 < supply.val ∧
      user'.amountForRedeeming
        = user.amountForRedeeming + givenFor ⟨rawShares * d9⟩ supply ⟨amount * d9⟩ ∧
      ∀ least ∈ minimumFor minimumOut mint,
        least ≤ givenFor ⟨rawShares * d9⟩ supply ⟨amount * d9⟩ := by
  simp only [Exchanged, exchange, bind_eq_ok, Decimal.fromTokenAmount_eq_ok] at h
  obtain ⟨_, ⟨-, rfl⟩, h⟩ := h
  obtain ⟨hpos, -, rfl, -, hleast⟩ := toAssetsForRedeeming_eq_ok h
  exact ⟨hpos, rfl, hleast⟩

end UserPendingBasket

namespace Books

variable {T : TokenProgram} {b b' : Books T} {f user : Pubkey} {rawShares : ℕ}
  {minimumOut : List MinimumOutForTokenAmount}

/-- The supply that shares burned now are a part of. -/
def supplyNow (b : Books T) (f : Pubkey) : Result Decimal := do
  let folio ← load (b.folio f)
  let folio ← b.poked f folio
  folio.getTotalSupply (T.supply b.ledger f)

/-- The entries of a `burn_folio_token` that the code's check covers. -/
structure Covered (b : Books T) (f : Pubkey) (rawShares : ℕ)
    (minimumOut : List MinimumOutForTokenAmount) (e : MinimumOutForTokenAmount) : Prop where
  /-- The mint is in the basket, -/
  inBasket : e.mint ≠ Pubkey.default ∧ ((b.folioBasket f).bind (·.find e.mint)).isSome
  /-- and no earlier entry for it asks for less, or the shares are worth it all the same. -/
  enough : (∃ least ∈ UserPendingBasket.minimumFor minimumOut e.mint, e.minimumOut ≤ least) ∨
    ∃ supply, b.supplyNow f = .ok supply ∧
      e.minimumOut * supply.val ≤ rawShares * d9 * b.basketAmount f e.mint

/-- What a burn does to the user's amounts of a mint. -/
theorem burnFolioToken_spec (hwf : b.BasketsWF)
    (h : b.burnFolioToken f user rawShares minimumOut = .ok b') (m : Pubkey)
    (hm : m ≠ Pubkey.default) :
    ∃ (basket basket' : FolioBasket) (supply : Decimal),
      b.folioBasket f = some basket ∧ b'.folioBasket f = some basket' ∧
      b.supplyNow f = .ok supply ∧
      Passed (UserPendingBasket.Exchanged .RedeemProcess supply ⟨rawShares * d9⟩ minimumOut m)
        (b.pendingAmounts f user m) (b'.pendingAmounts f user m)
        (basket.find m) (basket'.find m) := by
  simp only [burnFolioToken, bind_eq_ok, Prod.exists, Except.ok.injEq, load_eq_ok, invoke_eq_ok]
    at h
  obtain ⟨folio, hfolio, basket, hbasket, pending, hpending, fee, hfee, pending', basket', folio',
    hassets, _, -, rfl⟩ := h
  obtain ⟨hpoke, supply, hsupply, -, -, hpassed⟩ := UserPendingBasket.toAssets_spec
    (hwf.userPendingBasket _ _ hpending) (hwf.folioBasket _ _ hbasket) hassets
  refine ⟨basket, basket', supply, hbasket, Function.update_self .., ?_, ?_⟩
  · simp only [supplyNow, poked, bind_eq_ok, load_eq_ok]
    exact ⟨folio, (validateFolio_eq_ok.mp hfolio).1, folio', ⟨fee, hfee, hpoke⟩, hsupply⟩
  · simpa only [pendingAmounts, hpending, Function.update_self, Option.elim_some]
      using hpassed m hm

/-- The default mint has no amounts. -/
theorem BasketsWF.pendingAmounts_default (h : b.BasketsWF) :
    b.pendingAmounts f user Pubkey.default = 0 := by
  cases hp : b.userPendingBasket (f, user) with
  | none => rw [pendingAmounts, hp, Option.elim_none]
  | some pending =>
      rw [pendingAmounts_of hp]
      exact (h.userPendingBasket _ _ hp).lookup_free

/-- **The minimum of an entry is met exactly when the check covers it**, or when it asks
for nothing. -/
theorem minimum_met_iff_of_wf (hwf : b.BasketsWF)
    (h : b.burnFolioToken f user rawShares minimumOut = .ok b') {e : MinimumOutForTokenAmount}
    (he : e.minimumOut ≤ u64Max) :
    (b.pendingAmounts f user e.mint).amountForRedeeming + e.minimumOut
        ≤ (b'.pendingAmounts f user e.mint).amountForRedeeming ↔
      e.minimumOut = 0 ∨ b.Covered f rawShares minimumOut e := by
  by_cases hmint : e.mint = Pubkey.default
  · have hwf' := (burnFolioToken_settled h).wf hwf
    rw [hmint, hwf.pendingAmounts_default, hwf'.pendingAmounts_default]
    constructor
    · intro hle
      exact .inl (by omega)
    · rintro (hzero | ⟨⟨hne, -⟩, -⟩)
      · omega
      · exact absurd hmint hne
  · obtain ⟨basket, basket', supply, hbasket, -, hsupply, hpassed⟩ :=
      burnFolioToken_spec hwf h e.mint hmint
    cases hpassed with
    | inl hround =>
        obtain ⟨amount, amount', hfind, -, hexchange⟩ := hround
        obtain ⟨hpos, hredeemed, hleast⟩ := UserPendingBasket.redeemed_of_exchanged hexchange
        have hamount : b.basketAmount f e.mint = amount :=
          (basketAmount_of hbasket _).trans (lookup_of_find hfind)
        have hworth : e.minimumOut ≤ UserPendingBasket.givenFor ⟨rawShares * d9⟩ supply ⟨amount * d9⟩
            ↔ e.minimumOut * supply.val ≤ rawShares * d9 * amount :=
          UserPendingBasket.le_givenFor_iff hpos he
        rw [hredeemed, Nat.add_le_add_iff_left]
        constructor
        · intro hle
          refine .inr ⟨⟨hmint, ?_⟩, .inr ⟨supply, hsupply, ?_⟩⟩
          · rw [hbasket, Option.bind_some, hfind]
            rfl
          · rw [hamount]
            exact hworth.mp hle
        · rintro (hzero | ⟨-, ⟨least, hfirst, hle⟩ | ⟨supply', hsupply', hle⟩⟩)
          · rw [hzero]
            exact Nat.zero_le _
          · exact hle.trans (hleast least hfirst)
          · rw [hsupply] at hsupply'
            cases hsupply'
            rw [hamount] at hle
            exact hworth.mpr hle
    | inr hsame =>
        obtain ⟨hfind, -, hsame⟩ := hsame
        rw [hsame]
        constructor
        · intro hle
          exact .inl (by omega)
        · rintro (hzero | ⟨⟨-, hin⟩, -⟩)
          · omega
          · rw [hbasket, Option.bind_some, hfind] at hin
            cases hin

end Books

namespace World

open Books

variable {T : TokenProgram} {w : World T} {f user rawShares : ℕ}
  {minimumOut : List MinimumOutForTokenAmount}

/-- **Slippage protection of a redemption.** The user gets the minimum of every entry
exactly when the check covers every entry that asks for something. -/
theorem minimums_met_iff {b' : Books T} (hw : w.Reachable)
    (h : w.books.burnFolioToken f user rawShares minimumOut = .ok b')
    (hu64 : ∀ e ∈ minimumOut, e.minimumOut ≤ u64Max) :
    (∀ e ∈ minimumOut,
      (w.books.pendingAmounts f user e.mint).amountForRedeeming + e.minimumOut
        ≤ (b'.pendingAmounts f user e.mint).amountForRedeeming) ↔
      ∀ e ∈ minimumOut, e.minimumOut = 0 ∨ w.books.Covered f rawShares minimumOut e :=
  forall₂_congr fun e he => minimum_met_iff_of_wf hw.basketsWF h (hu64 e he)

/-- The owner of the launched folio wants to redeem: she has a pending basket. -/
def redeemer (inputs : List (Instruction TokenProgram.simple)) : World TokenProgram.simple :=
  run step (genesis SimpleLedger.empty 1000000)
    (launch ++ [.user (.addToPendingBasket 5 3 [⟨7, (.external 3, 7), (.folio 5, 7)⟩] [100])]
      ++ inputs)

/-- Half of the shares are worth half of the 600 in the basket. -/
theorem minimums_met_for_half :
    ∃ b', (redeemer []).books.burnFolioToken 5 3 500000000 [⟨7, 300⟩] = .ok b' ∧
      ((∀ e ∈ [(⟨7, 300⟩ : MinimumOutForTokenAmount)],
        ((redeemer []).books.pendingAmounts 5 3 e.mint).amountForRedeeming + e.minimumOut
          ≤ (b'.pendingAmounts 5 3 e.mint).amountForRedeeming) ↔
        ∀ e ∈ [(⟨7, 300⟩ : MinimumOutForTokenAmount)],
          e.minimumOut = 0 ∨ (redeemer []).books.Covered 5 500000000 [⟨7, 300⟩] e) := by
  have hok : ∃ b', (redeemer []).books.burnFolioToken 5 3 500000000 [⟨7, 300⟩] = .ok b' ∧ True := by
    decide +kernel
  obtain ⟨b', hb', -⟩ := hok
  exact ⟨b', hb', minimums_met_iff (reachable_genesis ..) hb' (by decide)⟩

/-- The token is removed from the basket before the burn: nothing is given for it, and
the minimum of 300 does not stop the burn. -/
theorem minimum_missed_after_removal :
    let w := redeemer [.owner (.removeFromBasket 5 3 7)]
    w.Reachable ∧
      ∃ b', w.books.burnFolioToken 5 3 500000000 [⟨7, 300⟩] = .ok b' ∧
        ¬ (w.books.pendingAmounts 5 3 7).amountForRedeeming + 300
          ≤ (b'.pendingAmounts 5 3 7).amountForRedeeming :=
  ⟨reachable_genesis .., by decide +kernel⟩

end World

end IndexDtf
