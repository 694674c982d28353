import IndexDtf.Folio.Redemption
import IndexDtf.Folio.TotalSupply
import IndexDtf.Lib.ProRata

/-!
# IndexDtf.Folio.ShareValue

What shares are worth: the tokens a mint takes and a burn hands out, against the part of
the basket the shares stand for.

* `mintFolioToken_at`, `burnFolioToken_at` — a mint and a burn at one token of the basket,
  as price and payout of a pool;
* `backing_kept_iff` — a burn never lowers the backing of the other shares; a mint lowers
  it exactly when the price is rounded down although it should be rounded up.
-/

namespace IndexDtf

open Lib SlotArray Decimal

namespace Folio

variable {folio after : Folio} {fee : DaoFee} {rawShares fees : ℕ}

/-- What the setters admit of the fees on a mint. -/
structure FeesAdmitted (folio : Folio) (fee : DaoFee) : Prop where
  mintFee_le : folio.mintFee ≤ maxMintFee
  numerator_le : fee.numerator ≤ maxDaoFee
  denominator_eq : fee.denominator = feeDenominator
  floor_le : fee.floor ≤ maxFeeFloor

/-- A rate of at most one, rounded up, is no more than the whole. -/
theorem feeUp_le {x rate denominator y : Decimal} (hrate : rate.val ≤ denominator.val)
    (h : feeUp x rate denominator = .ok y) : y.val ≤ x.val := by
  obtain ⟨hpos, hy⟩ := feeUp_spec h
  rw [hy]
  exact roundUp_le hpos hrate

/-- The fee of a mint: what it adds to the pending shares, and how many of the new shares
are kept back for it. -/
theorem calculateFeesForMinting_spec
    (h : folio.calculateFeesForMinting rawShares fee = .ok (after, fees)) :
    ∃ total, fees = min ((total + (d9 - 1)) / d9) u64Max ∧
      folio.pendingShares ≤ after.pendingShares ∧
      after.pendingShares ≤ folio.pendingShares + total ∧
      (folio.FeesAdmitted fee → total ≤ rawShares * d9) := by
  simp only [calculateFeesForMinting, bind_eq_ok, fromTokenAmount_eq_ok, toScaled_floor,
    checkedAddU128_eq_ok, sub_eq_ok, Except.ok.injEq, Prod.mk.injEq] at h
  obtain ⟨_, ⟨-, rfl⟩, total, htotal, dao, hdao, least, hleast, _, rfl, _, ⟨-, rfl⟩, _,
    ⟨-, rfl⟩, _, rfl, _, ⟨-, rfl⟩, _, hfees, rfl, rfl⟩ := h
  refine ⟨_, toTokenAmount_ceiling hfees, ?_, ?_, fun hadmitted => ?_⟩
  · simp only [pendingShares]
    omega
  · simp only [pendingShares]
    -- what the DAO gets is no more than the total that is used
    split <;> split <;> omega
  · have hmint : total.val ≤ rawShares * d9 :=
      feeUp_le (hadmitted.mintFee_le.trans (by decide)) htotal
    have hratio : (fromScaled fee.numerator).val ≤ (fromScaled fee.denominator).val := by
      rw [fromScaled_val, fromScaled_val, hadmitted.denominator_eq]
      exact hadmitted.numerator_le.trans (by decide)
    have hshare := (feeUp_le hratio hdao).trans hmint
    have hfloor : least.val ≤ rawShares * d9 :=
      feeUp_le (hadmitted.floor_le.trans (by decide)) hleast
    split <;> split <;> assumption

end Folio

/-- What a mint of raw shares takes for a balance. -/
def takenFor (supply balance rawShares : ℕ) : ℕ :=
  min (price d9 supply balance (rawShares * d9)) u64Max

/-- What a burn of raw shares hands out of a balance. -/
def redeemedFor (supply balance rawShares : ℕ) : ℕ :=
  min (payout supply balance (rawShares * d9)) u64Max

theorem takenFor_zero (supply rawShares : ℕ) : takenFor supply 0 rawShares = 0 := by
  rw [takenFor, price, Nat.mul_zero, Nat.zero_mul, Nat.zero_div]
  rfl

theorem redeemedFor_zero (supply rawShares : ℕ) : redeemedFor supply 0 rawShares = 0 := by
  rw [redeemedFor, payout, Nat.mul_zero, Nat.zero_div, Nat.zero_min]

/-- What a mint does at one token: to the amounts of the user and of the basket. -/
structure Taken (supply rawShares : ℕ) (user : PendingAmounts) (amount : ℕ)
    (user' : PendingAmounts) (amount' : ℕ) : Prop where
  backed : 0 < supply ∨ amount = 0
  affordable : rawShares * d9 * amount ≤ user.amountForMinting * supply
  covered : takenFor supply amount rawShares ≤ user.amountForMinting
  user : user' = { user with
    amountForMinting := user.amountForMinting - takenFor supply amount rawShares }
  amount : amount' = amount + takenFor supply amount rawShares

/-- What a burn does at one token. -/
structure Redeemed (supply rawShares : ℕ) (user : PendingAmounts) (amount : ℕ)
    (user' : PendingAmounts) (amount' : ℕ) : Prop where
  backed : 0 < supply ∨ amount = 0
  fits : user.amountForRedeeming + redeemedFor supply amount rawShares ≤ u64Max
    ∨ redeemedFor supply amount rawShares = 0
  user : user' = { user with
    amountForRedeeming := user.amountForRedeeming + redeemedFor supply amount rawShares }
  amount : amount' + redeemedFor supply amount rawShares = amount

variable {user user' : PendingAmounts} {amount amount' rawShares : ℕ}

theorem Taken.nothing {supply : ℕ} : Taken supply rawShares user 0 user 0 := by
  have hzero := takenFor_zero supply rawShares
  refine ⟨.inr rfl, by rw [Nat.mul_zero]; exact Nat.zero_le _, ?_, ?_, ?_⟩
  · rw [hzero]
    exact Nat.zero_le _
  · rw [hzero, Nat.sub_zero]
  · rw [hzero]

theorem Redeemed.nothing {supply : ℕ} : Redeemed supply rawShares user 0 user 0 := by
  have hzero := redeemedFor_zero supply rawShares
  refine ⟨.inr rfl, .inr hzero, ?_, ?_⟩
  · rw [hzero, Nat.add_zero]
  · rw [hzero]

namespace UserPendingBasket

variable {supply : Decimal} {minimumOut : List MinimumOutForTokenAmount} {mint : Pubkey}

theorem givenFor_eq : givenFor ⟨rawShares * d9⟩ supply ⟨amount * d9⟩
    = redeemedFor supply.val amount rawShares := by
  rw [givenFor, redeemedFor, payout_fine (by decide)]

theorem taken_at
    (h : Exchanged .MintProcess supply ⟨rawShares * d9⟩ minimumOut mint user amount user' amount') :
    Taken supply.val rawShares user amount user' amount' := by
  simp only [Exchanged, exchange, toAssetsForMinting, bind_eq_ok, fromTokenAmount_eq_ok, mul_eq_ok,
    div_eq_ok, checkCondition_eq_ok, checkedSub_eq_ok, checkedAddU64_eq_ok, Except.ok.injEq,
    Prod.mk.injEq] at h
  obtain ⟨_, ⟨-, rfl⟩, _, ⟨-, rfl⟩, _, ⟨-, rfl⟩, _, ⟨hpos, rfl⟩, _, hafford, _, ⟨-, rfl⟩, _,
    ⟨hsupply, rfl⟩, taken, htaken, _, ⟨hle, rfl⟩, _, ⟨-, rfl⟩, rfl, rfl⟩ := h
  have hd9 : 0 < d9 := by decide
  have htaken : taken = takenFor supply.val amount rawShares := by
    rw [toTokenAmount_ceiling htaken, takenFor, price, ← Nat.mul_assoc]
  subst htaken
  refine ⟨.inl hsupply, ?_, hle, rfl, rfl⟩
  -- the check compares the shares with what all of the user's tokens are worth
  rw [Nat.le_div_iff_mul_le hpos] at hafford
  refine Nat.le_of_mul_le_mul_right ?_ hd9
  calc rawShares * d9 * amount * d9 = rawShares * d9 * (amount * d9) := Nat.mul_assoc ..
    _ ≤ user.amountForMinting * d9 * supply.val := hafford
    _ = user.amountForMinting * supply.val * d9 := Nat.mul_right_comm ..

theorem redeemed_at
    (h : Exchanged .RedeemProcess supply ⟨rawShares * d9⟩ minimumOut mint user amount user' amount') :
    Redeemed supply.val rawShares user amount user' amount' := by
  simp only [Exchanged, exchange, toAssetsForRedeeming, bind_eq_ok, fromTokenAmount_eq_ok, mul_eq_ok,
    div_eq_ok, toTokenAmount_floor, checkCondition_eq_ok, checkedSub_eq_ok, checkedAddU64_eq_ok,
    Except.ok.injEq, Prod.mk.injEq] at h
  obtain ⟨_, ⟨-, rfl⟩, _, ⟨-, rfl⟩, _, ⟨hsupply, rfl⟩, _, rfl, _, ⟨hfits, rfl⟩, _, ⟨hle, rfl⟩, _, -,
    rfl, rfl⟩ := h
  have hgiven : min (rawShares * d9 * (amount * d9) / supply.val / d9) u64Max
      = redeemedFor supply.val amount rawShares := givenFor_eq
  rw [hgiven] at hfits hle ⊢
  exact ⟨.inl hsupply, .inl hfits, rfl, by omega⟩

end UserPendingBasket

namespace Books

variable {T : TokenProgram} {b b' : Books T} {f user : Pubkey} {rawShares : ℕ}
  {minRawShares : Option ℕ} {minimumOut : List MinimumOutForTokenAmount} {supply : Decimal}

theorem supplyNow_spec (h : b.supplyNow f = .ok supply) :
    ∃ before, b.folio f = some before ∧ ∃ poked, b.poked f before = .ok poked ∧
      supply.val = poked.totalSupply (T.supply b.ledger f) := by
  simp only [supplyNow, bind_eq_ok, load_eq_ok, Folio.getTotalSupply_eq_ok] at h
  obtain ⟨before, hbefore, poked, hpoked, -, rfl⟩ := h
  exact ⟨before, hbefore, poked, hpoked, rfl⟩

/-- A token list of a folio is well formed or not there. -/
theorem BasketsWF.basketAmount_default (h : b.BasketsWF) : b.basketAmount f Pubkey.default = 0 := by
  cases hb : b.folioBasket f with
  | none => rw [basketAmount, hb, Option.elim_none]
  | some basket =>
      rw [basketAmount_of hb]
      exact (h.folioBasket _ _ hb).lookup_free

/-- **A burn at one token.** -/
theorem burnFolioToken_at (hwf : b.BasketsWF)
    (h : b.burnFolioToken f user rawShares minimumOut = .ok b')
    (hsupply : b.supplyNow f = .ok supply) (m : Pubkey) :
    Redeemed supply.val rawShares (b.pendingAmounts f user m) (b.basketAmount f m)
      (b'.pendingAmounts f user m) (b'.basketAmount f m) := by
  have hwf' := (burnFolioToken_settled h).wf hwf
  by_cases hm : m = Pubkey.default
  · subst hm
    rw [hwf.basketAmount_default, hwf'.basketAmount_default, hwf.pendingAmounts_default,
      hwf'.pendingAmounts_default]
    exact .nothing
  · obtain ⟨basket, basket', supply', hbasket, hbasket', hsupply', hpassed⟩ :=
      burnFolioToken_spec hwf h m hm
    obtain rfl : supply = supply' := Except.ok.inj (hsupply.symm.trans hsupply')
    rw [basketAmount_of hbasket, basketAmount_of hbasket']
    exact hpassed.lookup (fun _ _ => UserPendingBasket.redeemed_at) .nothing

/-- What a mint does to the user's amounts of a mint. -/
theorem mintFolioToken_spec (hwf : b.BasketsWF)
    (h : b.mintFolioToken f user rawShares minRawShares = .ok b') (m : Pubkey)
    (hm : m ≠ Pubkey.default) :
    ∃ (basket basket' : FolioBasket) (supply : Decimal),
      b.folioBasket f = some basket ∧ b'.folioBasket f = some basket' ∧
      b.supplyNow f = .ok supply ∧
      Passed (UserPendingBasket.Exchanged .MintProcess supply ⟨rawShares * d9⟩ [] m)
        (b.pendingAmounts f user m) (b'.pendingAmounts f user m)
        (basket.find m) (basket'.find m) := by
  simp only [mintFolioToken, bind_eq_ok, Prod.exists, Except.ok.injEq, load_eq_ok] at h
  obtain ⟨folio, hfolio, basket, hbasket, pending, hpending, fee, hfee, pending', basket', folio',
    hassets, _, _, -, _, -, _, -, _, -, rfl⟩ := h
  obtain ⟨hpoke, supply, hsupply, -, -, hpassed⟩ := UserPendingBasket.toAssets_spec
    (hwf.userPendingBasket _ _ hpending) (hwf.folioBasket _ _ hbasket) hassets
  refine ⟨basket, basket', supply, hbasket, Function.update_self .., ?_, ?_⟩
  · simp only [supplyNow, poked, bind_eq_ok, load_eq_ok]
    exact ⟨folio, (validateFolio_eq_ok.mp hfolio).1, folio', ⟨fee, hfee, hpoke⟩, hsupply⟩
  · simpa only [pendingAmounts, hpending, Function.update_self, Option.elim_some]
      using hpassed m hm

/-- **A mint at one token.** -/
theorem mintFolioToken_at (hwf : b.BasketsWF)
    (h : b.mintFolioToken f user rawShares minRawShares = .ok b')
    (hsupply : b.supplyNow f = .ok supply) (m : Pubkey) :
    Taken supply.val rawShares (b.pendingAmounts f user m) (b.basketAmount f m)
      (b'.pendingAmounts f user m) (b'.basketAmount f m) := by
  have hwf' := (mintFolioToken_settled h).wf hwf
  by_cases hm : m = Pubkey.default
  · subst hm
    rw [hwf.basketAmount_default, hwf'.basketAmount_default, hwf.pendingAmounts_default,
      hwf'.pendingAmounts_default]
    exact .nothing
  · obtain ⟨basket, basket', supply', hbasket, hbasket', hsupply', hpassed⟩ :=
      mintFolioToken_spec hwf h m hm
    obtain rfl : supply = supply' := Except.ok.inj (hsupply.symm.trans hsupply')
    rw [basketAmount_of hbasket, basketAmount_of hbasket']
    exact hpassed.lookup (fun _ _ => UserPendingBasket.taken_at) .nothing

/-! ### The supply -/

/-- A poke only adds to the supply. -/
theorem poked_pending_le {before poked : Folio} (h : b.poked f before = .ok poked) :
    before.pendingShares ≤ poked.pendingShares := by
  simp only [Books.poked, bind_eq_ok] at h
  obtain ⟨fee, -, hpoke⟩ := h
  obtain ⟨dao, recipients, hdao, hrecipients, rfl⟩ := Folio.poke_spec hpoke
  simp only [Folio.pendingShares]
  omega

theorem totalSupply_le_supplyNow (h : b.supplyNow f = .ok supply) : b.totalSupply f ≤ supply.val := by
  obtain ⟨before, hbefore, poked, hpoked, hsupply⟩ := supplyNow_spec h
  have hle := poked_pending_le hpoked
  rw [totalSupply_of hbefore, hsupply, Folio.totalSupply_eq, Folio.totalSupply_eq]
  omega

/-- The supply after the poke is that of the folio an instruction poked. -/
theorem supplyNow_val {before poked : Folio} {statuses : List FolioStatus} {fee : DaoFee}
    (hsupply : b.supplyNow f = .ok supply) (hbefore : b.validateFolio f statuses = .ok before)
    (hfee : b.feeDetails f = .ok fee)
    (hpoke : before.poke (T.supply b.ledger f) b.now fee = .ok poked) :
    b.folio f = some before ∧ supply.val = poked.totalSupply (T.supply b.ledger f) := by
  obtain ⟨before', hbefore', poked', hpoked', hval⟩ := supplyNow_spec hsupply
  have hfound := (validateFolio_eq_ok.mp hbefore).1
  obtain rfl : before' = before := Option.some.inj (hbefore'.symm.trans hfound)
  have hpoked : b.poked f before' = .ok poked := by
    simp only [Books.poked, bind_eq_ok]
    exact ⟨fee, hfee, hpoke⟩
  obtain rfl : poked' = poked := Except.ok.inj (hpoked'.symm.trans hpoked)
  exact ⟨hfound, hval⟩

/-- A burn takes its shares off the supply after the poke. -/
theorem burnFolioToken_total (hT : T.CountsSupply)
    (h : b.burnFolioToken f user rawShares minimumOut = .ok b')
    (hsupply : b.supplyNow f = .ok supply) :
    b'.totalSupply f + rawShares * d9 = supply.val := by
  simp only [burnFolioToken, UserPendingBasket.toAssets, bind_eq_ok, Prod.exists, Except.ok.injEq,
    Prod.mk.injEq, invoke_eq_ok] at h
  obtain ⟨before, hbefore, _, -, _, -, fee, hfee, _, _, _, ⟨poked, hpoke, _, -, _, -, _, _, -, rfl,
    rfl, rfl⟩, l', hburn, rfl⟩ := h
  obtain ⟨hfound, hval⟩ := supplyNow_val hsupply hbefore hfee hpoke
  obtain ⟨hle, hsupply'⟩ := hT.burn hburn
  have hmul := Nat.mul_le_mul_right d9 hle
  rw [totalSupply_of (Function.update_self ..), hval, Folio.totalSupply_eq, Folio.totalSupply_eq,
    hsupply', Function.update_self, Nat.sub_mul]
  omega

/-- The fees of a folio are as the setters admit them. -/
def FeesAdmitted (b : Books T) (f : Pubkey) : Prop :=
  ∀ folio fee, b.folio f = some folio → b.feeDetails f = .ok fee → folio.FeesAdmitted fee

/-- What a mint does to the supply: the folio is poked, the fee is added to its counters, and the
rest of the shares is minted. -/
theorem mintFolioToken_fees (hT : T.CountsSupply)
    (h : b.mintFolioToken f user rawShares minRawShares = .ok b')
    (hsupply : b.supplyNow f = .ok supply) :
    ∃ (before poked after : Folio) (fee : DaoFee) (fees : ℕ),
      b.folio f = some before ∧ b.feeDetails f = .ok fee ∧
      poked.mintFee = before.mintFee ∧ supply.val = poked.totalSupply (T.supply b.ledger f) ∧
      poked.calculateFeesForMinting rawShares fee = .ok (after, fees) ∧ fees ≤ rawShares ∧
      T.supply b'.ledger f = T.supply b.ledger f + (rawShares - fees) ∧
      b'.totalSupply f = after.totalSupply (T.supply b.ledger f + (rawShares - fees)) := by
  simp only [mintFolioToken, UserPendingBasket.toAssets, bind_eq_ok, Prod.exists, Except.ok.injEq,
    Prod.mk.injEq, invoke_eq_ok, checkedSub_eq_ok] at h
  obtain ⟨before, hbefore, _, -, _, -, fee, hfee, _, _, _, ⟨poked, hpoke, _, -, _, -, _, _, -, rfl,
    rfl, rfl⟩, after, fees, hfees, minted, ⟨hle, rfl⟩, _, -, l', hmint, rfl⟩ := h
  obtain ⟨hfound, hval⟩ := supplyNow_val hsupply hbefore hfee hpoke
  obtain ⟨hsupply', -⟩ := hT.mintTo hmint
  have hself : T.supply l' f = T.supply b.ledger f + (rawShares - fees) := by
    rw [hsupply', Function.update_self]
  have hmintFee : poked.mintFee = before.mintFee := by
    obtain ⟨dao, recipients, -, -, rfl⟩ := Folio.poke_spec hpoke
    rfl
  refine ⟨before, poked, after, fee, fees, hfound, hfee, hmintFee, hval, hfees, hle, hself, ?_⟩
  rw [totalSupply_of (Function.update_self ..), hself]

/-- A mint adds the shares it mints and the fee, which is no more than the shares it keeps
back. -/
theorem mintFolioToken_total (hT : T.CountsSupply)
    (h : b.mintFolioToken f user rawShares minRawShares = .ok b')
    (hsupply : b.supplyNow f = .ok supply) :
    ∃ minted, T.supply b'.ledger f = T.supply b.ledger f + minted ∧ minted ≤ rawShares ∧
      supply.val + minted * d9 ≤ b'.totalSupply f ∧
      (b.FeesAdmitted f → rawShares ≤ u64Max →
        b'.totalSupply f ≤ supply.val + rawShares * d9) := by
  obtain ⟨before, poked, after, fee, fees, hfound, hfee, hmintFee, hval, hfees, hle, hself, htotal⟩ :=
    mintFolioToken_fees hT h hsupply
  obtain ⟨total, hshares, hpending, hpending', hadmitted⟩ :=
    Folio.calculateFeesForMinting_spec hfees
  refine ⟨rawShares - fees, hself, Nat.sub_le .., ?_, fun hfeesAdmitted hu64 => ?_⟩
  · rw [htotal, hval, Folio.totalSupply_eq, Folio.totalSupply_eq, Nat.add_mul]
    omega
  · have hfeeTotal : total ≤ rawShares * d9 := by
      obtain ⟨h₁, h₂, h₃, h₄⟩ := hfeesAdmitted before fee hfound hfee
      exact hadmitted ⟨hmintFee ▸ h₁, h₂, h₃, h₄⟩
    -- so the shares kept back fit `u64` and are worth the fee
    have hceil : total ≤ fees * d9 := by
      have hd9 : 0 < d9 := by decide
      rw [hshares, Nat.min_eq_left ((roundUp_le hd9 hfeeTotal).trans hu64)]
      exact le_roundUp_mul hd9
    have hmul := Nat.sub_mul rawShares fees d9
    have hle' := Nat.mul_le_mul_right d9 hle
    rw [htotal, hval, Folio.totalSupply_eq, Folio.totalSupply_eq, Nat.add_mul]
    omega

/-! ### The backing of the other shares -/

/-- The part of the balance is whole units, or at least a billionth more: then the price,
which is rounded down to billionths first, covers it. -/
def PricedUp (supply balance rawShares : ℕ) : Prop :=
  rawShares * d9 * balance % supply = 0 ∨ supply ≤ rawShares * d9 * balance % supply * d9

instance (supply balance rawShares : ℕ) : Decidable (PricedUp supply balance rawShares) :=
  inferInstanceAs (Decidable (_ ∨ _))

/-- A mint takes no less than the part of the new shares exactly when it is priced up, and then it
does not lower the backing. -/
theorem mint_backing (hT : T.CountsSupply) (hwf : b.BasketsWF)
    (hsupply : b.supplyNow f = .ok supply) (hpos : 0 < supply.val) (m : Pubkey)
    (hu64 : rawShares ≤ u64Max ∧ (b.pendingAmounts f user m).amountForMinting ≤ u64Max)
    (h : b.mintFolioToken f user rawShares minRawShares = .ok b') :
    ∃ taken, (b.pendingAmounts f user m).amountForMinting
        = (b'.pendingAmounts f user m).amountForMinting + taken ∧
      b'.basketAmount f m = b.basketAmount f m + taken ∧
      (rawShares * d9 * b.basketAmount f m ≤ taken * supply.val ↔
        PricedUp supply.val (b.basketAmount f m) rawShares) ∧
      (PricedUp supply.val (b.basketAmount f m) rawShares → b.FeesAdmitted f →
        b.basketAmount f m * b'.totalSupply f ≤ b'.basketAmount f m * supply.val) := by
  have hd9 : 0 < d9 := by decide
  obtain ⟨-, hafford, hcovered, huser, hamount⟩ := mintFolioToken_at hwf h hsupply m
  -- what the user can pay fits `u64`, so the price is not cut off
  have htaken : takenFor supply.val (b.basketAmount f m) rawShares
      = price d9 supply.val (b.basketAmount f m) (rawShares * d9) :=
    Nat.min_eq_left ((price_le hd9 hafford).trans hu64.2)
  have hiff : rawShares * d9 * b.basketAmount f m
        ≤ takenFor supply.val (b.basketAmount f m) rawShares * supply.val ↔
      PricedUp supply.val (b.basketAmount f m) rawShares := by
    rw [htaken]
    exact le_price_iff hd9 hpos
  refine ⟨_, ?_, hamount, hiff, fun hpriced hadmitted => ?_⟩
  · rw [huser]
    exact (Nat.sub_add_cancel hcovered).symm
  · obtain ⟨minted, -, -, -, htotal⟩ := mintFolioToken_total hT h hsupply
    calc b.basketAmount f m * b'.totalSupply f
        ≤ b.basketAmount f m * (supply.val + rawShares * d9) :=
          Nat.mul_le_mul_left _ (htotal hadmitted hu64.1)
      _ = b.basketAmount f m * supply.val + rawShares * d9 * b.basketAmount f m := by
          rw [Nat.mul_add, Nat.mul_comm (rawShares * d9)]
      _ ≤ b'.basketAmount f m * supply.val := by
          rw [hamount, Nat.add_mul]
          exact Nat.add_le_add_left (hiff.mpr hpriced) _

/-- A burn hands out no more than the part of the shares it burns. -/
theorem burn_backing (hT : T.CountsSupply) (hwf : b.BasketsWF)
    (hsupply : b.supplyNow f = .ok supply) (m : Pubkey)
    (h : b.burnFolioToken f user rawShares minimumOut = .ok b') :
    ∃ given, (b'.pendingAmounts f user m).amountForRedeeming
        = (b.pendingAmounts f user m).amountForRedeeming + given ∧
      b.basketAmount f m = b'.basketAmount f m + given ∧
      given * supply.val ≤ rawShares * d9 * b.basketAmount f m ∧
      b.basketAmount f m * b'.totalSupply f ≤ b'.basketAmount f m * supply.val := by
  obtain ⟨-, -, huser, hamount⟩ := burnFolioToken_at hwf h hsupply m
  have hgiven : redeemedFor supply.val (b.basketAmount f m) rawShares * supply.val
      ≤ rawShares * d9 * b.basketAmount f m :=
    (Nat.mul_le_mul_right _ (min_le_left ..)).trans payout_mul_le
  refine ⟨_, by rw [huser], hamount.symm, hgiven, ?_⟩
  have htotal := burnFolioToken_total hT h hsupply
  refine Nat.le_of_add_le_add_right (b := rawShares * d9 * b.basketAmount f m) ?_
  calc b.basketAmount f m * b'.totalSupply f + rawShares * d9 * b.basketAmount f m
      = b.basketAmount f m * supply.val := by
        rw [← htotal, Nat.mul_add, Nat.mul_comm (rawShares * d9)]
    _ = b'.basketAmount f m * supply.val
          + redeemedFor supply.val (b.basketAmount f m) rawShares * supply.val := by
        rw [← Nat.add_mul, hamount]
    _ ≤ b'.basketAmount f m * supply.val + rawShares * d9 * b.basketAmount f m :=
        Nat.add_le_add_left hgiven _

/-- **The backing of a share** by a token, its amount in the basket over the total supply.
A burn hands out no more than the part of the shares it burns, so it never lowers the
backing of the others; a mint takes no less than the part of the new shares exactly when
it is priced up, and then it does not lower it either. -/
theorem backing_kept_iff (hT : T.CountsSupply) (hwf : b.BasketsWF)
    (hsupply : b.supplyNow f = .ok supply) (hpos : 0 < supply.val) (m : Pubkey)
    (hu64 : rawShares ≤ u64Max ∧ (b.pendingAmounts f user m).amountForMinting ≤ u64Max) :
    (∀ minRawShares b', b.mintFolioToken f user rawShares minRawShares = .ok b' →
      ∃ taken, (b.pendingAmounts f user m).amountForMinting
          = (b'.pendingAmounts f user m).amountForMinting + taken ∧
        b'.basketAmount f m = b.basketAmount f m + taken ∧
        (rawShares * d9 * b.basketAmount f m ≤ taken * supply.val ↔
          PricedUp supply.val (b.basketAmount f m) rawShares) ∧
        (PricedUp supply.val (b.basketAmount f m) rawShares → b.FeesAdmitted f →
          b.basketAmount f m * b'.totalSupply f ≤ b'.basketAmount f m * supply.val)) ∧
    ∀ minimumOut b', b.burnFolioToken f user rawShares minimumOut = .ok b' →
      ∃ given, (b'.pendingAmounts f user m).amountForRedeeming
          = (b.pendingAmounts f user m).amountForRedeeming + given ∧
        b.basketAmount f m = b'.basketAmount f m + given ∧
        given * supply.val ≤ rawShares * d9 * b.basketAmount f m ∧
        b.basketAmount f m * b'.totalSupply f ≤ b'.basketAmount f m * supply.val := by
  constructor
  · intro minRawShares b' h
    exact mint_backing hT hwf hsupply hpos m hu64 h
  · intro minimumOut b' h
    exact burn_backing hT hwf hsupply m h

end Books

namespace World

open Books

/-- Folio 5 with two units of token 7 in its basket and half a share pending: it was
launched with one unit, and owner 3 minted 50 raw shares at a fee of a percent. -/
def halfPending : World TokenProgram.simple :=
  run step (genesis SimpleLedger.empty 1000000)
    [.admin (.setDaoFeeConfig admin (some 9) (some 0) (some 0)),
      .owner (.initFolio 5 3 0 10000000000000000 60 []),
      .outside (.openAccount (.external 3) 7),
      .outside (.issue (.external 3) 7 1000),
      .outside (.openAccount (.folio 5) 7),
      .outside (.openAccount (.external 3) 5),
      .owner (.addToBasket 5 3 [⟨7, (.external 3, 7), (.folio 5, 7)⟩] [1] (some 1000000000)),
      .user (.addToPendingBasket 5 3 [⟨7, (.external 3, 7), (.folio 5, 7)⟩] [100]),
      .user (.mintFolioToken 5 3 50 none)]

theorem supplyNow_halfPending : halfPending.books.supplyNow 5 = .ok ⟨1000000049500000000⟩ := by
  decide +kernel

/-- Half a billion raw shares are worth a bit less than one of the two units. -/
theorem backing_kept_halfPending :
    ∃ b', halfPending.books.mintFolioToken 5 3 500000000 none = .ok b' ∧
      ∃ taken, (halfPending.books.pendingAmounts 5 3 7).amountForMinting
          = (b'.pendingAmounts 5 3 7).amountForMinting + taken ∧
        500000000 * d9 * halfPending.books.basketAmount 5 7 ≤ taken * 1000000049500000000 := by
  have hok : ∃ b', halfPending.books.mintFolioToken 5 3 500000000 none = .ok b' ∧ True := by
    decide +kernel
  have hu64 : 500000000 ≤ u64Max ∧
      (halfPending.books.pendingAmounts 5 3 7).amountForMinting ≤ u64Max := by decide +kernel
  have hpriced : PricedUp 1000000049500000000 (halfPending.books.basketAmount 5 7) 500000000 := by
    decide +kernel
  obtain ⟨b', hb', -⟩ := hok
  have hwf : halfPending.books.BasketsWF := Reachable.basketsWF (reachable_genesis ..)
  obtain ⟨taken, htaken, -, hiff, -⟩ := (backing_kept_iff TokenProgram.simple_countsSupply hwf
    supplyNow_halfPending (by decide) 7 hu64).1 none b' hb'
  exact ⟨b', hb', taken, htaken, hiff.mpr hpriced⟩

/-- 25 raw shares more are worth half a billionth more than one unit, and still one unit is
all that is taken for them. -/
theorem backing_lowered_by_mint :
    halfPending.Reachable ∧ halfPending.books.supplyNow 5 = .ok ⟨1000000049500000000⟩ ∧
      ∃ b', halfPending.books.mintFolioToken 5 3 500000025 none = .ok b' ∧
        (halfPending.books.pendingAmounts 5 3 7).amountForMinting
          = (b'.pendingAmounts 5 3 7).amountForMinting + 1 ∧
        ¬ 500000025 * d9 * halfPending.books.basketAmount 5 7 ≤ 1 * 1000000049500000000 :=
  ⟨reachable_genesis .., supplyNow_halfPending, by decide +kernel⟩

end World

end IndexDtf
