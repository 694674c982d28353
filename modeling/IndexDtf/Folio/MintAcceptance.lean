import IndexDtf.Folio.ShareValue

/-!
# IndexDtf.Folio.MintAcceptance

**Who can mint.** `to_assets_for_minting` compares the shares asked for with what the tokens of the
user are worth, rounded down, and then takes the price of the shares, rounded down and up. The
shares are refused only if the proportion says so, and the price of those that are not is at hand.

* `toAssetsForMinting_of` — all that can happen when the amounts fit;
* `mint_acceptance_exact` — of the slots of the user and of the folio.
-/

namespace IndexDtf.UserPendingBasket

open Lib SlotArray Decimal

variable {user : PendingAmounts} {amount rawShares : ℕ} {supply : Decimal}

/-- What the tokens of the user are worth in shares is compared without a scale. -/
theorem shares_le_iff (hbalance : 0 < amount) :
    rawShares * d9 ≤ user.amountForMinting * d9 * supply.val / (amount * d9) ↔
      rawShares * d9 * amount ≤ user.amountForMinting * supply.val := by
  rw [Nat.mul_right_comm user.amountForMinting, Nat.mul_div_mul_right _ _ (by decide : 0 < d9)]
  exact Nat.le_div_iff_mul_le hbalance

/-- Who can pay has the price. -/
theorem takenFor_le
    (hafford : rawShares * d9 * amount ≤ user.amountForMinting * supply.val) :
    takenFor supply.val amount rawShares ≤ user.amountForMinting :=
  (Nat.min_le_left ..).trans (price_le (by decide) hafford)

/-- **All that `to_assets_for_minting` does**, when the amounts fit. -/
theorem toAssetsForMinting_of (hbalance : 0 < amount)
    (hfits : amount + user.amountForMinting ≤ u64Max) (hsupply : 0 < supply.val)
    (hbound : supply.val < 2 ^ 130) :
    toAssetsForMinting user amount supply ⟨amount * d9⟩ ⟨rawShares * d9⟩ =
      if rawShares * d9 * amount ≤ user.amountForMinting * supply.val then
        .ok ({ user with
            amountForMinting := user.amountForMinting - takenFor supply.val amount rawShares },
          amount + takenFor supply.val amount rawShares)
      else .error (.code .InvalidShareAmountProvided) := by
  have hpending : user.amountForMinting ≤ u64Max := (Nat.le_add_left ..).trans hfits
  have hworth : user.amountForMinting * d9 * supply.val ≤ u64Max * d9 * 2 ^ 130 :=
    Nat.mul_le_mul (Nat.mul_le_mul_right d9 hpending) hbound.le
  have hlimit : u64Max * d9 * 2 ^ 130 + d9 < u256Bound := by decide
  have hscaled : user.amountForMinting * d9 < u256Bound :=
    (Nat.mul_le_mul_right d9 hpending).trans_lt (by decide)
  have hpositive : 0 < amount * d9 := Nat.mul_pos hbalance (by decide)
  rw [toAssetsForMinting, fromTokenAmount, checked_of hscaled, ok_bind,
    mul_of (by simp only; omega), ok_bind, div_of (by exact hpositive), ok_bind]
  simp only [shares_le_iff hbalance]
  split
  · next hafford =>
    have hprice : rawShares * d9 * (amount * d9) ≤ user.amountForMinting * d9 * supply.val := by
      calc rawShares * d9 * (amount * d9) = rawShares * d9 * amount * d9 :=
            (Nat.mul_assoc ..).symm
        _ ≤ user.amountForMinting * supply.val * d9 := Nat.mul_le_mul_right d9 hafford
        _ = user.amountForMinting * d9 * supply.val := Nat.mul_right_comm ..
    have hdiv := Nat.div_le_self (rawShares * d9 * (amount * d9)) supply.val
    have htaken := takenFor_le hafford
    have hceil : Decimal.toTokenAmount ⟨rawShares * d9 * (amount * d9) / supply.val⟩ .Ceiling
        = .ok (takenFor supply.val amount rawShares) := by
      rw [toTokenAmount_of (by simp only; omega), takenFor, price, ← Nat.mul_assoc]
    rw [checkCondition_of hafford, ok_bind, mul_of (by simp only; omega), ok_bind, div_of hsupply,
      ok_bind, hceil, ok_bind, checkedSub_eq_ok.mpr ⟨htaken, rfl⟩, ok_bind,
      checkedAddU64_eq_ok.mpr ⟨by omega, rfl⟩, ok_bind]
  · next hrefused =>
    rw [checkCondition, guardOr_eq_error.mpr ⟨hrefused, rfl⟩, error_bind]

/-! ### The slots -/

/-- `to_assets_for_minting`, of the slots it is given. -/
def toAssetsForMintingSlots (rawUserAmount : TokenAmount) (folioTokenAmount : FolioTokenAmount)
    (scaledTotalSupply scaledBalance shares : Decimal) :
    Result (TokenAmount × FolioTokenAmount) := do
  let (user, amount) ← toAssetsForMinting rawUserAmount.value folioTokenAmount.value
    scaledTotalSupply scaledBalance shares
  .ok ({ rawUserAmount with value := user }, { folioTokenAmount with value := amount })

/-- A round of `to_assets` for minting is one of the slots of its mint. -/
theorem toAssetsRound_minting {pending : UserPendingBasket} {mint : Pubkey} {shares : Decimal}
    {minimumOut : List MinimumOutForTokenAmount} (h : pending.find mint = some user) :
    toAssetsRound .MintProcess supply shares minimumOut pending mint amount = (do
      let balance ← fromTokenAmount amount
      let (rawUserAmount, folioTokenAmount) ←
        toAssetsForMintingSlots ⟨mint, user⟩ ⟨mint, amount⟩ supply balance shares
      .ok (pending.replace mint rawUserAmount, folioTokenAmount.value)) := by
  simp only [toAssetsRound, slotFor, h, exchange, toAssetsForMintingSlots, ok_bind, bind_assoc]

variable {rawUserAmount : TokenAmount} {folioTokenAmount : FolioTokenAmount}

theorem toAssetsForMintingSlots_of (hbalance : 0 < folioTokenAmount.value)
    (hfits : folioTokenAmount.value + rawUserAmount.value.amountForMinting ≤ u64Max)
    (hsupply : 0 < supply.val) (hbound : supply.val < 2 ^ 130) :
    toAssetsForMintingSlots rawUserAmount folioTokenAmount supply ⟨folioTokenAmount.value * d9⟩
        ⟨rawShares * d9⟩ =
      if rawShares * d9 * folioTokenAmount.value
          ≤ rawUserAmount.value.amountForMinting * supply.val then
        .ok (⟨rawUserAmount.key, rawUserAmount.value.amountForMinting
              - takenFor supply.val folioTokenAmount.value rawShares,
            rawUserAmount.value.amountForRedeeming⟩,
          ⟨folioTokenAmount.key, folioTokenAmount.value
            + takenFor supply.val folioTokenAmount.value rawShares⟩)
      else .error (.code .InvalidShareAmountProvided) := by
  rw [toAssetsForMintingSlots, toAssetsForMinting_of hbalance hfits hsupply hbound]
  split
  · rw [ok_bind]
  · rw [error_bind]

/-- A user paid for shares: tokens went from her slot to the folio's, and nothing else changed. -/
structure Paid (rawUserAmount rawUserAmount' : TokenAmount)
    (folioTokenAmount folioTokenAmount' : FolioTokenAmount) : Prop where
  taken : ∃ taken ≤ rawUserAmount.value.amountForMinting,
    rawUserAmount'.value.amountForMinting = rawUserAmount.value.amountForMinting - taken ∧
    folioTokenAmount'.value = folioTokenAmount.value + taken
  conserved : rawUserAmount'.value.amountForMinting + folioTokenAmount'.value
    = rawUserAmount.value.amountForMinting + folioTokenAmount.value
  redeeming : rawUserAmount'.value.amountForRedeeming = rawUserAmount.value.amountForRedeeming
  userMint : rawUserAmount'.key = rawUserAmount.key
  folioMint : folioTokenAmount'.key = folioTokenAmount.key

variable {rawUserAmount' : TokenAmount} {folioTokenAmount' : FolioTokenAmount}

theorem Paid.of_taken {taken : ℕ} (htaken : taken ≤ rawUserAmount.value.amountForMinting)
    (huser : rawUserAmount' = ⟨rawUserAmount.key, rawUserAmount.value.amountForMinting - taken,
      rawUserAmount.value.amountForRedeeming⟩)
    (hfolio : folioTokenAmount' = ⟨folioTokenAmount.key, folioTokenAmount.value + taken⟩) :
    Paid rawUserAmount rawUserAmount' folioTokenAmount folioTokenAmount' := by
  subst huser hfolio
  exact ⟨⟨taken, htaken, rfl, rfl⟩, by simp only; omega, rfl, rfl, rfl⟩

/-- **The acceptance test of a mint is exact**: shares are accepted exactly if the tokens of the
user are worth them, nothing else fails, and what is accepted is paid. -/
theorem mint_acceptance_exact (hbalance : 0 < folioTokenAmount.value)
    (hfits : folioTokenAmount.value + rawUserAmount.value.amountForMinting ≤ u64Max)
    (hsupply : 0 < supply.val) (hbound : supply.val < 2 ^ 130) :
    ((∃ slots, toAssetsForMintingSlots rawUserAmount folioTokenAmount supply
        ⟨folioTokenAmount.value * d9⟩ ⟨rawShares * d9⟩ = .ok slots) ↔
      rawShares * 10 ^ 9 * folioTokenAmount.value
        ≤ rawUserAmount.value.amountForMinting * supply.val) ∧
    (∀ e, toAssetsForMintingSlots rawUserAmount folioTokenAmount supply
        ⟨folioTokenAmount.value * d9⟩ ⟨rawShares * d9⟩ = .error e →
      e = .code .InvalidShareAmountProvided) ∧
    ∀ rawUserAmount' folioTokenAmount',
      toAssetsForMintingSlots rawUserAmount folioTokenAmount supply
          ⟨folioTokenAmount.value * d9⟩ ⟨rawShares * d9⟩
        = .ok (rawUserAmount', folioTokenAmount') →
      Paid rawUserAmount rawUserAmount' folioTokenAmount folioTokenAmount' := by
  have hd9 : 10 ^ 9 = d9 := by norm_num [d9]
  rw [hd9]
  by_cases hafford : rawShares * d9 * folioTokenAmount.value
      ≤ rawUserAmount.value.amountForMinting * supply.val
  · have hof := (toAssetsForMintingSlots_of hbalance hfits hsupply hbound).trans (if_pos hafford)
    refine ⟨⟨fun _ => hafford, fun _ => ⟨_, hof⟩⟩, fun e h => ?_, fun _ _ h => ?_⟩
    · rw [hof] at h
      cases h
    · rw [hof] at h
      obtain ⟨huser, hfolio⟩ := Prod.mk.inj (Except.ok.inj h)
      exact .of_taken (takenFor_le hafford) huser.symm hfolio.symm
  · have hof := (toAssetsForMintingSlots_of hbalance hfits hsupply hbound).trans (if_neg hafford)
    refine ⟨⟨fun haccepted => ?_, fun h => absurd h hafford⟩, fun e h => ?_, fun _ _ h => ?_⟩
    · obtain ⟨_, h⟩ := haccepted
      rw [hof] at h
      cases h
    · rw [hof] at h
      exact (Except.error.inj h).symm
    · rw [hof] at h
      cases h

/-- Five tokens, of a mint of which the folio has ten, pay for one share of two. -/
theorem mint_acceptance_exact_half :
    ((∃ slots, toAssetsForMintingSlots ⟨7, 5, 3⟩ ⟨7, 10⟩ ⟨2 * 10 ^ 9⟩ ⟨10 * d9⟩ ⟨1 * d9⟩
        = .ok slots) ↔ 1 * 10 ^ 9 * 10 ≤ 5 * (2 * 10 ^ 9)) ∧
    (∀ e, toAssetsForMintingSlots ⟨7, 5, 3⟩ ⟨7, 10⟩ ⟨2 * 10 ^ 9⟩ ⟨10 * d9⟩ ⟨1 * d9⟩
        = .error e → e = .code .InvalidShareAmountProvided) ∧
    ∀ rawUserAmount' folioTokenAmount',
      toAssetsForMintingSlots ⟨7, 5, 3⟩ ⟨7, 10⟩ ⟨2 * 10 ^ 9⟩ ⟨10 * d9⟩ ⟨1 * d9⟩
        = .ok (rawUserAmount', folioTokenAmount') →
      Paid ⟨7, 5, 3⟩ rawUserAmount' ⟨7, 10⟩ folioTokenAmount' :=
  mint_acceptance_exact (by decide) (by decide) (by decide) (by decide)

end IndexDtf.UserPendingBasket
