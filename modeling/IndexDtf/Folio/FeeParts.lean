import IndexDtf.Folio.PokeGrowth
import IndexDtf.Folio.ShareValue

/-!
# IndexDtf.Folio.FeeParts

**The two parts of a fee.** Both fees are split between the DAO and the fee recipients; the
DAO's part is rounded up and has a floor, and the recipients get the rest.

* `poke_parts` — what a poke charges is the sum of the parts, and they are added to the two
  counters as far as `to_scaled` lets them;
* `mint_parts` — the fee of a mint is the sum of its parts and covered by the shares that are
  kept back, so the total supply grows by the shares of the mint less a part of a raw share.
-/

namespace IndexDtf

open Lib Decimal

namespace Folio

variable {folio after : Folio} {supply t : ℕ} {fee : DaoFee}

/-! ### The TVL fee -/

/-- The parts of what a poke charges for the elapsed seconds. -/
structure PokeParts (folio : Folio) (fee : DaoFee) (supply elapsed dao recipients : ℕ) : Prop where
  floor_rate : feeFloorPerSecond fee.floor = .ok ⟨perSecond fee.floor⟩
  /-- Their sum is what dividing by the power adds to the total supply. -/
  sum : ∃ remaining, Decimal.pow ⟨d18 - folio.rateInUse fee⟩ elapsed = .ok ⟨remaining⟩ ∧
    folio.totalSupply supply + (dao + recipients)
      = folio.totalSupply supply * d18 / remaining
  dao_ratio : ((dao + recipients) * fee.numerator + d18 - 1) / d18 ≤ dao
  dao_floor : (dao + recipients) * perSecond fee.floor ≤ dao * folio.rateInUse fee

/-- The DAO's portion is at least what the floor is of the rate. -/
theorem perSecond_le_daoPortion (hrate : 0 < folio.rateInUse fee) :
    perSecond fee.floor * d18 ≤ folio.daoPortion fee * folio.rateInUse fee := by
  have hup : perSecond fee.floor * d18
      ≤ (perSecond fee.floor * d18 + (folio.rateInUse fee - 1)) / folio.rateInUse fee
        * folio.rateInUse fee := le_roundUp_mul hrate
  rw [← Nat.add_sub_assoc hrate] at hup
  exact hup.trans (Nat.mul_le_mul_right _ (Nat.le_max_left ..))

theorem Accrued.pokeParts (hfee : fee.Admissible) (h : folio.Accrued fee supply t after) :
    folio.PokeParts fee supply (dayStart t - folio.lastPoke)
      (folio.daoGrowth fee supply (dayStart t - folio.lastPoke))
      (folio.recipientsGrowth fee supply (dayStart t - folio.lastPoke)) := by
  have hparts := daoGrowth_add_recipientsGrowth supply (dayStart t - folio.lastPoke)
    (daoPortion_le hfee h.rate_pos)
  obtain ⟨hge, -⟩ := daoGrowth_spec folio fee supply (dayStart t - folio.lastPoke)
  refine ⟨feeFloorPerSecond_of hfee.floor_le, ⟨_, pow_of_le_one (Nat.sub_le ..) _, ?_⟩, ?_, ?_⟩
  · rw [hparts]
    exact Nat.add_sub_cancel' h.grows
  · rw [hparts, daoGrowth]
    have hratio : fee.numerator ≤ folio.daoPortion fee := Nat.le_max_right ..
    gcongr
  · rw [hparts]
    have hfloor := Nat.mul_le_mul_left (folio.growth fee supply (dayStart t - folio.lastPoke))
      (perSecond_le_daoPortion h.rate_pos)
    have hshare := Nat.mul_le_mul_right (folio.rateInUse fee) hge
    have hone : 0 < d18 := by decide
    refine Nat.le_of_mul_le_mul_right ?_ hone
    calc folio.growth fee supply (dayStart t - folio.lastPoke) * perSecond fee.floor * d18
        = folio.growth fee supply (dayStart t - folio.lastPoke) * (perSecond fee.floor * d18) :=
          Nat.mul_assoc ..
      _ ≤ folio.growth fee supply (dayStart t - folio.lastPoke)
            * (folio.daoPortion fee * folio.rateInUse fee) := hfloor
      _ = folio.growth fee supply (dayStart t - folio.lastPoke) * folio.daoPortion fee
            * folio.rateInUse fee := (Nat.mul_assoc ..).symm
      _ ≤ folio.daoGrowth fee supply (dayStart t - folio.lastPoke) * d18
            * folio.rateInUse fee := hshare
      _ = folio.daoGrowth fee supply (dayStart t - folio.lastPoke) * folio.rateInUse fee
            * d18 := Nat.mul_right_comm ..

/-- A part is added to a counter that was not zero without being cut off. -/
theorem part_le_of_fits {counter part cap : ℕ} (h : counter + min part cap ≤ cap) :
    part ≤ cap ∨ counter = 0 := by
  omega

/-- **A poke splits what it charges.** Nothing else of the folio changes, and until the next day
another poke does nothing. Only into an empty counter is a part cut off, to the most a counter
holds. -/
theorem poke_parts (hfee : fee.Admissible) (h : folio.poke supply t fee = .ok after)
    (hday : folio.lastPoke < dayStart t) :
    ∃ dao recipients,
      folio.PokeParts fee supply (dayStart t - folio.lastPoke) dao recipients ∧
      after = { folio with
        daoPendingFeeShares := folio.daoPendingFeeShares + min dao u128Max
        feeRecipientsPendingFeeShares := folio.feeRecipientsPendingFeeShares
          + min recipients u128Max
        lastPoke := dayStart t } ∧
      (dao ≤ u128Max ∨ folio.daoPendingFeeShares = 0) ∧
      (recipients ≤ u128Max ∨ folio.feeRecipientsPendingFeeShares = 0) ∧
      ∀ supply' t' fee', t' ≤ u64Max → dayStart t' = dayStart t →
        after.poke supply' t' fee' = .ok after := by
  rcases poke_cases hfee h with ⟨hsame, -⟩ | hacc
  · exact absurd hsame (Nat.not_le.mpr hday)
  · refine ⟨_, _, hacc.pokeParts hfee, hacc.after_eq, part_le_of_fits hacc.dao_fits,
      part_le_of_fits hacc.recipients_fit, fun supply' t' fee' ht' hsame => ?_⟩
    refine poke_same_day ht' ?_
    rw [hsame, hacc.lastPoke_eq]

/-- A folio that charges 5% a year, poked after ten days. -/
theorem poke_parts_ten_days :
    let folio : Folio := ⟨.Initialized, 0, 7, 1625787457, 0, 5, 0, 60, 86400, [], 0⟩
    let fee : DaoFee := ⟨maxDaoFee, feeDenominator, maxFeeFloor⟩
    ∃ after, folio.poke 1000000000 950400 fee = .ok after ∧ ∃ dao recipients,
      folio.PokeParts fee 1000000000 (dayStart 950400 - 86400) dao recipients ∧
      after = { folio with
        daoPendingFeeShares := folio.daoPendingFeeShares + min dao u128Max
        feeRecipientsPendingFeeShares := folio.feeRecipientsPendingFeeShares
          + min recipients u128Max
        lastPoke := dayStart 950400 } ∧
      (dao ≤ u128Max ∨ folio.daoPendingFeeShares = 0) ∧
      (recipients ≤ u128Max ∨ folio.feeRecipientsPendingFeeShares = 0) ∧
      ∀ supply' t' fee', t' ≤ u64Max → dayStart t' = dayStart 950400 →
        after.poke supply' t' fee' = .ok after := by
  intro folio fee
  have hok : ∃ after, folio.poke 1000000000 950400 fee = .ok after ∧ True := by decide +kernel
  obtain ⟨after, hafter, -⟩ := hok
  exact ⟨after, hafter, poke_parts ⟨by decide, rfl, by decide⟩ hafter (by decide)⟩

/-- After 325 years what a poke charges fills both counters, and the rest of it is lost. -/
theorem poke_parts_cut_off :
    let folio : Folio := ⟨.Initialized, 0, 7, 3334813116, 0, 0, 0, 60, 1735689600, [], 0⟩
    let fee : DaoFee := ⟨maxDaoFee, feeDenominator, maxFeeFloor⟩
    ∃ after, folio.poke 1000000000000000000 12000000000 fee = .ok after ∧
      after.daoPendingFeeShares = u128Max ∧ after.feeRecipientsPendingFeeShares = u128Max ∧
      ∃ remaining, Decimal.pow ⟨d18 - folio.rateInUse fee⟩ (dayStart 12000000000 - 1735689600)
          = .ok remaining ∧
        2 * u128Max + folio.totalSupply 1000000000000000000
          < folio.totalSupply 1000000000000000000 * d18 / remaining.val := by
  decide +kernel

/-! ### The mint fee -/

variable {rawShares dao recipients fees : ℕ}

/-- The parts of the fee on a mint, and how many of the new shares are kept back for it. -/
structure MintParts (folio : Folio) (fee : DaoFee) (rawShares dao recipients fees : ℕ) : Prop where
  fees_le : fees ≤ rawShares
  /-- The shares kept back are worth the fee, and one less would not be. -/
  kept : dao + recipients ≤ fees * d9 ∧ fees * d9 < dao + recipients + d9
  mintFee_le : (rawShares * d9 * folio.mintFee + d18 - 1) / d18 ≤ dao + recipients
  dao_floor : (rawShares * d9 * fee.floor + d18 - 1) / d18 ≤ dao
  dao_ratio : ((dao + recipients) * fee.numerator + d18 - 1) / d18 ≤ dao
  sum_le : dao + recipients ≤ rawShares * d9

/-- The folio after a mint: the parts are added to the two counters. -/
def addParts (folio : Folio) (dao recipients : ℕ) : Folio :=
  { folio with
    daoPendingFeeShares := folio.daoPendingFeeShares + dao
    feeRecipientsPendingFeeShares := folio.feeRecipientsPendingFeeShares + recipients }

/-- With what the setters admit, a fee is a share of at most one, and the code rounds it up. -/
theorem feeUp_d18 {x rate : ℕ} (hx : x ≤ u64Max * d9) (hrate : rate ≤ d18) :
    feeUp ⟨x⟩ (fromScaled rate) oneE18 = .ok ⟨(x * rate + d18 - 1) / d18⟩ := by
  refine feeUp_of (by decide) ?_
  calc x * rate + d18 ≤ u64Max * d9 * d18 + d18 := by gcongr
    _ < u256Bound := by decide

/-- The larger of two fees, as the code picks it. -/
theorem larger_eq (x y : ℕ) :
    (if x < y then Decimal.mk y else Decimal.mk x) = ⟨max x y⟩ := by
  split
  · next h => rw [Nat.max_eq_right h.le]
  · next h => rw [Nat.max_eq_left (Nat.not_lt.mp h)]

/-- The DAO's part of the fee on a mint. -/
def mintDao (folio : Folio) (fee : DaoFee) (rawShares : ℕ) : ℕ :=
  max (((rawShares * d9 * folio.mintFee + d18 - 1) / d18 * fee.numerator + d18 - 1) / d18)
    ((rawShares * d9 * fee.floor + d18 - 1) / d18)

/-- The fee on a mint: what the mint fee is of the shares, or the DAO's part when that is more. -/
def mintTotal (folio : Folio) (fee : DaoFee) (rawShares : ℕ) : ℕ :=
  max ((rawShares * d9 * folio.mintFee + d18 - 1) / d18) (folio.mintDao fee rawShares)

theorem mintTotal_le (hfees : folio.FeesAdmitted fee) :
    folio.mintTotal fee rawShares ≤ rawShares * d9 := by
  have hone : 0 < d18 := by decide
  have htotal := roundUp_le (x := rawShares * d9) hone (hfees.mintFee_le.trans (by decide))
  have hratio := roundUp_le (x := (rawShares * d9 * folio.mintFee + d18 - 1) / d18) hone
    (hfees.numerator_le.trans (by decide))
  have hfloor := roundUp_le (x := rawShares * d9) hone (hfees.floor_le.trans (by decide))
  exact max_le htotal (max_le (hratio.trans htotal) hfloor)

theorem mintParts (hfees : folio.FeesAdmitted fee) :
    folio.MintParts fee rawShares (folio.mintDao fee rawShares)
      (folio.mintTotal fee rawShares - folio.mintDao fee rawShares)
      ((folio.mintTotal fee rawShares + (d9 - 1)) / d9) := by
  have hd9 : 0 < d9 := by decide
  have hle : folio.mintDao fee rawShares ≤ folio.mintTotal fee rawShares := le_max_right ..
  have hkept := le_roundUp_mul (x := folio.mintTotal fee rawShares) hd9
  have hdiv := Nat.div_mul_le_self (folio.mintTotal fee rawShares + (d9 - 1)) d9
  have hsum := Nat.add_sub_cancel' hle
  refine ⟨Lib.roundUp_le hd9 (mintTotal_le hfees), ?_, ?_, le_max_right .., ?_, ?_⟩
  · rw [hsum]
    exact ⟨hkept, by omega⟩
  · rw [hsum]
    exact le_max_left ..
  · -- the DAO gets its ratio of the mint fee, or all there is
    rw [hsum]
    rcases le_total (folio.mintDao fee rawShares)
      ((rawShares * d9 * folio.mintFee + d18 - 1) / d18) with hless | hmore
    · rw [mintTotal, max_eq_left hless]
      exact le_max_left ..
    · rw [mintTotal, max_eq_right hmore]
      exact roundUp_le (by decide) (hfees.numerator_le.trans (by decide))
  · rw [hsum]
    exact mintTotal_le hfees

/-- `calculate_fees_for_minting`, for what the setters admit: it only fails when a counter is
full. -/
theorem calculateFeesForMinting_eq (hfees : folio.FeesAdmitted fee) (hraw : rawShares ≤ u64Max) :
    folio.calculateFeesForMinting rawShares fee =
      if folio.daoPendingFeeShares + folio.mintDao fee rawShares ≤ u128Max ∧
          folio.feeRecipientsPendingFeeShares
            + (folio.mintTotal fee rawShares - folio.mintDao fee rawShares) ≤ u128Max then
        .ok (folio.addParts (folio.mintDao fee rawShares)
            (folio.mintTotal fee rawShares - folio.mintDao fee rawShares),
          (folio.mintTotal fee rawShares + (d9 - 1)) / d9)
      else .error (.code .MathOverflow) := by
  have hshares : rawShares * d9 ≤ u64Max * d9 := Nat.mul_le_mul_right d9 hraw
  have hsmall : u64Max * d9 + d9 < u256Bound := by decide
  have hcounter : u64Max * d9 ≤ u128Max := by decide
  have hone : 0 < d18 := by decide
  have hle : folio.mintTotal fee rawShares ≤ rawShares * d9 := mintTotal_le hfees
  have hdao : folio.mintDao fee rawShares ≤ folio.mintTotal fee rawShares := le_max_right ..
  have hmint : (rawShares * d9 * folio.mintFee + d18 - 1) / d18 ≤ rawShares * d9 :=
    roundUp_le hone (hfees.mintFee_le.trans (by decide))
  have hden : fromScaled fee.denominator = oneE18 := by
    rw [hfees.denominator_eq]
    rfl
  have hparts : folio.MintParts fee rawShares _ _ _ := mintParts hfees
  have hkept := hparts.fees_le
  have hamount : fromTokenAmount rawShares = .ok ⟨rawShares * d9⟩ := checked_of (by omega)
  have hrest : (Decimal.mk (folio.mintTotal fee rawShares)).sub ⟨folio.mintDao fee rawShares⟩
      = .ok ⟨folio.mintTotal fee rawShares - folio.mintDao fee rawShares⟩ := sub_of hdao
  have htokens : (Decimal.mk (folio.mintTotal fee rawShares)).toTokenAmount .Ceiling
      = .ok ((folio.mintTotal fee rawShares + (d9 - 1)) / d9) := by
    have hfits : (Decimal.mk (folio.mintTotal fee rawShares)).val + d9 < u256Bound := by
      dsimp only
      omega
    rw [toTokenAmount_of hfits, Nat.min_eq_left (hkept.trans hraw)]
  have hfloor (n : ℕ) (hn : n ≤ rawShares * d9) : (Decimal.mk n).toScaled .Floor = .ok n := by
    rw [toScaled_floor, Nat.min_eq_left (show n ≤ u128Max by omega)]
  rw [calculateFeesForMinting, hamount, ok_bind,
    feeUp_d18 hshares (hfees.mintFee_le.trans (by decide)), ok_bind, hden,
    feeUp_d18 (hmint.trans hshares) (hfees.numerator_le.trans (by decide)), ok_bind,
    feeUp_d18 hshares (hfees.floor_le.trans (by decide)), ok_bind]
  simp only [larger_eq]
  rw [← mintDao, ← mintTotal, hfloor _ (hdao.trans hle), ok_bind, hrest, htokens]
  simp only [ok_bind, hfloor _ ((Nat.sub_le ..).trans hle)]
  by_cases h₁ : folio.daoPendingFeeShares + folio.mintDao fee rawShares ≤ u128Max
  · by_cases h₂ : folio.feeRecipientsPendingFeeShares
        + (folio.mintTotal fee rawShares - folio.mintDao fee rawShares) ≤ u128Max
    · rw [if_pos ⟨h₁, h₂⟩, checkedAddU128_eq_ok.mpr ⟨h₁, rfl⟩, ok_bind,
        checkedAddU128_eq_ok.mpr ⟨h₂, rfl⟩, ok_bind]
      rfl
    · rw [if_neg (fun h => h₂ h.2), checkedAddU128_eq_ok.mpr ⟨h₁, rfl⟩, ok_bind,
        checkedAddU128, fitting_eq_error.mpr (Nat.not_le.mp h₂), error_bind]
  · rw [if_neg (fun h => h₁ h.1), checkedAddU128, fitting_eq_error.mpr (Nat.not_le.mp h₁),
      error_bind]

/-- The total supply grows by the shares of the mint, less what the fee is short of the shares
kept back for it. -/
theorem MintParts.growth (h : folio.MintParts fee rawShares dao recipients fees) (supply : ℕ) :
    folio.totalSupply supply + rawShares * d9
        < (folio.addParts dao recipients).totalSupply (supply + (rawShares - fees)) + d9 ∧
      (folio.addParts dao recipients).totalSupply (supply + (rawShares - fees))
        ≤ folio.totalSupply supply + rawShares * d9 := by
  obtain ⟨hkept, hless⟩ := h.kept
  have hmul := Nat.sub_mul rawShares fees d9
  have hle := Nat.mul_le_mul_right d9 h.fees_le
  simp only [totalSupply, addParts, Nat.add_mul]
  omega

/-- **The fee of a mint is split exactly, and covered by the shares that are kept back.** The
function fails only when a counter is full. A mint, with the fees and the supply after its poke,
grows the total supply by its shares, less a part of one raw share. -/
theorem mint_parts (hfees : folio.FeesAdmitted fee) (hraw : rawShares ≤ u64Max) :
    ∃ dao recipients fees, folio.MintParts fee rawShares dao recipients fees ∧
      (folio.calculateFeesForMinting rawShares fee =
        if folio.daoPendingFeeShares + dao ≤ u128Max ∧
            folio.feeRecipientsPendingFeeShares + recipients ≤ u128Max then
          .ok (folio.addParts dao recipients, fees)
        else .error (.code .MathOverflow)) ∧
      ∀ {T : TokenProgram} {b b' : Books T} {f user : Pubkey} {minRawShares : Option ℕ}
        {supply : Decimal}, T.CountsSupply → b.FeesAdmitted f →
        b.mintFolioToken f user rawShares minRawShares = .ok b' → b.supplyNow f = .ok supply →
        supply.val + rawShares * d9 < b'.totalSupply f + d9 ∧
          b'.totalSupply f ≤ supply.val + rawShares * d9 := by
  refine ⟨_, _, _, mintParts hfees, calculateFeesForMinting_eq hfees hraw, ?_⟩
  intro T b b' f user minRawShares supply hT hadmitted h hsupply
  obtain ⟨before, poked, after, fee', fees, hfound, hfee, hmintFee, hval, hok, -, -, htotal⟩ :=
    Books.mintFolioToken_fees hT h hsupply
  have hpoked : poked.FeesAdmitted fee' := by
    obtain ⟨h₁, h₂, h₃, h₄⟩ := hadmitted before fee' hfound hfee
    exact ⟨hmintFee ▸ h₁, h₂, h₃, h₄⟩
  rw [calculateFeesForMinting_eq hpoked hraw] at hok
  split at hok
  · cases hok
    rw [htotal, hval]
    exact (mintParts hpoked).growth _
  · cases hok

/-- A single raw share, at the largest fees. -/
theorem mint_parts_of_one_share :
    let folio : Folio := ⟨.Initialized, 0, 7, 0, maxMintFee, 0, 0, 60, 86400, [], 0⟩
    let fee : DaoFee := ⟨maxDaoFee, feeDenominator, maxFeeFloor⟩
    ∃ dao recipients fees, folio.MintParts fee 1 dao recipients fees ∧
      (folio.calculateFeesForMinting 1 fee =
        if folio.daoPendingFeeShares + dao ≤ u128Max ∧
            folio.feeRecipientsPendingFeeShares + recipients ≤ u128Max then
          .ok (folio.addParts dao recipients, fees)
        else .error (.code .MathOverflow)) ∧
      ∀ {T : TokenProgram} {b b' : Books T} {f user : Pubkey} {minRawShares : Option ℕ}
        {supply : Decimal}, T.CountsSupply → b.FeesAdmitted f →
        b.mintFolioToken f user 1 minRawShares = .ok b' → b.supplyNow f = .ok supply →
        supply.val + 1 * d9 < b'.totalSupply f + d9 ∧ b'.totalSupply f ≤ supply.val + 1 * d9 :=
  mint_parts ⟨by decide, by decide, rfl, by decide⟩ (by decide)

end Folio

end IndexDtf
