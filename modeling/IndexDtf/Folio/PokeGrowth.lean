import IndexDtf.Folio.FolioStep
import IndexDtf.Lib.Accrual

/-!
# IndexDtf.Folio.PokeGrowth

**What a poke adds.** A poke grows the total supply by what the elapsed days take off one, and splits
the growth into the shares of the DAO, rounded up, and those of the fee recipients.

* `poke_cases` — all that a successful poke does: nothing, or an `Accrued`;
* `daoGrowth_bounds`, `growth_le`, `le_growth` — the size of the growth and of its parts;
* `Accrued.stuck` — a poke that fills one of the two counters is the last one that does anything.
-/

namespace IndexDtf

open Lib Decimal

/-- The DAO's configuration, as `set_dao_fee_config` and `set_folio_fee_config` admit it. -/
structure DaoFee.Admissible (fee : DaoFee) : Prop where
  numerator_le : fee.numerator ≤ maxDaoFee
  denominator_eq : fee.denominator = feeDenominator
  floor_le : fee.floor ≤ maxFeeFloor

namespace Folio

variable {folio after : Folio} {supply elapsed t : ℕ} {fee : DaoFee}

/-! ### What a poke does -/

/-- What is left of one after some seconds. -/
def remaining (folio : Folio) (fee : DaoFee) (elapsed : ℕ) : ℕ :=
  powTrunc d18 (elapsed.log2 + 1) (d18 - folio.rateInUse fee) d18 elapsed

/-- What the total supply grows by. -/
def growth (folio : Folio) (fee : DaoFee) (supply elapsed : ℕ) : ℕ :=
  folio.totalSupply supply * d18 / folio.remaining fee elapsed - folio.totalSupply supply

/-- The DAO's part of the growth, in D18: its ratio, or what the floor is of the rate. -/
def daoPortion (folio : Folio) (fee : DaoFee) : ℕ :=
  max ((perSecond fee.floor * d18 + folio.rateInUse fee - 1) / folio.rateInUse fee) fee.numerator

/-- The DAO's part of the growth, rounded up. -/
def daoGrowth (folio : Folio) (fee : DaoFee) (supply elapsed : ℕ) : ℕ :=
  (folio.growth fee supply elapsed * folio.daoPortion fee + d18 - 1) / d18

/-- The rest of it, for the recipients. -/
def recipientsGrowth (folio : Folio) (fee : DaoFee) (supply elapsed : ℕ) : ℕ :=
  folio.growth fee supply elapsed - folio.daoGrowth fee supply elapsed

/-- A poke that has something to do. -/
structure Accrued (folio : Folio) (fee : DaoFee) (supply t : ℕ) (after : Folio) : Prop where
  later : folio.lastPoke < dayStart t
  rate_pos : 0 < folio.rateInUse fee
  rate_le : folio.rateInUse fee ≤ d18
  remaining_pos : 0 < folio.remaining fee (dayStart t - folio.lastPoke)
  grows : folio.totalSupply supply
    ≤ folio.totalSupply supply * d18 / folio.remaining fee (dayStart t - folio.lastPoke)
  after_eq : after = { folio with
    daoPendingFeeShares := folio.daoPendingFeeShares
      + min (folio.daoGrowth fee supply (dayStart t - folio.lastPoke)) u128Max
    feeRecipientsPendingFeeShares := folio.feeRecipientsPendingFeeShares
      + min (folio.recipientsGrowth fee supply (dayStart t - folio.lastPoke)) u128Max
    lastPoke := dayStart t }
  dao_fits : folio.daoPendingFeeShares
    + min (folio.daoGrowth fee supply (dayStart t - folio.lastPoke)) u128Max ≤ u128Max
  recipients_fit : folio.feeRecipientsPendingFeeShares
    + min (folio.recipientsGrowth fee supply (dayStart t - folio.lastPoke)) u128Max ≤ u128Max

theorem daoPortion_le (hfee : fee.Admissible) (hrate : 0 < folio.rateInUse fee) :
    folio.daoPortion fee ≤ d18 := by
  refine max_le ?_ (hfee.numerator_le.trans (by decide))
  rw [Nat.mul_comm]
  exact roundUp_le hrate (le_max_left ..)

/-- The two ways to compute the DAO's shares are one, at its portion. -/
theorem daoShares_spec {shares dao : Decimal} (folio : Folio) (hfee : fee.Admissible)
    (h : daoShares fee shares ⟨perSecond fee.floor⟩ ⟨folio.rateInUse fee⟩ = .ok dao) :
    0 < folio.rateInUse fee ∧
      dao.val = (shares.val * folio.daoPortion fee + d18 - 1) / d18 := by
  rw [daoShares, bind_eq_ok] at h
  obtain ⟨correction, hcorrection, h⟩ := h
  rw [bind_eq_ok] at h
  obtain ⟨ratio, hratio, h⟩ := h
  have hden : fee.denominator = d18 := hfee.denominator_eq
  obtain ⟨hrate, hcorrection⟩ := feeUp_spec hcorrection
  obtain ⟨-, hratio⟩ := feeUp_spec hratio
  have hnumerator : ratio.val = fee.numerator := by
    rw [hratio, fromScaled_val, fromScaled_val, hden, oneE18]
    rw [Nat.add_sub_assoc (by decide), Nat.mul_comm, Nat.mul_add_div (by decide)]
    rfl
  have hportion : folio.daoPortion fee = max correction.val ratio.val := by
    rw [hcorrection, hnumerator]
    rfl
  refine ⟨hrate, ?_⟩
  rw [hportion]
  split at h
  · next hgt =>
    rw [max_eq_left (Nat.le_of_lt hgt)]
    exact (feeUp_spec h).2
  · next hle =>
    rw [max_eq_right (Nat.le_of_not_lt hle), hnumerator]
    have hdao := (feeUp_spec h).2
    rw [fromScaled_val, fromScaled_val, hden] at hdao
    exact hdao

/-- **All that a successful poke does**: nothing before the next day, or the growth of the elapsed
days. -/
theorem poke_cases (hfee : fee.Admissible) (h : folio.poke supply t fee = .ok after) :
    dayStart t ≤ folio.lastPoke ∧ after = folio ∨ folio.Accrued fee supply t after := by
  simp only [poke, bind_eq_ok, getAccountFeeUntil_eq_ok] at h
  obtain ⟨_, ⟨-, rfl⟩, h⟩ := h
  split at h
  · next hday =>
    cases h
    exact .inl ⟨Nat.le_of_sub_eq_zero hday, rfl⟩
  · next hday =>
    right
    simp only [bind_eq_ok, Prod.exists, checkedAddU128_eq_ok, toScaled_floor, Except.ok.injEq] at h
    obtain ⟨recipients, dao, hpending, _, rfl, _, ⟨hdaoFits, rfl⟩, _, rfl, _, ⟨hrecFits, rfl⟩, rfl⟩ := h
    rw [getPendingFeeShares, bind_eq_ok] at hpending
    obtain ⟨total, htotal, hpending⟩ := hpending
    obtain ⟨-, rfl⟩ := getTotalSupply_eq_ok.mp htotal
    rw [feeFloorPerSecond_of hfee.floor_le, ok_bind] at hpending
    simp only [rateInUse_eq, bind_eq_ok, sub_eq_ok, Except.ok.injEq, Prod.mk.injEq] at hpending
    obtain ⟨_, ⟨hrateLe, rfl⟩, denominator, hdenominator, shares, hshares, _, hdao, _, ⟨hdaoLe, rfl⟩,
      rfl, rfl⟩ := hpending
    have hpow := pow_of_le_one (x := ⟨d18 - folio.rateInUse fee⟩) (Nat.sub_le ..)
      (dayStart t - folio.lastPoke)
    obtain rfl := Except.ok.inj (hpow.symm.trans hdenominator)
    simp only [feeShares, bind_eq_ok, mul_eq_ok, div_eq_ok, sub_eq_ok] at hshares
    obtain ⟨_, ⟨-, rfl⟩, _, ⟨hpos, rfl⟩, hgrows, rfl⟩ := hshares
    obtain ⟨hratePos, hdaoVal⟩ := daoShares_spec folio hfee hdao
    change _ = folio.daoGrowth fee supply (dayStart t - folio.lastPoke) at hdaoVal
    dsimp only at hdaoFits hrecFits ⊢
    rw [hdaoVal] at hdaoFits hrecFits ⊢
    exact ⟨Nat.lt_of_sub_ne_zero hday, hratePos, hrateLe, hpos, hgrows, rfl, hdaoFits, hrecFits⟩

/-! ### The growth and its two parts -/

/-- What is left of one after a second, exactly. -/
def decay (folio : Folio) (fee : DaoFee) : ℚ := ((d18 - folio.rateInUse fee : ℕ) : ℚ) / d18

theorem decay_le_one : folio.decay fee ≤ 1 := by
  rw [decay, div_le_one ratCast_d18_pos]
  exact_mod_cast Nat.sub_le ..

theorem decay_pos (hrate : folio.rateInUse fee ≤ 3400000000) : 0 < folio.decay fee := by
  have hlt : folio.rateInUse fee < d18 := lt_of_le_of_lt hrate (by decide)
  refine div_pos ?_ ratCast_d18_pos
  exact_mod_cast Nat.sub_pos_of_lt hlt

theorem remaining_spec (hpos : 0 < folio.remaining fee elapsed) :
    Remaining d18 (folio.decay fee) elapsed (folio.remaining fee elapsed) where
  pos := hpos
  le := powTrunc_upper Nat.lt_log2_self
  ge := powTrunc_lower (by decide) (Nat.sub_le ..)

/-- The part of the growth for the DAO is its portion, rounded up. -/
theorem daoGrowth_spec (folio : Folio) (fee : DaoFee) (supply elapsed : ℕ) :
    folio.growth fee supply elapsed * folio.daoPortion fee
        ≤ folio.daoGrowth fee supply elapsed * d18
      ∧ folio.daoGrowth fee supply elapsed * d18
        < folio.growth fee supply elapsed * folio.daoPortion fee + d18 := by
  have hdiv := Nat.div_add_mod (folio.growth fee supply elapsed * folio.daoPortion fee + d18 - 1) d18
  have hmod := Nat.mod_lt (folio.growth fee supply elapsed * folio.daoPortion fee + d18 - 1)
    (show 0 < d18 by decide)
  have hone : 0 < d18 := by decide
  rw [← daoGrowth, Nat.mul_comm] at hdiv
  omega

theorem daoGrowth_bounds (folio : Folio) (fee : DaoFee) (supply elapsed : ℕ) :
    (folio.daoPortion fee / d18 : ℚ) * folio.growth fee supply elapsed
        ≤ folio.daoGrowth fee supply elapsed
      ∧ (folio.daoGrowth fee supply elapsed : ℚ)
        ≤ (folio.daoPortion fee / d18 : ℚ) * folio.growth fee supply elapsed + 1 := by
  have hd18 := ratCast_d18_pos
  obtain ⟨hge, hlt⟩ := daoGrowth_spec folio fee supply elapsed
  rw [div_mul_eq_mul_div, div_le_iff₀ hd18, div_add_one hd18.ne', le_div_iff₀ hd18, mul_comm]
  constructor
  · exact_mod_cast hge
  · exact_mod_cast hlt.le

theorem daoPortion_div_le_one (hportion : folio.daoPortion fee ≤ d18) :
    (folio.daoPortion fee / d18 : ℚ) ≤ 1 := by
  rw [div_le_one ratCast_d18_pos]
  exact_mod_cast hportion

/-- The two parts make up the growth. -/
theorem daoGrowth_add_recipientsGrowth (supply elapsed : ℕ)
    (hportion : folio.daoPortion fee ≤ d18) :
    folio.daoGrowth fee supply elapsed + folio.recipientsGrowth fee supply elapsed
      = folio.growth fee supply elapsed :=
  Nat.add_sub_cancel' (roundUp_le (by decide) hportion)

theorem recipientsGrowth_bounds (supply elapsed : ℕ) (hportion : folio.daoPortion fee ≤ d18) :
    (1 - folio.daoPortion fee / d18 : ℚ) * folio.growth fee supply elapsed - 1
        ≤ folio.recipientsGrowth fee supply elapsed
      ∧ (folio.recipientsGrowth fee supply elapsed : ℚ)
        ≤ (1 - folio.daoPortion fee / d18 : ℚ) * folio.growth fee supply elapsed := by
  obtain ⟨hge, hle⟩ := daoGrowth_bounds folio fee supply elapsed
  have hparts : (folio.daoGrowth fee supply elapsed + folio.recipientsGrowth fee supply elapsed : ℚ)
      = folio.growth fee supply elapsed := by
    exact_mod_cast daoGrowth_add_recipientsGrowth supply elapsed hportion
  constructor
  · linarith
  · linarith

theorem lt_daoGrowth_iff {x : ℕ} : x < folio.daoGrowth fee supply elapsed ↔
    x * d18 < folio.growth fee supply elapsed * folio.daoPortion fee := by
  obtain ⟨hge, hlt⟩ := daoGrowth_spec folio fee supply elapsed
  constructor
  · intro hx
    have hmul := Nat.mul_le_mul_right d18 (Nat.succ_le_of_lt hx)
    rw [Nat.succ_mul] at hmul
    omega
  · intro hx
    exact Nat.lt_of_mul_lt_mul_right (hx.trans_le hge)

/-- What is left for the recipients is their portion, rounded down. -/
theorem lt_recipientsGrowth_iff {x : ℕ} (hportion : folio.daoPortion fee ≤ d18) :
    x < folio.recipientsGrowth fee supply elapsed ↔
      (x + 1) * d18 ≤ folio.growth fee supply elapsed * (d18 - folio.daoPortion fee) := by
  obtain ⟨hge, hlt⟩ := daoGrowth_spec folio fee supply elapsed
  have hportions := Nat.mul_le_mul_left (folio.growth fee supply elapsed) hportion
  have hparts := congrArg (· * d18) (daoGrowth_add_recipientsGrowth supply elapsed hportion)
  simp only [Nat.add_mul] at hparts
  rw [Nat.mul_sub, Nat.add_one_mul]
  constructor
  · intro hx
    have hmul := Nat.mul_le_mul_right d18 (Nat.succ_le_of_lt hx)
    rw [Nat.succ_mul] at hmul
    omega
  · intro hx
    have hmul : x * d18 < folio.recipientsGrowth fee supply elapsed * d18 := by omega
    exact Nat.lt_of_mul_lt_mul_right hmul

theorem growth_le (supply : ℕ) (hfifth : d18 / 5 ≤ folio.remaining fee elapsed) :
    folio.growth fee supply elapsed ≤ 4 * folio.totalSupply supply := by
  have hd18 : d18 / 5 * 5 = d18 := by decide
  have hfive : folio.totalSupply supply * d18 / folio.remaining fee elapsed
      ≤ folio.totalSupply supply * 5 := by
    apply Nat.div_le_of_le_mul
    calc folio.totalSupply supply * d18 = folio.totalSupply supply * (d18 / 5 * 5) := by rw [hd18]
      _ = (d18 / 5) * (folio.totalSupply supply * 5) := by ring
      _ ≤ folio.remaining fee elapsed * (folio.totalSupply supply * 5) :=
          Nat.mul_le_mul_right _ hfifth
  rw [growth]
  omega

/-- A second at a rate of one unit is enough for the supply to grow by its D18 part. -/
theorem le_growth (supply : ℕ) (hpos : 0 < folio.remaining fee elapsed)
    (hrate : 0 < folio.rateInUse fee) (helapsed : 0 < elapsed) :
    folio.totalSupply supply / d18 ≤ folio.growth fee supply elapsed := by
  have hone : 0 < d18 := by decide
  have hlt : folio.remaining fee elapsed ≤ d18 - 1 :=
    (powTrunc_le_base (Nat.sub_le ..) le_rfl helapsed Nat.lt_log2_self).trans (by omega)
  have hparts := Nat.div_mul_le_self (folio.totalSupply supply) d18
  rw [growth]
  generalize folio.totalSupply supply / d18 = part at *
  apply Nat.le_sub_of_add_le
  rw [Nat.le_div_iff_mul_le hpos]
  calc (part + folio.totalSupply supply) * folio.remaining fee elapsed
      ≤ (part + folio.totalSupply supply) * (d18 - 1) := Nat.mul_le_mul_left _ hlt
    _ ≤ folio.totalSupply supply * d18 := by
        rw [Nat.mul_sub_one, Nat.add_mul]
        omega

/-! ### A full counter -/

/-- No later poke does anything. -/
def Stuck (folio : Folio) (fee : DaoFee) (supply : ℕ) : Prop :=
  ∀ t after, folio.poke supply t fee = .ok after → after = folio

namespace Accrued

variable {t' q : ℕ} {after' : Folio}

theorem lastPoke_eq (h : folio.Accrued fee supply t after) : after.lastPoke = dayStart t := by
  rw [h.after_eq]

theorem dao_eq (h : folio.Accrued fee supply t after) :
    after.daoPendingFeeShares = folio.daoPendingFeeShares
      + min (folio.daoGrowth fee supply (dayStart t - folio.lastPoke)) u128Max := by
  rw [h.after_eq]

theorem recipients_eq (h : folio.Accrued fee supply t after) :
    after.feeRecipientsPendingFeeShares = folio.feeRecipientsPendingFeeShares
      + min (folio.recipientsGrowth fee supply (dayStart t - folio.lastPoke)) u128Max := by
  rw [h.after_eq]

theorem totalSupply_eq (h : folio.Accrued fee supply t after) :
    after.totalSupply supply = folio.totalSupply supply
      + min (folio.daoGrowth fee supply (dayStart t - folio.lastPoke)) u128Max
      + min (folio.recipientsGrowth fee supply (dayStart t - folio.lastPoke)) u128Max := by
  rw [h.after_eq, totalSupply, totalSupply]
  ring

theorem totalSupply_le (h : folio.Accrued fee supply t after) :
    folio.totalSupply supply ≤ after.totalSupply supply := by
  rw [h.totalSupply_eq]
  omega

theorem totalSupply_le_add (h : folio.Accrued fee supply t after)
    (hportion : folio.daoPortion fee ≤ d18) :
    after.totalSupply supply
      ≤ folio.totalSupply supply + folio.growth fee supply (dayStart t - folio.lastPoke) := by
  rw [h.totalSupply_eq, ← daoGrowth_add_recipientsGrowth supply _ hportion]
  omega

/-- Unless a counter gets full, the supply gets all of the growth. -/
theorem add_le_totalSupply (h : folio.Accrued fee supply t after)
    (hportion : folio.daoPortion fee ≤ d18)
    (hdao : folio.daoGrowth fee supply (dayStart t - folio.lastPoke) ≤ u128Max)
    (hrecipients : folio.recipientsGrowth fee supply (dayStart t - folio.lastPoke) ≤ u128Max) :
    folio.totalSupply supply + folio.growth fee supply (dayStart t - folio.lastPoke)
      ≤ after.totalSupply supply := by
  rw [h.totalSupply_eq, Nat.min_eq_left hdao, Nat.min_eq_left hrecipients,
    ← daoGrowth_add_recipientsGrowth supply _ hportion, ← Nat.add_assoc]

theorem rateInUse_eq (h : folio.Accrued fee supply t after) :
    after.rateInUse fee = folio.rateInUse fee := by
  rw [h.after_eq, rateInUse, rateInUse]

theorem daoPortion_eq (h : folio.Accrued fee supply t after) :
    after.daoPortion fee = folio.daoPortion fee := by
  rw [daoPortion, daoPortion, h.rateInUse_eq]

/-- A part of the growth that fills a counter is at least one the next time: the supply has not
become less. -/
theorem next_growth (h : folio.Accrued fee supply t after)
    (h' : after.Accrued fee supply t' after') (hrate : folio.rateInUse fee ≤ 3400000000)
    (helapsed : dayStart t - folio.lastPoke ≤ yearInSeconds * 10) (hq : q ≤ d18)
    (hfull : u128Max * d18 ≤ folio.growth fee supply (dayStart t - folio.lastPoke) * q) :
    d18 ≤ after.growth fee supply (dayStart t' - after.lastPoke) * q := by
  have hone : 0 < d18 := by decide
  have hfour := growth_le supply (decay_ten_years hrate helapsed)
  have hnext := le_growth supply h'.remaining_pos h'.rate_pos
    (Nat.sub_pos_of_lt h'.later)
  have hparts : folio.totalSupply supply / d18 ≤ after.totalSupply supply / d18 :=
    Nat.div_le_div_right h.totalSupply_le
  have hlt := Nat.lt_mul_div_succ (folio.totalSupply supply) hone
  generalize folio.totalSupply supply / d18 = part at *
  have hmax : u128Max ≤ 4 * (part * q) + 4 * d18 := by
    refine Nat.le_of_mul_le_mul_right ?_ hone
    calc u128Max * d18 ≤ folio.growth fee supply (dayStart t - folio.lastPoke) * q := hfull
      _ ≤ 4 * (d18 * (part + 1)) * q := Nat.mul_le_mul_right q (by omega)
      _ = (4 * (part * q) + 4 * q) * d18 := by ring
      _ ≤ (4 * (part * q) + 4 * d18) * d18 := Nat.mul_le_mul_right d18 (by omega)
  have hbig : 8 * d18 ≤ u128Max := by decide
  calc d18 ≤ part * q := by omega
    _ ≤ after.growth fee supply (dayStart t' - after.lastPoke) * q :=
      Nat.mul_le_mul_right q (hparts.trans hnext)

/-- A counter that is full has no room for more. -/
theorem no_room {x share share' cap : ℕ} (hfull : cap < share) (hnext : 0 < share')
    (hcap : 0 < cap) : cap < x + min share cap + min share' cap := by
  omega

/-- After a poke that fills a counter no poke does anything. -/
theorem stuck (h : folio.Accrued fee supply t after) (hfee : fee.Admissible)
    (hrate : folio.rateInUse fee ≤ 3400000000)
    (helapsed : dayStart t - folio.lastPoke ≤ yearInSeconds * 10)
    (hfull : u128Max < folio.daoGrowth fee supply (dayStart t - folio.lastPoke) ∨
      u128Max < folio.recipientsGrowth fee supply (dayStart t - folio.lastPoke)) :
    after.Stuck fee supply := by
  intro t' after' hpoke
  rcases poke_cases hfee hpoke with ⟨-, rfl⟩ | h'
  · rfl
  have hmax : 0 < u128Max := by decide
  have hone : 0 < d18 := by decide
  have hportion := daoPortion_le hfee h.rate_pos
  have hportion' := daoPortion_le hfee h'.rate_pos
  -- the counter has no room, and its part of the next growth is not zero
  rcases hfull with hfull | hfull
  · have hnext : 0 < after.daoGrowth fee supply (dayStart t' - after.lastPoke) := by
      rw [lt_daoGrowth_iff, h.daoPortion_eq, Nat.zero_mul]
      exact hone.trans_le (h.next_growth h' hrate helapsed hportion (lt_daoGrowth_iff.mp hfull).le)
    have hfits := h'.dao_fits
    rw [h.dao_eq] at hfits
    exact absurd hfits (Nat.not_le.mpr (no_room hfull hnext hmax))
  · have hnext : 0 < after.recipientsGrowth fee supply (dayStart t' - after.lastPoke) := by
      rw [lt_recipientsGrowth_iff hportion', h.daoPortion_eq, Nat.zero_add, Nat.one_mul]
      refine h.next_growth h' hrate helapsed (Nat.sub_le ..) ?_
      exact (Nat.mul_le_mul_right d18 (Nat.le_succ _)).trans
        ((lt_recipientsGrowth_iff hportion).mp hfull)
    have hfits := h'.recipients_fit
    rw [h.recipients_eq] at hfits
    exact absurd hfits (Nat.not_le.mpr (no_room hfull hnext hmax))

end Accrued

end Folio

end IndexDtf
