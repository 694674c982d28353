import IndexDtf.Folio.Account
import IndexDtf.Shared.DecimalPow

/-!
# IndexDtf.Folio.PokeTotal

**When `poke` succeeds.** `poke` gates every instruction that touches shares, so
a failure of its arithmetic would freeze the folio. For the parameters the
setters admit, and up to ten years after the last poke, each of its divisions,
subtractions and additions is safe for one reason:

* the power it divides by keeps a fifth of one (`decay_ten_years`);
* a share of a fee, rounded up at a rate of at most one, is at most the fee
  (`roundUp_le`), so what is left for the recipients is not negative;
* pending shares stay far below 128 bits.

The one step that is not safe is the correction, which divides by the rate in
use: `poke_ok_iff` says exactly when that rate is zero.
-/

namespace IndexDtf

open Lib Decimal

/-- The start of the day of `t`, which `get_account_fee_until` computes. -/
def dayStart (t : ℕ) : ℕ := t / dayInSeconds * dayInSeconds

theorem dayStart_le (t : ℕ) : dayStart t ≤ t := Nat.div_mul_le_self ..

namespace Folio

/-! ### Fees rounded up -/

/-- A share at a rate of at most one, rounded up, is at most the whole. -/
theorem roundUp_le {x r d : ℕ} (hd : 0 < d) (hr : r ≤ d) : (x * r + d - 1) / d ≤ x := by
  calc (x * r + d - 1) / d ≤ (x * d + d - 1) / d := by gcongr
    _ = x := by
        rw [Nat.add_sub_assoc hd, Nat.mul_comm, Nat.mul_add_div hd,
          Nat.div_eq_of_lt (Nat.sub_lt hd Nat.one_pos), Nat.add_zero]

theorem feeUp_of {x r d : Decimal} (hd : 0 < d.val) (h : x.val * r.val + d.val < u256Bound) :
    feeUp x r d = .ok ⟨(x.val * r.val + d.val - 1) / d.val⟩ := by
  rw [feeUp, mul_of (by omega), ok_bind, add_of (by exact h), ok_bind,
    sub_of (by simp only [one]; omega), ok_bind, div_of hd]
  rfl

theorem feeUp_spec {x r d y : Decimal} (h : feeUp x r d = .ok y) :
    0 < d.val ∧ y.val = (x.val * r.val + d.val - 1) / d.val := by
  simp only [feeUp, bind_eq_ok, mul_eq_ok, add_eq_ok, sub_eq_ok, div_eq_ok] at h
  obtain ⟨_, ⟨-, rfl⟩, _, ⟨-, rfl⟩, _, ⟨-, rfl⟩, hpos, rfl⟩ := h
  exact ⟨hpos, rfl⟩

/-- Without a denominator there is no fee: the division fails if nothing else does. -/
theorem feeUp_zero (x r y : Decimal) : feeUp x r ⟨0⟩ ≠ .ok y := fun h =>
  absurd (feeUp_spec h).1 (lt_irrefl 0)

/-! ### The rate in use -/

/-- A successful `set_tvl_fee` stores the yearly fee as a rate per second, and
refuses the fees that would vanish. -/
theorem setTvlFee_spec {folio folio' : Folio} {a : ℕ} (h : folio.setTvlFee a = .ok folio') :
    a ≤ maxTvlFee ∧ folio' = { folio with tvlFee := perSecond a } ∧
      (a ≠ 0 → 0 < perSecond a) := by
  simp only [setTvlFee, bind_eq_ok, checkCondition_eq_ok] at h
  obtain ⟨-, ha, h⟩ := h
  split at h
  · next h0 =>
      subst h0
      cases h
      exact ⟨ha, rfl, by simp⟩
  · next h0 =>
      have hle : perSecond a ≤ d18 := (perSecond_le ha).trans (by decide)
      have had : a ≤ d18 := ha.trans (by decide)
      have hsub : oneE18.sub (fromScaled a) = .ok ⟨d18 - a⟩ := sub_of had
      have hrate : oneE18.sub ⟨d18 - perSecond a⟩ = .ok ⟨perSecond a⟩ := by
        rw [sub_eq_ok]
        exact ⟨Nat.sub_le .., congrArg _ (Nat.sub_sub_self hle)⟩
      rw [hsub, ok_bind, nthRoot_year ha, ok_bind, hrate, ok_bind] at h
      simp only [bind_eq_ok, checkCondition_eq_ok, toScaled_floor, Except.ok.injEq] at h
      obtain ⟨-, hne, -, rfl, rfl⟩ := h
      have hmin : min (perSecond a) u128Max = perSecond a :=
        Nat.min_eq_left ((perSecond_le ha).trans (by decide))
      refine ⟨ha, by rw [hmin], fun _ => Nat.pos_of_ne_zero fun h => ?_⟩
      rcases hne with h' | h'
      · exact h0 h'
      · exact h' (by rw [h]; rfl)

/-- It stores a rate of at most about 3.34e-9. -/
theorem tvlFee_le_of_set {folio folio' : Folio} {a : ℕ} (h : folio.setTvlFee a = .ok folio') :
    folio'.tvlFee ≤ 3400000000 := by
  obtain ⟨ha, rfl, -⟩ := setTvlFee_spec h
  exact perSecond_le ha

/-- The rate `poke` charges: the stored fee, or the floor when that is higher. -/
def rateInUse (folio : Folio) (fee : DaoFee) : ℕ := max (perSecond fee.floor) folio.tvlFee

/-- The rate in use, as the code picks it. -/
theorem rateInUse_eq (folio : Folio) (fee : DaoFee) :
    (if perSecond fee.floor > (fromScaled folio.tvlFee).val
      then (⟨perSecond fee.floor⟩ : Decimal) else fromScaled folio.tvlFee)
      = ⟨folio.rateInUse fee⟩ := by
  rcases Nat.lt_or_ge (fromScaled folio.tvlFee).val (perSecond fee.floor) with h | h
  · rw [if_pos h, rateInUse, Nat.max_eq_left (show folio.tvlFee ≤ _ from h.le)]
  · rw [if_neg (Nat.not_lt.mpr h), rateInUse, Nat.max_eq_right (show _ ≤ folio.tvlFee from h)]
    rfl

/-! ### The supply -/

/-- What `get_total_supply` computes, as a number. -/
def totalSupply (folio : Folio) (rawFolioTokenSupply : ℕ) : ℕ :=
  rawFolioTokenSupply * d9 + folio.daoPendingFeeShares + folio.feeRecipientsPendingFeeShares
    + folio.feeRecipientsPendingFeeSharesToBeMinted

theorem getTotalSupply_eq_ok {folio : Folio} {supply : ℕ} {x : Decimal} :
    folio.getTotalSupply supply = .ok x ↔
      folio.totalSupply supply < u256Bound ∧ ⟨folio.totalSupply supply⟩ = x := by
  simp only [getTotalSupply, bind_eq_ok, fromTokenAmount_eq_ok, add_eq_ok, fromScaled_val,
    totalSupply]
  constructor
  · rintro ⟨_, ⟨-, rfl⟩, _, ⟨-, rfl⟩, _, ⟨-, rfl⟩, h, rfl⟩
    exact ⟨h, rfl⟩
  · rintro ⟨h, rfl⟩
    exact ⟨_, ⟨by omega, rfl⟩, _, ⟨by dsimp only; omega, rfl⟩, _, ⟨by dsimp only; omega, rfl⟩,
      h, rfl⟩

/-! ### Fee shares -/

/-- The floor as a rate per second. -/
theorem feeFloorPerSecond_of {floor : ℕ} (h : floor ≤ maxFeeFloor) :
    feeFloorPerSecond floor = .ok ⟨perSecond floor⟩ := by
  have htvl : floor ≤ maxTvlFee := h.trans (by decide)
  have hle : perSecond floor ≤ d18 := (perSecond_le htvl).trans (by decide)
  have hsub : oneE18.sub (fromScaled floor) = .ok ⟨d18 - floor⟩ := sub_of (htvl.trans (by decide))
  rw [feeFloorPerSecond, hsub, ok_bind, nthRoot_year htvl, ok_bind, sub_eq_ok]
  exact ⟨Nat.sub_le .., congrArg _ (Nat.sub_sub_self hle)⟩

/-- The fee accrued on `supply` when `remaining` of one is left of it. -/
theorem feeShares_of {supply remaining : ℕ} (hpos : d18 / 5 ≤ remaining) (hle : remaining ≤ d18)
    (hsupply : supply < 2 ^ 104) :
    ∃ shares, feeShares ⟨supply⟩ ⟨remaining⟩ = .ok ⟨shares⟩ ∧ shares < 2 ^ 107 := by
  have hfifth : d18 / 5 = 200000000000000000 := by decide
  have hd18 : d18 = 1000000000000000000 := rfl
  have hmul : supply * oneE18.val < u256Bound := by
    simp only [oneE18, hd18, u256Bound]
    omega
  have hgrow : supply ≤ supply * d18 / remaining := by
    rw [Nat.le_div_iff_mul_le (by omega)]
    exact Nat.mul_le_mul_left supply hle
  have hfive : supply * d18 / remaining ≤ supply * 5 := by
    apply Nat.div_le_of_le_mul
    calc supply * d18 = (d18 / 5) * (supply * 5) := by rw [hfifth, hd18]; ring
      _ ≤ remaining * (supply * 5) := Nat.mul_le_mul_right _ hpos
  refine ⟨supply * d18 / remaining - supply, ?_, by omega⟩
  rw [feeShares, mul_of hmul, ok_bind, div_of (show 0 < remaining by omega), ok_bind, sub_eq_ok]
  exact ⟨hgrow, rfl⟩

/-- The DAO's part of the fee never exceeds the fee. -/
theorem daoShares_of {shares rate floorRate : ℕ} {fee : DaoFee} (hfee : shares < 2 ^ 107)
    (hpos : 0 < rate) (hfloor : floorRate ≤ rate) (hrate : rate ≤ d18)
    (hnum : fee.numerator ≤ maxDaoFee) (hden : fee.denominator = feeDenominator) :
    ∃ dao, daoShares fee ⟨shares⟩ ⟨floorRate⟩ ⟨rate⟩ = .ok ⟨dao⟩ ∧ dao ≤ shares := by
  have hd18 : d18 = 1000000000000000000 := rfl
  have hnum' : fee.numerator ≤ d18 := hnum.trans (by decide)
  have hden' : fee.denominator = d18 := hden
  have hcorrection : (floorRate * d18 + rate - 1) / rate ≤ d18 := by
    rw [Nat.mul_comm]
    exact roundUp_le hpos hfloor
  have hbound : ∀ x r : ℕ, x < 2 ^ 107 → r ≤ d18 → x * r + d18 < u256Bound := by
    intro x r hx hr
    have := Nat.mul_le_mul hx.le hr
    simp only [hd18, u256Bound] at *
    omega
  have hC : feeUp ⟨floorRate⟩ oneE18 ⟨rate⟩ = .ok ⟨(floorRate * d18 + rate - 1) / rate⟩ :=
    feeUp_of hpos (lt_of_le_of_lt (Nat.add_le_add_left hrate _)
      (hbound floorRate d18 (by omega) le_rfl))
  have hR : feeUp (fromScaled fee.numerator) oneE18 (fromScaled fee.denominator)
      = .ok ⟨(fee.numerator * d18 + d18 - 1) / d18⟩ := by
    rw [hden']
    exact feeUp_of (d := fromScaled d18) (by decide) (hbound fee.numerator d18 (by omega) le_rfl)
  rw [daoShares, hC, ok_bind, hR, ok_bind, hden']
  split
  · exact ⟨_, feeUp_of (d := oneE18) (by decide) (hbound _ _ hfee hcorrection),
      roundUp_le (by decide) hcorrection⟩
  · exact ⟨_, feeUp_of (d := fromScaled d18) (by decide) (hbound _ _ hfee hnum'),
      roundUp_le (by decide) hnum'⟩

/-! ### Totality -/

/-- What the fee functions may rely on: parameters the setters admit, and
shares and an elapsed time of realistic size. -/
structure PokeInput (folio : Folio) (supply elapsed : ℕ) (fee : DaoFee) : Prop where
  tvlFee_le : folio.tvlFee ≤ 3400000000
  numerator_le : fee.numerator ≤ maxDaoFee
  denominator_eq : fee.denominator = feeDenominator
  floor_le : fee.floor ≤ maxFeeFloor
  supply_lt : supply ≤ u64Max
  dao_lt : folio.daoPendingFeeShares < 2 ^ 100
  recipients_lt : folio.feeRecipientsPendingFeeShares < 2 ^ 100
  toBeMinted_lt : folio.feeRecipientsPendingFeeSharesToBeMinted < 2 ^ 100
  elapsed_le : elapsed ≤ yearInSeconds * 10

variable {folio : Folio} {supply elapsed accountUntil t : ℕ} {fee : DaoFee}

theorem PokeInput.totalSupply_lt (h : PokeInput folio supply elapsed fee) :
    folio.totalSupply supply < 2 ^ 104 := by
  have h₁ := h.supply_lt
  have h₂ := h.dao_lt
  have h₃ := h.recipients_lt
  have h₄ := h.toBeMinted_lt
  simp only [totalSupply, d9, u64Max] at *
  omega

theorem PokeInput.rateInUse_le (h : PokeInput folio supply elapsed fee) :
    folio.rateInUse fee ≤ 3400000000 :=
  max_le (perSecond_le (h.floor_le.trans (by decide))) h.tvlFee_le

/-- With a rate to charge, the fee of the elapsed time is computed. -/
theorem getPendingFeeShares_total
    (h : PokeInput folio supply (accountUntil - folio.lastPoke) fee)
    (hrate : 0 < folio.rateInUse fee) :
    ∃ recipients dao, folio.getPendingFeeShares supply accountUntil fee
        = .ok (⟨recipients⟩, ⟨dao⟩) ∧ recipients < 2 ^ 107 ∧ dao < 2 ^ 107 := by
  have hle := h.rateInUse_le
  have hd18 : folio.rateInUse fee ≤ d18 := hle.trans (by decide)
  have hsupply : folio.getTotalSupply supply = .ok ⟨folio.totalSupply supply⟩ :=
    getTotalSupply_eq_ok.mpr ⟨h.totalSupply_lt.trans (by decide), rfl⟩
  have hone : oneE18.sub ⟨folio.rateInUse fee⟩ = .ok ⟨d18 - folio.rateInUse fee⟩ := sub_of hd18
  have hpow := pow_of_le_one (x := ⟨d18 - folio.rateInUse fee⟩) (Nat.sub_le ..)
    (accountUntil - folio.lastPoke)
  obtain ⟨shares, hshares, hlt⟩ := feeShares_of (decay_ten_years hle h.elapsed_le)
    (powTrunc_le (Nat.sub_le ..)) h.totalSupply_lt
  obtain ⟨dao, hdao, hdao_le⟩ := daoShares_of hlt hrate (le_max_left ..) hd18 h.numerator_le
    h.denominator_eq
  refine ⟨shares - dao, dao, ?_, by omega, by omega⟩
  rw [getPendingFeeShares, hsupply, ok_bind, feeFloorPerSecond_of h.floor_le, ok_bind]
  simp only [rateInUse_eq]
  rw [hone, ok_bind, hpow, ok_bind, hshares, ok_bind, hdao, ok_bind, sub_of hdao_le]
  rfl

/-- Without a rate to charge, the correction divides by zero. -/
theorem getPendingFeeShares_zero_rate (hfloor : fee.floor ≤ maxFeeFloor)
    (hrate : folio.rateInUse fee = 0) (shares : Decimal × Decimal) :
    folio.getPendingFeeShares supply accountUntil fee ≠ .ok shares := by
  intro h
  rw [getPendingFeeShares, feeFloorPerSecond_of hfloor] at h
  simp only [ok_bind, rateInUse_eq, hrate, bind_eq_ok] at h
  obtain ⟨_, -, _, -, _, -, _, -, _, hdao, -⟩ := h
  rw [daoShares, bind_eq_ok] at hdao
  obtain ⟨_, hcorrection, -⟩ := hdao
  exact feeUp_zero _ _ _ hcorrection

theorem getAccountFeeUntil_eq_ok {until_ : ℕ} :
    getAccountFeeUntil t = .ok until_ ↔ dayStart t ≤ u64Max ∧ dayStart t = until_ :=
  checkedMulU64_eq_ok

/-- Before the first full day, `poke` has nothing to do. -/
theorem poke_same_day (ht : t ≤ u64Max) (h : dayStart t ≤ folio.lastPoke) :
    folio.poke supply t fee = .ok folio := by
  rw [poke, getAccountFeeUntil_eq_ok.mpr ⟨(dayStart_le t).trans ht, rfl⟩, ok_bind,
    if_pos (Nat.sub_eq_zero_of_le h)]

/-- After a full day, `poke` needs a rate to charge. -/
theorem poke_later_day (ht : t ≤ u64Max) (hday : folio.lastPoke < dayStart t)
    (h : PokeInput folio supply (dayStart t - folio.lastPoke) fee) :
    (∃ poked, folio.poke supply t fee = .ok poked) ↔ 0 < folio.rateInUse fee := by
  rw [poke, getAccountFeeUntil_eq_ok.mpr ⟨(dayStart_le t).trans ht, rfl⟩, ok_bind,
    if_neg (by omega)]
  constructor
  · rintro ⟨poked, hpoked⟩
    refine Nat.pos_of_ne_zero fun hrate => ?_
    rw [bind_eq_ok] at hpoked
    obtain ⟨shares, hshares, -⟩ := hpoked
    exact getPendingFeeShares_zero_rate h.floor_le hrate shares hshares
  · intro hrate
    obtain ⟨recipients, dao, hshares, hrec, hdao⟩ := getPendingFeeShares_total h hrate
    have h₁ := h.dao_lt
    have h₂ := h.recipients_lt
    have hdaoAdd : checkedAddU128 folio.daoPendingFeeShares (min dao u128Max)
        = .ok (folio.daoPendingFeeShares + min dao u128Max) := by
      rw [checkedAddU128_eq_ok]
      exact ⟨by simp only [u128Max]; omega, rfl⟩
    have hrecAdd : checkedAddU128 folio.feeRecipientsPendingFeeShares (min recipients u128Max)
        = .ok (folio.feeRecipientsPendingFeeShares + min recipients u128Max) := by
      rw [checkedAddU128_eq_ok]
      exact ⟨by simp only [u128Max]; omega, rfl⟩
    simp only [hshares, ok_bind, toScaled_floor, hdaoAdd, hrecAdd]
    exact ⟨_, rfl⟩

/-! ### The condition -/

/-- There is a rate to charge when the stored fee or the floor survived its
conversion to a rate per second. -/
theorem rateInUse_pos_iff {before stored : Folio} {a : ℕ} (hset : before.setTvlFee a = .ok stored)
    (htvl : folio.tvlFee = stored.tvlFee) :
    0 < folio.rateInUse fee ↔ a ≠ 0 ∨ yearInSeconds ≤ fee.floor := by
  obtain ⟨-, rfl, hpos⟩ := setTvlFee_spec hset
  have hfloor : perSecond fee.floor = 0 ↔ fee.floor < yearInSeconds := perSecond_eq_zero_iff
  have hzero : perSecond 0 = 0 := by decide
  rw [rateInUse, htvl, lt_max_iff]
  constructor
  · rintro (h | h)
    · exact .inr (by omega)
    · exact .inl fun ha => by rw [ha, hzero] at h; exact absurd h (lt_irrefl 0)
  · rintro (h | h)
    · exact .inr (hpos h)
    · exact .inl (by omega)

/-- **Availability of `poke`.** For the parameters the setters admit, `poke`
succeeds exactly when there is a rate to charge or no full day to charge it for. -/
theorem poke_ok_iff {before stored : Folio} {a : ℕ} (hset : before.setTvlFee a = .ok stored)
    (htvl : folio.tvlFee = stored.tvlFee) (hnum : fee.numerator ≤ maxDaoFee)
    (hden : fee.denominator = feeDenominator) (hfloor : fee.floor ≤ maxFeeFloor)
    (hsupply : supply ≤ u64Max) (hdao : folio.daoPendingFeeShares < 2 ^ 100)
    (hrec : folio.feeRecipientsPendingFeeShares < 2 ^ 100)
    (hmint : folio.feeRecipientsPendingFeeSharesToBeMinted < 2 ^ 100) (ht : t ≤ u64Max)
    (hyears : t ≤ folio.lastPoke + yearInSeconds * 10) :
    (∃ poked, folio.poke supply t fee = .ok poked) ↔
      a ≠ 0 ∨ yearInSeconds ≤ fee.floor ∨ dayStart t ≤ folio.lastPoke := by
  rcases Nat.lt_or_ge folio.lastPoke (dayStart t) with hday | hday
  · have htvl' : folio.tvlFee ≤ 3400000000 := htvl ▸ tvlFee_le_of_set hset
    have := dayStart_le t
    have hinput : PokeInput folio supply (dayStart t - folio.lastPoke) fee :=
      ⟨htvl', hnum, hden, hfloor, hsupply, hdao, hrec, hmint, by omega⟩
    rw [poke_later_day ht hday hinput, rateInUse_pos_iff hset htvl]
    simp [Nat.not_le.mpr hday]
  · simp only [hday, or_true, iff_true]
    exact ⟨folio, poke_same_day ht hday⟩

/-- A folio that charges the largest fee, poked ten years late. -/
theorem poke_ten_years_late :
    (∃ poked, Folio.poke ⟨.Initialized, 0, 7, 3334813116, 0, 0, 0, 60, 86400, [], 0⟩ 1000000000000
        315446400 ⟨maxDaoFee, feeDenominator, maxFeeFloor⟩ = .ok poked) ↔
      100000000000000000 ≠ 0 ∨ yearInSeconds ≤ maxFeeFloor ∨ dayStart 315446400 ≤ 86400 :=
  poke_ok_iff
    (show Folio.setTvlFee ⟨.Initialized, 0, 7, 0, 0, 0, 0, 60, 86400, [], 0⟩ 100000000000000000
      = .ok ⟨.Initialized, 0, 7, 3334813116, 0, 0, 0, 60, 86400, [], 0⟩ by decide)
    rfl (by decide) rfl (by decide) (by decide) (by decide) (by decide) (by decide)
    (by decide) (by decide)

/-- Without a fee and without a floor, the first `poke` of the next day fails:
the correction is `0 * 1e18 + 0 - 1`. -/
theorem poke_blocked_without_rate :
    let folio : Folio := ⟨.Initialized, 0, 7, 0, 0, 0, 0, 60, 0, [], 0⟩
    let fee : DaoFee := ⟨maxDaoFee, feeDenominator, 0⟩
    folio.setTvlFee 0 = .ok folio ∧ fee.numerator ≤ maxDaoFee ∧ fee.floor ≤ maxFeeFloor ∧
      86400 ≤ folio.lastPoke + yearInSeconds * 10 ∧
      folio.poke 1000000000000 86400 fee = .error (.code .MathOverflow) := by
  decide

end Folio

end IndexDtf
