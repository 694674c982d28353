import IndexDtf.Folio.PokeGrowth

/-!
# IndexDtf.Folio.PokePath

**Whether it matters how often a folio is poked.** The growth of the total supply is rounded down,
once in each poke, and the power in it by a unit a second: both are as good as independent of the
times of the pokes.

* `OnPath` — what is known of a folio after some pokes: its total supply is between `Lib.lower` and
  `Lib.upper`, and so are the two counters, up to their capacity;
* `OnPath.poke` — a poke keeps it;
* `poke_path_independent` — two such folios, poked up to the same time, have the same total supply
  up to the tolerance.

Only a counter that gets full takes the total supply out of the bounds. No later poke does anything
then (`Accrued.stuck`), and the two counters are compared one by one.
-/

namespace IndexDtf

open Lib Decimal

namespace Folio

variable {folio after start : Folio} {supply t n : ℕ} {fee : DaoFee}

/-! ### Folios on a path of pokes -/

/-- The most that the total supply is after some seconds. -/
def highest (start : Folio) (fee : DaoFee) (supply t : ℕ) : ℚ :=
  upper d18 (start.decay fee) (start.totalSupply supply) t

/-- The least that it is after some seconds and `n` pokes, unless a counter is full. -/
def lowest (start : Folio) (fee : DaoFee) (supply n t : ℕ) : ℚ :=
  lower (start.decay fee) (start.totalSupply supply) n t

/-- What is known of a folio that was `start`, and was poked `n` times. -/
structure OnPath (start : Folio) (fee : DaoFee) (supply n : ℕ) (folio : Folio) : Prop where
  folio_eq : folio = { start with
    daoPendingFeeShares := folio.daoPendingFeeShares
    feeRecipientsPendingFeeShares := folio.feeRecipientsPendingFeeShares
    lastPoke := folio.lastPoke }
  lastPoke_le : start.lastPoke ≤ folio.lastPoke
  supply_le : (folio.totalSupply supply : ℚ)
    ≤ start.highest fee supply (folio.lastPoke - start.lastPoke)
  grows : start.totalSupply supply ≤ folio.totalSupply supply
  dao : Share u128Max (start.daoPortion fee / d18) 0 1 (start.totalSupply supply)
    start.daoPendingFeeShares n (start.lowest fee supply n (folio.lastPoke - start.lastPoke))
    (start.highest fee supply (folio.lastPoke - start.lastPoke)) folio.daoPendingFeeShares
  recipients : Share u128Max (1 - start.daoPortion fee / d18) 1 0 (start.totalSupply supply)
    start.feeRecipientsPendingFeeShares n
    (start.lowest fee supply n (folio.lastPoke - start.lastPoke))
    (start.highest fee supply (folio.lastPoke - start.lastPoke))
    folio.feeRecipientsPendingFeeShares
  fits : start.lastPoke < folio.lastPoke →
    folio.daoPendingFeeShares ≤ u128Max ∧ folio.feeRecipientsPendingFeeShares ≤ u128Max
  supply_ge : start.lowest fee supply n (folio.lastPoke - start.lastPoke)
      ≤ folio.totalSupply supply
    ∨ u128Max ≤ 3 * start.totalSupply supply ∧ folio.Stuck fee supply

theorem highest_zero : start.highest fee supply 0 = start.totalSupply supply := upper_zero

theorem lowest_zero : start.lowest fee supply 0 0 = start.totalSupply supply := lower_zero

theorem lowest_succ_le (hrate : start.rateInUse fee ≤ 3400000000) :
    start.lowest fee supply (n + 1) t ≤ start.lowest fee supply n t :=
  lower_succ_le (decay_pos hrate)

/-- In ten years the total supply does not get to three times what it was. -/
theorem highest_le (supply : ℕ) (hrate : start.rateInUse fee ≤ 3400000000) (ht : t ≤ yearInSeconds * 10) :
    start.highest fee supply t ≤ 3 * start.totalSupply supply := by
  have hdecay := decay_ge hrate ht
  have ht' : (t : ℚ) ≤ 315360000 := by
    have hle : t ≤ 315360000 := ht
    exact_mod_cast hle
  have hd18 := ratCast_d18
  have hfactor : (1 + 8 * t / d18 : ℚ) ≤ 3 * start.decay fee ^ t := by
    have hdecay' := mul_le_mul_of_nonneg_left hdecay (show (0 : ℚ) ≤ 3 by norm_num)
    rw [decay]
    refine le_trans ?_ hdecay'
    rw [hd18]
    linarith
  rw [highest, upper, div_le_iff₀ (pow_pos (decay_pos hrate) t), mul_comm 3, mul_assoc]
  exact mul_le_mul_of_nonneg_left hfactor (Nat.cast_nonneg _)

theorem OnPath.init : OnPath start fee supply 0 start where
  folio_eq := rfl
  lastPoke_le := le_rfl
  supply_le := by rw [Nat.sub_self, highest_zero]
  grows := le_rfl
  dao := by
    rw [Nat.sub_self, highest_zero, lowest_zero]
    exact Share.start (Nat.cast_nonneg _)
  recipients := by
    rw [Nat.sub_self, highest_zero, lowest_zero]
    exact Share.start (Nat.cast_nonneg _)
  fits := fun h => absurd h (lt_irrefl _)
  supply_ge := by
    rw [Nat.sub_self, lowest_zero]
    exact .inl le_rfl

namespace OnPath

theorem rateInUse_eq (h : OnPath start fee supply n folio) :
    folio.rateInUse fee = start.rateInUse fee := by
  rw [h.folio_eq, rateInUse, rateInUse]

theorem daoPortion_eq (h : OnPath start fee supply n folio) :
    folio.daoPortion fee = start.daoPortion fee := by
  rw [daoPortion, daoPortion, h.rateInUse_eq]

theorem decay_eq (h : OnPath start fee supply n folio) : folio.decay fee = start.decay fee := by
  rw [decay, decay, h.rateInUse_eq]

/-- A poke that does nothing. -/
theorem idle (h : OnPath start fee supply n folio) (hrate : start.rateInUse fee ≤ 3400000000)
    (hportion : start.daoPortion fee ≤ d18) : OnPath start fee supply (n + 1) folio := by
  have hw := sub_nonneg.mpr (daoPortion_div_le_one hportion)
  exact {
    folio_eq := h.folio_eq
    lastPoke_le := h.lastPoke_le
    supply_le := h.supply_le
    grows := h.grows
    dao := h.dao.idle (by positivity) le_rfl (by norm_num) (lowest_succ_le hrate)
    recipients := h.recipients.idle hw (by norm_num) le_rfl (lowest_succ_le hrate)
    fits := h.fits
    supply_ge := h.supply_ge.imp_left (lowest_succ_le hrate).trans }

/-- The growth of a poke is that of the bounds. -/
theorem growth_bounds (h : OnPath start fee supply n folio) (hacc : folio.Accrued fee supply t after)
    (hrate : start.rateInUse fee ≤ 3400000000)
    (hyears : dayStart t ≤ start.lastPoke + yearInSeconds * 10)
    (hge : start.lowest fee supply n (folio.lastPoke - start.lastPoke) ≤ folio.totalSupply supply) :
    (folio.growth fee supply (dayStart t - folio.lastPoke) : ℚ)
        ≤ start.highest fee supply (dayStart t - start.lastPoke)
          - start.highest fee supply (folio.lastPoke - start.lastPoke)
      ∧ start.lowest fee supply (n + 1) (dayStart t - start.lastPoke)
          - start.lowest fee supply n (folio.lastPoke - start.lastPoke)
        ≤ folio.growth fee supply (dayStart t - folio.lastPoke) := by
  have hremaining := remaining_spec hacc.remaining_pos
  rw [h.decay_eq] at hremaining
  have hyear : yearInSeconds * 10 = 315360000 := by decide
  have hd18 : d18 = 1000000000000000000 := rfl
  have hlater := hacc.later
  have hearlier := h.lastPoke_le
  have htime : dayStart t - start.lastPoke
      = folio.lastPoke - start.lastPoke + (dayStart t - folio.lastPoke) := by omega
  have hdecay : (1 / 3 : ℚ) ≤ start.decay fee ^ (dayStart t - folio.lastPoke) :=
    le_trans (by norm_num) (decay_ge hrate (by omega))
  rw [htime, growth, Nat.cast_sub hacc.grows]
  constructor
  · exact hremaining.growth_le (decay_pos hrate) decay_le_one hdecay (by omega) (by omega) (by omega)
      (Nat.cast_nonneg _) h.supply_le
  · exact hremaining.le_growth (decay_pos hrate) decay_le_one hge

/-- The DAO's counter gets its share of the growth. -/
theorem dao_step (h : OnPath start fee supply n folio) (hacc : folio.Accrued fee supply t after)
    (hrate : start.rateInUse fee ≤ 3400000000)
    (hyears : dayStart t ≤ start.lastPoke + yearInSeconds * 10)
    (hge : start.lowest fee supply n (folio.lastPoke - start.lastPoke) ≤ folio.totalSupply supply) :
    Share u128Max (start.daoPortion fee / d18) 0 1 (start.totalSupply supply)
      start.daoPendingFeeShares (n + 1)
      (start.lowest fee supply (n + 1) (dayStart t - start.lastPoke))
      (start.highest fee supply (dayStart t - start.lastPoke)) after.daoPendingFeeShares := by
  obtain ⟨hgrowth_le, hle_growth⟩ := h.growth_bounds hacc hrate hyears hge
  obtain ⟨hdao_ge, hdao_le⟩ := daoGrowth_bounds folio fee supply (dayStart t - folio.lastPoke)
  rw [h.daoPortion_eq] at hdao_ge hdao_le
  rw [hacc.dao_eq]
  push_cast
  exact h.dao.step _ (by positivity) (Nat.cast_nonneg _) (Nat.cast_nonneg _) hgrowth_le hle_growth
    hdao_le (by rwa [sub_zero])

/-- So does that of the recipients. -/
theorem recipients_step (h : OnPath start fee supply n folio)
    (hacc : folio.Accrued fee supply t after) (hrate : start.rateInUse fee ≤ 3400000000)
    (hportion : start.daoPortion fee ≤ d18)
    (hyears : dayStart t ≤ start.lastPoke + yearInSeconds * 10)
    (hge : start.lowest fee supply n (folio.lastPoke - start.lastPoke) ≤ folio.totalSupply supply) :
    Share u128Max (1 - start.daoPortion fee / d18) 1 0 (start.totalSupply supply)
      start.feeRecipientsPendingFeeShares (n + 1)
      (start.lowest fee supply (n + 1) (dayStart t - start.lastPoke))
      (start.highest fee supply (dayStart t - start.lastPoke))
      after.feeRecipientsPendingFeeShares := by
  obtain ⟨hgrowth_le, hle_growth⟩ := h.growth_bounds hacc hrate hyears hge
  obtain ⟨hrec_ge, hrec_le⟩ := recipientsGrowth_bounds supply (dayStart t - folio.lastPoke)
    (h.daoPortion_eq.trans_le hportion)
  rw [h.daoPortion_eq] at hrec_ge hrec_le
  rw [hacc.recipients_eq]
  push_cast
  exact h.recipients.step _ (sub_nonneg.mpr (daoPortion_div_le_one hportion)) (Nat.cast_nonneg _)
    (Nat.cast_nonneg _) hgrowth_le hle_growth (by rwa [add_zero]) hrec_ge

/-- Only a large supply fills a counter. -/
theorem full_le (h : OnPath start fee supply n folio)
    (hgrowth : (folio.growth fee supply (dayStart t - folio.lastPoke) : ℚ)
      ≤ start.highest fee supply (dayStart t - start.lastPoke)
        - start.highest fee supply (folio.lastPoke - start.lastPoke))
    (hrate : start.rateInUse fee ≤ 3400000000) (hportion : start.daoPortion fee ≤ d18)
    (hyears : dayStart t ≤ start.lastPoke + yearInSeconds * 10)
    (hfull : u128Max < folio.daoGrowth fee supply (dayStart t - folio.lastPoke) ∨
      u128Max < folio.recipientsGrowth fee supply (dayStart t - folio.lastPoke)) :
    u128Max ≤ 3 * start.totalSupply supply := by
  have hparts := daoGrowth_add_recipientsGrowth supply (dayStart t - folio.lastPoke)
    (h.daoPortion_eq.trans_le hportion)
  have hlarge : u128Max ≤ folio.growth fee supply (dayStart t - folio.lastPoke) := by
    rw [← hparts]
    rcases hfull with hfull | hfull
    · exact hfull.le.trans (Nat.le_add_right ..)
    · exact hfull.le.trans (Nat.le_add_left ..)
  have hlarge' : (u128Max : ℚ) ≤ folio.growth fee supply (dayStart t - folio.lastPoke) := by
    exact_mod_cast hlarge
  have hhighest := highest_le supply hrate (Nat.sub_le_iff_le_add'.mpr hyears)
  have hbefore : (0 : ℚ) ≤ folio.totalSupply supply := Nat.cast_nonneg _
  have hsupply := h.supply_le
  have hle : (u128Max : ℚ) ≤ 3 * start.totalSupply supply := by linarith
  exact_mod_cast hle

/-- The supply gets all of the growth, or a counter is full. -/
theorem supply_ge_step (h : OnPath start fee supply n folio)
    (hacc : folio.Accrued fee supply t after) (hfee : fee.Admissible)
    (hrate : start.rateInUse fee ≤ 3400000000) (hportion : start.daoPortion fee ≤ d18)
    (hyears : dayStart t ≤ start.lastPoke + yearInSeconds * 10)
    (hge : start.lowest fee supply n (folio.lastPoke - start.lastPoke) ≤ folio.totalSupply supply) :
    start.lowest fee supply (n + 1) (dayStart t - start.lastPoke) ≤ after.totalSupply supply ∨
      u128Max ≤ 3 * start.totalSupply supply ∧ after.Stuck fee supply := by
  obtain ⟨hgrowth_le, hle_growth⟩ := h.growth_bounds hacc hrate hyears hge
  by_cases hfits : folio.daoGrowth fee supply (dayStart t - folio.lastPoke) ≤ u128Max ∧
      folio.recipientsGrowth fee supply (dayStart t - folio.lastPoke) ≤ u128Max
  · left
    have hall : (folio.totalSupply supply : ℚ) + folio.growth fee supply
        (dayStart t - folio.lastPoke) ≤ after.totalSupply supply := by
      exact_mod_cast hacc.add_le_totalSupply (h.daoPortion_eq.trans_le hportion) hfits.1 hfits.2
    linarith
  · right
    rw [not_and_or, Nat.not_le, Nat.not_le] at hfits
    have helapsed : dayStart t - folio.lastPoke ≤ yearInSeconds * 10 :=
      (Nat.sub_le_sub_left h.lastPoke_le _).trans (Nat.sub_le_iff_le_add'.mpr hyears)
    exact ⟨h.full_le hgrowth_le hrate hportion hyears hfits,
      hacc.stuck hfee (h.rateInUse_eq.trans_le hrate) helapsed hfits⟩

/-- A poke that has something to do. -/
theorem step (h : OnPath start fee supply n folio) (hacc : folio.Accrued fee supply t after)
    (hfee : fee.Admissible) (hrate : start.rateInUse fee ≤ 3400000000)
    (hportion : start.daoPortion fee ≤ d18)
    (hyears : dayStart t ≤ start.lastPoke + yearInSeconds * 10)
    (hge : start.lowest fee supply n (folio.lastPoke - start.lastPoke)
      ≤ folio.totalSupply supply) : OnPath start fee supply (n + 1) after where
  folio_eq := by rw [hacc.after_eq, h.folio_eq]
  lastPoke_le := by
    rw [hacc.lastPoke_eq]
    exact h.lastPoke_le.trans hacc.later.le
  supply_le := by
    obtain ⟨hgrowth_le, -⟩ := h.growth_bounds hacc hrate hyears hge
    have hbefore := h.supply_le
    have hsupply : (after.totalSupply supply : ℚ) ≤ folio.totalSupply supply
        + folio.growth fee supply (dayStart t - folio.lastPoke) := by
      exact_mod_cast hacc.totalSupply_le_add (h.daoPortion_eq.trans_le hportion)
    rw [hacc.lastPoke_eq]
    linarith
  grows := h.grows.trans hacc.totalSupply_le
  dao := by
    rw [hacc.lastPoke_eq]
    exact h.dao_step hacc hrate hyears hge
  recipients := by
    rw [hacc.lastPoke_eq]
    exact h.recipients_step hacc hrate hportion hyears hge
  fits := by
    intro _
    rw [hacc.dao_eq, hacc.recipients_eq]
    exact ⟨hacc.dao_fits, hacc.recipients_fit⟩
  supply_ge := by
    rw [hacc.lastPoke_eq]
    exact h.supply_ge_step hacc hfee hrate hportion hyears hge

/-- **A poke keeps a folio on the path.** -/
theorem poke (h : OnPath start fee supply n folio) (hfee : fee.Admissible)
    (hrate : start.rateInUse fee ≤ 3400000000) (hportion : start.daoPortion fee ≤ d18)
    (hyears : dayStart t ≤ start.lastPoke + yearInSeconds * 10)
    (hpoke : folio.poke supply t fee = .ok after) : OnPath start fee supply (n + 1) after := by
  rcases poke_cases hfee hpoke with ⟨-, rfl⟩ | hacc
  · exact h.idle hrate hportion
  · rcases h.supply_ge with hge | ⟨-, hstuck⟩
    · exact h.step hacc hfee hrate hportion hyears hge
    · have hlater := hacc.later
      rw [← hacc.lastPoke_eq, hstuck t after hpoke] at hlater
      exact absurd hlater (lt_irrefl _)

/-! ### How far two folios on a path are apart -/

theorem lowest_le_highest (hrate : start.rateInUse fee ≤ 3400000000) :
    start.lowest fee supply (n + 1) t ≤ start.highest fee supply t := by
  have hpow : 0 < start.decay fee ^ t := pow_pos (decay_pos hrate) t
  rw [← sub_nonneg, highest, lowest, upper_sub_lower]
  positivity

/-- The bounds of the total supply are close to each other. -/
theorem highest_sub_lowest (supply n : ℕ) (hrate : start.rateInUse fee ≤ 3400000000)
    (ht : t ≤ yearInSeconds * 10) :
    start.highest fee supply t - start.lowest fee supply (n + 1) t
      ≤ 75 / 10 ^ 10 * start.totalSupply supply + 297 / 100 * n + 1 := by
  have hdecay : (100 / 297 : ℚ) ≤ start.decay fee ^ t := decay_ge hrate ht
  have hinverse : 1 / start.decay fee ^ t ≤ 297 / 100 := by
    rw [div_le_div_iff₀ (pow_pos (decay_pos hrate) t) (by norm_num)]
    linarith
  have ht' : (t : ℚ) ≤ 315360000 := by
    have hle : t ≤ 315360000 := ht
    exact_mod_cast hle
  have hd18 := ratCast_d18
  have hsmall : (8 * t / d18 : ℚ) ≤ 25 / 10 ^ 10 * (100 / 99) := by
    rw [hd18]
    linarith
  have hN : (0 : ℚ) ≤ start.totalSupply supply := Nat.cast_nonneg _
  have hn : (0 : ℚ) ≤ n := Nat.cast_nonneg n
  have hmul := mul_le_mul_of_nonneg_left hsmall hN
  rw [highest, lowest, upper_sub_lower]
  calc ((start.totalSupply supply : ℚ) * (8 * t / d18) + n) * (1 / start.decay fee ^ t) + 1
      ≤ (start.totalSupply supply * (25 / 10 ^ 10 * (100 / 99)) + n) * (297 / 100) + 1 := by gcongr
    _ = 75 / 10 ^ 10 * start.totalSupply supply + 297 / 100 * n + 1 := by ring

variable {other : Folio} {m k : ℕ}

theorem totalSupply_sub (h : OnPath start fee supply n folio)
    (h' : OnPath start fee supply m other) :
    (folio.totalSupply supply : ℚ) - other.totalSupply supply
      = (folio.daoPendingFeeShares - other.daoPendingFeeShares)
        + (folio.feeRecipientsPendingFeeShares - other.feeRecipientsPendingFeeShares) := by
  have hminted : folio.feeRecipientsPendingFeeSharesToBeMinted
      = other.feeRecipientsPendingFeeSharesToBeMinted := by rw [h.folio_eq, h'.folio_eq]
  rw [totalSupply, totalSupply, hminted]
  push_cast
  ring

/-- The counters are as far apart as the bounds, and one for each poke. -/
theorem counters_sub_le (h : OnPath start fee supply n folio)
    (h' : OnPath start fee supply m other) (hsame : folio.lastPoke = other.lastPoke)
    (hlater : start.lastPoke < folio.lastPoke) (hportion : start.daoPortion fee ≤ d18)
    (hbounds : start.lowest fee supply m (folio.lastPoke - start.lastPoke)
      ≤ start.highest fee supply (folio.lastPoke - start.lastPoke)) :
    (folio.totalSupply supply : ℚ) - other.totalSupply supply
      ≤ start.highest fee supply (folio.lastPoke - start.lastPoke)
        - start.lowest fee supply m (folio.lastPoke - start.lastPoke) + n + m := by
  have hw := sub_nonneg.mpr (daoPortion_div_le_one hportion)
  obtain ⟨hdaoFits, hrecFits⟩ := h.fits hlater
  have hdao' := h'.dao
  have hrec' := h'.recipients
  rw [← hsame] at hdao' hrec'
  have hdao := h.dao.sub_le hdao' (by exact_mod_cast hdaoFits) (by positivity) le_rfl
    (by norm_num) hbounds
  have hrec := h.recipients.sub_le hrec' (by exact_mod_cast hrecFits) hw
    (by norm_num) le_rfl hbounds
  rw [h.totalSupply_sub h']
  linarith

/-- **Two folios on a path, poked up to the same day**: with `k + 2` pokes in all, of which `n` and
`m + 1` are theirs, the one is above the other by at most the tolerance. -/
theorem sub_le (h : OnPath start fee supply n folio) (h' : OnPath start fee supply (m + 1) other)
    (hsame : folio.lastPoke = other.lastPoke) (hlater : start.lastPoke < folio.lastPoke)
    (hyears : folio.lastPoke ≤ start.lastPoke + yearInSeconds * 10)
    (hrate : start.rateInUse fee ≤ 3400000000) (hportion : start.daoPortion fee ≤ d18)
    (hpokes : n + m = k + 1) (hm : m ≤ k) (hk : 1 ≤ k) :
    (folio.totalSupply supply : ℚ) - other.totalSupply supply
      ≤ start.totalSupply supply / 10 ^ 8 + 4 * k := by
  have hclose := highest_sub_lowest supply m hrate
    (Nat.sub_le_iff_le_add'.mpr hyears)
  have hN : (0 : ℚ) ≤ start.totalSupply supply := Nat.cast_nonneg _
  have hm' : (m : ℚ) ≤ k := by exact_mod_cast hm
  have hk' : (1 : ℚ) ≤ k := by exact_mod_cast hk
  have hpokes' : (n + m : ℚ) = k + 1 := by exact_mod_cast hpokes
  rcases h'.supply_ge with hge | ⟨hlarge, -⟩
  · have hle := h.supply_le
    rw [← hsame] at hge
    linarith
  · -- one more for each poke is little against a supply that fills a counter
    have hlarge' : (340282366920938463463374607431768211455 : ℚ)
        ≤ 3 * start.totalSupply supply := by exact_mod_cast hlarge
    have hcounters := h.counters_sub_le h' hsame hlater hportion (lowest_le_highest hrate)
    push_cast at hcounters
    linarith

/-- A folio that is poked `k + 1` times and one that is poked once. -/
theorem abs_sub_le (h : OnPath start fee supply (k + 1) folio) (h' : OnPath start fee supply 1 other)
    (hsame : folio.lastPoke = other.lastPoke) (hlater : start.lastPoke < folio.lastPoke)
    (hyears : folio.lastPoke ≤ start.lastPoke + yearInSeconds * 10)
    (hrate : start.rateInUse fee ≤ 3400000000) (hportion : start.daoPortion fee ≤ d18)
    (hk : 1 ≤ k) :
    |(folio.totalSupply supply : ℚ) - other.totalSupply supply|
      ≤ min (folio.totalSupply supply : ℚ) (other.totalSupply supply) / 10 ^ 8 + 4 * k := by
  have habove := h.sub_le h' hsame hlater hyears hrate hportion (Nat.add_zero _) (Nat.zero_le _) hk
  have hbelow := h'.sub_le h hsame.symm (hsame ▸ hlater) (hsame ▸ hyears) hrate hportion
    (Nat.add_comm 1 k) le_rfl hk
  have hgrows : (start.totalSupply supply : ℚ)
      ≤ min (folio.totalSupply supply : ℚ) (other.totalSupply supply) :=
    le_min (by exact_mod_cast h.grows) (by exact_mod_cast h'.grows)
  rw [abs_le]
  constructor
  · linarith
  · linarith

end OnPath

/-! ### Runs of pokes -/

/-- A folio that is poked at some times, one after the other. -/
def pokes (folio : Folio) (supply : ℕ) (fee : DaoFee) (times : List ℕ) : Result Folio :=
  times.foldlM (fun folio t => folio.poke supply t fee) folio

variable {times : List ℕ}

theorem pokes_cons : folio.pokes supply fee (t :: times)
    = folio.poke supply t fee >>= fun after => after.pokes supply fee times :=
  List.foldlM_cons

theorem pokes_append_singleton : folio.pokes supply fee (times ++ [t])
    = folio.pokes supply fee times >>= fun after => after.poke supply t fee := by
  rw [pokes, List.foldlM_append]
  congr
  funext after
  rw [List.foldlM_cons]
  exact bind_pure _

/-- **A run of pokes keeps a folio on the path**, and brings its last poke up to no later than the
day of the last of them. -/
theorem OnPath.pokes (h : OnPath start fee supply n folio) (hfee : fee.Admissible)
    (hrate : start.rateInUse fee ≤ 3400000000) (hportion : start.daoPortion fee ≤ d18)
    (hyears : t ≤ start.lastPoke + yearInSeconds * 10) (htimes : ∀ t' ∈ times, t' ≤ t)
    (hlastPoke : folio.lastPoke ≤ max start.lastPoke (dayStart t))
    (hpokes : folio.pokes supply fee times = .ok after) :
    OnPath start fee supply (n + times.length) after ∧
      after.lastPoke ≤ max start.lastPoke (dayStart t) := by
  induction times generalizing folio n with
  | nil =>
    cases hpokes
    exact ⟨h, hlastPoke⟩
  | cons t' times ih =>
    rw [pokes_cons, bind_eq_ok] at hpokes
    obtain ⟨next, hpoke, hpokes⟩ := hpokes
    rw [List.forall_mem_cons] at htimes
    have hday : dayStart t' ≤ dayStart t :=
      Nat.mul_le_mul_right _ (Nat.div_le_div_right htimes.1)
    have hnext := h.poke hfee hrate hportion ((hday.trans (dayStart_le t)).trans hyears) hpoke
    have hlast : next.lastPoke ≤ max start.lastPoke (dayStart t) := by
      obtain ⟨_, _, -, -, rfl⟩ := poke_spec hpoke
      exact max_le hlastPoke (hday.trans (le_max_right ..))
    rw [List.length_cons, Nat.add_comm times.length, ← Nat.add_assoc]
    exact ih hnext htimes.2 hlast hpokes

/-- Before the next day starts, a run of pokes does nothing. -/
theorem pokes_same_day (hfee : fee.Admissible) (hday : dayStart t ≤ folio.lastPoke)
    (htimes : ∀ t' ∈ times, t' ≤ t) (hpokes : folio.pokes supply fee times = .ok after) :
    after = folio := by
  induction times with
  | nil =>
    cases hpokes
    rfl
  | cons t' times ih =>
    rw [pokes_cons, bind_eq_ok] at hpokes
    obtain ⟨next, hpoke, hpokes⟩ := hpokes
    rw [List.forall_mem_cons] at htimes
    have hday' : dayStart t' ≤ dayStart t :=
      Nat.mul_le_mul_right _ (Nat.div_le_div_right htimes.1)
    rcases poke_cases hfee hpoke with ⟨-, rfl⟩ | hacc
    · exact ih htimes.2 hpokes
    · exact absurd hacc.later (Nat.not_lt.mpr (hday'.trans hday))

/-- A poke of a later day brings the last poke up to that day. -/
theorem lastPoke_of_poke (hday : folio.lastPoke ≤ dayStart t)
    (h : folio.poke supply t fee = .ok after) : after.lastPoke = dayStart t := by
  obtain ⟨_, _, -, -, rfl⟩ := poke_spec h
  exact Nat.max_eq_right hday

/-- **Poking is path independent.** A folio that is poked at `k` times and at the end has the total
supply of one that is only poked at the end, up to `10 ^ -8` of it and `4 * k` units. -/
theorem poke_path_independent {before stored start multi single : Folio} {a supply t : ℕ}
    {fee : DaoFee} {times : List ℕ} {x y : Decimal}
    (hset : before.setTvlFee a = .ok stored) (htvl : start.tvlFee = stored.tvlFee)
    (hfee : fee.Admissible) (hyears : t ≤ start.lastPoke + yearInSeconds * 10)
    (htimes : ∀ t' ∈ times, t' ≤ t)
    (hmulti : start.pokes supply fee (times ++ [t]) = .ok multi)
    (hsingle : start.poke supply t fee = .ok single)
    (hx : multi.getTotalSupply supply = .ok x) (hy : single.getTotalSupply supply = .ok y) :
    |(x.val : ℚ) - y.val| ≤ min (x.val : ℚ) y.val / 10 ^ 8 + 4 * times.length := by
  obtain ⟨-, rfl⟩ := getTotalSupply_eq_ok.mp hx
  obtain ⟨-, rfl⟩ := getTotalSupply_eq_ok.mp hy
  rw [pokes_append_singleton, bind_eq_ok] at hmulti
  obtain ⟨last, hpokes, hlast⟩ := hmulti
  dsimp only
  have hequal (h : multi = single) : |(multi.totalSupply supply : ℚ) - single.totalSupply supply|
      ≤ min (multi.totalSupply supply : ℚ) (single.totalSupply supply) / 10 ^ 8
        + 4 * times.length := by
    rw [h, sub_self, abs_zero]
    positivity
  rcases Nat.lt_or_ge start.lastPoke (dayStart t) with hday | hday
  · -- the rate is the setter's, and a poke of a later day needs one
    have hrate : start.rateInUse fee ≤ 3400000000 :=
      max_le (perSecond_le (hfee.floor_le.trans (by decide))) (htvl ▸ tvlFee_le_of_set hset)
    have hportion : start.daoPortion fee ≤ d18 := by
      rcases poke_cases hfee hsingle with ⟨hsame, -⟩ | hacc
      · exact absurd hday (Nat.not_lt.mpr hsame)
      · exact daoPortion_le hfee hacc.rate_pos
    rcases Nat.eq_zero_or_pos times.length with hnone | hsome
    · obtain rfl := List.eq_nil_of_length_eq_zero hnone
      cases hpokes
      exact hequal (Except.ok.inj (hlast.symm.trans hsingle))
    · have hdays := (dayStart_le t).trans hyears
      obtain ⟨hpath, hearlier⟩ := OnPath.init.pokes hfee hrate hportion hyears htimes
        (le_max_left ..) hpokes
      rw [Nat.zero_add] at hpath
      have hmultiLast := lastPoke_of_poke (hearlier.trans (max_le hday.le le_rfl)) hlast
      have hsingleLast := lastPoke_of_poke hday.le hsingle
      exact (hpath.poke hfee hrate hportion hdays hlast).abs_sub_le
        (OnPath.init.poke hfee hrate hportion hdays hsingle) (hmultiLast.trans hsingleLast.symm)
        (by rwa [hmultiLast]) (by rwa [hmultiLast]) hrate hportion hsome
  · have hnothing := pokes_same_day hfee hday htimes hpokes
    subst hnothing
    exact hequal (Except.ok.inj (hlast.symm.trans hsingle))

/-- Three days at the largest fee, poked every day and poked once. -/
theorem poke_path_independent_three_days :
    ∃ multi single : Folio, ∃ x y : Decimal,
      Folio.pokes ⟨.Initialized, 0, 7, 3334813116, 0, 0, 0, 60, 86400, [], 0⟩ 1000000000000
        ⟨maxDaoFee, feeDenominator, maxFeeFloor⟩ ([172800, 259200] ++ [345600]) = .ok multi ∧
      Folio.poke ⟨.Initialized, 0, 7, 3334813116, 0, 0, 0, 60, 86400, [], 0⟩ 1000000000000 345600
        ⟨maxDaoFee, feeDenominator, maxFeeFloor⟩ = .ok single ∧
      multi.getTotalSupply 1000000000000 = .ok x ∧ single.getTotalSupply 1000000000000 = .ok y ∧
      |(x.val : ℚ) - y.val| ≤ min (x.val : ℚ) y.val / 10 ^ 8 + 4 * [172800, 259200].length := by
  have hset : Folio.setTvlFee ⟨.Initialized, 0, 7, 0, 0, 0, 0, 60, 86400, [], 0⟩ 100000000000000000
      = .ok ⟨.Initialized, 0, 7, 3334813116, 0, 0, 0, 60, 86400, [], 0⟩ := by decide
  have hmulti : Folio.pokes ⟨.Initialized, 0, 7, 3334813116, 0, 0, 0, 60, 86400, [], 0⟩
      1000000000000 ⟨maxDaoFee, feeDenominator, maxFeeFloor⟩ ([172800, 259200] ++ [345600])
      = .ok ⟨.Initialized, 0, 7, 3334813116, 0, 432378624171734652, 432378624171734651, 60, 345600,
        [], 0⟩ := by decide +kernel
  have hsingle : Folio.poke ⟨.Initialized, 0, 7, 3334813116, 0, 0, 0, 60, 86400, [], 0⟩
      1000000000000 345600 ⟨maxDaoFee, feeDenominator, maxFeeFloor⟩
      = .ok ⟨.Initialized, 0, 7, 3334813116, 0, 432378624171734770, 432378624171734769, 60, 345600,
        [], 0⟩ := by decide +kernel
  have hx : Folio.getTotalSupply ⟨.Initialized, 0, 7, 3334813116, 0, 432378624171734652,
      432378624171734651, 60, 345600, [], 0⟩ 1000000000000 = .ok ⟨1000864757248343469303⟩ := by
    decide
  have hy : Folio.getTotalSupply ⟨.Initialized, 0, 7, 3334813116, 0, 432378624171734770,
      432378624171734769, 60, 345600, [], 0⟩ 1000000000000 = .ok ⟨1000864757248343469539⟩ := by
    decide
  exact ⟨_, _, _, _, hmulti, hsingle, hx, hy, poke_path_independent hset rfl
    ⟨le_rfl, rfl, le_rfl⟩ (by decide) (by decide) hmulti hsingle hx hy⟩

end Folio

end IndexDtf
