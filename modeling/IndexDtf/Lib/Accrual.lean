import IndexDtf.Lib.FixedPoint

/-!
# IndexDtf.Lib.Accrual

**A pool that grows at a rate, from time to time.** After a period of `Δ` seconds a pool of `N` is
`N * S / den`, rounded down, where `den` is `β ^ Δ` in units of `1 / S` and off by at most one unit
a second.

After `t` seconds, in any number of periods, a pool that was `N₀` is at most `upper`; after `n`
periods it is at least `lower`. Both are of the form `N₀ / β ^ t` with a small error, so they hardly
depend on the periods: this is what makes growth independent of the path.
-/

namespace IndexDtf.Lib

variable {S den Δ t n N : ℕ} {β N₀ : ℚ}

/-- What is left of one after `Δ` seconds. -/
structure Remaining (S : ℕ) (β : ℚ) (Δ den : ℕ) : Prop where
  pos : 0 < den
  le : (den : ℚ) ≤ S * β ^ Δ
  ge : S * β ^ Δ - Δ ≤ den

/-- The most a pool can be after `t` seconds. -/
def upper (S : ℕ) (β N₀ : ℚ) (t : ℕ) : ℚ := N₀ * (1 + 8 * t / S) / β ^ t

/-- The least it can be after `t` seconds in `n` periods, each of which loses less than one, and all
but the last one grow it. -/
def lower (β N₀ : ℚ) (n t : ℕ) : ℚ := (N₀ + 1 - n) / β ^ t - 1

@[simp] theorem upper_zero : upper S β N₀ 0 = N₀ := by simp [upper]

@[simp] theorem lower_zero : lower β N₀ 0 0 = N₀ := by simp [lower]

theorem lower_succ_le (hβ : 0 < β) : lower β N₀ (n + 1) t ≤ lower β N₀ n t := by
  rw [lower, lower]
  push_cast
  gcongr
  linarith

theorem upper_nonneg (hβ : 0 < β) (hN₀ : 0 ≤ N₀) : 0 ≤ upper S β N₀ t := by
  rw [upper]
  positivity

/-- How far the two are apart. -/
theorem upper_sub_lower :
    upper S β N₀ t - lower β N₀ (n + 1) t = (N₀ * (8 * t / S) + n) * (1 / β ^ t) + 1 := by
  rw [upper, lower]
  push_cast
  ring

namespace Remaining

/-- The pool does not shrink. -/
theorem one_le_ratio (h : Remaining S β Δ den) (hβ0 : 0 < β) (hβ1 : β ≤ 1) :
    1 ≤ (S / den : ℚ) := by
  have hden : (0 : ℚ) < den := by exact_mod_cast h.pos
  rw [le_div_iff₀ hden, one_mul]
  exact h.le.trans (mul_le_of_le_one_right (Nat.cast_nonneg S) (pow_le_one₀ hβ0.le hβ1))

theorem le_ratio (h : Remaining S β Δ den) (hβ : 0 < β) : 1 / β ^ Δ ≤ (S / den : ℚ) := by
  have hden : (0 : ℚ) < den := by exact_mod_cast h.pos
  rw [div_le_div_iff₀ (pow_pos hβ Δ) hden, one_mul]
  exact h.le

/-- The units that are lost are few, if a third is left. -/
theorem ratio_le (h : Remaining S β Δ den) (hβ : 1 / 3 ≤ β ^ Δ) (hS : 0 < S) (hΔ : 12 * Δ ≤ S) :
    (S / den : ℚ) ≤ (1 + 4 * Δ / S) / β ^ Δ := by
  have hS' : (0 : ℚ) < S := by exact_mod_cast hS
  have hΔ' : (12 * Δ : ℚ) ≤ S := by exact_mod_cast hΔ
  have hden : (0 : ℚ) < den := by exact_mod_cast h.pos
  have hsmall : (4 * Δ / S : ℚ) ≤ 1 / 3 := by
    rw [div_le_div_iff₀ hS' (by norm_num)]
    linarith
  have hfactor : (0 : ℚ) ≤ 1 + 4 * Δ / S := by positivity
  rw [div_le_div_iff₀ hden (by linarith)]
  have hlost : (0 : ℚ) ≤ Δ * (4 * β ^ Δ - 1 - 4 * Δ / S) :=
    mul_nonneg (Nat.cast_nonneg Δ) (by linarith)
  calc (S * β ^ Δ : ℚ) ≤ S * β ^ Δ + Δ * (4 * β ^ Δ - 1 - 4 * Δ / S) := by linarith
    _ = (1 + 4 * Δ / S) * (S * β ^ Δ - Δ) := by
      field_simp
      ring
    _ ≤ (1 + 4 * Δ / S) * den := mul_le_mul_of_nonneg_left h.ge hfactor

/-- A period keeps the upper bound. -/
theorem upper_step (h : Remaining S β Δ den) (hβ0 : 0 < β) (hβ : 1 / 3 ≤ β ^ Δ) (hS : 0 < S)
    (hΔ : 12 * Δ ≤ S) (ht : 8 * t ≤ S) (hN₀ : 0 ≤ N₀) :
    upper S β N₀ t * (S / den) ≤ upper S β N₀ (t + Δ) := by
  have hS' : (0 : ℚ) < S := by exact_mod_cast hS
  have ht' : (8 * t / S : ℚ) ≤ 1 := by
    rw [div_le_one hS']
    exact_mod_cast ht
  have hgrowth : (1 + 8 * t / S : ℚ) * (1 + 4 * Δ / S) ≤ 1 + 8 * ((t + Δ : ℕ) : ℚ) / S := by
    have hmul := mul_le_mul_of_nonneg_right ht' (show (0 : ℚ) ≤ 4 * Δ / S by positivity)
    push_cast
    calc (1 + 8 * t / S : ℚ) * (1 + 4 * Δ / S)
        = 1 + 8 * t / S + 4 * Δ / S + 8 * t / S * (4 * Δ / S) := by ring
      _ ≤ 1 + 8 * t / S + 4 * Δ / S + 1 * (4 * Δ / S) := by linarith
      _ = 1 + 8 * (t + Δ) / S := by ring
  calc upper S β N₀ t * (S / den)
      ≤ upper S β N₀ t * ((1 + 4 * Δ / S) / β ^ Δ) :=
        mul_le_mul_of_nonneg_left (h.ratio_le hβ hS hΔ) (upper_nonneg hβ0 hN₀)
    _ = N₀ * ((1 + 8 * t / S) * (1 + 4 * Δ / S)) / β ^ (t + Δ) := by
        rw [upper, pow_add]
        field_simp
    _ ≤ upper S β N₀ (t + Δ) := by
        rw [upper]
        gcongr

/-- The growth of a period is at most that of the upper bound. -/
theorem growth_le (h : Remaining S β Δ den) (hβ0 : 0 < β) (hβ1 : β ≤ 1) (hβ : 1 / 3 ≤ β ^ Δ)
    (hS : 0 < S) (hΔ : 12 * Δ ≤ S) (ht : 8 * t ≤ S) (hN₀ : 0 ≤ N₀)
    (hN : (N : ℚ) ≤ upper S β N₀ t) :
    ((N * S / den : ℕ) : ℚ) - N ≤ upper S β N₀ (t + Δ) - upper S β N₀ t := by
  have hfloor : ((N * S / den : ℕ) : ℚ) ≤ N * (S / den) := by
    rw [← mul_div_assoc]
    exact_mod_cast (Nat.cast_div_le : ((N * S / den : ℕ) : ℚ) ≤ (N * S : ℕ) / den)
  have hratio := h.one_le_ratio hβ0 hβ1
  have hmul := mul_le_mul_of_nonneg_right hN (sub_nonneg.mpr hratio)
  have hstep := h.upper_step hβ0 hβ hS hΔ ht hN₀
  linarith

/-- The growth of a period is at least that of the lower bound. -/
theorem le_growth (h : Remaining S β Δ den) (hβ0 : 0 < β) (hβ1 : β ≤ 1)
    (hN : lower β N₀ n t ≤ N) :
    lower β N₀ (n + 1) (t + Δ) - lower β N₀ n t ≤ ((N * S / den : ℕ) : ℚ) - N := by
  have hden : (0 : ℚ) < den := by exact_mod_cast h.pos
  have hfloor : (N * (S / den) : ℚ) - 1 ≤ (N * S / den : ℕ) := by
    rw [sub_le_iff_le_add, ← mul_div_assoc, div_le_iff₀ hden]
    exact_mod_cast (Nat.lt_mul_of_div_lt (Nat.lt_succ_self (N * S / den)) h.pos).le
  have hpow : 0 < β ^ Δ := pow_pos hβ0 Δ
  have hone : 1 ≤ 1 / β ^ Δ := (one_le_div hpow).mpr (pow_le_one₀ hβ0.le hβ1)
  have hmul : (N : ℚ) * (1 / β ^ Δ) ≤ N * (S / den) :=
    mul_le_mul_of_nonneg_left (h.le_ratio hβ0) (Nat.cast_nonneg N)
  have hless := mul_le_mul_of_nonneg_right hN (sub_nonneg.mpr hone)
  -- what the last period loses grows with the next one
  have hlast : 1 / β ^ Δ ≤ 1 / β ^ (t + Δ) :=
    one_div_le_one_div_of_le (pow_pos hβ0 _) (pow_le_pow_of_le_one hβ0.le hβ1 (Nat.le_add_left ..))
  have hlower : lower β N₀ (n + 1) (t + Δ)
      = (lower β N₀ n t + 1) * (1 / β ^ Δ) - 1 / β ^ (t + Δ) - 1 := by
    rw [lower, lower, pow_add]
    push_cast
    field_simp
    ring
  rw [hlower]
  linarith

end Remaining

/-! ### Shares of the growth -/

/-- A counter that was `x₀` and in each of `n` periods got a share `w` of the growth, up to `lo` less
and up to `hi` more, but no more at once than its capacity. -/
structure Share (cap w lo hi N₀ x₀ : ℚ) (n : ℕ) (L U x : ℚ) : Prop where
  nonneg : 0 ≤ x
  le : x ≤ x₀ + w * (U - N₀) + hi * n
  ge : min cap (x₀ + w * (L - N₀) - lo * n) ≤ x

namespace Share

variable {cap w lo hi N₀ x₀ x y growth L L' U U' : ℚ} {n m : ℕ}

theorem start (hx₀ : 0 ≤ x₀) : Share cap w lo hi N₀ x₀ 0 N₀ N₀ x₀ where
  nonneg := hx₀
  le := by simp
  ge := by simp

/-- A period without growth. -/
theorem idle (h : Share cap w lo hi N₀ x₀ n L U x) (hw : 0 ≤ w) (hlo : 0 ≤ lo) (hhi : 0 ≤ hi)
    (hL : L' ≤ L) : Share cap w lo hi N₀ x₀ (n + 1) L' U x where
  nonneg := h.nonneg
  le := by
    have hle := h.le
    push_cast
    linarith
  ge := by
    refine le_trans (min_le_min_left cap ?_) h.ge
    have hmul := mul_le_mul_of_nonneg_left hL hw
    push_cast
    linarith

/-- A period with growth. -/
theorem step (h : Share cap w lo hi N₀ x₀ n L U x) (share : ℚ) (hw : 0 ≤ w) (hcap : 0 ≤ cap)
    (hnonneg : 0 ≤ share) (hle : growth ≤ U' - U) (hge : L' - L ≤ growth)
    (hshare_le : share ≤ w * growth + hi) (hshare_ge : w * growth - lo ≤ share) :
    Share cap w lo hi N₀ x₀ (n + 1) L' U' (x + min share cap) where
  nonneg := add_nonneg h.nonneg (le_min hnonneg hcap)
  le := by
    have hmul := mul_le_mul_of_nonneg_left hle hw
    have hmin := min_le_left share cap
    have hx := h.le
    push_cast
    linarith
  ge := by
    have hmul := mul_le_mul_of_nonneg_left hge hw
    have hx := h.nonneg
    rcases min_le_iff.mp h.ge with hfull | hge
    · have hmore := le_min hnonneg hcap
      exact min_le_of_left_le (by linarith)
    · rcases le_total share cap with hle | hle
      · rw [min_eq_left hle]
        push_cast
        exact min_le_of_right_le (by linarith)
      · rw [min_eq_right hle]
        exact min_le_of_left_le (by linarith)

/-- How far two such counters are apart: a full one is not below the other. -/
theorem sub_le (h : Share cap w lo hi N₀ x₀ n L U x) (h' : Share cap w lo hi N₀ x₀ m L' U y)
    (hx : x ≤ cap) (hw : 0 ≤ w) (hlo : 0 ≤ lo) (hhi : 0 ≤ hi) (hbounds : L' ≤ U) :
    x - y ≤ w * (U - L') + hi * n + lo * m := by
  have hhi' : 0 ≤ hi * n := mul_nonneg hhi (Nat.cast_nonneg n)
  have hlo' : 0 ≤ lo * m := mul_nonneg hlo (Nat.cast_nonneg m)
  have hapart : 0 ≤ w * (U - L') := mul_nonneg hw (sub_nonneg.mpr hbounds)
  rcases min_le_iff.mp h'.ge with hfull | hge
  · linarith
  · have hle := h.le
    linarith

end Share

end IndexDtf.Lib
