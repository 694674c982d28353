import Mathlib.Algebra.Order.Field.Basic
import Mathlib.Algebra.Order.Ring.Pow
import Mathlib.Data.Nat.Log
import Mathlib.Data.Nat.Cast.Order.Field
import Mathlib.Data.Rat.Floor
import Mathlib.Tactic.FieldSimp
import Mathlib.Tactic.Linarith
import Mathlib.Tactic.Positivity
import Mathlib.Tactic.Ring

/-!
# IndexDtf.Lib.FixedPoint

**Truncated fixed-point arithmetic.** A number `x` of scale `S` stands for the
rational `x / S`; a product is computed as `a * b / S`, rounded down.

The main object is `powTrunc`, square-and-multiply with a truncation after each
multiplication. For a base of at most one the truncations lose at most one unit
for each unit of the exponent: `powTrunc_lower`. The invariant of the loop is
that a base standing for `β ^ k` is off by less than `k` units.
-/

namespace IndexDtf.Lib

/-! ### One multiplication -/

/-- The product of two numbers of scale `S`, rounded down. -/
def mulTrunc (S a b : ℕ) : ℕ := a * b / S

theorem mulTrunc_le_left {S a b : ℕ} (hb : b ≤ S) : mulTrunc S a b ≤ a := by
  rcases Nat.eq_zero_or_pos S with rfl | hS
  · simp [mulTrunc]
  · exact Nat.div_le_of_le_mul (Nat.mul_comm S a ▸ Nat.mul_le_mul_left a hb)

theorem mulTrunc_le_right {S a b : ℕ} (ha : a ≤ S) : mulTrunc S a b ≤ b := by
  rw [mulTrunc, Nat.mul_comm]
  exact mulTrunc_le_left ha

theorem mulTrunc_lt_mul {S a b : ℕ} (hS : 0 < S) :
    (a * b : ℚ) / S - 1 < mulTrunc S a b := by
  have h : (a * b : ℚ) / S < (a * b / S : ℕ) + 1 := by
    rw [div_lt_iff₀ (by exact_mod_cast hS)]
    exact_mod_cast Nat.lt_mul_of_div_lt (Nat.lt_succ_self _) hS
  simp only [mulTrunc]
  linarith

/-- Truncation loses one unit on top of what the factors had lost. -/
theorem mulTrunc_lower {S a b : ℕ} {α β eₐ eb : ℚ} (hS : 0 < S) (ha : a ≤ S)
    (hβ₀ : 0 ≤ β) (hβ : β ≤ 1) (heₐ : 0 ≤ eₐ) (heb : 0 ≤ eb)
    (hα : S * α - eₐ ≤ a) (hb : S * β - eb ≤ b) :
    S * (α * β) - (eₐ + eb + 1) ≤ mulTrunc S a b := by
  have hS' : (0 : ℚ) < S := by exact_mod_cast hS
  have ha' : (a : ℚ) ≤ S := by exact_mod_cast ha
  have hab : (a : ℚ) * (S * β - eb) ≤ a * b := mul_le_mul_of_nonneg_left hb (by positivity)
  have haβ : (S * α - eₐ) * (S * β) ≤ a * (S * β) :=
    mul_le_mul_of_nonneg_right hα (by positivity)
  have heb' : (a : ℚ) * eb ≤ S * eb := mul_le_mul_of_nonneg_right ha' heb
  have heₐ' : eₐ * (S * β) ≤ eₐ * S :=
    mul_le_mul_of_nonneg_left (mul_le_of_le_one_right hS'.le hβ) heₐ
  have hdiv : S * (α * β) - (eₐ + eb) ≤ (a * b : ℚ) / S := by
    rw [le_div_iff₀ hS']
    linarith
  have := mulTrunc_lt_mul (a := a) (b := b) hS
  linarith

/-! ### Square and multiply -/

/-- The loop: `base` is squared and the exponent halved each round, and the
result takes the base whenever the exponent is odd. -/
def powTrunc (S : ℕ) : ℕ → ℕ → ℕ → ℕ → ℕ
  | 0, _, result, _ => result
  | fuel + 1, base, result, exp =>
      if exp = 0 then result
      else
        powTrunc S fuel (if exp > 1 then mulTrunc S base base else base)
          (if exp % 2 = 1 then mulTrunc S result base else result) (exp / 2)

theorem powTrunc_zero (S fuel base result : ℕ) : powTrunc S fuel base result 0 = result := by
  cases fuel <;> simp [powTrunc]

/-- Multiplying by a base of at most one never increases the result. -/
theorem powTrunc_le {S fuel base result exp : ℕ} (hb : base ≤ S) :
    powTrunc S fuel base result exp ≤ result := by
  induction fuel generalizing base result exp with
  | zero => exact le_rfl
  | succ fuel ih =>
      unfold powTrunc
      split
      · exact le_rfl
      · refine le_trans (ih ?_) ?_
        · split
          · exact (mulTrunc_le_left hb).trans hb
          · exact hb
        · split
          · exact mulTrunc_le_left hb
          · exact le_rfl

/-- A positive power is at most the base. -/
theorem powTrunc_le_base {S fuel base result n : ℕ} (hb : base ≤ S) (hr : result ≤ S)
    (hn : 0 < n) (hfuel : n < 2 ^ fuel) : powTrunc S fuel base result n ≤ base := by
  induction fuel generalizing base n with
  | zero => omega
  | succ fuel ih =>
      unfold powTrunc
      rw [if_neg hn.ne']
      have hb' : (if n > 1 then mulTrunc S base base else base) ≤ base := by
        split
        · exact mulTrunc_le_left hb
        · exact le_rfl
      by_cases hodd : n % 2 = 1
      · rw [if_pos hodd]
        exact (powTrunc_le (hb'.trans hb)).trans (mulTrunc_le_right hr)
      · rw [if_neg hodd]
        exact (ih (hb'.trans hb) (by omega) (by omega)).trans hb'

/-- The loop loses at most `δ + n * k` units, when the result comes in with a
loss of `δ` and the base with a loss of `k - 1`. -/
theorem powTrunc_loop_lower {S fuel base result n k : ℕ} {β ρ δ : ℚ} (hS : 0 < S)
    (hfuel : n < 2 ^ fuel) (hbase : base ≤ S) (hresult : result ≤ S)
    (hβ₀ : 0 ≤ β) (hβ : β ≤ 1) (hδ : 0 ≤ δ) (hk : 1 ≤ k)
    (hb : S * β - (k - 1) ≤ base) (hr : S * ρ - δ ≤ result) :
    S * (ρ * β ^ n) - (δ + n * k) ≤ powTrunc S fuel base result n := by
  induction fuel generalizing base result n k β ρ δ with
  | zero =>
      obtain rfl : n = 0 := by simpa using hfuel
      simpa [powTrunc] using hr
  | succ fuel ih =>
      have hk' : (1 : ℚ) ≤ k := by exact_mod_cast hk
      rcases Nat.eq_zero_or_pos n with rfl | hpos
      · simpa [powTrunc] using hr
      -- the result after this round, and what it has lost
      have hround : ∃ (result' : ℕ) (ρ' δ' : ℚ), result' = (if n % 2 = 1 then mulTrunc S result base
            else result) ∧ result' ≤ S ∧ 0 ≤ δ' ∧ S * ρ' - δ' ≤ result' ∧
          ρ' * (β ^ 2) ^ (n / 2) = ρ * β ^ n ∧
          δ' + ((n / 2 : ℕ) : ℚ) * (2 * k) = δ + n * k := by
        rw [← pow_mul]
        rcases Nat.mod_two_eq_zero_or_one n with hodd | hodd
        · have hexp : n = 2 * (n / 2) := by omega
          refine ⟨result, ρ, δ, by simp [hodd], hresult, hδ, hr, by rw [← hexp], ?_⟩
          have : (n : ℚ) = 2 * ((n / 2 : ℕ) : ℚ) := by exact_mod_cast hexp
          rw [this]; ring
        · have hexp : n = 2 * (n / 2) + 1 := by omega
          refine ⟨mulTrunc S result base, ρ * β, δ + k, by simp [hodd],
            (mulTrunc_le_left hbase).trans hresult, by positivity, ?_, ?_, ?_⟩
          · have := mulTrunc_lower hS hresult hβ₀ hβ hδ (by linarith) hr hb
            linarith
          · conv_rhs => rw [hexp]
            rw [pow_succ]; ring
          · have : (n : ℚ) = 2 * ((n / 2 : ℕ) : ℚ) + 1 := by exact_mod_cast hexp
            rw [this]; ring
      obtain ⟨result', ρ', δ', heq, hle, hδ', hr', hρ, hloss⟩ := hround
      unfold powTrunc
      rw [if_neg hpos.ne', ← heq]
      by_cases hone : n > 1
      · rw [if_pos hone, ← hρ, ← hloss]
        have hsq := mulTrunc_lower hS hbase hβ₀ hβ (by linarith) (by linarith) hb hb
        have := ih (n := n / 2) (k := 2 * k) (β := β ^ 2) (ρ := ρ') (δ := δ')
          (by omega) ((mulTrunc_le_left hbase).trans hbase) hle (by positivity)
          (pow_le_one₀ hβ₀ hβ) hδ' (by omega)
          (by rw [sq]; push_cast; linarith) hr'
        simpa using this
      · have hhalf : n / 2 = 0 := by omega
        rw [if_neg hone, hhalf, powTrunc_zero, ← hρ, ← hloss, hhalf]
        simpa using hr'

/-- **The loss of a truncated power.** For a base of at most one, the power is
at most one unit low for each unit of the exponent. -/
theorem powTrunc_lower {S b n : ℕ} (hS : 0 < S) (hb : b ≤ S) :
    S * ((b : ℚ) / S) ^ n - n ≤ powTrunc S (n.log2 + 1) b S n := by
  have hS' : (0 : ℚ) < S := by exact_mod_cast hS
  have h := powTrunc_loop_lower (k := 1) (β := b / S) (ρ := 1) (δ := 0) hS
    (Nat.lt_log2_self (n := n)) hb le_rfl (by positivity)
    (by rw [div_le_one hS']; exact_mod_cast hb) le_rfl le_rfl
    (by field_simp; simp) (by simp)
  simpa using h

theorem mulTrunc_le_mul {S a b : ℕ} : (mulTrunc S a b : ℚ) ≤ a * (b / S) := by
  rw [← mul_div_assoc]
  exact_mod_cast (Nat.cast_div_le : ((a * b / S : ℕ) : ℚ) ≤ (a * b : ℕ) / S)

/-- A truncated power is at most the exact one. -/
theorem powTrunc_upper {S fuel base result n : ℕ} (hfuel : n < 2 ^ fuel) :
    (powTrunc S fuel base result n : ℚ) ≤ result * ((base : ℚ) / S) ^ n := by
  induction fuel generalizing base result n with
  | zero =>
      obtain rfl : n = 0 := by simpa using hfuel
      simp [powTrunc]
  | succ fuel ih =>
      rcases Nat.eq_zero_or_pos n with rfl | hpos
      · simp [powTrunc]
      unfold powTrunc
      rw [if_neg hpos.ne']
      refine (ih (by omega)).trans ?_
      have hβ : (0 : ℚ) ≤ base / S := by positivity
      have hbase : (((if n > 1 then mulTrunc S base base else base : ℕ) : ℚ) / S) ^ (n / 2)
          ≤ (base / S : ℚ) ^ (2 * (n / 2)) := by
        rw [pow_mul]
        split
        · refine pow_le_pow_left₀ (by positivity) ?_ _
          rw [sq]
          exact (div_le_div_of_nonneg_right mulTrunc_le_mul (Nat.cast_nonneg S)).trans_eq
            (mul_div_right_comm ..)
        · rw [show n / 2 = 0 by omega, pow_zero, pow_zero]
      rcases Nat.mod_two_eq_zero_or_one n with hodd | hodd
      · rw [if_neg (by omega)]
        conv_rhs => rw [show n = 2 * (n / 2) by omega]
        exact mul_le_mul_of_nonneg_left hbase (Nat.cast_nonneg _)
      · rw [if_pos hodd]
        conv_rhs => rw [show n = 2 * (n / 2) + 1 by omega, pow_succ', ← mul_assoc]
        exact mul_le_mul mulTrunc_le_mul hbase (by positivity) (by positivity)

/-! ### Decay over several periods -/

/-- Bernoulli's inequality, once for each of `m` periods of `n` steps: a base of
`1 - x` decays in a period by at most `n * x`. -/
theorem decay_lower {x : ℚ} {n m k : ℕ} (hx₀ : 0 ≤ x) (hnx : n * x ≤ 1) (hx : x ≤ 1)
    (hk : k ≤ n * m) : (1 - n * x) ^ m ≤ (1 - x) ^ k := by
  have hbern : 1 - n * x ≤ (1 - x) ^ n := by
    have := one_add_mul_le_pow (a := -x) (by linarith) n
    simpa [sub_eq_add_neg] using this
  calc (1 - n * x) ^ m ≤ ((1 - x) ^ n) ^ m := pow_le_pow_left₀ (by linarith) hbern m
    _ = (1 - x) ^ (n * m) := (pow_mul _ _ _).symm
    _ ≤ (1 - x) ^ k := pow_le_pow_of_le_one (by linarith) (by linarith) hk

/-! ### Quotes -/

/-- A budget of `a` buys some amount at the price `p / q`, computed in units of `u` and
rounded down twice. Whoever buys no more than that pays no more than the budget, if the
payment is computed the other way round with the same roundings. -/
theorem cost_le_budget {a n p q u : ℕ} (hp : 0 < p) (h : n ≤ a * u * q / p / u) :
    n * u * p / q / u ≤ a := by
  have hunits : n * u ≤ a * u * q / p :=
    (Nat.mul_le_mul_right u h).trans (Nat.div_mul_le_self ..)
  have hcost : n * u * p ≤ a * u * q := (Nat.le_div_iff_mul_le hp).mp hunits
  have hpaid : n * u * p / q ≤ a * u :=
    Nat.div_le_of_le_mul (hcost.trans_eq (Nat.mul_comm ..))
  exact Nat.div_le_of_le_mul (hpaid.trans_eq (Nat.mul_comm ..))

/-- Two roundings down, the second of which only changes the units, are one. -/
theorem payment_eq {n p q u : ℕ} (hu : 0 < u) : n * u * p / q / u = n * p / q := by
  rw [Nat.div_div_eq_div_mul, Nat.mul_right_comm, Nat.mul_div_mul_right _ _ hu]

/-- Rounding down to multiples keeps a number exactly when it is one. -/
theorem le_floor_mul_iff {m q : ℕ} : m ≤ m / q * q ↔ q ∣ m := by
  constructor
  · intro h
    exact ⟨m / q, (h.antisymm (Nat.div_mul_le_self m q)).trans (Nat.mul_comm ..)⟩
  · intro h
    exact (Nat.div_mul_cancel h).ge

end IndexDtf.Lib
