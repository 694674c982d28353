import Mathlib.Algebra.Order.Ring.Nat
import Mathlib.Tactic.Linarith

/-!
# IndexDtf.Lib.ProRata

**Shares of a pool.** A balance backs a supply of shares. Who leaves gives up shares and is
paid their part of the balance, rounded down; who joins pays the price of her shares.
The price is computed in fine units, of which a whole one has `unit`, rounded down, and
only then rounded up to whole units.

* `le_price_iff` — when the price covers the part of the balance: rounding up comes too
  late for a remainder that is less than a fine unit;
* `payout_le_price` — joining and leaving again gains nothing, if the supply does not
  fall below what it was with the new shares;
* `Fair.step` — leaving in several steps gains nothing.
-/

namespace IndexDtf.Lib

/-- What some of the shares are paid, rounded down. -/
def payout (supply balance shares : ℕ) : ℕ := shares * balance / supply

/-- The price of new shares, rounded down to fine units and up to whole ones. -/
def price (unit supply balance shares : ℕ) : ℕ :=
  (shares * balance * unit / supply + (unit - 1)) / unit

variable {unit supply supply' balance shares : ℕ}

theorem payout_mul_le : payout supply balance shares * supply ≤ shares * balance :=
  Nat.div_mul_le_self ..

theorem payout_of_no_shares : payout supply balance 0 = 0 := by
  rw [payout, Nat.zero_mul, Nat.zero_div]

/-- Rounding down to fine units before rounding down to whole ones makes no difference. -/
theorem payout_fine (hunit : 0 < unit) :
    shares * (balance * unit) / supply / unit = payout supply balance shares := by
  rw [payout, ← Nat.mul_assoc, Nat.div_div_eq_div_mul, Nat.mul_div_mul_right _ _ hunit]

/-! ### Rounding up -/

theorem le_roundUp_mul {x : ℕ} (hunit : 0 < unit) : x ≤ (x + (unit - 1)) / unit * unit := by
  have hdiv := Nat.div_add_mod' (x + (unit - 1)) unit
  have hlt := Nat.mod_lt (x + (unit - 1)) hunit
  omega

theorem roundUp_le {x k : ℕ} (hunit : 0 < unit) (h : x ≤ k * unit) :
    (x + (unit - 1)) / unit ≤ k := by
  rw [← Nat.lt_succ_iff, Nat.div_lt_iff_lt_mul hunit, Nat.succ_mul]
  omega

/-! ### The price -/

/-- The price in whole units, from the quotient and the remainder of the division. -/
theorem price_eq (hunit : 0 < unit) (hsupply : 0 < supply) :
    price unit supply balance shares = shares * balance / supply
      + if supply ≤ shares * balance % supply * unit then 1 else 0 := by
  have hdiv := Nat.div_add_mod' (shares * balance) supply
  have hlt := Nat.mod_lt (shares * balance) hsupply
  generalize shares * balance / supply = q at *
  generalize shares * balance % supply = r at *
  have hfine : shares * balance * unit / supply = q * unit + r * unit / supply := by
    rw [← hdiv, Nat.add_mul, Nat.mul_right_comm, Nat.add_comm, Nat.add_mul_div_right _ _ hsupply,
      Nat.add_comm]
  have hrest : r * unit / supply < unit := by
    rw [Nat.div_lt_iff_lt_mul hsupply, Nat.mul_comm unit]
    exact Nat.mul_lt_mul_of_pos_right hlt hunit
  rw [price, hfine, Nat.add_assoc, Nat.mul_comm q, Nat.mul_add_div hunit]
  congr 1
  split
  · next hr =>
    have hone : 1 ≤ r * unit / supply := (Nat.one_le_div_iff hsupply).mpr hr
    exact Nat.div_eq_of_lt_le (by omega) (by omega)
  · next hr =>
    rw [Nat.div_eq_of_lt (Nat.not_le.mp hr)]
    exact Nat.div_eq_of_lt (by omega)

/-- **The price covers the part of the balance** unless there is a remainder, less than a
fine unit. -/
theorem le_price_iff (hunit : 0 < unit) (hsupply : 0 < supply) :
    shares * balance ≤ price unit supply balance shares * supply ↔
      shares * balance % supply = 0 ∨ supply ≤ shares * balance % supply * unit := by
  rw [price_eq hunit hsupply]
  have hdiv := Nat.div_add_mod' (shares * balance) supply
  have hlt := Nat.mod_lt (shares * balance) hsupply
  split
  · next hr =>
    rw [Nat.add_mul, Nat.one_mul]
    exact iff_of_true (by omega) (.inr hr)
  · next hr =>
    rw [or_iff_left hr, Nat.add_zero]
    omega

/-- The price is less than a fine unit short. -/
theorem lt_price (hunit : 0 < unit) (hsupply : 0 < supply) :
    shares * balance * unit < (price unit supply balance shares * unit + 1) * supply := by
  rw [← Nat.div_lt_iff_lt_mul hsupply, Nat.lt_succ_iff]
  exact le_roundUp_mul hunit

/-- Who can pay for the shares can pay their price. -/
theorem price_le {budget : ℕ} (hunit : 0 < unit) (h : shares * balance ≤ budget * supply) :
    price unit supply balance shares ≤ budget := by
  refine roundUp_le hunit (Nat.div_le_of_le_mul ?_)
  calc shares * balance * unit ≤ budget * supply * unit := Nat.mul_le_mul_right unit h
    _ = supply * (budget * unit) := by rw [Nat.mul_comm budget, Nat.mul_assoc]

/-! ### Joining and leaving -/

/-- **A round trip gains nothing.** What the price is short of, less than a fine unit,
is worth less than the shares themselves. -/
theorem payout_le_price {cost left : ℕ} (hunit : 0 < unit)
    (hcost : shares * balance * unit < (cost * unit + 1) * supply) (hleft : left ≤ shares)
    (hsupply' : supply + left ≤ supply') : payout supply' (balance + cost) left ≤ cost := by
  by_contra hgain
  have hone : cost + 1 ≤ payout supply' (balance + cost) left := by omega
  have hpaid : (cost + 1) * (supply + left) ≤ left * (balance + cost) :=
    (Nat.mul_le_mul hone hsupply').trans payout_mul_le
  have hworth : left * balance ≤ shares * balance := Nat.mul_le_mul_right balance hleft
  have hmore : cost * supply + supply + left ≤ shares * balance := by linarith
  have hfine := Nat.mul_le_mul_right unit hmore
  have hkept : supply ≤ (supply + left) * unit :=
    (Nat.le_add_right ..).trans (Nat.le_mul_of_pos_right _ hunit)
  linarith

/-! ### Leaving in steps -/

/-- What was paid for the shares given up so far is no more than their part of the
balance at the beginning. -/
def Fair (supply balance shares paid : ℕ) : Prop := paid * supply ≤ shares * balance

theorem Fair.zero : Fair supply balance 0 0 := by
  rw [Fair, Nat.zero_mul, Nat.zero_mul]

/-- **One more step.** The balance is what was left of it, the supply at least what was
left of it. -/
theorem Fair.step {paid more given : ℕ} (h : Fair supply (paid + balance) shares paid)
    (hmore : shares + more ≤ supply) (hleft : supply ≤ supply' + shares)
    (hgiven : given ≤ payout supply' balance more) :
    Fair supply (paid + balance) (shares + more) (paid + given) := by
  obtain ⟨left, rfl⟩ : ∃ left, supply = left + shares := ⟨supply - shares, by omega⟩
  have hmore : more ≤ left := by omega
  have hleft : left ≤ supply' := by omega
  have hnext : given * left ≤ more * balance :=
    (Nat.mul_le_mul hgiven hleft).trans payout_mul_le
  rw [Fair] at h ⊢
  have hpast : paid * left ≤ shares * balance := by linarith
  cases Nat.eq_zero_or_pos left with
  | inl hzero =>
      obtain rfl : more = 0 := by omega
      rw [payout_of_no_shares, Nat.le_zero] at hgiven
      rw [hgiven]
      exact h
  | inr hpos =>
      -- multiplied by what is left of the supply, of which `more` is a part
      refine le_of_mul_le_mul_left ?_ hpos
      obtain ⟨rest, rfl⟩ : ∃ rest, left = more + rest := ⟨left - more, by omega⟩
      have h₁ := Nat.mul_le_mul_right rest hpast
      have h₂ := Nat.mul_le_mul_right (shares + (more + rest)) hnext
      linarith

/-- What was paid in steps is no more than what one step pays. -/
theorem Fair.le_payout {paid : ℕ} (hsupply : 0 < supply) (h : Fair supply balance shares paid) :
    paid ≤ payout supply balance shares :=
  (Nat.le_div_iff_mul_le hsupply).mpr h

end IndexDtf.Lib
