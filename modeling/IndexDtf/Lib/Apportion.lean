import Mathlib.Algebra.BigOperators.Ring.List
import Mathlib.Algebra.Order.BigOperators.Group.List
import Mathlib.Algebra.Ring.Nat

/-!
# IndexDtf.Lib.Apportion

**Dividing an amount by weights**, in units. The part of a weight is rounded down twice,
to the total of the weights and to the unit; only some of the weights are entitled to
their part. The parts together never exceed the amount, and they exhaust it exactly
when nothing is rounded off and nothing is withheld.
-/

namespace IndexDtf.Lib

variable {α : Type*}

/-- The part of a weight in an amount, in whole units. -/
def part (amount total unit weight : ℕ) : ℕ := amount * weight / total / unit

theorem part_mul_le (amount total unit weight : ℕ) :
    part amount total unit weight * (total * unit) ≤ amount * weight := by
  rw [part, Nat.div_div_eq_div_mul]
  exact Nat.div_mul_le_self ..

/-- The sum over those that are entitled. -/
def sumOver (entitled : α → Prop) [DecidablePred entitled] (f : α → ℕ) (l : List α) : ℕ :=
  (l.map fun x => if entitled x then f x else 0).sum

section

variable {entitled : α → Prop} [DecidablePred entitled] {f g : α → ℕ} {l : List α} {x : α}

@[simp] theorem sumOver_nil : sumOver entitled f [] = 0 := rfl

@[simp] theorem sumOver_cons :
    sumOver entitled f (x :: l) = (if entitled x then f x else 0) + sumOver entitled f l := by
  rw [sumOver, List.map_cons, List.sum_cons]
  rfl

theorem sumOver_mul (n : ℕ) : sumOver entitled f l * n = sumOver entitled (fun x => f x * n) l := by
  induction l with
  | nil => exact Nat.zero_mul n
  | cons x rest ih =>
      rw [sumOver_cons, sumOver_cons, Nat.add_mul, ih]
      split
      · rfl
      · rw [Nat.zero_mul]

/-- Without the entitled there is nothing to sum up. -/
theorem sumOver_eq_zero (h : ∀ x ∈ l, ¬ entitled x) : sumOver entitled f l = 0 := by
  induction l with
  | nil => rfl
  | cons x rest ih =>
      rw [sumOver_cons, if_neg (h x (List.mem_cons_self ..)),
        ih fun y hy => h y (List.mem_cons_of_mem _ hy)]

theorem sumOver_le (h : ∀ x ∈ l, entitled x → f x ≤ g x) :
    sumOver entitled f l ≤ (l.map g).sum := by
  induction l with
  | nil => exact Nat.le_refl 0
  | cons x rest ih =>
      rw [sumOver_cons, List.map_cons, List.sum_cons]
      refine Nat.add_le_add ?_ (ih fun y hy => h y (List.mem_cons_of_mem _ hy))
      split
      · exact h x (List.mem_cons_self ..) ‹_›
      · exact Nat.zero_le _

/-- One of the entitled is replaced by another that is not. -/
theorem sumOver_set {i : ℕ} {y : α} (hx : l[i]? = some x) (hent : entitled x)
    (hnot : ¬ entitled y) : sumOver entitled f (l.set i y) + f x = sumOver entitled f l := by
  induction l generalizing i with
  | nil => cases hx
  | cons z rest ih =>
      cases i with
      | zero =>
          obtain rfl : z = x := Option.some.inj hx
          rw [List.set_cons_zero, sumOver_cons, sumOver_cons, if_pos hent, if_neg hnot]
          omega
      | succ i =>
          rw [List.getElem?_cons_succ] at hx
          rw [List.set_cons_succ, sumOver_cons, sumOver_cons, Nat.add_assoc, ih hx]

/-- The sums are equal only if every term is. -/
theorem sumOver_eq_iff (h : ∀ x ∈ l, f x ≤ g x) :
    sumOver entitled f l = (l.map g).sum ↔
      ∀ x ∈ l, if entitled x then f x = g x else g x = 0 := by
  induction l with
  | nil => simp
  | cons x rest ih =>
      have hx := h x (List.mem_cons_self ..)
      have hrest : ∀ y ∈ rest, f y ≤ g y := fun y hy => h y (List.mem_cons_of_mem _ hy)
      have hle : sumOver entitled f rest ≤ (rest.map g).sum := sumOver_le fun y hy _ => hrest y hy
      rw [sumOver_cons, List.map_cons, List.sum_cons, List.forall_mem_cons, ← ih hrest]
      split <;> omega

end

section Parts

variable {entitled : α → Prop} [DecidablePred entitled] {weight : α → ℕ} {l : List α}
  {amount total unit : ℕ}

/-- **The parts do not exceed the amount.** -/
theorem sumOver_part_le (htotal : 0 < total) (h : (l.map weight).sum ≤ total) :
    sumOver entitled (fun x => part amount total unit (weight x)) l * unit ≤ amount := by
  refine Nat.le_of_mul_le_mul_right ?_ htotal
  calc sumOver entitled (fun x => part amount total unit (weight x)) l * unit * total
      = sumOver entitled (fun x => part amount total unit (weight x) * (total * unit)) l := by
        rw [← sumOver_mul, Nat.mul_assoc, Nat.mul_comm unit total]
    _ ≤ (l.map fun x => amount * weight x).sum := sumOver_le fun x _ _ => part_mul_le ..
    _ = amount * (l.map weight).sum := List.sum_map_mul_left ..
    _ ≤ amount * total := Nat.mul_le_mul_left amount h

/-- **The parts are the whole amount** exactly when every entitled weight divides it
without a remainder and the others would get nothing. -/
theorem sumOver_part_eq_iff (htotal : 0 < total) (h : (l.map weight).sum = total) :
    sumOver entitled (fun x => part amount total unit (weight x)) l * unit = amount ↔
      ∀ x ∈ l, if entitled x then total * unit ∣ amount * weight x else amount * weight x = 0 := by
  have hsum : (l.map fun x => amount * weight x).sum = amount * total := by
    rw [List.sum_map_mul_left, h]
  have hparts : sumOver entitled (fun x => part amount total unit (weight x)) l * unit * total
      = sumOver entitled (fun x => part amount total unit (weight x) * (total * unit)) l := by
    rw [← sumOver_mul, Nat.mul_assoc, Nat.mul_comm unit total]
  rw [← Nat.mul_left_inj htotal.ne', hparts, ← hsum,
    sumOver_eq_iff (f := fun x => part amount total unit (weight x) * (total * unit))
      fun x _ => part_mul_le ..]
  refine forall₂_congr fun x _ => ?_
  rw [part, Nat.div_div_eq_div_mul, Nat.dvd_iff_div_mul_eq]

end Parts

end IndexDtf.Lib
