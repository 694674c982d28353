import Mathlib.Algebra.BigOperators.Ring.Finset
import Mathlib.Algebra.Order.BigOperators.Group.Finset
import Mathlib.Tactic.Linarith
import Mathlib.Tactic.Ring

/-!
# IndexDtf.Lib.IndexShare

**Lazy distribution by an index.** A global index grows, and a holder of weight
`w` earns `w * δ / S` whenever the index grows by `δ`. Nobody is paid at that
moment: a holder is settled later, from the index her bookmark remembers.

`due` is what a holder is worth in units of `1 / S`, settled or not. It is the
potential function of every argument about such a scheme:

* it grows by `w * δ` when the index does (`due_advance`);
* settling, which rounds down, does not increase it (`due_settle_le`);
* a settled holder may change her weight (`due_reweigh`).
-/

namespace IndexDtf.Lib

/-- A holder of an index: what she was credited, her weight, and the index up to
which she is settled. -/
structure IndexShare where
  credited : ℕ
  weight : ℕ
  bookmark : ℕ
  deriving DecidableEq, Repr

namespace IndexShare

/-- What a holder is worth at an index, in units of `1 / S`. -/
def due (S index : ℕ) (a : IndexShare) : ℕ :=
  a.credited * S + a.weight * (index - a.bookmark)

theorem due_advance {S index δ : ℕ} {a : IndexShare} (h : a.bookmark ≤ index) :
    a.due S (index + δ) = a.due S index + a.weight * δ := by
  have hsub : index + δ - a.bookmark = (index - a.bookmark) + δ := by omega
  simp only [due, hsub, Nat.mul_add, Nat.add_assoc]

/-- Settling credits at most what is due. -/
theorem due_settle_le {S index credited : ℕ} {a : IndexShare}
    (h : credited ≤ a.credited + a.weight * (index - a.bookmark) / S) :
    due S index ⟨credited, a.weight, index⟩ ≤ a.due S index := by
  have hfloor := Nat.div_mul_le_self (a.weight * (index - a.bookmark)) S
  have hcredited := Nat.mul_le_mul_right S h
  rw [Nat.add_mul] at hcredited
  simp only [due, Nat.sub_self, Nat.mul_zero, Nat.add_zero]
  omega

/-- The weight of a settled holder does not enter what she is due. -/
theorem due_reweigh {S index w : ℕ} {a : IndexShare} (h : a.bookmark = index) :
    due S index ⟨a.credited, w, a.bookmark⟩ = a.due S index := by
  simp [due, h]

/-! ### All holders together -/

variable {ι : Type*}

/-- What a set of holders is due. -/
def totalDue (S index : ℕ) (users : Finset ι) (share : ι → IndexShare) : ℕ :=
  ∑ u ∈ users, (share u).due S index

theorem totalDue_advance {S index δ : ℕ} {users : Finset ι} {share : ι → IndexShare}
    (h : ∀ u ∈ users, (share u).bookmark ≤ index) :
    totalDue S (index + δ) users share
      = totalDue S index users share + (∑ u ∈ users, (share u).weight) * δ := by
  unfold totalDue
  rw [Finset.sum_congr rfl fun u hu => due_advance (h u hu), Finset.sum_add_distrib,
    Finset.sum_mul]

/-- One holder is replaced by one who, with `paid` units on top, is due no more. -/
theorem totalDue_update_le [DecidableEq ι] {S index paid : ℕ} {users : Finset ι} {share : ι → IndexShare}
    {u : ι} {b : IndexShare} (hu : u ∈ users)
    (h : b.due S index + paid ≤ (share u).due S index) :
    totalDue S index users (Function.update share u b) + paid ≤ totalDue S index users share := by
  unfold totalDue
  have hrest : ∑ v ∈ users.erase u, (Function.update share u b v).due S index
      = ∑ v ∈ users.erase u, (share v).due S index := by
    refine Finset.sum_congr rfl fun v hv => ?_
    rw [Function.update_of_ne (Finset.ne_of_mem_erase hv)]
  rw [← Finset.add_sum_erase users _ hu, ← Finset.add_sum_erase users _ hu, hrest,
    Function.update_self]
  omega

/-- The credits alone are at most what is due. -/
theorem credited_mul_le_totalDue (S index : ℕ) (users : Finset ι) (share : ι → IndexShare) :
    (∑ u ∈ users, (share u).credited) * S ≤ totalDue S index users share := by
  unfold totalDue
  rw [Finset.sum_mul]
  exact Finset.sum_le_sum fun u _ => Nat.le_add_right _ _

end IndexShare

end IndexDtf.Lib
