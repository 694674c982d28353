import Mathlib.Algebra.BigOperators.Group.Finset.Piecewise
import Mathlib.Algebra.Order.BigOperators.Group.Finset

/-!
# IndexDtf.Lib.Vault

**Custody.** A vault keeps assets for itself and for any number of claimants. It is
solvent when its assets cover what it books as its own together with the claims of
any finite set of claimants. `Settles` is what an operation on the books has to do,
seen from one claimant: what is booked grows by no more than the assets do. It
composes, and it keeps the vault solvent.
-/

namespace IndexDtf.Lib

/-- The books of a vault in one asset. -/
structure Vault (β : Type*) where
  own : ℕ
  claims : β → ℕ
  assets : ℕ

namespace Vault

variable {β : Type*} {v v' v'' : Vault β} {u : β}

/-- The assets cover everything that is booked. -/
def Solvent (v : Vault β) : Prop :=
  ∀ s : Finset β, v.own + ∑ u ∈ s, v.claims u ≤ v.assets

/-- An operation with one claimant: nobody else's claim changes, and what it adds to
the vault's own part and to the claim comes in as assets. -/
structure Settles (u : β) (v v' : Vault β) : Prop where
  others : ∀ x, x ≠ u → v'.claims x = v.claims x
  balance : v'.own + v'.claims u + v.assets ≤ v.own + v.claims u + v'.assets

theorem Settles.trans (h : Settles u v v') (h' : Settles u v' v'') : Settles u v v'' where
  others := fun x hx => (h'.others x hx).trans (h.others x hx)
  balance := by
    have h₁ := h.balance
    have h₂ := h'.balance
    omega

/-- Assets may come in without being booked. -/
theorem Settles.of_assets (hown : v'.own = v.own) (hclaims : v'.claims = v.claims)
    (hassets : v.assets ≤ v'.assets) : Settles u v v' where
  others := fun _ _ => by rw [hclaims]
  balance := by
    rw [hown, hclaims]
    omega

/-- **Solvency is kept.** The claimant of the operation is added to the set in
question: the claims of the rest of it have not changed. -/
theorem Settles.keepsSolvent (h : Settles u v v') (hv : v.Solvent) : v'.Solvent := by
  classical
  intro s
  have hrest : ∑ x ∈ s.erase u, v'.claims x = ∑ x ∈ s.erase u, v.claims x :=
    Finset.sum_congr rfl fun x hx => h.others x (Finset.ne_of_mem_erase hx)
  have hcovered := hv (insert u (s.erase u))
  rw [Finset.sum_insert (Finset.notMem_erase u s)] at hcovered
  have hsum : ∑ x ∈ s, v'.claims x ≤ v'.claims u + ∑ x ∈ s.erase u, v'.claims x := by
    rw [← Finset.sum_insert (Finset.notMem_erase u s)]
    exact Finset.sum_le_sum_of_subset (Finset.subset_insert_iff.mpr subset_rfl)
  have hbalance := h.balance
  omega

end Vault

end IndexDtf.Lib
