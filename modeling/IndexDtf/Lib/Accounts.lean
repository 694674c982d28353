import Mathlib.Logic.Function.Basic
import Mathlib.Tactic.Common

/-!
# IndexDtf.Lib.Accounts

**Accounts found by their key.** A store is a partial function of the keys, and a write is
`Function.update`. What holds of every account after a write is what holds of the account
that is written and held of the others before.
-/

namespace IndexDtf.Lib

variable {κ α : Type*} [DecidableEq κ] {store : κ → Option α} {k : κ} {P : κ → α → Prop}

/-- The rule for a write that may close the account. -/
theorem forall_update {o : Option α} (hk : ∀ a, o = some a → P k a)
    (hothers : ∀ k' a, k' ≠ k → store k' = some a → P k' a) :
    ∀ k' a, Function.update store k o k' = some a → P k' a := by
  intro k' a h
  by_cases heq : k' = k
  · subst heq
    rw [Function.update_self] at h
    exact hk a h
  · rw [Function.update_of_ne heq] at h
    exact hothers k' a heq h

/-- The rule for a write of something that all accounts have. -/
theorem forall_update_some {a : α} (hk : P k a) (hothers : ∀ k' a, store k' = some a → P k' a) :
    ∀ k' a', Function.update store k (some a) k' = some a' → P k' a' :=
  forall_update (fun _ h => Option.some.inj h ▸ hk) fun k' a _ => hothers k' a

/-- A write leaves the accounts there that were there. -/
theorem exists_update {a : α} {k' : κ} (h : ∃ b, store k' = some b) :
    ∃ b, Function.update store k (some a) k' = some b := by
  by_cases heq : k' = k
  · exact ⟨a, by rw [heq, Function.update_self]⟩
  · rwa [Function.update_of_ne heq]

end IndexDtf.Lib
