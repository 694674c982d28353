import Mathlib.Tactic.Common

/-!
# IndexDtf.Lib.Fallible

**Fallible computations.** A handler that may abort is a function into
`Except ε α`. A success is taken apart with the lemmas below: from the result of
a `do` block they recover the result of each of its stages, so that no proof
about a handler unfolds the monad. Nothing here depends on what `ε` or `α` are.
-/

namespace IndexDtf.Lib

universe u

variable {ε : Type*} {α β σ : Type u}

/-! ### Success of a sequence -/

/-- A sequence succeeds exactly when both of its stages do. -/
theorem bind_eq_ok {x : Except ε α} {f : α → Except ε β} {b : β} :
    (x >>= f) = .ok b ↔ ∃ a, x = .ok a ∧ f a = .ok b := by
  cases x with
  | error e => simp [bind, Except.bind]
  | ok a => simp [bind, Except.bind]

/-- It fails in its first stage or in its second. -/
theorem bind_eq_error {x : Except ε α} {f : α → Except ε β} {e : ε} :
    (x >>= f) = .error e ↔ x = .error e ∨ ∃ a, x = .ok a ∧ f a = .error e := by
  cases x with
  | error e' => simp [bind, Except.bind]
  | ok a => simp [bind, Except.bind]

@[simp] theorem ok_bind (a : α) (f : α → Except ε β) :
    ((Except.ok a : Except ε α) >>= f) = f a := by
  simp only [bind, Except.bind]

@[simp] theorem error_bind (e : ε) (f : α → Except ε β) :
    ((Except.error e : Except ε α) >>= f) = .error e := by
  simp only [bind, Except.bind]

@[simp] theorem pure_eq_ok (a : α) : (pure a : Except ε α) = .ok a := rfl

/-- Whether a computation succeeds with a result of some kind can be decided by running it. -/
instance decidableExistsOk (x : Except ε α) (p : α → Prop) [DecidablePred p] :
    Decidable (∃ a, x = .ok a ∧ p a) :=
  match x with
  | .ok a => decidable_of_iff (p a) (by simp)
  | .error _ => .isFalse (by simp)

/-- So can whether it fails with some error, whatever its results are. -/
instance decidableEqError [DecidableEq ε] (x : Except ε α) (e : ε) : Decidable (x = .error e) :=
  match x with
  | .ok _ => .isFalse nofun
  | .error e' => decidable_of_iff (e' = e) (by simp)

instance decidableExistsSome (x : Option α) (p : α → Prop) [DecidablePred p] :
    Decidable (∃ a, x = some a ∧ p a) :=
  match x with
  | some a => decidable_of_iff (p a) (by simp)
  | none => .isFalse (by simp)

/-! ### Guards -/

/-- Fail with `e` unless `c` holds. -/
def guardOr (e : ε) (c : Prop) [Decidable c] : Except ε Unit :=
  if c then .ok () else .error e

@[simp] theorem guardOr_eq_ok {e : ε} {c : Prop} [Decidable c] {u : Unit} :
    guardOr e c = .ok u ↔ c := by
  unfold guardOr
  split <;> simp_all

theorem guardOr_of {e : ε} {c : Prop} [Decidable c] (h : c) : guardOr e c = .ok () := by
  rw [guardOr, if_pos h]

theorem guardOr_eq_error {e e' : ε} {c : Prop} [Decidable c] :
    guardOr e c = .error e' ↔ ¬ c ∧ e = e' := by
  unfold guardOr
  split <;> simp_all

/-- The value of an option, or the error `e`. -/
def okOr (e : ε) : Option α → Except ε α
  | some a => .ok a
  | none => .error e

@[simp] theorem okOr_eq_ok {e : ε} {o : Option α} {a : α} :
    okOr e o = .ok a ↔ o = some a := by
  cases o <;> simp [okOr]

/-! ### Loops over a list -/

/-- The rule for a fallible loop: an invariant that every successful round keeps
is kept by a successful loop. -/
theorem foldlM_inv {I : σ → Prop} {f : σ → α → Except ε σ} {l : List α} {s s' : σ}
    (step : ∀ s₁ a s₂, a ∈ l → I s₁ → f s₁ a = .ok s₂ → I s₂)
    (hs : I s) (h : l.foldlM f s = .ok s') : I s' := by
  induction l generalizing s with
  | nil =>
      simp only [List.foldlM_nil, pure_eq_ok, Except.ok.injEq] at h
      exact h ▸ hs
  | cons a rest ih =>
      rw [List.foldlM_cons, bind_eq_ok] at h
      obtain ⟨s₁, h₁, h₂⟩ := h
      refine ih (fun _ b _ hb => step _ b _ (List.mem_cons_of_mem a hb)) ?_ h₂
      exact step s a s₁ (List.mem_cons_self ..) hs h₁

/-- Every element has its round in a successful loop. -/
theorem foldlM_round_of_mem {I : σ → Prop} {f : σ → α → Except ε σ} {l : List α} {s s' : σ} {a : α}
    (step : ∀ s₁ b s₂, I s₁ → f s₁ b = .ok s₂ → I s₂) (hs : I s) (h : l.foldlM f s = .ok s')
    (ha : a ∈ l) : ∃ s₁ s₂, I s₁ ∧ f s₁ a = .ok s₂ := by
  induction l generalizing s with
  | nil => cases ha
  | cons b rest ih =>
      rw [List.foldlM_cons, bind_eq_ok] at h
      obtain ⟨s₁, h₁, h₂⟩ := h
      rcases List.mem_cons.mp ha with rfl | hrest
      · exact ⟨s, s₁, hs, h₁⟩
      · exact ih (step s b s₁ hs h₁) h₂ hrest

/-- A loop that fails does so in one of its rounds. -/
theorem foldlM_error {f : σ → α → Except ε σ} {l : List α} {s : σ} {e : ε}
    (h : l.foldlM f s = .error e) :
    ∃ before a after s₁, l = before ++ a :: after ∧ before.foldlM f s = .ok s₁ ∧
      f s₁ a = .error e := by
  induction l generalizing s with
  | nil => cases h
  | cons a rest ih =>
      rw [List.foldlM_cons, bind_eq_error] at h
      rcases h with h | ⟨s₁, hround, h⟩
      · exact ⟨[], a, rest, s, rfl, rfl, h⟩
      · obtain ⟨before, b, after, s₂, rfl, hbefore, hb⟩ := ih h
        refine ⟨a :: before, b, after, s₂, rfl, ?_, hb⟩
        rw [List.foldlM_cons, hround]
        exact hbefore

/-! ### What a computation may fail with -/

/-- Whatever the computation fails with, it satisfies `P`. -/
def FailsIn (P : ε → Prop) (x : Except ε α) : Prop := ∀ e, x = .error e → P e

namespace FailsIn

variable {P Q : ε → Prop} {x : Except ε α} {f : α → Except ε β} {e : ε}

theorem ok (a : α) : FailsIn P (.ok a : Except ε α) := fun _ h => by cases h

theorem error (h : P e) : FailsIn P (.error e : Except ε α) := by
  intro e' he
  cases he
  exact h

theorem mono (h : FailsIn P x) (hPQ : ∀ e, P e → Q e) : FailsIn Q x := fun e he => hPQ e (h e he)

theorem bind (hx : FailsIn P x) (hf : ∀ a, x = .ok a → FailsIn P (f a)) : FailsIn P (x >>= f) := by
  intro e he
  rw [bind_eq_error] at he
  rcases he with he | ⟨a, ha, he⟩
  · exact hx e he
  · exact hf a ha e he

theorem ite {c : Prop} [Decidable c] {x y : Except ε α} (hx : FailsIn P x) (hy : FailsIn P y) :
    FailsIn P (if c then x else y) := by
  split
  · exact hx
  · exact hy

theorem guardOr {c : Prop} [Decidable c] (h : P e) : FailsIn P (guardOr e c) :=
  ite (ok ()) (error h)

end FailsIn

end IndexDtf.Lib
