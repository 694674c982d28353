import Mathlib.Tactic.Common

/-!
# IndexDtf.Lib.Loop

**Loops without a bound.** A loop tests its condition and runs its body, which fails, breaks, or
goes on. What it comes to is a derivation, one rule for each of the ways out and one for a round;
a loop that goes on for ever has none.

* `Runs.unique` — a loop comes to one thing only;
* `Runs.last` — the invariant rule: a loop is left in a state that keeps the invariant, through its
  condition, or out of a last round;
* `evaluate_runs` — the variant rule: with rounds enough, the bounded loop is the loop;
* `evaluate_count` — so is a function that counts the rounds.
-/

namespace IndexDtf.Lib

universe u v

/-- `while cond { body }`. -/
structure Loop (ε : Type u) (σ : Type v) where
  cond : σ → Bool
  /-- A round, which ends in a `break` when it is `done`. -/
  body : σ → Except ε (ForInStep σ)

namespace Loop

variable {ε : Type u} {σ : Type v} {l : Loop ε σ} {s s' : σ} {e : ε}
  {r r' : Except ε (ForInStep σ)}

/-- What a loop comes to: `yield` is the way out through the condition. -/
inductive Runs (l : Loop ε σ) : σ → Except ε (ForInStep σ) → Prop
  | exit {s : σ} (hcond : l.cond s = false) : Runs l s (.ok (.yield s))
  | failed {s : σ} {e : ε} (hcond : l.cond s = true) (hbody : l.body s = .error e) :
      Runs l s (.error e)
  | broke {s s' : σ} (hcond : l.cond s = true) (hbody : l.body s = .ok (.done s')) :
      Runs l s (.ok (.done s'))
  | round {s s' : σ} {r : Except ε (ForInStep σ)} (hcond : l.cond s = true)
      (hbody : l.body s = .ok (.yield s')) (hrest : Runs l s' r) : Runs l s r

theorem Runs.unique (h : l.Runs s r) (h' : l.Runs s r') : r = r' := by
  induction h with
  | exit hcond =>
      cases h' with
      | exit => rfl
      | failed hcond' => exact absurd hcond' (by simp [hcond])
      | broke hcond' => exact absurd hcond' (by simp [hcond])
      | round hcond' => exact absurd hcond' (by simp [hcond])
  | failed hcond hbody =>
      cases h' with
      | exit hcond' => exact absurd hcond (by simp [hcond'])
      | failed _ hbody' => exact congrArg _ (Except.error.inj (hbody.symm.trans hbody'))
      | broke _ hbody' => cases hbody.symm.trans hbody'
      | round _ hbody' => cases hbody.symm.trans hbody'
  | broke hcond hbody =>
      cases h' with
      | exit hcond' => exact absurd hcond (by simp [hcond'])
      | failed _ hbody' => cases hbody.symm.trans hbody'
      | broke _ hbody' => exact congrArg _ (Except.ok.inj (hbody.symm.trans hbody'))
      | round _ hbody' => cases hbody.symm.trans hbody'
  | round hcond hbody _ ih =>
      cases h' with
      | exit hcond' => exact absurd hcond (by simp [hcond'])
      | failed _ hbody' => cases hbody.symm.trans hbody'
      | broke _ hbody' => cases hbody.symm.trans hbody'
      | round _ hbody' hrest' =>
          cases hbody.symm.trans hbody'
          exact ih hrest'

/-- How a loop that kept an invariant was left. -/
def Left (l : Loop ε σ) (I : σ → Prop) : Except ε (ForInStep σ) → Prop
  | .error e => ∃ s, I s ∧ l.cond s = true ∧ l.body s = .error e
  | .ok (.done s') => ∃ s, I s ∧ l.cond s = true ∧ l.body s = .ok (.done s')
  | .ok (.yield s) => I s ∧ l.cond s = false

/-- **The invariant rule.** -/
theorem Runs.last (I : σ → Prop)
    (hround : ∀ s s', I s → l.cond s = true → l.body s = .ok (.yield s') → I s')
    (h : l.Runs s r) (hs : I s) : l.Left I r := by
  induction h with
  | exit hcond => exact ⟨hs, hcond⟩
  | failed hcond hbody => exact ⟨_, hs, hcond, hbody⟩
  | broke hcond hbody => exact ⟨_, hs, hcond, hbody⟩
  | round hcond hbody _ ih => exact ih (hround _ _ hs hcond hbody)

/-- The loop, for a number of rounds at most. -/
def evaluate (l : Loop ε σ) : ℕ → σ → Except ε (ForInStep σ)
  | 0, s => .ok (.yield s)
  | fuel + 1, s =>
      if l.cond s then
        match l.body s with
        | .error e => .error e
        | .ok (.done s') => .ok (.done s')
        | .ok (.yield s') => evaluate l fuel s'
      else .ok (.yield s)

/-- What comes after the body, when `next` is the rest of the loop. -/
def after {τ : Type v} (out : σ → τ) (next : σ → Except ε τ) : ForInStep σ → Except ε τ
  | .done s => .ok (out s)
  | .yield s => next s

section After

variable {τ : Type v} {out : σ → τ} {next : σ → Except ε τ}

@[simp] theorem after_done : after out next (.done s) = .ok (out s) := rfl

@[simp] theorem after_yield : after out next (.yield s) = next s := rfl

@[simp] theorem after_ite {c : Prop} [Decidable c] {step step' : ForInStep σ} :
    after out next (if c then step else step')
      = if c then after out next step else after out next step' := apply_ite ..

end After

/-- A function that counts the rounds of the loop, where they are enough for the states that it is
called in. -/
theorem evaluate_count {τ : Type v} (out : σ → τ) (f : ℕ → σ → Except ε τ) (I : ℕ → σ → Prop)
    {fuel : ℕ} (hzero : ∀ s, I 0 s → f 0 s = .ok (out s))
    (hexit : ∀ k s, I (k + 1) s → l.cond s = false → f (k + 1) s = .ok (out s))
    (hsucc : ∀ k s, I (k + 1) s → l.cond s = true → f (k + 1) s = l.body s >>= after out (f k))
    (hround : ∀ k s s', I (k + 1) s → l.body s = .ok (.yield s') → I k s') (hs : I fuel s) :
    f fuel s = (l.evaluate fuel s).map fun step => out step.value := by
  induction fuel generalizing s with
  | zero => exact hzero s hs
  | succ fuel ih =>
      rw [evaluate]
      split
      · next hcond =>
        rw [hsucc fuel s hs hcond]
        cases hbody : l.body s with
        | error e => rfl
        | ok step =>
            cases step with
            | done s' => rfl
            | yield s' => exact ih (hround fuel s s' hs hbody)
      · next hcond => exact hexit fuel s hs (Bool.eq_false_iff.mpr hcond)

/-- **The variant rule.** A variant that is positive where the loop goes on, and that every round
lowers, bounds the rounds. -/
theorem evaluate_runs (I : σ → Prop) (variant : σ → ℕ) {fuel : ℕ}
    (hpos : ∀ s, I s → l.cond s = true → 0 < variant s)
    (hround : ∀ s s', I s → l.cond s = true → l.body s = .ok (.yield s') →
      I s' ∧ variant s' < variant s)
    (hs : I s) (hfuel : variant s ≤ fuel) : l.Runs s (l.evaluate fuel s) := by
  induction fuel generalizing s with
  | zero =>
      refine .exit ?_
      by_contra hcond
      have := hpos s hs (Bool.not_eq_false _ ▸ hcond)
      omega
  | succ fuel ih =>
      rw [evaluate]
      split
      · next hcond =>
        cases hbody : l.body s with
        | error e => exact .failed hcond hbody
        | ok step =>
            cases step with
            | done s' => exact .broke hcond hbody
            | yield s' =>
                obtain ⟨hs', hlt⟩ := hround s s' hs hcond hbody
                exact .round hcond hbody (ih hs' (by omega))
      · next hcond => exact .exit (Bool.eq_false_iff.mpr hcond)

end Loop

end IndexDtf.Lib
