import Mathlib.Tactic.Common
import IndexDtf.Lib.Fallible

/-!
# IndexDtf.Lib.Transition

**Machines whose steps may abort.** A machine is a fallible step function
`step : σ → ι → Except ε σ`; a step that fails leaves the state as it was (the
transaction is rolled back), and a run feeds a list of inputs to the machine.

* `run_inv` — an invariant every successful step keeps holds after every run;
* `run_breaks` — an invariant that fails after a run was broken by one of its steps;
* `RunMeets` — a condition on each input and the state it is fed to, and the
  invariant rule for the runs that meet it;
* `Reachable` — the states some run ends in;
* `trace` — what the successful steps of a run record, and the invariant rule for
  states with the record so far;
* `Steps` — the same for a relation, when one input makes several steps.
-/

namespace IndexDtf.Lib

variable {ε σ ι ω : Type*}

/-- One input, with the roll-back of a failed step. -/
def attempt (step : σ → ι → Except ε σ) (s : σ) (i : ι) : σ :=
  match step s i with
  | .ok s' => s'
  | .error _ => s

/-- A run: the inputs are taken one after the other. -/
def run (step : σ → ι → Except ε σ) (s : σ) (inputs : List ι) : σ :=
  inputs.foldl (attempt step) s

/-- The states a run from an initial state ends in. -/
def Reachable (step : σ → ι → Except ε σ) (init : σ → Prop) (s : σ) : Prop :=
  ∃ s₀ inputs, init s₀ ∧ run step s₀ inputs = s

@[simp] theorem run_nil (step : σ → ι → Except ε σ) (s : σ) : run step s [] = s := rfl

@[simp] theorem run_cons (step : σ → ι → Except ε σ) (s : σ) (i : ι) (rest : List ι) :
    run step s (i :: rest) = run step (attempt step s i) rest := rfl

theorem run_append (step : σ → ι → Except ε σ) (s : σ) (l₁ l₂ : List ι) :
    run step s (l₁ ++ l₂) = run step (run step s l₁) l₂ :=
  List.foldl_append

theorem attempt_ok {step : σ → ι → Except ε σ} {s s' : σ} {i : ι} (h : step s i = .ok s') :
    attempt step s i = s' := by
  rw [attempt, h]

/-- What a step does to a property of states: it ran, or nothing happened. -/
theorem attempt_cases {step : σ → ι → Except ε σ} {s : σ} {i : ι} {P : σ → Prop}
    (hok : ∀ s', step s i = .ok s' → P s') (hs : P s) : P (attempt step s i) := by
  unfold attempt
  split
  · exact hok _ ‹_›
  · exact hs

/-- **The invariant rule.** Only the inputs that occur in the run matter. -/
theorem run_inv {step : σ → ι → Except ε σ} {I : σ → Prop} {inputs : List ι} {s : σ}
    (hstep : ∀ s₁ i s₂, i ∈ inputs → I s₁ → step s₁ i = .ok s₂ → I s₂) (hs : I s) :
    I (run step s inputs) := by
  induction inputs generalizing s with
  | nil => exact hs
  | cons i rest ih =>
      rw [run_cons]
      refine ih (fun s₁ j s₂ hj => hstep s₁ j s₂ (List.mem_cons_of_mem i hj)) ?_
      exact attempt_cases (fun s' h => hstep s i s' (List.mem_cons_self ..) hs h) hs

/-- The step of a run that breaks an invariant for the first time. -/
theorem run_breaks {step : σ → ι → Except ε σ} {I : σ → Prop} {inputs : List ι} {s : σ}
    (hs : I s) (h : ¬ I (run step s inputs)) :
    ∃ before i after s', inputs = before ++ i :: after ∧ I (run step s before) ∧
      step (run step s before) i = .ok s' ∧ ¬ I s' := by
  induction inputs generalizing s with
  | nil => exact absurd hs h
  | cons i rest ih =>
      rw [run_cons] at h
      by_cases hi : I (attempt step s i)
      · -- it comes later
        obtain ⟨before, j, after, s', rfl, hbefore, hstep, hbroken⟩ := ih hi h
        exact ⟨i :: before, j, after, s', rfl, hbefore, hstep, hbroken⟩
      · cases hstep : step s i with
        | ok s' => exact ⟨[], i, rest, s', rfl, hs, hstep, attempt_ok hstep ▸ hi⟩
        | error e =>
            rw [attempt, hstep] at hi
            exact absurd hs hi

/-- Every input of a run meets a condition on the state it is fed to. -/
def RunMeets (step : σ → ι → Except ε σ) (C : σ → ι → Prop) : σ → List ι → Prop
  | _, [] => True
  | s, i :: rest => C s i ∧ RunMeets step C (attempt step s i) rest

instance RunMeets.instDecidable (step : σ → ι → Except ε σ) (C : σ → ι → Prop)
    [∀ s i, Decidable (C s i)] : ∀ s inputs, Decidable (RunMeets step C s inputs)
  | _, [] => .isTrue trivial
  | s, i :: rest =>
      have := RunMeets.instDecidable step C (attempt step s i) rest
      inferInstanceAs (Decidable (C s i ∧ RunMeets step C (attempt step s i) rest))

/-- A condition that always holds. -/
theorem RunMeets.of_forall {step : σ → ι → Except ε σ} {C : σ → ι → Prop}
    (h : ∀ s i, C s i) (s : σ) (inputs : List ι) : RunMeets step C s inputs := by
  induction inputs generalizing s with
  | nil => exact trivial
  | cons i rest ih => exact ⟨h s i, ih _⟩

/-- The condition, input by input. -/
theorem RunMeets.iff_splits {step : σ → ι → Except ε σ} {C : σ → ι → Prop} {s : σ}
    {inputs : List ι} :
    RunMeets step C s inputs ↔
      ∀ before i after, inputs = before ++ i :: after → C (run step s before) i := by
  induction inputs generalizing s with
  | nil =>
      refine iff_of_true trivial fun before i after h => ?_
      exact absurd h.symm (List.append_ne_nil_of_right_ne_nil _ (List.cons_ne_nil i after))
  | cons j rest ih =>
      constructor
      · rintro ⟨hj, hrest⟩ before i after h
        cases before with
        | nil =>
            obtain ⟨rfl, -⟩ := List.cons.inj h
            exact hj
        | cons k before =>
            obtain ⟨rfl, htail⟩ := List.cons.inj h
            exact ih.mp hrest before i after htail
      · intro h
        refine ⟨h [] j rest rfl, ih.mpr fun before i after hrest => ?_⟩
        exact h (j :: before) i after (by rw [hrest, List.cons_append])

theorem RunMeets.append {step : σ → ι → Except ε σ} {C : σ → ι → Prop} {s : σ} {l₁ l₂ : List ι} :
    RunMeets step C s (l₁ ++ l₂) ↔ RunMeets step C s l₁ ∧ RunMeets step C (run step s l₁) l₂ := by
  induction l₁ generalizing s with
  | nil => exact (and_iff_right trivial).symm
  | cons i rest ih =>
      rw [List.cons_append, RunMeets, RunMeets, ih, run_cons, and_assoc]

/-- The invariant rule for runs whose inputs meet a condition. -/
theorem RunMeets.inv {step : σ → ι → Except ε σ} {C : σ → ι → Prop} {I : σ → Prop} {s : σ}
    {inputs : List ι} (hstep : ∀ s₁ i s₂, C s₁ i → I s₁ → step s₁ i = .ok s₂ → I s₂)
    (h : RunMeets step C s inputs) (hs : I s) : I (run step s inputs) := by
  induction inputs generalizing s with
  | nil => exact hs
  | cons i rest ih =>
      obtain ⟨hc, hrest⟩ := h
      rw [run_cons]
      exact ih hrest (attempt_cases (fun s' h => hstep s i s' hc hs h) hs)

/-- The invariant rule for reachable states. -/
theorem Reachable.inv {step : σ → ι → Except ε σ} {init I : σ → Prop} {s : σ}
    (hinit : ∀ s₀, init s₀ → I s₀)
    (hstep : ∀ s₁ i s₂, I s₁ → step s₁ i = .ok s₂ → I s₂)
    (h : Reachable step init s) : I s := by
  obtain ⟨s₀, inputs, h₀, rfl⟩ := h
  exact run_inv (fun s₁ i s₂ _ => hstep s₁ i s₂) (hinit s₀ h₀)

/-- Reachability is closed under runs. -/
theorem Reachable.run {step : σ → ι → Except ε σ} {init : σ → Prop} {s : σ}
    (h : Reachable step init s) (inputs : List ι) : Reachable step init (run step s inputs) := by
  obtain ⟨s₀, before, h₀, rfl⟩ := h
  exact ⟨s₀, before ++ inputs, h₀, run_append step s₀ before inputs⟩

/-- Reachability is closed under successful steps. -/
theorem Reachable.step {step : σ → ι → Except ε σ} {init : σ → Prop} {s s' : σ} {i : ι}
    (h : Reachable step init s) (hi : step s i = .ok s') : Reachable step init s' := by
  have := h.run [i]
  rwa [run_cons, run_nil, attempt_ok hi] at this

/-! ### Records -/

/-- What a run records: each successful step adds something to the record. -/
def trace (step : σ → ι → Except ε σ) (record : σ → ι → List ω) : σ → List ι → List ω
  | _, [] => []
  | s, i :: rest =>
      (match step s i with
        | .ok _ => record s i
        | .error _ => []) ++ trace step record (attempt step s i) rest

/-- The invariant rule for a state and the record so far. Only the inputs that occur in the run
matter. -/
theorem trace_inv_of_mem {step : σ → ι → Except ε σ} {record : σ → ι → List ω}
    {I : σ → List ω → Prop} {s : σ} {p : List ω} {inputs : List ι}
    (hstep : ∀ s₁ past i s₂, i ∈ inputs → I s₁ past → step s₁ i = .ok s₂ →
      I s₂ (past ++ record s₁ i))
    (hs : I s p) : I (run step s inputs) (p ++ trace step record s inputs) := by
  induction inputs generalizing s p with
  | nil => simpa only [run_nil, trace, List.append_nil] using hs
  | cons i rest ih =>
      have hrest : ∀ s₁ past j s₂, j ∈ rest → I s₁ past → step s₁ j = .ok s₂ →
          I s₂ (past ++ record s₁ j) :=
        fun s₁ past j s₂ hj => hstep s₁ past j s₂ (List.mem_cons_of_mem i hj)
      rw [run_cons, trace, attempt, ← List.append_assoc]
      split
      · exact ih hrest (hstep s p i _ (List.mem_cons_self ..) hs ‹_›)
      · exact ih hrest (by simpa only [List.append_nil] using hs)

theorem trace_inv {step : σ → ι → Except ε σ} {record : σ → ι → List ω} {I : σ → List ω → Prop}
    {s : σ} {p : List ω} (inputs : List ι)
    (hstep : ∀ s₁ past i s₂, I s₁ past → step s₁ i = .ok s₂ → I s₂ (past ++ record s₁ i))
    (hs : I s p) : I (run step s inputs) (p ++ trace step record s inputs) :=
  trace_inv_of_mem (fun s₁ past i s₂ _ => hstep s₁ past i s₂) hs

/-- The invariant rule, for the state alone. Only what is recorded matters. -/
theorem trace_keeps_of_mem {step : σ → ι → Except ε σ} (record : σ → ι → List ω) {I : σ → Prop}
    {s : σ} {inputs : List ι}
    (hstep : ∀ s₁ i s₂, (∀ e ∈ record s₁ i, e ∈ trace step record s inputs) → I s₁ →
      step s₁ i = .ok s₂ → I s₂) (hs : I s) : I (run step s inputs) := by
  induction inputs generalizing s with
  | nil => exact hs
  | cons i rest ih =>
      rw [run_cons]
      refine ih (fun s₁ j s₂ hmem => hstep s₁ j s₂ fun e he => ?_)
        (attempt_cases (fun s' h => ?_) hs)
      · exact List.mem_append_right _ (hmem e he)
      · refine hstep s i s' (fun e he => ?_) hs h
        rw [trace, h]
        exact List.mem_append_left _ he

/-- When a step keeps an invariant exactly if its input meets a condition, the invariant holds all
along a run exactly if each of its successful steps meets it. -/
theorem trace_inv_iff {step : σ → ι → Except ε σ} {record : σ → ι → List ω}
    {I : σ → List ω → Prop} {C : σ → ι → Prop} {s : σ} {p : List ω} {inputs : List ι}
    (hstep : ∀ s₁ past i s₂, i ∈ inputs → I s₁ past → step s₁ i = .ok s₂ →
      (I s₂ (past ++ record s₁ i) ↔ C s₁ i))
    (hs : I s p) :
    (∀ before, before <+: inputs → I (run step s before) (p ++ trace step record s before)) ↔
      RunMeets step (fun s i => (∃ s', step s i = .ok s') → C s i) s inputs := by
  induction inputs generalizing s p with
  | nil =>
      refine ⟨fun _ => trivial, fun _ before hbefore => ?_⟩
      rw [List.prefix_nil.mp hbefore]
      simpa only [run_nil, trace, List.append_nil] using hs
  | cons i rest ih =>
      have ih {s p} := @ih s p fun s₁ past j s₂ hj =>
        hstep s₁ past j s₂ (List.mem_cons_of_mem i hj)
      have hfirst : I (attempt step s i)
          (p ++ match step s i with | .ok _ => record s i | .error _ => []) ↔
            ((∃ s', step s i = .ok s') → C s i) := by
        unfold attempt
        cases hi : step s i with
        | ok s' => simpa using hstep s p i s' (List.mem_cons_self ..) hs hi
        | error e => simpa using hs
      constructor
      · intro h
        have hone := h [i] ⟨rest, rfl⟩
        rw [run_cons, run_nil, trace, trace, List.append_nil] at hone
        refine ⟨hfirst.mp hone, (ih hone).mp fun before hbefore => ?_⟩
        have hlong := h (i :: before) (List.cons_prefix_cons.mpr ⟨rfl, hbefore⟩)
        rwa [run_cons, trace, ← List.append_assoc] at hlong
      · rintro ⟨hi, hrest⟩ before hbefore
        rcases List.prefix_cons_iff.mp hbefore with rfl | ⟨later, rfl, hlater⟩
        · simpa only [run_nil, trace, List.append_nil] using hs
        · rw [run_cons, trace, ← List.append_assoc]
          exact (ih (hfirst.mpr hi)).mpr hrest later hlater

theorem run_inv_iff {step : σ → ι → Except ε σ} {I : σ → Prop} {C : σ → ι → Prop} {s : σ}
    {inputs : List ι}
    (hstep : ∀ s₁ i s₂, i ∈ inputs → I s₁ → step s₁ i = .ok s₂ → (I s₂ ↔ C s₁ i)) (hs : I s) :
    (∀ before, before <+: inputs → I (run step s before)) ↔
      RunMeets step (fun s i => (∃ s', step s i = .ok s') → C s i) s inputs := by
  have hrecord := @trace_inv_iff ε σ ι Unit step (fun _ _ => []) (fun s _ => I s) C s [] inputs
    (fun s₁ _ i s₂ => hstep s₁ i s₂) hs
  exact hrecord

/-- Steps of a relation one after the other, with what they record. -/
inductive Steps (R : σ → List ω → σ → Prop) : σ → List ω → σ → Prop
  | refl (s : σ) : Steps R s [] s
  | head {s s₁ s₂ : σ} {log rest : List ω} (h : R s log s₁) (t : Steps R s₁ rest s₂) :
      Steps R s (log ++ rest) s₂

namespace Steps

variable {R : σ → List ω → σ → Prop} {s s₁ s₂ : σ} {log log₁ log₂ : List ω}

theorem single (h : R s log s₁) : Steps R s log s₁ := by
  simpa only [List.append_nil] using Steps.head h (.refl s₁)

theorem trans (h : Steps R s log₁ s₁) (h' : Steps R s₁ log₂ s₂) :
    Steps R s (log₁ ++ log₂) s₂ := by
  induction h with
  | refl s => exact h'
  | head h t ih =>
      rw [List.append_assoc]
      exact .head h (ih h')

/-- Steps that record nothing. -/
theorem trans_nil (h : Steps R s [] s₁) (h' : Steps R s₁ [] s₂) : Steps R s [] s₂ :=
  h.trans h'

/-- The invariant rule, for a state and the record so far. -/
theorem inv {I : σ → List ω → Prop} {p : List ω}
    (hstep : ∀ s past log s', I s past → R s log s' → I s' (past ++ log))
    (h : Steps R s log s₁) (hs : I s p) : I s₁ (p ++ log) := by
  induction h generalizing p with
  | refl s => simpa only [List.append_nil] using hs
  | head h t ih =>
      rw [← List.append_assoc]
      exact ih (hstep _ _ _ _ hs h)

/-- The step that records something, and the steps around it. -/
theorem split_of_mem (h : Steps R s log s₁) {e : ω} (he : e ∈ log) :
    ∃ before past after s' s'', Steps R s before s' ∧ R s' past s'' ∧ e ∈ past ∧
      Steps R s'' after s₁ ∧ log = before ++ past ++ after := by
  induction h with
  | refl s => cases he
  | @head s s' s₁ past rest h t ih =>
      rcases List.mem_append.mp he with hpast | hrest
      · exact ⟨[], past, rest, s, s', .refl s, h, hpast, t, rfl⟩
      · obtain ⟨before, past', after, s₂, s₃, hbefore, hstep, hmem, hafter, rfl⟩ := ih hrest
        exact ⟨past ++ before, past', after, s₂, s₃, .head h hbefore, hstep, hmem, hafter,
          by simp only [List.append_assoc]⟩

/-- The invariant rule, for the state alone. Only what is recorded matters. -/
theorem keeps_of_mem {I : σ → Prop}
    (hstep : ∀ s past s', (∀ e ∈ past, e ∈ log) → I s → R s past s' → I s')
    (h : Steps R s log s₁) (hs : I s) : I s₁ := by
  induction h with
  | refl s => exact hs
  | @head s s' s₁ past rest h t ih =>
      refine ih (fun s₂ past' s₃ hmem => hstep s₂ past' s₃ fun e he => ?_) ?_
      · exact List.mem_append_right past (hmem e he)
      · exact hstep s past s' (fun e he => List.mem_append_left rest he) hs h

theorem keeps {I : σ → Prop} (hstep : ∀ s log s', I s → R s log s' → I s')
    (h : Steps R s log s₁) (hs : I s) : I s₁ :=
  h.inv (I := fun s _ => I s) (p := []) (fun s _ log s' => hstep s log s') hs

end Steps

end IndexDtf.Lib
