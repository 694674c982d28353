import Mathlib.Data.List.AList
import Mathlib.Algebra.Order.BigOperators.Group.Finset
import Mathlib.Algebra.Ring.Nat
import Mathlib.Tactic.Common

/-!
# IndexDtf.Lib.Store

**Finite stores of keyed accounts.** Where a sum over all accounts matters a partial function
is not enough: a store is an association list whose keys are distinct, Mathlib's `AList`.

* `Extends` — a store with the accounts of another one, which may have changed, and new ones;
* `total` — the sum of a weight over the accounts of a store, and what inserting, replacing
  and erasing an account do to it;
* `count` — the number of accounts of some kind, the special case of `total` with weight 1;
* `Sums`, `Counts` — accounts that sum up or count the items of another store, and what keeps
  them exact;
* `domain` — the keys of the accounts of some kind, a finite set of size `count`.
-/

namespace IndexDtf.Lib

/-- A finite store of accounts of type `α` under keys of type `κ`. -/
abbrev Store (κ : Type*) (α : Type*) := AList fun _ : κ => α

namespace Store

variable {κ α : Type*} [DecidableEq κ]

/-! ### Lookups -/

theorem lookup_insert_eq (s : Store κ α) (k k' : κ) (a : α) :
    (s.insert k a).lookup k' = if k' = k then some a else s.lookup k' := by
  by_cases h : k' = k
  · rw [if_pos h, h, AList.lookup_insert]
  · rw [if_neg h, AList.lookup_insert_ne h]

theorem lookup_erase_eq (s : Store κ α) (k k' : κ) :
    (s.erase k).lookup k' = if k' = k then none else s.lookup k' := by
  by_cases h : k' = k
  · rw [if_pos h, h, AList.lookup_erase]
  · rw [if_neg h, AList.lookup_erase_ne h]

/-- An empty store has no account. -/
theorem forall_empty {P : κ → α → Prop} :
    ∀ k a, (∅ : Store κ α).lookup k = some a → P k a := by
  intro k a h
  rw [AList.lookup_empty] at h
  cases h

/-- What holds of every account after a write. -/
theorem forall_insert {P : κ → α → Prop} {s : Store κ α} {k : κ} {a : α} (hk : P k a)
    (hothers : ∀ k' b, k' ≠ k → s.lookup k' = some b → P k' b) :
    ∀ k' b, (s.insert k a).lookup k' = some b → P k' b := by
  intro k' b h
  rw [lookup_insert_eq] at h
  split at h
  · next heq =>
      cases h
      rw [heq]
      exact hk
  · next heq => exact hothers k' b heq h

/-- And after an account was closed. -/
theorem forall_erase {P : κ → α → Prop} {s : Store κ α} {k : κ}
    (hothers : ∀ k' b, k' ≠ k → s.lookup k' = some b → P k' b) :
    ∀ k' b, (s.erase k).lookup k' = some b → P k' b := by
  intro k' b h
  rw [lookup_erase_eq] at h
  split at h
  · cases h
  · next heq => exact hothers k' b heq h

/-- An account of the list is found under its key. -/
theorem lookup_eq_some_iff {s : Store κ α} {k : κ} {a : α} :
    s.lookup k = some a ↔ (⟨k, a⟩ : Sigma fun _ : κ => α) ∈ s.entries :=
  AList.mem_lookup_iff

theorem mem_of_lookup {s : Store κ α} {k : κ} {a : α} (h : s.lookup k = some a) : k ∈ s :=
  AList.lookup_isSome.mp (by rw [h]; rfl)

theorem exists_lookup_of_mem {s : Store κ α} {k : κ} (h : k ∈ s) : ∃ a, s.lookup k = some a :=
  Option.isSome_iff_exists.mp (AList.lookup_isSome.mpr h)

/-- Writing an account closes none. -/
theorem mem_insert_of_mem {s : Store κ α} {k k' : κ} {a : α} (h : k' ∈ s) : k' ∈ s.insert k a :=
  AList.mem_insert s |>.mpr (.inr h)

/-! ### Extensions -/

/-- `s'` has the accounts of `s`, each as `R` admits it, and new ones as `N` admits them. -/
structure Extends (R : α → α → Prop) (N : κ → α → Prop) (s s' : Store κ α) : Prop where
  keeps : ∀ k a, s.lookup k = some a → ∃ a', s'.lookup k = some a' ∧ R a a'
  opens : ∀ k a', s.lookup k = none → s'.lookup k = some a' → N k a'

namespace Extends

variable {R : α → α → Prop} {N : κ → α → Prop} {s s' : Store κ α} {k : κ} {a a' : α}

theorem refl (hR : ∀ a, R a a) (s : Store κ α) : Extends R N s s where
  keeps _ a h := ⟨a, h, hR a⟩
  opens _ _ hnone h := by
    rw [hnone] at h
    cases h

/-- An account is written. -/
theorem write (hR : ∀ a, R a a) (hk : s.lookup k = some a) (ha : R a a') :
    Extends R N s (s.insert k a') where
  keeps k₁ a₁ h := by
    by_cases heq : k₁ = k
    · subst heq
      rw [hk] at h
      cases h
      exact ⟨a', AList.lookup_insert _, ha⟩
    · exact ⟨a₁, (AList.lookup_insert_ne heq).trans h, hR a₁⟩
  opens k₁ a₁ hnone h := by
    have heq : k₁ ≠ k := by
      rintro rfl
      rw [hk] at hnone
      cases hnone
    rw [AList.lookup_insert_ne heq, hnone] at h
    cases h

/-- An account is opened. -/
theorem openNew (hR : ∀ a, R a a) (hk : s.lookup k = none) (ha : N k a') :
    Extends R N s (s.insert k a') where
  keeps k₁ a₁ h := by
    have heq : k₁ ≠ k := by
      rintro rfl
      rw [hk] at h
      cases h
    exact ⟨a₁, (AList.lookup_insert_ne heq).trans h, hR a₁⟩
  opens k₁ a₁ hnone h := by
    by_cases heq : k₁ = k
    · subst heq
      rw [AList.lookup_insert] at h
      cases h
      exact ha
    · rw [AList.lookup_insert_ne heq, hnone] at h
      cases h

/-- An account of the extension is an account of the store or a new one. -/
theorem cases (h : Extends R N s s') (hk : s'.lookup k = some a') :
    (∃ a, s.lookup k = some a ∧ R a a') ∨ (s.lookup k = none ∧ N k a') := by
  cases hs : s.lookup k with
  | none => exact .inr ⟨rfl, h.opens k a' hs hk⟩
  | some a =>
      obtain ⟨a₁, ha₁, hR⟩ := h.keeps k a hs
      rw [hk] at ha₁
      cases ha₁
      exact .inl ⟨a, rfl, hR⟩

theorem mem (h : Extends R N s s') (hk : k ∈ s) : k ∈ s' := by
  obtain ⟨a, ha⟩ := exists_lookup_of_mem hk
  obtain ⟨a', ha', -⟩ := h.keeps k a ha
  exact mem_of_lookup ha'

theorem mono {R' : α → α → Prop} {N' : κ → α → Prop} (h : Extends R N s s')
    (hR : ∀ a a', R a a' → R' a a') (hN : ∀ k a, N k a → N' k a) : Extends R' N' s s' where
  keeps k a hk := by
    obtain ⟨a', ha', ha⟩ := h.keeps k a hk
    exact ⟨a', ha', hR a a' ha⟩
  opens k a' hk hk' := hN k a' (h.opens k a' hk hk')

/-- Extensions compose, when nothing new is opened. -/
theorem trans {s'' : Store κ α} (h : Extends R (fun _ _ => False) s s')
    (h' : Extends R (fun _ _ => False) s' s'')
    (hR : ∀ a a' a'', R a a' → R a' a'' → R a a'') :
    Extends R (fun _ _ => False) s s'' where
  keeps k a hk := by
    obtain ⟨a', ha', ha⟩ := h.keeps k a hk
    obtain ⟨a'', ha'', ha₁⟩ := h'.keeps k a' ha'
    exact ⟨a'', ha'', hR a a' a'' ha ha₁⟩
  opens k a'' hk hk'' := by
    rcases h'.cases hk'' with ⟨a', ha', -⟩ | ⟨-, hfalse⟩
    · exact h.opens k a' hk ha'
    · exact hfalse

end Extends

/-! ### Totals -/

/-- The sum of the weights `f` of the accounts. -/
def total (f : κ → α → ℕ) (s : Store κ α) : ℕ := (s.entries.map fun e => f e.1 e.2).sum

variable {f g : κ → α → ℕ} {s : Store κ α} {k : κ} {a b : α}

omit [DecidableEq κ] in
@[simp] theorem total_empty (f : κ → α → ℕ) : total f (∅ : Store κ α) = 0 := rfl

theorem sum_kerase (f : κ → α → ℕ) (l : List (Sigma fun _ : κ => α)) (k : κ) :
    (l.map fun e => f e.1 e.2).sum =
      (l.dlookup k).elim 0 (f k) + ((l.kerase k).map fun e => f e.1 e.2).sum := by
  induction l with
  | nil => rfl
  | cons e rest ih =>
      by_cases h : k = e.1
      · obtain ⟨k', a⟩ := e
        cases h
        rw [List.kerase_cons_eq rfl, List.dlookup_cons_eq, List.map_cons, List.sum_cons]
        rfl
      · rw [List.kerase_cons_ne h, List.dlookup_cons_ne _ _ h, List.map_cons, List.sum_cons, ih,
          List.map_cons, List.sum_cons]
        omega

/-- A total is the weight of one account and the total of the others. -/
theorem total_eq_add_erase (f : κ → α → ℕ) (s : Store κ α) (k : κ) :
    total f s = (s.lookup k).elim 0 (f k) + total f (s.erase k) :=
  sum_kerase f s.entries k

theorem total_insert_eq (f : κ → α → ℕ) (s : Store κ α) (k : κ) (a : α) :
    total f (s.insert k a) = f k a + total f (s.erase k) := by
  rw [total, AList.entries_insert, List.map_cons, List.sum_cons]
  rfl

/-- An account is written, or opened. -/
theorem total_insert_add (f : κ → α → ℕ) (s : Store κ α) (k : κ) (a : α) :
    total f (s.insert k a) + (s.lookup k).elim 0 (f k) = total f s + f k a := by
  rw [total_insert_eq, total_eq_add_erase f s k]
  omega

/-- Opening an account adds its weight. -/
theorem total_insert_of_none (h : s.lookup k = none) :
    total f (s.insert k a) = total f s + f k a := by
  rw [total_insert_eq, total_eq_add_erase f s k, h]
  simp only [Option.elim_none]
  omega

/-- Writing an account replaces its weight. -/
theorem total_insert_of_some (h : s.lookup k = some b) :
    total f (s.insert k a) + f k b = total f s + f k a := by
  rw [total_insert_eq, total_eq_add_erase f s k, h]
  simp only [Option.elim_some]
  omega

/-- Closing an account takes its weight away. -/
theorem total_erase_of_some (h : s.lookup k = some b) :
    total f (s.erase k) + f k b = total f s := by
  rw [total_eq_add_erase f s k, h]
  simp only [Option.elim_some]
  omega

/-- A write that does not change the weight of its account does not change the total. -/
theorem total_insert_of_eq (h : s.lookup k = some b) (hw : f k a = f k b) :
    total f (s.insert k a) = total f s := by
  have := total_insert_of_some (f := f) (a := a) h
  omega

/-- No account weighs more than all of them. -/
theorem le_total (h : s.lookup k = some b) : f k b ≤ total f s := by
  have := total_erase_of_some (f := f) h
  omega

omit [DecidableEq κ] in
theorem sum_map_le {l : List (Sigma fun _ : κ => α)} (h : ∀ e ∈ l, f e.1 e.2 ≤ g e.1 e.2) :
    (l.map fun e => f e.1 e.2).sum ≤ (l.map fun e => g e.1 e.2).sum := by
  induction l with
  | nil => exact le_rfl
  | cons e rest ih =>
      rw [List.map_cons, List.sum_cons, List.map_cons, List.sum_cons]
      have hhead := h e (List.mem_cons_self ..)
      have htail := ih fun e' he' => h e' (List.mem_cons_of_mem e he')
      omega

/-- Totals compare account by account. -/
theorem total_mono (h : ∀ k a, s.lookup k = some a → f k a ≤ g k a) : total f s ≤ total g s :=
  sum_map_le fun e he => h e.1 e.2 (lookup_eq_some_iff.mpr he)

theorem total_congr (h : ∀ k a, s.lookup k = some a → f k a = g k a) : total f s = total g s :=
  le_antisymm (total_mono fun k a hk => (h k a hk).le) (total_mono fun k a hk => (h k a hk).ge)

omit [DecidableEq κ] in
/-- Weights add up account by account. -/
theorem total_add (f g : κ → α → ℕ) (s : Store κ α) :
    total (fun k a => f k a + g k a) s = total f s + total g s := by
  unfold total
  induction s.entries with
  | nil => rfl
  | cons e rest ih =>
      simp only [List.map_cons, List.sum_cons, ih]
      omega

theorem total_eq_zero (h : ∀ k a, s.lookup k = some a → f k a = 0) : total f s = 0 := by
  have hzero : total (fun (_ : κ) (_ : α) => 0) s = 0 := by
    unfold total
    induction s.entries with
    | nil => rfl
    | cons e rest ih => simpa only [List.map_cons, List.sum_cons, Nat.zero_add] using ih
  rw [total_congr h, hzero]

section Groups

variable {γ : Type*} [DecidableEq γ] {group : κ → γ} {g : γ} {w : κ → α → ℕ}

/-- The total of a group is not changed by an account of another one. -/
theorem total_insert_of_ne (h : group k ≠ g) :
    total (fun k a => if group k = g then w k a else 0) (s.insert k a) =
      total (fun k a => if group k = g then w k a else 0) s := by
  have hadd := total_insert_add (fun k a => if group k = g then w k a else 0) s k a
  cases hk : s.lookup k with
  | none => simpa [hk, h] using hadd
  | some b => simpa [hk, h] using hadd

/-- An account of the group is written, or opened. -/
theorem total_insert_of_group (h : group k = g) :
    total (fun k a => if group k = g then w k a else 0) (s.insert k a) +
      (s.lookup k).elim 0 (w k) =
    total (fun k a => if group k = g then w k a else 0) s + w k a := by
  have hadd := total_insert_add (fun k a => if group k = g then w k a else 0) s k a
  cases hk : s.lookup k with
  | none => simpa [hk, h] using hadd
  | some b => simpa [hk, h] using hadd

end Groups

/-- A total is taken over the keys. -/
theorem total_eq_sum_keys (f : κ → α → ℕ) (s : Store κ α) :
    total f s = (s.keys.map fun k => (s.lookup k).elim 0 (f k)).sum := by
  rw [total, AList.keys, List.keys, List.map_map]
  refine congrArg List.sum (List.map_congr_left fun e he => ?_)
  rw [Function.comp_apply, lookup_eq_some_iff.mpr he, Option.elim_some]

theorem total_eq_sum (f : κ → α → ℕ) (s : Store κ α) :
    total f s = ∑ k ∈ s.keys.toFinset, (s.lookup k).elim 0 (f k) := by
  rw [total_eq_sum_keys, List.sum_toFinset _ s.keys_nodup]

/-- Totals compare along a map of the keys: no two accounts that weigh anything are mapped to the
same one, and each weighs no more than the one it is mapped to. -/
theorem total_le_of_injOn {ι β : Type*} [DecidableEq ι] {items : Store ι β} {g : ι → β → ℕ}
    {φ : κ → ι}
    (hφ : ∀ k a, s.lookup k = some a → f k a ≠ 0 →
      ∃ b, items.lookup (φ k) = some b ∧ f k a ≤ g (φ k) b)
    (hinj : ∀ k k' a a', s.lookup k = some a → s.lookup k' = some a' → f k a ≠ 0 →
      f k' a' ≠ 0 → φ k = φ k' → k = k') : total f s ≤ total g items := by
  have hsome : ∀ k, (s.lookup k).elim 0 (f k) ≠ 0 → ∃ a, s.lookup k = some a ∧ f k a ≠ 0 := by
    intro k hk
    cases hs : s.lookup k with
    | none =>
        rw [hs] at hk
        exact absurd rfl hk
    | some a =>
        rw [hs] at hk
        exact ⟨a, rfl, hk⟩
  have hle : ∀ k, (s.lookup k).elim 0 (f k) ≠ 0 →
      (s.lookup k).elim 0 (f k) ≤ (items.lookup (φ k)).elim 0 (g (φ k)) ∧ φ k ∈ items := by
    intro k hk
    obtain ⟨a, ha, hne⟩ := hsome k hk
    obtain ⟨b, hb, hle⟩ := hφ k a ha hne
    rw [ha, hb]
    exact ⟨hle, mem_of_lookup hb⟩
  rw [total_eq_sum, total_eq_sum, ← Finset.sum_filter_ne_zero]
  calc ∑ k ∈ s.keys.toFinset with (s.lookup k).elim 0 (f k) ≠ 0, (s.lookup k).elim 0 (f k)
      ≤ ∑ k ∈ s.keys.toFinset with (s.lookup k).elim 0 (f k) ≠ 0,
          (items.lookup (φ k)).elim 0 (g (φ k)) :=
        Finset.sum_le_sum fun k hk => (hle k (Finset.mem_filter.mp hk).2).1
    _ = ∑ i ∈ (s.keys.toFinset.filter fun k => (s.lookup k).elim 0 (f k) ≠ 0).image φ,
          (items.lookup i).elim 0 (g i) := by
        rw [Finset.sum_image]
        intro k hk k' hk' heq
        obtain ⟨a, ha, hne⟩ := hsome k (Finset.mem_filter.mp hk).2
        obtain ⟨a', ha', hne'⟩ := hsome k' (Finset.mem_filter.mp hk').2
        exact hinj k k' a a' ha ha' hne hne' heq
    _ ≤ ∑ i ∈ items.keys.toFinset, (items.lookup i).elim 0 (g i) := by
        refine Finset.sum_le_sum_of_subset fun i hi => ?_
        obtain ⟨k, hk, rfl⟩ := Finset.mem_image.mp hi
        exact List.mem_toFinset.mpr (AList.mem_keys.mp (hle k (Finset.mem_filter.mp hk).2).2)

/-- An extension with nothing new has the same totals. -/
theorem Extends.total_eq {R : α → α → Prop} {s s' : Store κ α}
    (h : Extends R (fun _ _ => False) s s') (hf : ∀ k a a', R a a' → f k a' = f k a) :
    total f s' = total f s := by
  have hlookup : ∀ k, (s'.lookup k).elim 0 (f k) = (s.lookup k).elim 0 (f k) := by
    intro k
    cases hs' : s'.lookup k with
    | some a' =>
        rcases h.cases hs' with ⟨a, hs, hR⟩ | ⟨-, hfalse⟩
        · rw [hs, Option.elim_some, Option.elim_some, hf k a a' hR]
        · exact hfalse.elim
    | none =>
        cases hs : s.lookup k with
        | none => rfl
        | some a =>
            obtain ⟨a', ha', -⟩ := h.keeps k a hs
            rw [hs'] at ha'
            cases ha'
  have hkeys : s'.keys.Perm s.keys := by
    refine (List.perm_ext_iff_of_nodup s'.keys_nodup s.keys_nodup).mpr fun k =>
      ⟨fun hk => ?_, h.mem⟩
    obtain ⟨a', ha'⟩ := exists_lookup_of_mem (AList.mem_keys.mpr hk)
    rcases h.cases ha' with ⟨a, ha, -⟩ | ⟨-, hfalse⟩
    · exact mem_of_lookup ha
    · exact hfalse.elim
  rw [total_eq_sum_keys, total_eq_sum_keys, List.map_congr_left fun k _ => hlookup k]
  exact (hkeys.map _).sum_nat

/-! ### Counts -/

variable {p q : κ → α → Prop} [∀ k a, Decidable (p k a)] [∀ k a, Decidable (q k a)]

/-- The number of accounts of some kind. -/
def count (p : κ → α → Prop) [∀ k a, Decidable (p k a)] (s : Store κ α) : ℕ :=
  total (fun k a => if p k a then 1 else 0) s

omit [DecidableEq κ] in
@[simp] theorem count_empty : count p (∅ : Store κ α) = 0 := rfl

theorem count_erase_of_some (h : s.lookup k = some b) :
    count p (s.erase k) + (if p k b then 1 else 0) = count p s :=
  total_erase_of_some h

theorem count_mono (h : ∀ k a, s.lookup k = some a → p k a → q k a) : count p s ≤ count q s := by
  refine total_mono fun k a hk => ?_
  by_cases hp : p k a
  · rw [if_pos hp, if_pos (h k a hk hp)]
  · rw [if_neg hp]
    exact Nat.zero_le _

/-- An account of the kind makes the count positive. -/
theorem count_pos (h : s.lookup k = some b) (hp : p k b) : 0 < count p s := by
  have := le_total (f := fun k a => if p k a then 1 else 0) h
  simp only [if_pos hp] at this
  exact this

/-- One account more of a wider kind makes its count greater. -/
theorem count_lt (h : ∀ k a, s.lookup k = some a → p k a → q k a) (hk : s.lookup k = some b)
    (hq : q k b) (hp : ¬ p k b) : count p s < count q s := by
  have hle : count p (s.erase k) ≤ count q (s.erase k) := by
    refine count_mono fun k' a hk' => h k' a ?_
    rw [lookup_erase_eq] at hk'
    split at hk'
    · cases hk'
    · exact hk'
  have hcountp := count_erase_of_some (p := p) hk
  have hcountq := count_erase_of_some (p := q) hk
  rw [if_neg hp] at hcountp
  rw [if_pos hq] at hcountq
  omega

theorem count_eq_zero_iff : count p s = 0 ↔ ∀ k a, s.lookup k = some a → ¬ p k a := by
  constructor
  · intro h k a hk hp
    have := count_pos hk hp
    omega
  · intro h
    exact total_eq_zero fun k a hk => if_neg (h k a hk)

/-- When all accounts of a wider kind are counted, they are of the narrower one. -/
theorem of_count_eq (hpq : ∀ k a, s.lookup k = some a → p k a → q k a)
    (h : count p s = count q s) (hk : s.lookup k = some b) (hq : q k b) : p k b := by
  by_contra hp
  have hsplit : count p s + count (fun k a => q k a ∧ ¬ p k a) s ≤ count q s := by
    rw [count, count, ← total_add]
    refine total_mono fun k' a hk' => ?_
    have := hpq k' a hk'
    by_cases hp' : p k' a <;> by_cases hq' : q k' a <;> simp_all
  have hpos : 0 < count (fun k a => q k a ∧ ¬ p k a) s := count_pos hk ⟨hq, hp⟩
  omega

/-! ### Counters -/

section Counters

variable {ι β : Type*} [DecidableEq ι]

/-- The accounts of `s` sum up items: the number `n` in an account is the total weight `w` of the
items that `f` assigns to its key. -/
def Sums (n : α → ℕ) (f : ι → β → κ) (w : ι → β → ℕ) (s : Store κ α) (items : Store ι β) : Prop :=
  ∀ k a, s.lookup k = some a → n a = total (fun i b => if f i b = k then w i b else 0) items

namespace Sums

variable {n : α → ℕ} {f : ι → β → κ} {w : ι → β → ℕ} {s s' : Store κ α} {items : Store ι β}
  {i : ι} {b b' : β} {k : κ} {a a' : α}

omit [DecidableEq ι] in
/-- An account is written that has the sum it had. -/
theorem write (h : Sums n f w s items) (hk : s.lookup k = some a) (hn : n a' = n a) :
    Sums n f w (s.insert k a') items :=
  forall_insert (hn.trans (h k a hk)) fun k' b _ => h k' b

/-- An item is written that counts where it did. -/
theorem write_item (h : Sums n f w s items) (hi : items.lookup i = some b)
    (hf : f i b' = f i b) (hw : w i b' = w i b) : Sums n f w s (items.insert i b') := by
  intro k a hk
  rw [h k a hk, total_insert_of_eq hi (by rw [hf, hw])]

/-- An item without weight appears. -/
theorem open_zero (h : Sums n f w s items) (hi : items.lookup i = none) (hw : w i b = 0) :
    Sums n f w s (items.insert i b) := by
  intro k a hk
  rw [h k a hk, total_insert_of_none hi, hw, ite_self, Nat.add_zero]

/-- An item without weight disappears. -/
theorem erase_zero (h : Sums n f w s items) (hi : items.lookup i = some b) (hw : w i b = 0) :
    Sums n f w s (items.erase i) := by
  intro k a hk
  have herase := total_erase_of_some (f := fun i b => if f i b = k then w i b else 0) hi
  rw [hw, ite_self, Nat.add_zero] at herase
  rw [h k a hk, herase]

/-- No item of an account weighs more than their sum. -/
theorem le_of_lookup (h : Sums n f w s items) (hi : items.lookup i = some b) (hf : f i b = k)
    (hk : s.lookup k = some a) : w i b ≤ n a := by
  have hle := le_total (f := fun i b => if f i b = k then w i b else 0) hi
  rwa [if_pos hf, ← h k a hk] at hle

omit [DecidableEq ι] in
/-- The sum of one account changes. -/
theorem change {items' : Store ι β} (h : Sums n f w s items) (hk : s.lookup k = some a)
    (hself : n a + total (fun i b => if f i b = k then w i b else 0) items' =
      n a' + total (fun i b => if f i b = k then w i b else 0) items)
    (hothers : ∀ k', k' ≠ k → total (fun i b => if f i b = k' then w i b else 0) items' =
      total (fun i b => if f i b = k' then w i b else 0) items) :
    Sums n f w (s.insert k a') items' := by
  refine forall_insert ?_ fun k' b hne hb => ?_
  · have hsum := h k a hk
    omega
  · rw [hothers k' hne, h k' b hb]

/-- An item appears, and its account has more. -/
theorem openNew (h : Sums n f w s items) (hi : items.lookup i = none) (hf : f i b = k)
    (hk : s.lookup k = some a) (hn : n a' = n a + w i b) :
    Sums n f w (s.insert k a') (items.insert i b) := by
  refine h.change hk ?_ fun k' hne => ?_
  · rw [total_insert_of_none hi, if_pos hf, hn]
    omega
  · rw [total_insert_of_none hi, if_neg (hf ▸ hne.symm), Nat.add_zero]

/-- An item is written, and its account has what it weighs now. -/
theorem update (h : Sums n f w s items) (hi : items.lookup i = some b) (hf : f i b = k)
    (hf' : f i b' = k) (hk : s.lookup k = some a) (hn : n a' + w i b = n a + w i b') :
    Sums n f w (s.insert k a') (items.insert i b') := by
  refine h.change hk ?_ fun k' hne => total_insert_of_eq hi ?_
  · have hwrite := total_insert_of_some (f := fun i b => if f i b = k then w i b else 0)
      (a := b') hi
    rw [if_pos hf, if_pos hf'] at hwrite
    omega
  · rw [hf, hf', if_neg hne.symm, if_neg hne.symm]

/-- An item disappears, and its account has less. -/
theorem erase (h : Sums n f w s items) (hi : items.lookup i = some b) (hf : f i b = k)
    (hk : s.lookup k = some a) (hn : n a' + w i b = n a) :
    Sums n f w (s.insert k a') (items.erase i) := by
  refine h.change hk ?_ fun k' hne => ?_
  · have herase := total_erase_of_some (f := fun i b => if f i b = k then w i b else 0) hi
    rw [if_pos hf] at herase
    omega
  · have herase := total_erase_of_some (f := fun i b => if f i b = k' then w i b else 0) hi
    rwa [if_neg (hf ▸ hne.symm), Nat.add_zero] at herase

/-- Accounts that are new have nothing to sum up, when every item belongs to an account. -/
theorem of_extends {R : α → α → Prop} {N : κ → α → Prop} (h : Sums n f w s items)
    (hs : Extends R N s s') (hR : ∀ a a', R a a' → n a' = n a) (hN : ∀ k a, N k a → n a = 0)
    (hitems : ∀ i b, items.lookup i = some b → f i b ∈ s) : Sums n f w s' items := by
  intro k a' hk
  rcases hs.cases hk with ⟨a, ha, hRa⟩ | ⟨hnone, hNa⟩
  · exact (hR a a' hRa).trans (h k a ha)
  · rw [hN k a' hNa]
    refine (total_eq_zero fun i b hi => if_neg ?_).symm
    rintro rfl
    obtain ⟨a, ha⟩ := exists_lookup_of_mem (hitems i b hi)
    rw [hnone] at ha
    cases ha

/-- An account is opened, and no item belongs to it. -/
theorem open_account (h : Sums n f w s items) (hk : s.lookup k = none) (hn : n a = 0)
    (hitems : ∀ i b, items.lookup i = some b → f i b ∈ s) :
    Sums n f w (s.insert k a) items := by
  refine forall_insert ?_ fun k' b _ => h k' b
  refine hn.trans (total_eq_zero fun i b hi => if_neg ?_).symm
  rintro rfl
  obtain ⟨c, hc⟩ := exists_lookup_of_mem (hitems i b hi)
  rw [hk] at hc
  cases hc

end Sums

/-- The accounts of `s` count items: the number `n` in an account is the number of the items `f`
assigns to its key that are of the kind `c`. -/
abbrev Counts (n : α → ℕ) (f : ι → β → κ) (c : ι → β → Prop) [∀ i b, Decidable (c i b)] :
    Store κ α → Store ι β → Prop :=
  Sums n f fun i b => if c i b then 1 else 0

namespace Counts

variable {n : α → ℕ} {f : ι → β → κ} {c : ι → β → Prop} [∀ i b, Decidable (c i b)]
  {s : Store κ α} {items : Store ι β} {i : ι} {b b' : β} {k : κ} {a a' : α}

omit [DecidableEq ι] in
theorem eq_count (h : Counts n f c s items) (hk : s.lookup k = some a) :
    n a = count (fun i b => f i b = k ∧ c i b) items := by
  rw [h k a hk]
  refine congrArg (total · items) (funext fun i => funext fun b => ?_)
  by_cases hf : f i b = k <;> simp [hf]

/-- An item is written that stays of the kind, or not of it. -/
theorem keep (h : Counts n f c s items) (hi : items.lookup i = some b) (hf : f i b' = f i b)
    (hc : c i b' ↔ c i b) : Counts n f c s (items.insert i b') :=
  Sums.write_item h hi hf (by simp only [hc])

/-- A counted item appears. -/
theorem openNew (h : Counts n f c s items) (hi : items.lookup i = none) (hc : c i b)
    (hf : f i b = k) (hk : s.lookup k = some a) (hn : n a' = n a + 1) :
    Counts n f c (s.insert k a') (items.insert i b) :=
  Sums.openNew h hi hf hk (by rw [hn, if_pos hc])

/-- An item becomes one that is counted. -/
theorem gain (h : Counts n f c s items) (hi : items.lookup i = some b) (hc : ¬ c i b)
    (hc' : c i b') (hf : f i b = k) (hf' : f i b' = k) (hk : s.lookup k = some a)
    (hn : n a' = n a + 1) : Counts n f c (s.insert k a') (items.insert i b') :=
  Sums.update h hi hf hf' hk (by rw [hn, if_neg hc, if_pos hc', Nat.add_zero])

/-- A counted item becomes one that is not. -/
theorem lose (h : Counts n f c s items) (hi : items.lookup i = some b) (hc : c i b)
    (hc' : ¬ c i b') (hf : f i b = k) (hf' : f i b' = k) (hk : s.lookup k = some a)
    (hn : n a' = n a - 1) : Counts n f c (s.insert k a') (items.insert i b') := by
  have hpos := Sums.le_of_lookup h hi hf hk
  rw [if_pos hc] at hpos
  exact Sums.update h hi hf hf' hk (by rw [hn, if_pos hc, if_neg hc']; omega)

/-- A counted item disappears. -/
theorem erase (h : Counts n f c s items) (hi : items.lookup i = some b) (hc : c i b)
    (hf : f i b = k) (hk : s.lookup k = some a) (hn : n a' = n a - 1) :
    Counts n f c (s.insert k a') (items.erase i) := by
  have hpos := Sums.le_of_lookup h hi hf hk
  rw [if_pos hc] at hpos
  exact Sums.erase h hi hf hk (by rw [hn, if_pos hc]; omega)

end Counts

end Counters

/-! ### The keys of a kind -/

/-- The keys of the accounts of some kind. -/
def domain (p : κ → α → Prop) [∀ k a, Decidable (p k a)] (s : Store κ α) : Finset κ :=
  ((s.entries.filter fun e => p e.1 e.2).map Sigma.fst).toFinset

theorem mem_domain : k ∈ domain p s ↔ ∃ a, s.lookup k = some a ∧ p k a := by
  simp only [domain, List.mem_toFinset, List.mem_map, List.mem_filter, decide_eq_true_eq,
    lookup_eq_some_iff]
  constructor
  · rintro ⟨⟨k', a⟩, ⟨hmem, hp⟩, rfl⟩
    exact ⟨a, hmem, hp⟩
  · rintro ⟨a, hmem, hp⟩
    exact ⟨⟨k, a⟩, ⟨hmem, hp⟩, rfl⟩

/-- There are as many keys of a kind as accounts. -/
theorem card_domain (p : κ → α → Prop) [∀ k a, Decidable (p k a)] (s : Store κ α) :
    (domain p s).card = count p s := by
  have hnodup : ((s.entries.filter fun e => p e.1 e.2).map Sigma.fst).Nodup :=
    (List.filter_sublist.map _).nodup s.nodupKeys
  rw [domain, List.toFinset_card_of_nodup hnodup, List.length_map, count, total]
  induction s.entries with
  | nil => rfl
  | cons e rest ih =>
      rw [List.filter_cons, List.map_cons, List.sum_cons, ← ih]
      by_cases hp : p e.1 e.2
      · simp only [hp, decide_true, if_true, List.length_cons]
        omega
      · simp [hp]

/-- An injective map of the accounts of a kind to no more accounts of another kind reaches all of
these. -/
theorem exists_of_count_le {ι β : Type*} [DecidableEq ι] {items : Store ι β} {c : ι → β → Prop}
    [∀ i b, Decidable (c i b)] {φ : κ → ι}
    (hφ : ∀ k a, s.lookup k = some a → p k a → ∃ b, items.lookup (φ k) = some b ∧ c (φ k) b)
    (hinj : ∀ k k' a a', s.lookup k = some a → s.lookup k' = some a' → p k a → p k' a' →
      φ k = φ k' → k = k')
    (hle : count c items ≤ count p s) {i : ι} {b : β} (hi : items.lookup i = some b)
    (hc : c i b) : ∃ k a, s.lookup k = some a ∧ p k a ∧ φ k = i := by
  have hmaps : Set.MapsTo φ (domain p s) (domain c items) := by
    intro k hk
    obtain ⟨a, ha, hp⟩ := mem_domain.mp (Finset.mem_coe.mp hk)
    exact Finset.mem_coe.mpr (mem_domain.mpr (hφ k a ha hp))
  have hinjOn : Set.InjOn φ (domain p s) := by
    intro k hk k' hk' heq
    obtain ⟨a, ha, hp⟩ := mem_domain.mp (Finset.mem_coe.mp hk)
    obtain ⟨a', ha', hp'⟩ := mem_domain.mp (Finset.mem_coe.mp hk')
    exact hinj k k' a a' ha ha' hp hp' heq
  have hcard : (domain c items).card ≤ (domain p s).card := by
    rw [card_domain, card_domain]
    exact hle
  obtain ⟨k, hk, heq⟩ := Finset.surjOn_of_injOn_of_card_le φ hmaps hinjOn hcard
    (Finset.mem_coe.mpr (mem_domain.mpr ⟨b, hi, hc⟩))
  obtain ⟨a, ha, hp⟩ := mem_domain.mp (Finset.mem_coe.mp hk)
  exact ⟨k, a, ha, hp, heq⟩

end Store

end IndexDtf.Lib
