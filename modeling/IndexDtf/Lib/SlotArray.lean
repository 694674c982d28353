import Mathlib.Algebra.Ring.Nat
import Mathlib.Logic.Function.Basic
import Mathlib.Tactic.Common
import IndexDtf.Lib.Fallible

/-!
# IndexDtf.Lib.SlotArray

**Keyed slots in a fixed array.** A slot holds a key and a value; slots whose key
is `free` are not in use. Programs search such an array from the front and write
to the first slot with the key they look for:

* `find`, `replace` — the first slot with a key, read and overwritten;
* `editAll` — a fallible pass over the used slots, with a state of its own;
* `Split` — two arrays that share out what a third one held.

An array is read as the function `lookup` from keys to values, which is zero at
the keys it does not hold. On well-formed arrays (`WF`: no used key twice, free
slots hold zero) every write is an update of that function.
-/

namespace IndexDtf.Lib

universe u

/-- A slot of an array. -/
structure Slot (κ α : Type*) where
  key : κ
  value : α
  deriving DecidableEq, Repr

/-- An array of slots. -/
abbrev SlotArray (κ α : Type*) := List (Slot κ α)

namespace SlotArray

variable {κ α : Type*} [DecidableEq κ]

/-- The value of the first slot with a key. -/
def find (k : κ) : SlotArray κ α → Option α
  | [] => none
  | s :: rest => if s.key = k then some s.value else find k rest

/-- The array with another slot in place of the first one with a key. -/
def replace (k : κ) (slot : Slot κ α) : SlotArray κ α → SlotArray κ α
  | [] => []
  | s :: rest => if s.key = k then slot :: rest else s :: replace k slot rest

/-- An array without a used slot. -/
def empty [Zero α] (free : κ) (capacity : ℕ) : SlotArray κ α :=
  List.replicate capacity ⟨free, 0⟩

/-- The value at a key: zero where the array has no slot for it. -/
def lookup [Zero α] (k : κ) (l : SlotArray κ α) : α := (l.find k).getD 0

/-- No used key occurs twice, and free slots hold zero. -/
structure WF [Zero α] (free : κ) (l : SlotArray κ α) : Prop where
  vacant : ∀ s ∈ l, s.key = free → s.value = 0
  distinct : l.Pairwise fun s t => s.key = t.key → s.key = free

variable {k k' free : κ} {v : α} {slot : Slot κ α} {l : SlotArray κ α}

@[simp] theorem find_nil : find k ([] : SlotArray κ α) = none := rfl

theorem find_cons {s : Slot κ α} :
    find k (s :: l) = if s.key = k then some s.value else find k l := rfl

/-! ### Reading -/

theorem find_eq_none : l.find k = none ↔ ∀ s ∈ l, s.key ≠ k := by
  induction l with
  | nil => simp
  | cons s rest ih => by_cases h : s.key = k <;> simp [find_cons, h, ih]

theorem mem_of_find (h : l.find k = some v) : ⟨k, v⟩ ∈ l := by
  induction l with
  | nil => cases h
  | cons s rest ih =>
      rw [find_cons] at h
      split at h
      · obtain ⟨key, value⟩ := s
        cases h
        subst k
        exact List.mem_cons_self ..
      · exact List.mem_cons_of_mem _ (ih h)

/-! ### Overwriting -/

theorem mem_replace {s : Slot κ α} (h : s ∈ l.replace k slot) : s = slot ∨ s ∈ l := by
  induction l with
  | nil => cases h
  | cons t rest ih =>
      rw [replace] at h
      split at h
      · rcases List.mem_cons.mp h with h | h
        · exact .inl h
        · exact .inr (List.mem_cons_of_mem _ h)
      · rcases List.mem_cons.mp h with h | h
        · exact .inr (h ▸ List.mem_cons_self ..)
        · exact (ih h).imp_right (List.mem_cons_of_mem _)

/-- The keys that are neither taken away nor written are found as before. -/
theorem find_replace_of_ne (hk : k' ≠ k) (hs : k' ≠ slot.key) :
    (l.replace k slot).find k' = l.find k' := by
  induction l with
  | nil => rfl
  | cons s rest ih =>
      rw [replace]
      split
      · subst k
        rw [find_cons, find_cons, if_neg hs.symm, if_neg hk.symm]
      · rw [find_cons, find_cons, ih]

/-- The key that is written is found with its new value, unless it was there
before the slot that is overwritten. -/
theorem find_replace_self (hf : (l.find k).isSome) (hs : k' = k ∨ l.find k' = none) :
    (l.replace k ⟨k', v⟩).find k' = some v := by
  induction l with
  | nil => simp at hf
  | cons s rest ih =>
      rw [replace]
      split
      · rw [find_cons, if_pos rfl]
      · next hne =>
        rw [find_cons, if_neg hne] at hf
        have hkey : s.key ≠ k' := by
          cases hs with
          | inl heq => exact heq ▸ hne
          | inr hnone => exact find_eq_none.mp hnone s (List.mem_cons_self ..)
        rw [find_cons, if_neg hkey]
        refine ih hf (hs.imp_right fun hnone => ?_)
        rwa [find_cons, if_neg hkey] at hnone

/-! ### Well-formed arrays -/

omit [DecidableEq κ] in
theorem WF.tail [Zero α] {s : Slot κ α} (h : WF free (s :: l)) : WF free l :=
  ⟨fun t ht => h.vacant t (List.mem_cons_of_mem _ ht), (List.pairwise_cons.mp h.distinct).2⟩

/-- Behind a used slot its key does not come again. -/
theorem WF.find_tail [Zero α] {s : Slot κ α} (h : WF free (s :: l)) (hs : s.key ≠ free) :
    find s.key l = none :=
  find_eq_none.mpr fun t ht heq => hs ((List.pairwise_cons.mp h.distinct).1 t ht heq.symm)

omit [DecidableEq κ] in
theorem WF.empty [Zero α] (capacity : ℕ) : WF free (SlotArray.empty (α := α) free capacity) where
  vacant s hs _ := by rw [List.eq_of_mem_replicate hs]
  distinct := List.pairwise_replicate.mpr (.inr fun _ => rfl)

/-- Overwriting keeps an array well formed if the new slot is free and holds
zero, has the key it replaces, or brings a key the array did not hold. -/
theorem WF.replace [Zero α] (h : WF free l) (hv : slot.key = free → slot.value = 0)
    (hk : slot.key = free ∨ slot.key = k ∨ l.find slot.key = none) :
    WF free (l.replace k slot) := by
  refine ⟨fun s hs => ?_, ?_⟩
  · rcases mem_replace hs with rfl | hs
    · exact hv
    · exact h.vacant s hs
  · induction l with
    | nil => exact .nil
    | cons s rest ih =>
        obtain ⟨hs, hrest⟩ := List.pairwise_cons.mp h.distinct
        rw [SlotArray.replace]
        split
        · next hsk =>
          refine List.pairwise_cons.mpr ⟨fun t ht heq => ?_, hrest⟩
          rcases hk with hk | hk | hk
          · exact hk
          · rw [hk, ← hsk] at heq ⊢
            exact hs t ht heq
          · exact absurd heq.symm (find_eq_none.mp hk t (List.mem_cons_of_mem _ ht))
        · next hsk =>
          have hk' : slot.key = free ∨ slot.key = k ∨ find slot.key rest = none :=
            hk.imp_right (Or.imp_right fun hnone => find_eq_none.mpr fun t ht =>
              find_eq_none.mp hnone t (List.mem_cons_of_mem _ ht))
          refine List.pairwise_cons.mpr ⟨fun t ht heq => ?_, ih h.tail hk'⟩
          rcases mem_replace ht with rfl | ht
          · rcases hk with hk | hk | hk
            · exact heq.trans hk
            · exact absurd (heq.trans hk) hsk
            · exact absurd heq (find_eq_none.mp hk s (List.mem_cons_self ..))
          · exact hs t ht heq

/-- The slot of a used key is the one that is found. -/
theorem WF.find_of_mem [Zero α] {s : Slot κ α} (h : WF free l) (hs : s ∈ l) (hk : s.key ≠ free) :
    l.find s.key = some s.value := by
  induction l with
  | nil => cases hs
  | cons t rest ih =>
      rw [find_cons]
      cases hs with
      | head => rw [if_pos rfl]
      | tail _ hs =>
          have hne : t.key ≠ s.key := fun e =>
            hk (e ▸ (List.pairwise_cons.mp h.distinct).1 s hs e)
          rw [if_neg hne]
          exact ih h.tail hs

/-- A change at the position of a used slot is a change at its key. -/
theorem WF.modify_eq_replace [Zero α] {s : Slot κ α} {i : ℕ} (h : WF free l) (hi : l[i]? = some s)
    (hk : s.key ≠ free) (f : Slot κ α → Slot κ α) : l.modify i f = l.replace s.key (f s) := by
  induction l generalizing i with
  | nil => cases hi
  | cons t rest ih =>
      cases i with
      | zero =>
          obtain rfl : t = s := Option.some.inj hi
          rw [SlotArray.replace, if_pos rfl, List.modify_zero_cons]
      | succ i =>
          rw [List.getElem?_cons_succ] at hi
          have hne : t.key ≠ s.key := fun e =>
            hk (e ▸ (List.pairwise_cons.mp h.distinct).1 s (List.mem_of_getElem? hi) e)
          rw [SlotArray.replace, if_neg hne, List.modify_succ_cons, ih h.tail hi]

/-- Overwriting a slot under its own key leaves the keys as they are. -/
theorem keys_replace (h : slot.key = k) : (l.replace k slot).map Slot.key = l.map Slot.key := by
  induction l with
  | nil => rfl
  | cons s rest ih =>
      rw [replace]
      split
      · next hs => rw [List.map_cons, List.map_cons, h, hs]
      · rw [List.map_cons, List.map_cons, ih]

theorem lookup_of_find [Zero α] (h : l.find k = some v) : l.lookup k = v := by
  rw [lookup, h, Option.getD_some]

theorem lookup_of_find_none [Zero α] (h : l.find k = none) : l.lookup k = 0 := by
  rw [lookup, h, Option.getD_none]

@[simp] theorem lookup_empty [Zero α] (capacity : ℕ) :
    (SlotArray.empty (α := α) free capacity).lookup k = 0 := by
  cases h : find k (SlotArray.empty (α := α) free capacity) with
  | none => exact lookup_of_find_none h
  | some v =>
      have := List.eq_of_mem_replicate (mem_of_find h)
      rw [lookup_of_find h, (Slot.mk.inj this).2]

/-- The free key reads as zero. -/
theorem WF.lookup_free [Zero α] (h : WF free l) : l.lookup free = 0 := by
  cases hf : l.find free with
  | none => exact lookup_of_find_none hf
  | some v =>
      rw [lookup_of_find hf]
      exact h.vacant _ (mem_of_find hf) rfl

/-! ### Writes as updates -/

/-- After its slot was given back a key is no longer found. -/
theorem find_release [Zero α] (h : WF free l) (hk : k ≠ free) :
    find k (l.replace k ⟨free, 0⟩) = none := by
  induction l with
  | nil => rfl
  | cons s rest ih =>
      rw [replace]
      split
      · next hs =>
        rw [find_cons, if_neg hk.symm]
        exact hs ▸ h.find_tail (hs ▸ hk)
      · next hs => rw [find_cons, if_neg hs, ih h.tail]

/-- A new value under a key the array holds. -/
theorem lookup_set [Zero α] (hf : (l.find k).isSome) :
    (fun k' => (l.replace k ⟨k, v⟩).lookup k') = Function.update (fun k' => l.lookup k') k v := by
  funext k'
  by_cases hk : k' = k
  · subst k'
    rw [Function.update_self]
    exact lookup_of_find (find_replace_self hf (.inl rfl))
  · rw [Function.update_of_ne hk, lookup, find_replace_of_ne hk hk, lookup]

/-- A free slot is taken for a key the array does not hold. -/
theorem WF.lookup_claim [Zero α] (h : WF free l) (hf : (l.find free).isSome) (hk : k ≠ free)
    (hnew : l.find k = none) :
    (fun k' => (l.replace free ⟨k, v⟩).lookup k')
      = Function.update (fun k' => l.lookup k') k v := by
  funext k'
  by_cases hk' : k' = k
  · subst k'
    rw [Function.update_self]
    exact lookup_of_find (find_replace_self hf (.inr hnew))
  · rw [Function.update_of_ne hk']
    by_cases hfree : k' = free
    · subst k'
      rw [h.lookup_free, WF.lookup_free (h.replace (fun e => absurd e hk) (.inr (.inr hnew)))]
    · rw [lookup, find_replace_of_ne hfree hk', lookup]

/-- A slot is given back: its key reads as zero. -/
theorem WF.lookup_release [Zero α] (h : WF free l) :
    (fun k' => (l.replace k ⟨free, 0⟩).lookup k')
      = Function.update (fun k' => l.lookup k') k 0 := by
  have hwf : WF free (l.replace k ⟨free, 0⟩) := h.replace (fun _ => rfl) (.inl rfl)
  funext k'
  by_cases hfree : k' = free
  · subst k'
    rw [hwf.lookup_free]
    by_cases hk : free = k
    · rw [hk, Function.update_self]
    · rw [Function.update_of_ne hk, h.lookup_free]
  · by_cases hk : k' = k
    · subst k'
      rw [Function.update_self]
      refine lookup_of_find_none (find_release h hfree)
    · rw [Function.update_of_ne hk, lookup, find_replace_of_ne hk hfree, lookup]

/-! ### Sharing out an array -/

@[simp] theorem find_empty [Zero α] (capacity : ℕ) (hk : k ≠ free) :
    (SlotArray.empty (α := α) free capacity).find k = none :=
  find_eq_none.mpr fun _ hs => (List.eq_of_mem_replicate hs) ▸ hk.symm

/-- Two arrays hold what a third one held, each used key in exactly one of them. -/
structure Split [Zero α] (free : κ) (whole l r : SlotArray κ α) : Prop where
  left : WF free l
  right : WF free r
  exact : ∀ k, k ≠ free →
    (l.find k = whole.find k ∧ r.find k = none) ∨ (l.find k = none ∧ r.find k = whole.find k)

namespace Split

variable [Zero α] {whole r : SlotArray κ α}

theorem start (h : WF free l) (capacity : ℕ) :
    Split free l l (SlotArray.empty free capacity) where
  left := h
  right := .empty capacity
  exact _ hk := .inl ⟨rfl, find_empty capacity hk⟩

/-- A key that is still on the left has not come to the right. -/
theorem absent (h : Split free whole l r) (hk : k ≠ free) (hv : l.find k = some v) :
    r.find k = none := by
  cases h.exact k hk with
  | inl hleft => exact hleft.2
  | inr hright => rw [hright.1] at hv; cases hv

/-- A slot goes from the left to the right. -/
theorem move (h : Split free whole l r) (hk : k ≠ free) (hv : l.find k = some v)
    (hfree : (r.find free).isSome) :
    Split free whole (l.replace k ⟨free, 0⟩) (r.replace free ⟨k, v⟩) := by
  have hnew := h.absent hk hv
  refine ⟨h.left.replace (fun _ => rfl) (.inl rfl),
    h.right.replace (fun e => absurd e hk) (.inr (.inr hnew)), fun k' hk' => ?_⟩
  by_cases hkk : k' = k
  · subst hkk
    refine .inr ⟨find_release h.left hk, ?_⟩
    rw [find_replace_self hfree (.inr hnew)]
    cases h.exact k' hk with
    | inl hleft => rw [← hleft.1, hv]
    | inr hright => rw [hright.1] at hv; cases hv
  · rw [find_replace_of_ne hkk hk', find_replace_of_ne hk' hkk]
    exact h.exact k' hk'

end Split

/-- A slot is given back and no other is in use: nothing is left. -/
theorem WF.release_last [Zero α] (h : WF free l) :
    (∀ k', k' ≠ free → find k' (l.replace k ⟨free, 0⟩) = none) ↔
      ∀ s ∈ l, s.key = free ∨ s.key = k := by
  constructor
  · intro hnone s hs
    by_contra hother
    rw [not_or] at hother
    have hs' := hnone s.key hother.1
    rw [find_replace_of_ne hother.2 hother.1] at hs'
    exact find_eq_none.mp hs' s hs rfl
  · intro hall k' hk'
    by_cases hkk : k' = k
    · exact hkk ▸ find_release h (hkk ▸ hk')
    · rw [find_replace_of_ne hkk hk']
      refine find_eq_none.mpr fun s hs heq => ?_
      cases hall s hs with
      | inl hfree => exact hk' (heq ▸ hfree)
      | inr hsame => exact hkk (heq ▸ hsame)

/-! ### Filling the free slots -/

/-- The free slots are taken by those of a list, in order, until either runs out. -/
def fillFree (free : κ) : List (Slot κ α) → SlotArray κ α → SlotArray κ α
  | _, [] => []
  | [], l => l
  | s :: more, t :: rest =>
      if t.key ≠ free then t :: fillFree free (s :: more) rest else s :: fillFree free more rest

/-- How many slots are free. -/
def freeSlots (free : κ) (l : SlotArray κ α) : ℕ := l.countP (·.key = free)

section Fill

variable {added : List (Slot κ α)} {s : Slot κ α} {i : ℕ}

theorem freeSlots_cons_used (h : s.key ≠ free) : freeSlots free (s :: l) = freeSlots free l :=
  List.countP_cons_of_neg (by simpa using h)

theorem freeSlots_cons_free (h : s.key = free) : freeSlots free (s :: l) = freeSlots free l + 1 :=
  List.countP_cons_of_pos (by simpa using h)

/-- A used slot stays as it is, where it is. -/
theorem fillFree_used (h : l[i]? = some s) (hs : s.key ≠ free) :
    (fillFree free added l)[i]? = some s := by
  induction l generalizing i added with
  | nil => simp at h
  | cons t rest ih =>
      cases added with
      | nil => exact h
      | cons first more =>
          rw [fillFree]
          cases i with
          | zero =>
              obtain rfl : t = s := by simpa using h
              rw [if_pos hs]
              rfl
          | succ i =>
              rw [List.getElem?_cons_succ] at h
              split
              · exact ih h
              · exact ih h

/-- What there is room for is stored. -/
theorem mem_fillFree (h : s ∈ added.take (freeSlots free l)) : s ∈ fillFree free added l := by
  induction l generalizing added with
  | nil => simp [freeSlots] at h
  | cons t rest ih =>
      cases added with
      | nil => simp at h
      | cons first more =>
          rw [fillFree]
          split
          · next hused =>
            rw [freeSlots_cons_used hused] at h
            exact List.mem_cons_of_mem _ (ih h)
          · next hfree =>
            rw [freeSlots_cons_free (not_not.mp hfree), List.take_succ_cons] at h
            cases h with
            | head => exact List.mem_cons_self ..
            | tail _ h => exact List.mem_cons_of_mem _ (ih h)

end Fill

/-! ### A pass over the used slots -/

section Pass

variable {ε : Type*} {σ β : Type u} {κ α : Type u} [DecidableEq κ]

/-- Every used slot in turn gets a new value, and the state moves on with it. -/
def editAll (free : κ) (f : σ → κ → α → Except ε (σ × α)) :
    σ → SlotArray κ α → Except ε (σ × SlotArray κ α)
  | s, [] => .ok (s, [])
  | s, slot :: rest =>
      if slot.key = free then do
        let (s, rest) ← editAll free f s rest
        .ok (s, slot :: rest)
      else do
        let (s, value) ← f s slot.key slot.value
        let (s, rest) ← editAll free f s rest
        .ok (s, ⟨slot.key, value⟩ :: rest)

variable {free : κ} {f : σ → κ → α → Except ε (σ × α)} {s s' : σ} {l l' : SlotArray κ α}

/-- A pass keeps the keys where they are. -/
theorem editAll_keys (h : editAll free f s l = .ok (s', l')) :
    l'.map Slot.key = l.map Slot.key := by
  induction l generalizing s l' with
  | nil =>
      cases h
      rfl
  | cons slot rest ih =>
      rw [editAll] at h
      split at h <;> simp only [bind_eq_ok, Prod.exists] at h
      · obtain ⟨_, _, hrest, hok⟩ := h
        cases hok
        rw [List.map_cons, List.map_cons, ih hrest]
      · obtain ⟨_, _, -, _, _, hrest, hok⟩ := h
        cases hok
        rw [List.map_cons, List.map_cons, ih hrest]

/-- What a pass does at one used key: `R` relates what the state has there and the
value of the slot, before and after. -/
def Passed (R : β → α → β → α → Prop) (b b' : β) (v v' : Option α) : Prop :=
  (∃ x x', v = some x ∧ v' = some x' ∧ R b x b' x') ∨ (v = none ∧ v' = none ∧ b' = b)

/-- What a pass does to what the slots hold, a key that is not there holding zero. -/
theorem Passed.lookup [Zero α] {R P : β → α → β → α → Prop} {b b' : β} {k : κ} (h : Passed R b b' (l.find k) (l'.find k))
    (hround : ∀ x x', R b x b' x' → P b x b' x') (hsame : P b 0 b 0) :
    P b (l.lookup k) b' (l'.lookup k) := by
  cases h with
  | inl hpassed =>
      obtain ⟨x, x', hx, hx', hr⟩ := hpassed
      rw [lookup_of_find hx, lookup_of_find hx']
      exact hround x x' hr
  | inr hnone =>
      obtain ⟨hx, hx', rfl⟩ := hnone
      rw [lookup_of_find_none hx, lookup_of_find_none hx']
      exact hsame

/-- **The rule for a pass.** If every round does `R` at its own key, nothing at the
others and keeps the invariant, then so does the pass: `R` once at each key the
array holds, and nothing at the others. -/
theorem editAll_spec [Zero α] {I : σ → Prop} {g : σ → κ → β} {R : κ → β → α → β → α → Prop}
    (hf : ∀ s k v s' v', k ≠ free → I s → f s k v = .ok (s', v') →
      I s' ∧ R k (g s k) v (g s' k) v' ∧ ∀ k', k' ≠ k → g s' k' = g s k')
    (hl : WF free l) (hs : I s) (h : editAll free f s l = .ok (s', l')) :
    I s' ∧ WF free l' ∧
      ∀ k, k ≠ free → Passed (R k) (g s k) (g s' k) (l.find k) (l'.find k) := by
  induction l generalizing s l' with
  | nil =>
      cases h
      exact ⟨hs, hl, fun k _ => .inr ⟨rfl, rfl, rfl⟩⟩
  | cons slot rest ih =>
      rw [editAll] at h
      split at h
      · next hfree =>
        simp only [bind_eq_ok, Prod.exists] at h
        obtain ⟨s₁, rest', hrest, hok⟩ := h
        cases hok
        obtain ⟨hI, hwf, hpass⟩ := ih hl.tail hs hrest
        refine ⟨hI, ⟨fun t ht => ?_, List.pairwise_cons.mpr ⟨fun t _ _ => hfree, hwf.distinct⟩⟩,
          fun k hk => ?_⟩
        · cases List.mem_cons.mp ht with
          | inl heq => exact heq ▸ hl.vacant slot (List.mem_cons_self ..)
          | inr ht => exact hwf.vacant t ht
        · have hne : slot.key ≠ k := fun heq => hk (heq ▸ hfree)
          rw [find_cons, find_cons, if_neg hne, if_neg hne]
          exact hpass k hk
      · next hused =>
        simp only [bind_eq_ok, Prod.exists] at h
        obtain ⟨s₁, value, hround, s₂, rest', hrest, hok⟩ := h
        cases hok
        obtain ⟨hI₁, hR, hother⟩ := hf s slot.key slot.value s₁ value hused hs hround
        obtain ⟨hI, hwf, hpass⟩ := ih hl.tail hI₁ hrest
        have hnone : find slot.key rest = none := hl.find_tail hused
        have hnone' : find slot.key rest' = none := by
          rw [find_eq_none] at hnone ⊢
          intro t ht heq
          have hmem : t.key ∈ rest.map Slot.key :=
            editAll_keys hrest ▸ List.mem_map_of_mem ht
          obtain ⟨u, hu, hkey⟩ := List.mem_map.mp hmem
          exact hnone u hu (hkey.trans heq)
        refine ⟨hI, ⟨fun t ht => ?_, List.pairwise_cons.mpr ⟨fun t ht heq => ?_, hwf.distinct⟩⟩,
          fun k hk => ?_⟩
        · cases List.mem_cons.mp ht with
          | inl heq => exact heq ▸ fun e => absurd e hused
          | inr ht => exact hwf.vacant t ht
        · exact absurd heq.symm (find_eq_none.mp hnone' t ht)
        · by_cases hkey : slot.key = k
          · subst k
            rw [find_cons, find_cons, if_pos rfl, if_pos rfl]
            refine .inl ⟨_, _, rfl, rfl, ?_⟩
            cases hpass slot.key hk with
            | inl hsome =>
                obtain ⟨x, _, hx, -⟩ := hsome
                rw [hnone] at hx
                cases hx
            | inr hsame => exact hsame.2.2 ▸ hR
          · rw [find_cons, find_cons, if_neg hkey, if_neg hkey, ← hother k (Ne.symm hkey)]
            exact hpass k hk

end Pass

end SlotArray

end IndexDtf.Lib
