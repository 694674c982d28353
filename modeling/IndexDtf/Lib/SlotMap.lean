import Mathlib.Data.Finset.Card
import IndexDtf.Lib.SlotArray

/-!
# IndexDtf.Lib.SlotMap

**An array of slots as a finite map.** Where the slots are does not matter to those who look for
their keys: a well-formed array is a partial function from keys to values, its `contents`, and what
it still has room for is told by the number of its keys.

* `contents_set`, `contents_claim`, `contents_release` — the three kinds of writes, as updates;
* `freeSlots_add_card` — every slot is free or has a key of its own;
* `shortage` — when there is no slot for a new key, more keys are asked for than slots were free;
* `editAll_error` — a pass that fails does so at one of the slots.
-/

namespace IndexDtf.Lib.SlotArray

universe u

section Contents

variable {κ α : Type*} [DecidableEq κ]

/-- The value at a key that is not the free one. -/
def contents (free : κ) (l : SlotArray κ α) (k : κ) : Option α :=
  if k = free then none else l.find k

/-- The keys in use. -/
def used (free : κ) (l : SlotArray κ α) : Finset κ := (l.map Slot.key).toFinset.erase free

variable {k k' free : κ} {v : α} {slot : Slot κ α} {l l' : SlotArray κ α}

theorem contents_of_ne (hk : k ≠ free) : contents free l k = l.find k := if_neg hk

@[simp] theorem contents_free : contents free l free = none := if_pos rfl

theorem find_isSome : (l.find k).isSome ↔ k ∈ l.map Slot.key := by
  induction l with
  | nil => simp
  | cons s rest ih =>
      rw [find_cons, List.map_cons, List.mem_cons]
      by_cases hs : s.key = k
      · simp [hs]
      · rw [if_neg hs, ih]
        exact ⟨.inr, fun h => h.resolve_left (Ne.symm hs)⟩

theorem mem_used : k ∈ used free l ↔ (contents free l k).isSome := by
  rw [used, Finset.mem_erase, List.mem_toFinset, contents]
  by_cases hk : k = free
  · simp [hk]
  · rw [if_neg hk, find_isSome]
    exact and_iff_right hk

omit [DecidableEq κ] in
theorem WF.of_append [Zero α] (h : WF free (l ++ l')) : WF free l :=
  ⟨fun s hs => h.vacant s (List.mem_append_left _ hs), (List.pairwise_append.mp h.distinct).1⟩

/-! ### Writes as updates -/

/-- A new value under a key the array holds. -/
theorem contents_set (hk : k ≠ free) (hf : (l.find k).isSome) :
    contents free (l.replace k ⟨k, v⟩) = Function.update (contents free l) k (some v) := by
  funext k'
  by_cases hkk : k' = k
  · subst hkk
    rw [Function.update_self, contents_of_ne hk]
    exact find_replace_self hf (.inl rfl)
  · rw [Function.update_of_ne hkk]
    by_cases hk' : k' = free
    · rw [hk', contents_free, contents_free]
    · rw [contents_of_ne hk', contents_of_ne hk', find_replace_of_ne hkk hkk]

/-- A free slot is taken for a key the array does not hold. -/
theorem contents_claim (hk : k ≠ free) (hf : (l.find free).isSome) (hnew : l.find k = none) :
    contents free (l.replace free ⟨k, v⟩) = Function.update (contents free l) k (some v) := by
  funext k'
  by_cases hkk : k' = k
  · subst hkk
    rw [Function.update_self, contents_of_ne hk]
    exact find_replace_self hf (.inr hnew)
  · rw [Function.update_of_ne hkk]
    by_cases hk' : k' = free
    · rw [hk', contents_free, contents_free]
    · rw [contents_of_ne hk', contents_of_ne hk', find_replace_of_ne hk' hkk]

/-- A slot is given back. -/
theorem contents_release [Zero α] (h : WF free l) :
    contents free (l.replace k ⟨free, 0⟩) = Function.update (contents free l) k none := by
  funext k'
  by_cases hk' : k' = free
  · rw [hk', contents_free, Function.update_apply, contents_free, ite_self]
  · by_cases hkk : k' = k
    · subst hkk
      rw [Function.update_self, contents_of_ne hk', find_release h hk']
    · rw [Function.update_of_ne hkk, contents_of_ne hk', contents_of_ne hk',
        find_replace_of_ne hkk hk']

@[simp] theorem contents_empty [Zero α] (capacity : ℕ) :
    contents free (SlotArray.empty (α := α) free capacity) = fun _ => none := by
  funext k
  by_cases hk : k = free
  · rw [hk, contents_free]
  · rw [contents_of_ne hk, find_empty capacity hk]

/-! ### Room -/

omit [DecidableEq κ] in
@[simp] theorem length_empty [Zero α] (capacity : ℕ) :
    (SlotArray.empty (α := α) free capacity).length = capacity :=
  List.length_replicate

@[simp] theorem length_replace : (l.replace k slot).length = l.length := by
  induction l with
  | nil => rfl
  | cons s rest ih =>
      rw [replace]
      split
      · rfl
      · rw [List.length_cons, List.length_cons, ih]

theorem freeSlots_eq_zero (h : l.find free = none) : freeSlots free l = 0 := by
  rw [freeSlots, List.countP_eq_zero]
  intro s hs
  simpa using find_eq_none.mp h s hs

/-- Every slot is free or has a key of its own. -/
theorem freeSlots_add_card [Zero α] (h : WF free l) :
    freeSlots free l + (used free l).card = l.length := by
  induction l with
  | nil => simp [freeSlots, used]
  | cons s rest ih =>
      have hrest := ih h.tail
      by_cases hs : s.key = free
      · have hused : used free (s :: rest) = used free rest := by
          rw [used, List.map_cons, List.toFinset_cons, hs, Finset.erase_insert_eq_erase, used]
        rw [freeSlots_cons_free hs, hused, List.length_cons]
        omega
      · have hused : used free (s :: rest) = insert s.key (used free rest) := by
          rw [used, List.map_cons, List.toFinset_cons, Finset.erase_insert_of_ne hs, used]
        have hnew : s.key ∉ used free rest := by
          rw [mem_used, contents_of_ne hs, h.find_tail hs]
          exact Bool.false_ne_true
        rw [freeSlots_cons_used hs, hused, Finset.card_insert_of_notMem hnew, List.length_cons]
        omega

/-- When there is no slot for a key, more new keys were named than slots were free before. -/
theorem shortage [Zero α] {named : Finset κ} (h : WF free l) (h' : WF free l')
    (hlength : l'.length = l.length) (hused : used free l' ⊆ used free l ∪ named)
    (hk : k ≠ free) (hnamed : k ∈ named) (hnew : l'.find k = none) (hfull : l'.find free = none) :
    freeSlots free l < (named \ used free l).card := by
  have hbefore := freeSlots_add_card h
  have hafter := freeSlots_add_card h'
  rw [freeSlots_eq_zero hfull] at hafter
  have hlt : (used free l').card < (used free l ∪ named).card := by
    refine Finset.card_lt_card ⟨hused, fun hsub => ?_⟩
    have hmem := hsub (Finset.mem_union_right _ hnamed)
    rw [mem_used, contents_of_ne hk, hnew] at hmem
    exact Bool.false_ne_true hmem
  rw [Finset.union_comm, ← Finset.card_sdiff_add_card] at hlt
  omega

/-! ### Loops of writes -/

/-- The array became one that is well formed, as large, and has these contents. -/
structure Becomes [Zero α] (free : κ) (l l' : SlotArray κ α) (m : κ → Option α) : Prop where
  wf : WF free l'
  length : l'.length = l.length
  contents : contents free l' = m

variable {β : Type*} [Zero α] {m m' : κ → Option α}

theorem Becomes.refl (h : WF free l) : Becomes free l l (SlotArray.contents free l) := ⟨h, rfl, rfl⟩

/-- A new key takes a free slot. -/
theorem Becomes.freeSlots_insert (h : WF free l)
    (h' : Becomes free l l' (Function.update (SlotArray.contents free l) k (some v)))
    (hnew : SlotArray.contents free l k = none) :
    freeSlots free l = freeSlots free l' + 1 := by
  have hused : used free l' = insert k (used free l) := by
    ext k'
    rw [Finset.mem_insert, mem_used, mem_used, h'.contents, Function.update_apply]
    by_cases hkk : k' = k
    · simp [hkk]
    · simp [hkk]
  have hout : k ∉ used free l := by
    rw [mem_used, hnew]
    exact Bool.false_ne_true
  have hbefore := freeSlots_add_card h
  have hafter := freeSlots_add_card h'.wf
  rw [hused, Finset.card_insert_of_notMem hout, h'.length] at hafter
  omega

theorem Becomes.trans {l'' : SlotArray κ α} (h : Becomes free l l' m)
    (h' : Becomes free l' l'' m') : Becomes free l l'' m' :=
  ⟨h'.wf, h'.length.trans h.length, h'.contents⟩

omit [DecidableEq κ] [Zero α] in
/-- What the rounds leave alone, the loop does. -/
theorem foldl_frame {key : β → κ} {g : (κ → Option α) → β → κ → Option α} {bs : List β}
    (hg : ∀ m b k, k ≠ key b → g m b k = m k) (hk : ∀ b ∈ bs, key b ≠ k) :
    bs.foldl g m k = m k := by
  induction bs generalizing m with
  | nil => rfl
  | cons b rest ih =>
      rw [List.foldl_cons, ih fun c hc => hk c (List.mem_cons_of_mem _ hc)]
      exact hg m b k (hk b (List.mem_cons_self ..)).symm

end Contents

section Loop

variable {ε : Type*} {κ α β : Type u} [DecidableEq κ] [Zero α] {free : κ} {l l' : SlotArray κ α}
  {f : SlotArray κ α → β → Except ε (SlotArray κ α)} {g : (κ → Option α) → β → κ → Option α}
  {bs : List β}

/-- A loop refines that over the contents if its rounds do. -/
theorem foldlM_becomes (hf : ∀ l b l', b ∈ bs → WF free l → f l b = .ok l' →
      Becomes free l l' (g (contents free l) b)) (hl : WF free l)
    (h : bs.foldlM f l = .ok l') : Becomes free l l' (bs.foldl g (contents free l)) := by
  induction bs generalizing l with
  | nil =>
      cases h
      exact .refl hl
  | cons b rest ih =>
      rw [List.foldlM_cons, bind_eq_ok] at h
      obtain ⟨l₁, hround, h⟩ := h
      have h₁ := hf l b l₁ (List.mem_cons_self ..) hl hround
      have h₂ := ih (fun l c l' hc => hf l c l' (List.mem_cons_of_mem _ hc)) h₁.wf h
      rw [List.foldl_cons, ← h₁.contents]
      exact h₁.trans h₂

/-- A loop whose round finds no slot for its key was given more keys than there was room for. -/
theorem foldlM_shortage {key : β → κ} {e : ε} (hg : ∀ m b k, k ≠ key b → g m b k = m k)
    (hf : ∀ l b l', b ∈ bs → WF free l → f l b = .ok l' →
      Becomes free l l' (g (contents free l) b))
    (hfull : ∀ l b, b ∈ bs → WF free l → f l b = .error e →
      key b ≠ free ∧ l.find (key b) = none ∧ l.find free = none)
    (hl : WF free l) (h : bs.foldlM f l = .error e) :
    freeSlots free l < ((bs.map key).toFinset \ used free l).card := by
  obtain ⟨before, b, after, l₁, rfl, hbefore, hround⟩ := foldlM_error h
  have hb : b ∈ before ++ b :: after := List.mem_append_right _ (List.mem_cons_self ..)
  have h₁ := foldlM_becomes (fun l c l' hc => hf l c l' (List.mem_append_left _ hc)) hl hbefore
  obtain ⟨hkey, hnew, hfree⟩ := hfull l₁ b hb h₁.wf hround
  refine shortage hl h₁.wf h₁.length (fun k hk => ?_) hkey
    (List.mem_toFinset.mpr (List.mem_map_of_mem hb)) hnew hfree
  rw [Finset.mem_union, List.mem_toFinset]
  by_contra hout
  rw [not_or] at hout
  have hframe : before.foldl g (contents free l) k = contents free l k :=
    foldl_frame hg fun c hc heq =>
      hout.2 (heq ▸ List.mem_map_of_mem (List.mem_append_left _ hc))
  rw [mem_used, h₁.contents, hframe, ← mem_used] at hk
  exact hout.1 hk

end Loop

/-! ### A pass that fails -/

section Pass

variable {ε : Type*} {σ : Type u} {κ α : Type u} [DecidableEq κ] {free : κ}
  {f : σ → κ → α → Except ε (σ × α)} {s : σ} {l : SlotArray κ α} {e : ε}

theorem editAll_error (h : editAll free f s l = .error e) :
    ∃ before slot after s₁ before', l = before ++ slot :: after ∧ slot.key ≠ free ∧
      editAll free f s before = .ok (s₁, before') ∧ f s₁ slot.key slot.value = .error e := by
  induction l generalizing s with
  | nil => cases h
  | cons slot rest ih =>
      rw [editAll] at h
      split at h
      · next hfree =>
        rw [bind_eq_error] at h
        rcases h with h | ⟨_, -, h⟩
        · obtain ⟨before, t, after, s₁, before', rfl, ht, hbefore, hround⟩ := ih h
          refine ⟨slot :: before, t, after, s₁, slot :: before', rfl, ht, ?_, hround⟩
          rw [editAll, if_pos hfree, hbefore]
          rfl
        · cases h
      · next hused =>
        rw [bind_eq_error] at h
        rcases h with h | ⟨⟨s₂, value⟩, hfirst, h⟩
        · exact ⟨[], slot, rest, s, [], rfl, hused, rfl, h⟩
        · rw [bind_eq_error] at h
          rcases h with h | ⟨_, -, h⟩
          · obtain ⟨before, t, after, s₁, before', rfl, ht, hbefore, hround⟩ := ih h
            refine ⟨slot :: before, t, after, s₁, ⟨slot.key, value⟩ :: before', rfl, ht, ?_, hround⟩
            rw [editAll, if_neg hused, hfirst, ok_bind]
            simp only [hbefore, ok_bind]
          · cases h

end Pass

end IndexDtf.Lib.SlotArray
