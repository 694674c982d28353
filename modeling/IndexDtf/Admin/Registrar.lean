import Mathlib.Data.List.Perm.Subperm
import IndexDtf.Folio.Instructions.Crank
import IndexDtf.Lib.Transition

/-!
# IndexDtf.Admin.Registrar

**The program registrar, as a set.** A removal counts the slots that hold one of the ids and
compares that with the number of ids. The two agree as long as no id has two slots, which an
addition does not look at.

* `ActsAsSet` — what is expected of a registrar;
* `actsAsSet_iff` — it does so exactly if its ids are distinct;
* `registrar_acts_as_set_iff` — the histories in which they stay so.
-/

namespace IndexDtf

open Lib

/-- What `update_program_registrar` is asked for. -/
structure ProgramRegistryUpdate where
  programIds : List Pubkey
  remove : Bool
  deriving DecidableEq, Repr

/-- The ids are those of programs. -/
def ProgramRegistryUpdate.NonDefault (update : ProgramRegistryUpdate) : Prop :=
  ∀ id ∈ update.programIds, id ≠ Pubkey.default

namespace ProgramRegistrar

/-- `is_in_registrar`. -/
def isInRegistrar (registrar : ProgramRegistrar) (programId : Pubkey) : Bool :=
  registrar.contains programId

/-- The part of `update_program_registrar` that is about the registrar. -/
def step (registrar : ProgramRegistrar) (update : ProgramRegistryUpdate) :
    Result ProgramRegistrar :=
  if update.remove then registrar.removeFromRegistrar update.programIds
  else registrar.addToRegistrar update.programIds

/-- A registrar that is used as a set of programs. -/
structure ActsAsSet (registrar : ProgramRegistrar) : Prop where
  /-- Programs can be removed if, and only if, they are registered. -/
  removes : ∀ programIds : List Pubkey, programIds.Nodup →
    (∀ id ∈ programIds, id ≠ Pubkey.default) →
    ((∃ registrar', registrar.removeFromRegistrar programIds = .ok registrar') ↔
      ∀ id ∈ programIds, registrar.isInRegistrar id = true)
  removed : ∀ (programIds : List Pubkey) (registrar' : ProgramRegistrar),
    (∀ id ∈ programIds, id ≠ Pubkey.default) →
    registrar.removeFromRegistrar programIds = .ok registrar' → ∀ id, id ≠ Pubkey.default →
      (registrar'.isInRegistrar id = true ↔
        registrar.isInRegistrar id = true ∧ id ∉ programIds)
  added : ∀ (programIds : List Pubkey) (registrar' : ProgramRegistrar),
    (∀ id ∈ programIds, id ≠ Pubkey.default) →
    registrar.addToRegistrar programIds = .ok registrar' → ∀ id, id ≠ Pubkey.default →
      (registrar'.isInRegistrar id = true ↔
        registrar.isInRegistrar id = true ∨ id ∈ programIds)
  failed : ∀ (update : ProgramRegistryUpdate) (e : Abort), registrar.step update = .error e →
    attempt step registrar update = registrar

/-- No program has two slots. -/
def Distinct (registrar : ProgramRegistrar) : Prop :=
  ∀ id, id ≠ Pubkey.default → registrar.count id ≤ 1

/-- What is added is new, and named once. -/
def AddsNew (registrar : ProgramRegistrar) (update : ProgramRegistryUpdate) : Prop :=
  update.remove = false → update.programIds.Nodup ∧
    ∀ id ∈ update.programIds, registrar.isInRegistrar id = false

variable {registrar registrar' : ProgramRegistrar} {programIds : List Pubkey} {id : Pubkey}
  {update : ProgramRegistryUpdate}

theorem isInRegistrar_iff : registrar.isInRegistrar id = true ↔ id ∈ registrar :=
  List.contains_iff_mem

/-! ### Additions -/

/-- A program gets as many slots as it is named times. -/
theorem count_fill (hid : id ≠ Pubkey.default)
    (hroom : programIds.length ≤ registrar.count Pubkey.default) :
    (fill registrar programIds).count id = registrar.count id + programIds.count id := by
  fun_induction fill registrar programIds with
  | case1 => simp
  | case2 ids hne => simp at hroom; exact absurd hroom hne
  | case3 rest new ids ih =>
      rw [List.count_cons_self, List.length_cons] at hroom
      have hfree : List.count id (Pubkey.default :: rest) = rest.count id :=
        List.count_cons_of_ne (Ne.symm hid)
      rw [hfree, List.count_cons, List.count_cons, ih (by omega)]
      omega
  | case4 slot rest new ids hused ih =>
      rw [List.count_cons_of_ne hused] at hroom
      rw [List.count_cons, List.count_cons, ih hroom]
      omega

theorem addToRegistrar_count (hid : id ≠ Pubkey.default)
    (h : registrar.addToRegistrar programIds = .ok registrar') :
    registrar'.count id = registrar.count id + programIds.count id := by
  simp only [addToRegistrar, bind_eq_ok, checkCondition_eq_ok, Except.ok.injEq] at h
  obtain ⟨_, hroom, rfl⟩ := h
  rw [count_fill hid (by rw [List.length_reverse]; exact hroom), List.count_reverse]

theorem addToRegistrar_mem (hid : id ≠ Pubkey.default)
    (h : registrar.addToRegistrar programIds = .ok registrar') :
    id ∈ registrar' ↔ id ∈ registrar ∨ id ∈ programIds := by
  have hcount := addToRegistrar_count hid h
  rw [← List.count_pos_iff, ← List.count_pos_iff, ← List.count_pos_iff]
  omega

/-! ### Removals -/

theorem removeFromRegistrar_count (hid : id ≠ Pubkey.default)
    (h : registrar.removeFromRegistrar programIds = .ok registrar') :
    registrar'.count id = if id ∈ programIds then 0 else registrar.count id := by
  simp only [removeFromRegistrar, bind_eq_ok, checkCondition_eq_ok, Except.ok.injEq] at h
  obtain ⟨_, -, rfl⟩ := h
  induction registrar with
  | nil => simp
  | cons slot rest ih =>
      rw [List.map_cons, List.count_cons, ih, List.count_cons]
      by_cases hslot : slot = id
      · subst hslot
        by_cases hmem : slot ∈ programIds
        · simp [hmem, Ne.symm hid]
        · simp [hmem]
      · by_cases hmem : slot ∈ programIds
        · simp [hmem, hslot, Ne.symm hid]
        · simp [hmem, hslot]

theorem removeFromRegistrar_mem (hid : id ≠ Pubkey.default)
    (h : registrar.removeFromRegistrar programIds = .ok registrar') :
    id ∈ registrar' ↔ id ∈ registrar ∧ id ∉ programIds := by
  have hcount := removeFromRegistrar_count hid h
  rw [← List.count_pos_iff, ← List.count_pos_iff, hcount]
  split
  · next hmem => simp [hmem]
  · next hmem => simp [hmem]

theorem removeFromRegistrar_ok : (∃ registrar', registrar.removeFromRegistrar programIds
    = .ok registrar') ↔ (registrar.filter (· ∈ programIds)).length = programIds.length := by
  simp only [removeFromRegistrar, bind_eq_ok, checkCondition_eq_ok]
  exact ⟨fun ⟨_, _, h, _⟩ => h, fun h => ⟨_, (), h, rfl⟩⟩

/-- The count agrees with the set as long as no program is found twice. -/
theorem Distinct.removes (h : registrar.Distinct) (hnodup : programIds.Nodup)
    (hids : ∀ id ∈ programIds, id ≠ Pubkey.default) :
    (registrar.filter (· ∈ programIds)).length = programIds.length ↔
      ∀ id ∈ programIds, id ∈ registrar := by
  have hfound : (registrar.filter (· ∈ programIds)).Nodup := by
    refine List.nodup_iff_count_le_one.mpr fun id => ?_
    by_cases hid : id ∈ programIds
    · exact (List.filter_sublist.count_le id).trans (h id (hids id hid))
    · rw [List.count_eq_zero_of_not_mem (by simp [hid])]
      exact Nat.zero_le 1
  have hsub : List.Subperm (registrar.filter (· ∈ programIds)) programIds :=
    List.subperm_of_subset hfound fun id hid => of_decide_eq_true (List.mem_filter.mp hid).2
  constructor
  · intro hlength id hid
    have hperm := hsub.perm_of_length_le hlength.ge
    exact (List.mem_filter.mp (hperm.mem_iff.mpr hid)).1
  · intro hall
    have hsup : List.Subperm programIds (registrar.filter (· ∈ programIds)) :=
      List.subperm_of_subset hnodup fun id hid =>
        List.mem_filter.mpr ⟨hall id hid, decide_eq_true hid⟩
    exact Nat.le_antisymm hsub.length_le hsup.length_le

/-- A program with two slots cannot be removed. -/
theorem removeFromRegistrar_twice (h : (∃ registrar',
      registrar.removeFromRegistrar [id] = .ok registrar')) :
    registrar.count id = 1 := by
  rw [removeFromRegistrar_ok, List.length_singleton] at h
  rw [List.count_eq_length_filter, ← h]
  congr 2
  funext slot
  rw [Bool.eq_iff_iff]
  simp

/-! ### The law and its condition -/

/-- **A registrar acts as a set exactly if no program has two slots.** -/
theorem actsAsSet_iff : registrar.ActsAsSet ↔ registrar.Distinct := by
  constructor
  · intro h id hid
    by_contra htwice
    have hmem : id ∈ registrar := List.count_pos_iff.mp (by omega)
    have hremoves := (h.removes [id] (List.nodup_singleton id)
      (fun id' hid' => List.mem_singleton.mp hid' ▸ hid)).mpr
      (fun id' hid' => List.mem_singleton.mp hid' ▸ isInRegistrar_iff.mpr hmem)
    exact htwice (removeFromRegistrar_twice hremoves).le
  · intro h
    refine ⟨fun ids hnodup hids => ?_, fun ids r' _ hr' id hid => ?_, fun ids r' _ hr' id hid => ?_,
      fun update e he => ?_⟩
    · rw [removeFromRegistrar_ok, h.removes hnodup hids]
      exact forall₂_congr fun id _ => isInRegistrar_iff.symm
    · rw [isInRegistrar_iff, isInRegistrar_iff]
      exact removeFromRegistrar_mem hid hr'
    · rw [isInRegistrar_iff, isInRegistrar_iff]
      exact addToRegistrar_mem hid hr'
    · rw [attempt, he]

/-! ### Histories -/

theorem init_distinct (programId : Pubkey) : (init programId).Distinct := by
  intro id hid
  have hfree : (List.replicate (maxAcceptedPrograms - 1) Pubkey.default).count id = 0 := by
    rw [List.count_replicate, if_neg (by simpa using Ne.symm hid)]
  rw [init, List.count_cons, hfree]
  split
  · exact le_rfl
  · exact Nat.zero_le 1

/-- Programs stay distinct exactly if those that are added are new. -/
theorem step_distinct (h : registrar.Distinct) (hids : update.NonDefault)
    (hstep : registrar.step update = .ok registrar') :
    registrar'.Distinct ↔ registrar.AddsNew update := by
  rw [step] at hstep
  split at hstep
  · next hremove =>
    refine ⟨fun _ hadd => absurd hremove (by simp [hadd]), fun _ id hid => ?_⟩
    rw [removeFromRegistrar_count hid hstep]
    split
    · exact Nat.zero_le 1
    · exact h id hid
  · next hadd =>
    have hcount {id : Pubkey} (hid : id ≠ Pubkey.default) := addToRegistrar_count hid hstep
    rw [AddsNew, imp_iff_right (Bool.not_eq_true _ ▸ hadd), List.nodup_iff_count_le_one]
    constructor
    · intro h'
      refine ⟨fun id => ?_, fun id hid => ?_⟩
      · by_cases hmem : id ∈ update.programIds
        · have hle := h' id (hids id hmem)
          rw [hcount (hids id hmem)] at hle
          omega
        · rw [List.count_eq_zero_of_not_mem hmem]
          exact Nat.zero_le 1
      · have hle := h' id (hids id hid)
        rw [hcount (hids id hid)] at hle
        have hpos := List.count_pos_iff.mpr hid
        rw [← Bool.not_eq_true, isInRegistrar_iff, ← List.count_pos_iff]
        omega
    · rintro ⟨hnodup, hnew⟩ id hid
      rw [hcount hid]
      by_cases hmem : id ∈ update.programIds
      · have hout : id ∉ registrar := fun hin =>
          absurd (isInRegistrar_iff.mpr hin) (by simp [hnew id hmem])
        rw [List.count_eq_zero_of_not_mem hout, Nat.zero_add]
        exact hnodup id
      · rw [List.count_eq_zero_of_not_mem hmem]
        exact h id hid

/-- **The registrar acts as a set throughout a history exactly if every addition that succeeds is
of programs that are not registered yet, each of them named once.** -/
theorem registrar_acts_as_set_iff {programId : Pubkey} {updates : List ProgramRegistryUpdate}
    (hids : ∀ update ∈ updates, update.NonDefault) :
    (∀ before, before <+: updates → (run step (init programId) before).ActsAsSet) ↔
      RunMeets step (fun registrar update =>
        (∃ registrar', registrar.step update = .ok registrar') → registrar.AddsNew update)
        (init programId) updates := by
  simp only [actsAsSet_iff]
  exact run_inv_iff (fun _ update _ hmem h hstep => step_distinct h (hids update hmem) hstep)
    (init_distinct programId)

/-- A program is registered, and registered once more. -/
def addedTwice : List ProgramRegistryUpdate := [⟨[5], false⟩]

theorem registrar_acts_as_set_iff_addedTwice :
    (∀ before, before <+: addedTwice → (run step (init 5) before).ActsAsSet) ↔
      RunMeets step (fun registrar update =>
        (∃ registrar', registrar.step update = .ok registrar') → registrar.AddsNew update)
        (init 5) addedTwice :=
  registrar_acts_as_set_iff (by simp [addedTwice, ProgramRegistryUpdate.NonDefault, Pubkey.default])

/-- It is registered and cannot be removed, unless with one that is not registered. -/
theorem addedTwice_stays :
    (run step (init 5) addedTwice).isInRegistrar 5 = true ∧
      (run step (init 5) addedTwice).isInRegistrar 6 = false ∧
      (run step (init 5) addedTwice).removeFromRegistrar [5]
        = .error (.code .ProgramNotInRegistrar) ∧
      (run step (init 5) addedTwice).removeFromRegistrar [5, 6]
        = .ok (List.replicate maxAcceptedPrograms Pubkey.default) := by
  refine ⟨?_, ?_, ?_, ?_⟩ <;> rfl

end ProgramRegistrar

namespace Books

variable {T : TokenProgram} {b : Books T} {signer : Pubkey} {programIds : List Pubkey}
  {remove : Bool}

/-- The instruction is a step of the registrar, by the admin. -/
theorem administer_updateProgramRegistrar :
    b.administer (.updateProgramRegistrar signer programIds remove) = (do
      checkCondition (signer = admin) .Unauthorized
      let registrar ← load b.programRegistrar
      let registrar ← ProgramRegistrar.step registrar ⟨programIds, remove⟩
      .ok { b with programRegistrar := some registrar }) := by
  cases remove with
  | true => rfl
  | false => rfl

end Books

end IndexDtf
