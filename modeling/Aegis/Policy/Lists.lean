import Aegis.Foundation.Registry
import Aegis.Policy.Config

/-!
Owns the code that the three policy lists share: the capacity and duplicate
check with the insertion that follows it, the removal of the first match, and
their return values.

An operation settles: it returns zero after one change of the list, or an error
after none. On a list that represents a set of keys it returns what the set
decides.

Does not own: the arguments a list refuses, its comparison, or its entries.
-/

namespace Aegis.Policy

open Aegis.Foundation
open Aegis.Kernel

universe u

/-- Return value, list and log of a list operation. -/
structure ListOp (Entry : Type u) where
  ret : Int
  list : Registry Entry
  log : List LogRecord

section Operations

variable {Entry : Type u}

def ListOp.fail (error : Errno) (registry : Registry Entry) : ListOp Entry :=
  ⟨error.ret, registry, []⟩

@[simp] theorem ListOp.fail_ret (error : Errno) (registry : Registry Entry) :
    (ListOp.fail error registry).ret = error.ret := rfl

@[simp] theorem ListOp.fail_list (error : Errno) (registry : Registry Entry) :
    (ListOp.fail error registry).list = registry := rfl

/-- `new` is the filled entry with its log record, `none` if its allocation
failed. -/
def listAdd (max : Nat) (hit : Entry → Bool) (new : Option (Entry × LogRecord))
    (registry : Registry Entry) : ListOp Entry :=
  match registry.admission max hit with
  | .full => .fail .enospc registry
  | .duplicate => .fail .eexist registry
  | .admitted =>
      match new with
      | none => .fail .enomem registry
      | some (entry, record) => ⟨0, registry.linkTail entry, [record]⟩

def listDel (hit : Entry → Bool) (record : LogRecord) (registry : Registry Entry) : ListOp Entry :=
  if registry.listed hit then ⟨0, registry.unlinkFirst hit, [record]⟩
  else .fail .enoent registry

end Operations

/-! ### All or nothing -/

section Settles

variable {Entry : Type u}

/-- One entry was appended and counted. -/
def OneAppended (old new : Registry Entry) : Prop :=
  ∃ entry, new = ⟨old.entries ++ [entry], old.count + 1⟩

/-- One entry was removed and counted. -/
def OneRemoved (old new : Registry Entry) : Prop :=
  ∃ before entry after, old.entries = before ++ entry :: after ∧
    new = ⟨before ++ after, old.count - 1⟩

/-- The operation changes the list when it returns zero, and otherwise returns
an error and leaves the list alone. -/
def Settles (change : Registry Entry → Registry Entry → Prop) (old : Registry Entry)
    (op : ListOp Entry) : Prop :=
  (op.ret = 0 ∧ change old op.list) ∨ ∃ error : Errno, op.ret = error.ret ∧ op.list = old

variable {registry : Registry Entry}

theorem settles_fail (change : Registry Entry → Registry Entry → Prop) (error : Errno) :
    Settles change registry (.fail error registry) :=
  Or.inr ⟨error, rfl, rfl⟩

theorem listAdd_settles (max : Nat) (hit : Entry → Bool) (new : Option (Entry × LogRecord)) :
    Settles OneAppended registry (listAdd max hit new registry) := by
  unfold listAdd
  cases registry.admission max hit with
  | full => exact settles_fail _ _
  | duplicate => exact settles_fail _ _
  | admitted =>
      cases new with
      | none => exact settles_fail _ _
      | some new => exact Or.inl ⟨rfl, new.1, rfl⟩

/-- An insertion that returns zero has linked the new entry. -/
theorem listAdd_list_of_ret_zero {max : Nat} {hit : Entry → Bool}
    {new : Option (Entry × LogRecord)} (added : (listAdd max hit new registry).ret = 0) :
    ∃ made ∈ new, (listAdd max hit new registry).list = registry.linkTail made.1 := by
  unfold listAdd at added ⊢
  cases answer : registry.admission max hit with
  | full => simp [answer] at added
  | duplicate => simp [answer] at added
  | admitted =>
      cases new with
      | none => simp [answer] at added
      | some made => exact ⟨made, rfl, rfl⟩

/-- A removal undoes an insertion that returned zero. -/
theorem listDel_listAdd {max : Nat} {hit : Entry → Bool} {new : Option (Entry × LogRecord)}
    (added : (listAdd max hit new registry).ret = 0) (hits : ∀ made ∈ new, hit made.1 = true)
    (record : LogRecord) :
    listDel hit record (listAdd max hit new registry).list = ⟨0, registry, [record]⟩ := by
  obtain ⟨made, isNew, linked⟩ := listAdd_list_of_ret_zero added
  have absent : registry.listed hit = false := by
    unfold listAdd at added
    cases answer : registry.admission max hit with
    | full => simp [answer] at added
    | duplicate => simp [answer] at added
    | admitted => exact (Registry.admission_eq_admitted.mp answer).2
  have present : (registry.linkTail made.1).listed hit = true :=
    Registry.listed_iff.mpr ⟨made.1, by simp, hits made isNew⟩
  rw [linked, listDel, if_pos present, Registry.unlinkFirst_linkTail absent (hits made isNew)]

/-- A removal that returns zero has unlinked the first entry that is hit. -/
theorem listDel_list_of_ret_zero {hit : Entry → Bool} {record : LogRecord}
    (removed : (listDel hit record registry).ret = 0) :
    ∃ before entry after, registry.entries = before ++ entry :: after ∧ hit entry = true ∧
      (listDel hit record registry).list.entries = before ++ after := by
  unfold listDel at removed ⊢
  by_cases present : registry.listed hit = true
  · obtain ⟨before, entry, after, split, hits, -, erased⟩ := Registry.exists_unlinkFirst present
    rw [if_pos present]
    exact ⟨before, entry, after, split, hits, erased⟩
  · simp [present] at removed

theorem listDel_settles (hit : Entry → Bool) (record : LogRecord) :
    Settles OneRemoved registry (listDel hit record registry) := by
  unfold listDel
  by_cases present : registry.listed hit = true
  · rw [if_pos present]
    obtain ⟨before, entry, after, split, -, -, erased⟩ := Registry.exists_unlinkFirst present
    refine Or.inl ⟨rfl, before, entry, after, split, ?_⟩
    rw [← erased]
    rfl
  · rw [if_neg present]
    exact settles_fail _ _

end Settles

/-! ### Lists of good entries -/

section Sound

variable {Entry : Type u} {max : Nat} {good : Entry → Prop} {registry : Registry Entry}

/-- The counter is right, the capacity is kept, and every entry is good. -/
structure SoundList (max : Nat) (good : Entry → Prop) (registry : Registry Entry) : Prop where
  counted : registry.Counted
  bounded : registry.entries.length ≤ max
  good : ∀ entry ∈ registry.entries, good entry

theorem soundList_empty (max : Nat) (good : Entry → Prop) :
    SoundList max good (Registry.empty : Registry Entry) :=
  ⟨Registry.counted_empty, Nat.zero_le max, by simp [Registry.empty]⟩

theorem listAdd_sound (sound : SoundList max good registry) {hit : Entry → Bool}
    {new : Option (Entry × LogRecord)} (isGood : ∀ made ∈ new, good made.1) :
    SoundList max good (listAdd max hit new registry).list := by
  unfold listAdd
  cases answer : registry.admission max hit with
  | full => exact sound
  | duplicate => exact sound
  | admitted =>
      cases new with
      | none => exact sound
      | some made =>
          have room := (Registry.admission_eq_admitted.mp answer).1
          have counted := sound.counted
          refine ⟨counted.linkTail made.1, ?_, ?_⟩
          · unfold Registry.Counted at counted
            rw [Registry.linkTail_entries, List.length_append, List.length_singleton]
            omega
          · intro entry member
            rcases List.mem_append.mp member with old | new
            · exact sound.good entry old
            · obtain rfl : entry = made.1 := by simpa using new
              exact isGood made rfl

theorem listDel_sound (sound : SoundList max good registry) (hit : Entry → Bool)
    (record : LogRecord) : SoundList max good (listDel hit record registry).list := by
  unfold listDel
  by_cases present : registry.listed hit = true
  · rw [if_pos present]
    have kept : (registry.unlinkFirst hit).entries.Sublist registry.entries :=
      List.eraseP_sublist
    exact ⟨sound.counted.unlinkFirst present, kept.length_le.trans sound.bounded,
      fun entry member => sound.good entry (kept.subset member)⟩
  · rw [if_neg present]
    exact sound

end Sound

/-! ### Lists that represent sets -/

section Represents

variable {Entry Key : Type u} [DecidableEq Key] {key : Entry → Key} {max : Nat}
variable {registry : Registry Entry} {keys : Finset Key} {hit : Entry → Bool} {wanted : Key}

/-- Return value and set after an insertion that finds memory. -/
def setAdd (max : Nat) (wanted : Key) (keys : Finset Key) : Int × Finset Key :=
  if max ≤ keys.card then (Errno.enospc.ret, keys)
  else if wanted ∈ keys then (Errno.eexist.ret, keys)
  else (0, insert wanted keys)

/-- Return value and set after a removal. -/
def setDel (wanted : Key) (keys : Finset Key) : Int × Finset Key :=
  if wanted ∈ keys then (0, keys.erase wanted) else (Errno.enoent.ret, keys)

theorem listAdd_represents (represents : Registry.Represents key max registry keys)
    (exact : Registry.HitsKey key hit wanted) (entry : Entry) (keyed : key entry = wanted)
    (record : LogRecord) :
    (listAdd max hit (some (entry, record)) registry).ret = (setAdd max wanted keys).1 ∧
      Registry.Represents key max (listAdd max hit (some (entry, record)) registry).list
        (setAdd max wanted keys).2 := by
  unfold listAdd setAdd
  rw [represents.admission_eq exact, Registry.admissionOf]
  by_cases full : max ≤ keys.card
  · simp only [full, if_true]
    exact ⟨rfl, represents⟩
  · by_cases present : wanted ∈ keys
    · simp only [full, present, if_true, if_false]
      exact ⟨rfl, represents⟩
    · simp only [full, present, if_false]
      subst keyed
      exact ⟨trivial, represents.linkTail (Nat.lt_of_not_le full) present⟩

theorem listDel_represents (represents : Registry.Represents key max registry keys)
    (exact : Registry.HitsKey key hit wanted) (record : LogRecord) :
    (listDel hit record registry).ret = (setDel wanted keys).1 ∧
      Registry.Represents key max (listDel hit record registry).list (setDel wanted keys).2 := by
  unfold listDel setDel
  by_cases present : wanted ∈ keys
  · simp only [(represents.listed_iff exact).mpr present, present, if_true]
    exact ⟨trivial, represents.unlinkFirst exact present⟩
  · have absent : ¬ registry.listed hit = true := fun isListed =>
      present ((represents.listed_iff exact).mp isListed)
    simp only [absent, present, if_false]
    exact ⟨rfl, represents⟩

end Represents

end Aegis.Policy
