import Mathlib.Logic.Function.Basic
import Aegis.Foundation.Handles
import Aegis.Control.Endpoints

/-!
Owns the securityfs tree of the module: `aegis_securityfs_init` and
`aegis_securityfs_exit` of `aegis_securityfs.c`, with the loops over the
control entries in `aegis_control.c`. The directory and the eleven files are
created one after another; when a creation fails, the error path removes what
was created before.

A removal fails in the model where it would be an error in the kernel: the
dentry is not in the tree, or it is a directory that is not empty. The outcome
of each creation is a parameter.

Does not own: what the files do when they are read or written.
-/

namespace Aegis.Control

open Aegis.Foundation
open Aegis.Kernel

/-! ### Securityfs -/

/-- The files of `aegis_securityfs.c`, which are only read. -/
inductive ReadFile where
  | status
  | stats
  | protectedProcs
  | protectedFiles
  | blockedSyscalls
deriving DecidableEq

/-- A static dentry pointer, and the operations of the file it stands for. -/
inductive Slot where
  | dir
  | read (file : ReadFile)
  | control (endpoint : Endpoint)
deriving DecidableEq

structure Dentry where
  name : String
  mode : Nat
  parent : Option Nat
  fops : Slot
deriving DecidableEq

inductive DentryPtr where
  | null
  | error (error : Errno)
  | entry (handle : Nat)

/-- The handle of a pointer that is not `IS_ERR_OR_NULL`. -/
def DentryPtr.handle? : DentryPtr → Option Nat
  | .entry handle => some handle
  | _ => none

@[simp] theorem DentryPtr.handle?_null : DentryPtr.null.handle? = none := rfl

@[simp] theorem DentryPtr.handle?_error (error : Errno) :
    (DentryPtr.error error).handle? = none := rfl

@[simp] theorem DentryPtr.handle?_entry (handle : Nat) :
    (DentryPtr.entry handle).handle? = some handle := rfl

abbrev Securityfs := Handles Dentry

/-- `securityfs_create_file` and `securityfs_create_dir`. -/
def securityfsCreate (failure : Option Errno) (dentry : Dentry) (fs : Securityfs) :
    Except Errno Nat × Securityfs :=
  match failure with
  | some error => (.error error, fs)
  | none =>
      if fs.entries.any fun entry =>
          entry.2.parent = dentry.parent && entry.2.name = dentry.name then
        (.error .eexist, fs)
      else (.ok fs.next, fs.create dentry)

def securityfsRemove (handle : Nat) (fs : Securityfs) : Option Securityfs :=
  if fs.entries.any fun entry => entry.2.parent = some handle then none else fs.remove handle

/-! ### The module's tree -/

structure Tree where
  fs : Securityfs
  ptr : Slot → DentryPtr

/-- Which creations fail, besides those of a name that exists. -/
abbrev Failures := Slot → Option Errno

/-- `if (!IS_ERR_OR_NULL(d)) securityfs_remove(d);` -/
def removeLive (ptr : DentryPtr) (fs : Securityfs) : Option Securityfs :=
  match ptr.handle? with
  | some handle => securityfsRemove handle fs
  | none => some fs

def ReadFile.name : ReadFile → String
  | .status => "status"
  | .stats => "stats"
  | .protectedProcs => "protected_procs"
  | .protectedFiles => "protected_files"
  | .blockedSyscalls => "blocked_syscalls"

/-- In the order of their creation and of their removal. -/
def readFiles : List ReadFile :=
  [.status, .stats, .protectedProcs, .protectedFiles, .blockedSyscalls]

/-- The loop of `aegis_control_init`. -/
def aegisControlInit (fails : Failures) (parent : Nat) :
    List (String × Endpoint) → Tree → Int × Tree
  | [], tree => (0, tree)
  | (name, endpoint) :: rest, tree =>
      match securityfsCreate (fails (.control endpoint))
          ⟨name, 0o200, some parent, .control endpoint⟩ tree.fs with
      | (.error error, fs) => (error.ret, { tree with fs := fs })
      | (.ok handle, fs) =>
          aegisControlInit fails parent rest
            ⟨fs, Function.update tree.ptr (.control endpoint) (.entry handle)⟩

/-- The loop of `aegis_control_exit`. -/
def aegisControlExit : List (String × Endpoint) → Tree → Option Tree
  | [], tree => some tree
  | (_, endpoint) :: rest, tree =>
      (removeLive (tree.ptr (.control endpoint)) tree.fs).bind fun fs =>
        aegisControlExit rest ⟨fs, Function.update tree.ptr (.control endpoint) .null⟩

/-- The five removals of the read files. -/
def removeReadFiles (ptr : Slot → DentryPtr) : List ReadFile → Securityfs → Option Securityfs
  | [], fs => some fs
  | file :: rest, fs => (removeLive (ptr (.read file)) fs).bind (removeReadFiles ptr rest)

def aegisSecurityfsExit (tree : Tree) : Option Tree :=
  (aegisControlExit aectlEntries tree).bind fun tree =>
    (removeReadFiles tree.ptr readFiles tree.fs).bind fun fs =>
      (removeLive (tree.ptr .dir) fs).map fun fs =>
        { fs := fs
          ptr := fun
            | .control endpoint => tree.ptr (.control endpoint)
            | _ => .null }

/-- The five creations of the read files, up to the first that fails. A failed
one leaves its error in the pointer. -/
def createReadFiles (fails : Failures) (parent : Nat) :
    List ReadFile → Tree → Option Errno × Tree
  | [], tree => (none, tree)
  | file :: rest, tree =>
      match securityfsCreate (fails (.read file)) ⟨file.name, 0o444, some parent, .read file⟩
          tree.fs with
      | (.error error, fs) =>
          (some error, ⟨fs, Function.update tree.ptr (.read file) (.error error)⟩)
      | (.ok handle, fs) =>
          createReadFiles fails parent rest
            ⟨fs, Function.update tree.ptr (.read file) (.entry handle)⟩

/-- `none` if a removal is an error. -/
def aegisSecurityfsInit (fails : Failures) (tree : Tree) : Option (Int × Tree) :=
  match securityfsCreate (fails .dir) ⟨"aegis", 0o755, none, .dir⟩ tree.fs with
  | (.error error, fs) => some (error.ret, ⟨fs, Function.update tree.ptr .dir .null⟩)
  | (.ok handle, fs) =>
      match createReadFiles fails handle readFiles
          ⟨fs, Function.update tree.ptr .dir (.entry handle)⟩ with
      | (some error, tree) => (aegisSecurityfsExit tree).map fun tree => (error.ret, tree)
      | (none, tree) =>
          let control := aegisControlInit fails handle aectlEntries tree
          if control.1 ≠ 0 then
            (aegisSecurityfsExit control.2).map fun tree => (control.1, tree)
          else some (0, control.2)

/-! ### Trees in the making -/

theorem name_of_mem_aectlEntries :
    ∀ entry ∈ aectlEntries, entry.1 = entry.2.fileName :=
  List.forall_mem_map.mpr fun _ _ => rfl

/-- All slots, in the order of their creation. -/
def creationOrder : List Slot :=
  .dir :: (readFiles.map .read ++ aectlEntries.map fun entry => .control entry.2)

/-- The dentry of a slot, below the directory with this handle. -/
def Slot.dentry (parent : Nat) : Slot → Dentry
  | .dir => ⟨"aegis", 0o755, none, .dir⟩
  | .read file => ⟨file.name, 0o444, some parent, .read file⟩
  | .control endpoint => ⟨endpoint.fileName, 0o200, some parent, .control endpoint⟩

@[simp] theorem Slot.dentry_fops (parent : Nat) (slot : Slot) :
    (slot.dentry parent).fops = slot := by
  cases slot <;> rfl

theorem Slot.dentry_parent (parent : Nat) {slot : Slot} (notDir : slot ≠ .dir) :
    (slot.dentry parent).parent = some parent := by
  cases slot with
  | dir => exact absurd rfl notDir
  | _ => rfl

theorem mem_creationOrder (slot : Slot) : slot ∈ creationOrder := by
  cases slot with
  | dir => decide
  | read file => cases file <;> decide
  | control endpoint => cases endpoint <;> decide

/-- No two files have one name. -/
theorem Slot.eq_of_name_eq {parent : Nat} {first second : Slot}
    (same : (first.dentry parent).name = (second.dentry parent).name) : first = second := by
  have distinct : (creationOrder.map fun slot => (slot.dentry parent).name).Nodup := by
    show (creationOrder.map fun slot => (slot.dentry 0).name).Nodup
    decide
  exact List.inj_on_of_nodup_map distinct (mem_creationOrder first) (mem_creationOrder second) same

/-- The entry of a slot with its handle. -/
def entryOf (first : Nat) (pair : Slot × Nat) : Nat × Dentry := (pair.2, pair.1.dentry first)

/-- Handles of slots that were created one after another, from the directory
on. -/
def numbered (first : Nat) (slots : List Slot) : List (Slot × Nat) := slots.zipIdx first

section Numbered

variable {first : Nat} {slots : List Slot} {slot other : Slot} {handle : Nat}

theorem numbered_concat (slot : Slot) :
    numbered first (slots ++ [slot]) = numbered first slots ++ [(slot, first + slots.length)] := by
  simp [numbered, List.zipIdx_append]

theorem mem_of_mem_numbered (member : (slot, handle) ∈ numbered first slots) : slot ∈ slots := by
  have inMap := List.mem_map_of_mem member (f := Prod.fst)
  rwa [numbered, List.zipIdx_map_fst] at inMap

theorem mem_numbered_iff :
    (slot, handle) ∈ numbered first slots ↔
      first ≤ handle ∧ slots[handle - first]? = some slot := by
  rw [numbered, List.mem_zipIdx_iff_le_and_getElem?_sub]

theorem numbered_handle_unique (member : (slot, handle) ∈ numbered first slots)
    (also : (other, handle) ∈ numbered first slots) : slot = other := by
  have here := (mem_numbered_iff.mp member).2
  have there := (mem_numbered_iff.mp also).2
  exact Option.some.inj (here.symm.trans there)

theorem numbered_slot_unique {otherHandle : Nat} (distinct : slots.Nodup)
    (member : (slot, handle) ∈ numbered first slots)
    (also : (slot, otherHandle) ∈ numbered first slots) : handle = otherHandle := by
  obtain ⟨low, here⟩ := mem_numbered_iff.mp member
  obtain ⟨otherLow, there⟩ := mem_numbered_iff.mp also
  have inside : handle - first < slots.length := (List.getElem?_eq_some_iff.mp here).1
  have same := (List.getElem?_inj inside distinct).mp (here.trans there.symm)
  omega

end Numbered

/-- The tree holds the base and the entries of `slots`, and exactly their
pointers are live. -/
structure Built (base : List (Nat × Dentry)) (first : Nat) (slots : List Slot) (tree : Tree) :
    Prop where
  beyond : Handles.Beyond base ((numbered first slots).map (entryOf first)) tree.fs
  next : tree.fs.next = first + slots.length
  live : ∀ slot handle,
    (tree.ptr slot).handle? = some handle ↔ (slot, handle) ∈ numbered first slots

/-- No entry of the base is below a directory that is created later. -/
def Older (base : List (Nat × Dentry)) (first : Nat) : Prop :=
  ∀ entry ∈ base, ∀ parent, entry.2.parent = some parent → parent < first

section Building

variable {base : List (Nat × Dentry)} {first : Nat} {slots : List Slot} {slot : Slot} {tree : Tree}

/-- What is created under the directory has a new name. -/
theorem Built.no_clash (built : Built base first slots tree) (older : Older base first)
    (fresh : slot ∉ slots) (notDir : slot ≠ .dir) :
    (tree.fs.entries.any fun entry => entry.2.parent = (slot.dentry first).parent &&
      entry.2.name = (slot.dentry first).name) = false := by
  rw [List.any_eq_false]
  intro entry member clash
  simp only [Bool.and_eq_true, decide_eq_true_eq, Slot.dentry_parent first notDir] at clash
  rw [built.beyond.entries, List.mem_append] at member
  rcases member with inBase | inSlots
  · exact Nat.lt_irrefl first (older entry inBase first clash.1)
  · obtain ⟨⟨other, handle⟩, isNumbered, rfl⟩ := List.mem_map.mp inSlots
    have same : other = slot := Slot.eq_of_name_eq clash.2
    subst same
    exact fresh (mem_of_mem_numbered isNumbered)

/-- The tree after one more creation. -/
theorem Built.create (built : Built base first slots tree) (fresh : slot ∉ slots) :
    Built base first (slots ++ [slot])
      ⟨tree.fs.create (slot.dentry first),
        Function.update tree.ptr slot (.entry tree.fs.next)⟩ where
  beyond := by
    rw [numbered_concat, List.map_append, List.map_singleton, entryOf, ← built.next]
    exact built.beyond.create _
  next := by
    show tree.fs.next + 1 = _
    rw [built.next, List.length_append, List.length_singleton, Nat.add_assoc]
  live other handle := by
    rw [numbered_concat, List.mem_append, List.mem_singleton, ← built.live, ← built.next]
    by_cases same : other = slot
    · subst same
      have idle : (tree.ptr other).handle? ≠ some handle := fun isLive =>
        fresh (mem_of_mem_numbered ((built.live other handle).mp isLive))
      simp [idle, eq_comm]
    · simp [same]

/-- A failed creation leaves no live pointer. -/
theorem Built.fail (built : Built base first slots tree) (fresh : slot ∉ slots) (error : Errno) :
    Built base first slots ⟨tree.fs, Function.update tree.ptr slot (.error error)⟩ where
  beyond := built.beyond
  next := built.next
  live other handle := by
    by_cases same : other = slot
    · subst same
      have missing : (other, handle) ∉ numbered first slots := fun member =>
        fresh (mem_of_mem_numbered member)
      simp [missing]
    · simpa [same] using built.live other handle

end Building

/-! ### Removal -/

/-- The entries of the slots that have not been removed. -/
def remaining (first : Nat) (slots removed : List Slot) : List (Nat × Dentry) :=
  ((numbered first slots).filter fun pair => pair.1 ∉ removed).map (entryOf first)

section Removing

variable {base : List (Nat × Dentry)} {first : Nat} {slots removed : List Slot} {slot : Slot}
variable {fs : Securityfs}

/-- The directory is the first of the slots, and goes last. -/
structure Removable (base : List (Nat × Dentry)) (first : Nat) (slots removed : List Slot)
    (slot : Slot) : Prop where
  older : Older base first
  distinct : slots.Nodup
  head : slots.head? = some .dir
  last : slot = .dir → ∀ other ∈ slots, other ≠ .dir → other ∈ removed

theorem Removable.no_child (removable : Removable base first slots removed slot)
    (beyond : Handles.Beyond base (remaining first slots removed) fs) {handle : Nat}
    (isNumbered : (slot, handle) ∈ numbered first slots) :
    (fs.entries.any fun entry => entry.2.parent = some handle) = false := by
  rw [List.any_eq_false]
  intro entry member child
  simp only [decide_eq_true_eq] at child
  have low : first ≤ handle := (mem_numbered_iff.mp isNumbered).1
  rw [beyond.entries, List.mem_append] at member
  rcases member with inBase | inSlots
  · have older := removable.older entry inBase handle child
    omega
  · obtain ⟨⟨other, otherHandle⟩, isKept, rfl⟩ := List.mem_map.mp inSlots
    obtain ⟨alsoNumbered, kept⟩ := List.mem_filter.mp isKept
    have notDir : other ≠ .dir := by
      rintro rfl
      cases child
    -- Only the directory has entries below it, and they are gone before it is.
    have isFirst : handle = first := by
      have parent := Slot.dentry_parent first notDir
      exact (Option.some.inj (parent.symm.trans child)).symm
    have isDir : slot = .dir := by
      have found := (mem_numbered_iff.mp isNumbered).2
      rw [isFirst, Nat.sub_self, ← List.head?_eq_getElem?, removable.head] at found
      exact (Option.some.inj found).symm
    have gone := removable.last isDir other (mem_of_mem_numbered alsoNumbered) notDir
    simp [gone] at kept

theorem remaining_filter (distinct : slots.Nodup) {handle : Nat}
    (isNumbered : (slot, handle) ∈ numbered first slots) :
    (remaining first slots removed).filter (fun entry => entry.1 ≠ handle) =
      remaining first slots (slot :: removed) := by
  rw [remaining, List.filter_map, List.filter_filter, remaining]
  congr 1
  apply List.filter_congr
  rintro ⟨other, otherHandle⟩ member
  have sameIff : otherHandle = handle ↔ other = slot := by
    constructor
    · rintro rfl
      exact numbered_handle_unique member isNumbered
    · rintro rfl
      exact numbered_slot_unique distinct member isNumbered
  simp [entryOf, sameIff]

/-- Removing what a pointer shows, if it shows anything. -/
theorem Removable.removeLive (removable : Removable base first slots removed slot)
    (beyond : Handles.Beyond base (remaining first slots removed) fs) {ptr : DentryPtr}
    (live : ∀ handle, ptr.handle? = some handle ↔ (slot, handle) ∈ numbered first slots)
    (present : slot ∉ removed) :
    ∃ after, Control.removeLive ptr fs = some after ∧
      Handles.Beyond base (remaining first slots (slot :: removed)) after := by
  unfold Control.removeLive
  cases shown : ptr.handle? with
  | none =>
      refine ⟨fs, rfl, ?_⟩
      have absent : ∀ handle, (slot, handle) ∉ numbered first slots := by
        intro handle member
        have isLive := (live handle).mpr member
        simp [shown] at isLive
      have same : remaining first slots (slot :: removed) = remaining first slots removed := by
        unfold remaining
        congr 1
        apply List.filter_congr
        rintro ⟨other, handle⟩ member
        have different : other ≠ slot := by
          rintro rfl
          exact absent handle member
        simp [different]
      rw [same]
      exact beyond
  | some handle =>
      have isNumbered := (live handle).mp shown
      have isOwned : handle ∈ (remaining first slots removed).map Prod.fst := by
        refine List.mem_map.mpr ⟨entryOf first (slot, handle), ?_, rfl⟩
        exact List.mem_map_of_mem (List.mem_filter.mpr ⟨isNumbered, by simp [present]⟩)
      obtain ⟨after, removedHandle, next⟩ := beyond.remove isOwned
      rw [remaining_filter removable.distinct isNumbered] at next
      refine ⟨after, ?_, next⟩
      show securityfsRemove handle fs = some after
      rw [securityfsRemove, removable.no_child beyond isNumbered]
      exact removedHandle

/-- The five removals. -/
theorem removeReadFiles_remaining (ptr : Slot → DentryPtr) (files : List ReadFile)
    (removable : ∀ file ∈ files, ∀ removed, Removable base first slots removed (.read file))
    (live : ∀ file ∈ files, ∀ handle,
      (ptr (.read file)).handle? = some handle ↔ (.read file, handle) ∈ numbered first slots)
    (present : ∀ file ∈ files, Slot.read file ∉ removed) (once : files.Nodup)
    (beyond : Handles.Beyond base (remaining first slots removed) fs) :
    ∃ after gone, removeReadFiles ptr files fs = some after ∧
      Handles.Beyond base (remaining first slots gone) after ∧
      ∀ slot, slot ∈ gone ↔ slot ∈ removed ∨ slot ∈ files.map .read := by
  induction files generalizing fs removed with
  | nil => exact ⟨fs, removed, rfl, beyond, by simp⟩
  | cons file rest inductionHypothesis =>
      obtain ⟨notLater, restOnce⟩ := List.nodup_cons.mp once
      obtain ⟨next, isRemoved, nextBeyond⟩ := (removable file (by simp) removed).removeLive beyond
        (live file (by simp)) (present file (by simp))
      obtain ⟨after, gone, restRemoved, afterBeyond, isGone⟩ := inductionHypothesis
        (fun other member => removable other (by simp [member]))
        (fun other member => live other (by simp [member]))
        (fun other member => by
          rw [List.mem_cons, not_or]
          refine ⟨?_, present other (by simp [member])⟩
          rintro ⟨⟩
          exact notLater member) restOnce nextBeyond
      refine ⟨after, gone, ?_, afterBeyond, fun slot => ?_⟩
      · rw [removeReadFiles, isRemoved, Option.bind_some]
        exact restRemoved
      · rw [isGone slot, List.mem_cons, List.map_cons, List.mem_cons]
        tauto

/-- The loop of the control files. -/
theorem aegisControlExit_remaining (entries : List (String × Endpoint)) {tree : Tree}
    (removable : ∀ entry ∈ entries, ∀ removed,
      Removable base first slots removed (.control entry.2))
    (live : ∀ entry ∈ entries, ∀ handle, (tree.ptr (.control entry.2)).handle? = some handle ↔
      (.control entry.2, handle) ∈ numbered first slots)
    (present : ∀ entry ∈ entries, Slot.control entry.2 ∉ removed)
    (once : (entries.map Prod.snd).Nodup)
    (beyond : Handles.Beyond base (remaining first slots removed) tree.fs) :
    ∃ after gone, aegisControlExit entries tree = some after ∧
      Handles.Beyond base (remaining first slots gone) after.fs ∧
      (∀ slot, slot ∈ gone ↔ slot ∈ removed ∨ slot ∈ entries.map fun entry => .control entry.2) ∧
      ∀ slot, after.ptr slot =
        if slot ∈ entries.map fun entry => .control entry.2 then .null else tree.ptr slot := by
  induction entries generalizing tree removed with
  | nil => exact ⟨tree, removed, rfl, beyond, by simp, by simp⟩
  | cons entry rest inductionHypothesis =>
      obtain ⟨name, endpoint⟩ := entry
      obtain ⟨notLater, restOnce⟩ := List.nodup_cons.mp once
      obtain ⟨next, isRemoved, nextBeyond⟩ :=
        (removable (name, endpoint) (by simp) removed).removeLive beyond
          (live (name, endpoint) (by simp)) (present (name, endpoint) (by simp))
      have different : ∀ other ∈ rest, Slot.control other.2 ≠ .control endpoint := by
        intro other member same
        exact notLater (List.mem_map.mpr ⟨other, member, Slot.control.inj same⟩)
      let nextTree : Tree := ⟨next, Function.update tree.ptr (.control endpoint) .null⟩
      have nextLive : ∀ other ∈ rest, ∀ handle,
          (nextTree.ptr (.control other.2)).handle? = some handle ↔
            (.control other.2, handle) ∈ numbered first slots := by
        intro other member
        have kept : nextTree.ptr (.control other.2) = tree.ptr (.control other.2) :=
          Function.update_of_ne (different other member) _ _
        rw [kept]
        exact live other (by simp [member])
      obtain ⟨after, gone, restRemoved, afterBeyond, isGone, pointers⟩ := inductionHypothesis
        (fun other member => removable other (by simp [member])) nextLive
        (fun other member => by
          rw [List.mem_cons, not_or]
          exact ⟨different other member, present other (by simp [member])⟩) restOnce nextBeyond
      refine ⟨after, gone, ?_, afterBeyond, fun slot => ?_, fun slot => ?_⟩
      · rw [aegisControlExit, isRemoved, Option.bind_some]
        exact restRemoved
      · rw [isGone slot, List.mem_cons, List.map_cons, List.mem_cons]
        tauto
      · rw [pointers slot, List.map_cons]
        by_cases own : slot = .control endpoint
        · subst own
          simp [nextTree]
        · have kept : nextTree.ptr slot = tree.ptr slot := Function.update_of_ne own _ _
          simp only [List.mem_cons, own, false_or, kept]

end Removing

section Exit

variable {base : List (Nat × Dentry)} {first : Nat} {slots : List Slot} {tree : Tree}

/-- What was built is removed, and no pointer is left. -/
theorem Built.exit (built : Built base first slots tree) (older : Older base first)
    (distinct : slots.Nodup) (head : slots.head? = some .dir) :
    ∃ after, aegisSecurityfsExit tree = some after ∧ after.fs.Valid ∧ after.fs.entries = base ∧
      ∀ slot, after.ptr slot = .null := by
  have files : ∀ slot removed, slot ≠ .dir → Removable base first slots removed slot :=
    fun slot removed notDir => ⟨older, distinct, head, fun isDir => absurd isDir notDir⟩
  have start : Handles.Beyond base (remaining first slots []) tree.fs := by
    have all : remaining first slots [] = (numbered first slots).map (entryOf first) := by
      simp [remaining]
    rw [all]
    exact built.beyond
  obtain ⟨controlled, gone, controlExit, controlBeyond, isGone, pointers⟩ :=
    aegisControlExit_remaining aectlEntries
      (fun entry _ removed => files (.control entry.2) removed (by simp))
      (fun entry _ => built.live (.control entry.2)) (by simp) (by decide) start
  have live : ∀ slot, slot ∉ aectlEntries.map (fun entry => Slot.control entry.2) →
      ∀ handle, (controlled.ptr slot).handle? = some handle ↔
        (slot, handle) ∈ numbered first slots := by
    intro slot other
    rw [pointers slot, if_neg other]
    exact built.live slot
  obtain ⟨fs, goneToo, readExit, readBeyond, isGoneToo⟩ :=
    removeReadFiles_remaining controlled.ptr readFiles
      (fun file _ removed => files (.read file) removed (by simp))
      (fun file _ => live (.read file) (by simp))
      (fun file _ => by rw [isGone]; simp) (by decide) controlBeyond
  have last : Removable base first slots goneToo .dir := by
    refine ⟨older, distinct, head, fun _ slot _ notDir => ?_⟩
    rw [isGoneToo, isGone]
    have listed := mem_creationOrder slot
    rw [creationOrder, List.mem_cons, List.mem_append] at listed
    tauto
  obtain ⟨after, dirExit, dirBeyond⟩ := last.removeLive readBeyond
    (live .dir (by simp)) (by rw [isGoneToo, isGone]; simp)
  refine ⟨_, by
    rw [aegisSecurityfsExit, controlExit, Option.bind_some, readExit, Option.bind_some, dirExit]
    rfl, dirBeyond.valid, ?_, ?_⟩
  · have nothing : remaining first slots (.dir :: goneToo) = [] := by
      rw [remaining, List.map_eq_nil_iff, List.filter_eq_nil_iff]
      rintro ⟨slot, handle⟩ _
      have listed := mem_creationOrder slot
      rw [creationOrder, List.mem_cons, List.mem_append] at listed
      have isGoneLast : slot ∈ Slot.dir :: goneToo := by
        rw [List.mem_cons, isGoneToo, isGone]
        tauto
      simp only [isGoneLast, not_true_eq_false, decide_false, Bool.false_eq_true,
        not_false_eq_true]
    show after.entries = base
    rw [dirBeyond.entries, nothing, List.append_nil]
  · intro slot
    cases slot with
    | dir => rfl
    | read file => rfl
    | control endpoint =>
        show controlled.ptr (.control endpoint) = .null
        rw [pointers, if_pos (by cases endpoint <;> decide)]

end Exit

/-! ### Creation -/

section Creation

variable {base : List (Nat × Dentry)} {first : Nat} {slots : List Slot} {tree : Tree}
variable (fails : Failures)

theorem securityfsCreate_some (error : Errno) (dentry : Dentry) (fs : Securityfs) :
    securityfsCreate (some error) dentry fs = (.error error, fs) := rfl

/-- A creation below the directory fails only if it is made to fail. -/
theorem Built.securityfsCreate_none (built : Built base first slots tree)
    (older : Older base first) {slot : Slot} (fresh : slot ∉ slots) (notDir : slot ≠ .dir) :
    securityfsCreate none (slot.dentry first) tree.fs =
      (.ok tree.fs.next, tree.fs.create (slot.dentry first)) := by
  have noClash := built.no_clash older fresh notDir
  simp only [securityfsCreate, noClash]
  rfl

/-- A tree that can be removed again. -/
structure Standing (base : List (Nat × Dentry)) (first : Nat) (slots : List Slot) (tree : Tree) :
    Prop where
  built : Built base first slots tree
  distinct : slots.Nodup
  head : slots.head? = some .dir

theorem Standing.create (standing : Standing base first slots tree) {slot : Slot}
    (fresh : slot ∉ slots) :
    Standing base first (slots ++ [slot])
      ⟨tree.fs.create (slot.dentry first),
        Function.update tree.ptr slot (.entry tree.fs.next)⟩ where
  built := standing.built.create fresh
  distinct := (List.perm_append_singleton slot slots).nodup_iff.mpr
    (List.nodup_cons.mpr ⟨fresh, standing.distinct⟩)
  head := by
    rw [List.head?_append, standing.head]
    rfl

/-- The read files are created up to the first failure. -/
theorem createReadFiles_standing (older : Older base first) (files : List ReadFile)
    (standing : Standing base first slots tree) (once : files.Nodup)
    (fresh : ∀ file ∈ files, Slot.read file ∉ slots) :
    (createReadFiles fails first files tree).1 = files.findSome? (fun file => fails (.read file)) ∧
      ∃ built, Standing base first built (createReadFiles fails first files tree).2 ∧
        (files.findSome? (fun file => fails (.read file)) = none →
          built = slots ++ files.map .read) := by
  induction files generalizing slots tree with
  | nil => exact ⟨rfl, slots, standing, by simp⟩
  | cons file rest inductionHypothesis =>
      obtain ⟨notLater, restOnce⟩ := List.nodup_cons.mp once
      have isFresh := fresh file (by simp)
      cases failure : fails (.read file) with
      | some error =>
          simp only [createReadFiles, List.findSome?_cons, failure, securityfsCreate_some,
            reduceCtorEq, false_implies, and_true, true_and]
          exact ⟨slots, standing.built.fail isFresh error, standing.distinct, standing.head⟩
      | none =>
          have created := standing.built.securityfsCreate_none older isFresh (by simp)
          have dentry : (Slot.read file).dentry first =
              ⟨file.name, 0o444, some first, .read file⟩ := rfl
          rw [dentry] at created
          simp only [createReadFiles, List.findSome?_cons, failure, created]
          obtain ⟨error, built, result, all⟩ :=
            inductionHypothesis (standing.create isFresh) restOnce (by
              intro other member
              rw [List.mem_append, List.mem_singleton, not_or]
              refine ⟨fresh other (by simp [member]), ?_⟩
              rintro ⟨⟩
              exact notLater member)
          refine ⟨error, built, result, fun succeeds => ?_⟩
          rw [all succeeds, List.append_assoc]
          rfl

/-- The return value for the first failure, if there is one. -/
def retOf (failure : Option Errno) : Int := (failure.map Errno.ret).getD 0

/-- The control files are created up to the first failure, which leaves its
pointer alone. -/
theorem aegisControlInit_standing (older : Older base first) (entries : List (String × Endpoint))
    (named : ∀ entry ∈ entries, entry.1 = entry.2.fileName)
    (standing : Standing base first slots tree) (once : (entries.map Prod.snd).Nodup)
    (fresh : ∀ entry ∈ entries, Slot.control entry.2 ∉ slots) :
    (aegisControlInit fails first entries tree).1 =
        retOf (entries.findSome? fun entry => fails (.control entry.2)) ∧
      ∃ built, Standing base first built (aegisControlInit fails first entries tree).2 ∧
        (entries.findSome? (fun entry => fails (.control entry.2)) = none →
          built = slots ++ entries.map fun entry => .control entry.2) := by
  induction entries generalizing slots tree with
  | nil => exact ⟨rfl, slots, standing, by simp⟩
  | cons entry rest inductionHypothesis =>
      obtain ⟨name, endpoint⟩ := entry
      obtain ⟨notLater, restOnce⟩ := List.nodup_cons.mp once
      have isFresh := fresh (name, endpoint) (by simp)
      obtain rfl : name = endpoint.fileName := named (name, endpoint) (by simp)
      cases failure : fails (.control endpoint) with
      | some error =>
          simp only [aegisControlInit, List.findSome?_cons, failure, securityfsCreate_some,
            reduceCtorEq, false_implies, and_true]
          exact ⟨rfl, slots, standing⟩
      | none =>
          have created := standing.built.securityfsCreate_none older isFresh (by simp)
          have dentry : (Slot.control endpoint).dentry first =
              ⟨endpoint.fileName, 0o200, some first, .control endpoint⟩ := rfl
          rw [dentry] at created
          simp only [aegisControlInit, List.findSome?_cons, failure, created]
          obtain ⟨ret, built, result, all⟩ := inductionHypothesis
            (fun other member => named other (by simp [member]))
            (standing.create isFresh) restOnce (by
              intro other member
              rw [List.mem_append, List.mem_singleton, not_or]
              refine ⟨fresh other (by simp [member]), fun same => ?_⟩
              exact notLater (List.mem_map.mpr ⟨other, member, Slot.control.inj same⟩))
          refine ⟨ret, built, result, fun succeeds => ?_⟩
          rw [all succeeds, List.append_assoc]
          rfl

end Creation

/-! ### The whole tree -/

/-- A tree whose pointers are all `NULL`, in a securityfs in which no entry is
below a handle that is still to be given out. -/
structure Unloaded (tree : Tree) : Prop where
  valid : tree.fs.Valid
  older : Older tree.fs.entries tree.fs.next
  idle : ∀ slot, tree.ptr slot = .null

/-- Another entry of the root has the name of the directory. -/
def nameTaken (fs : Securityfs) : Bool :=
  fs.entries.any fun entry => entry.2.parent = none && entry.2.name = "aegis"

/-- The error of the first creation that fails. -/
def firstFailure (fails : Failures) (fs : Securityfs) : Option Errno :=
  if (fails .dir).isNone && nameTaken fs then some .eexist else creationOrder.findSome? fails

theorem Unloaded.standing {tree : Tree} (unloaded : Unloaded tree) :
    Standing tree.fs.entries tree.fs.next [.dir]
      ⟨tree.fs.create (Slot.dir.dentry tree.fs.next),
        Function.update tree.ptr .dir (.entry tree.fs.next)⟩ := by
  have nothing : Built tree.fs.entries tree.fs.next [] tree := by
    refine ⟨⟨unloaded.valid, by simp [numbered]⟩, rfl, fun slot handle => ?_⟩
    simp [unloaded.idle slot, numbered]
  exact ⟨nothing.create (by simp), by simp, rfl⟩

theorem firstFailure_of_dir {fails : Failures} {fs : Securityfs} (made : fails .dir = none)
    (free : nameTaken fs = false) :
    firstFailure fails fs =
      (readFiles.findSome? fun file => fails (.read file)).or
        (aectlEntries.findSome? fun entry => fails (.control entry.2)) := by
  simp only [firstFailure, made, free, Bool.and_false, Bool.false_eq_true, if_false, creationOrder,
    List.findSome?_cons, List.findSome?_append, List.findSome?_map, Function.comp_def]

/-- The directory is not created: nothing else is attempted. -/
theorem aegisSecurityfsInit_of_no_dir {fails : Failures} {tree : Tree} (unloaded : Unloaded tree)
    (failed : fails .dir ≠ none ∨ nameTaken tree.fs = true) :
    ∃ error, firstFailure fails tree.fs = some error ∧
      aegisSecurityfsInit fails tree = some (error.ret, tree) := by
  have pointers : Function.update tree.ptr .dir .null = tree.ptr := by
    rw [← unloaded.idle .dir, Function.update_eq_self]
  cases made : fails .dir with
  | some error =>
      refine ⟨error, by simp [firstFailure, made, creationOrder], ?_⟩
      simp only [aegisSecurityfsInit, made, securityfsCreate_some, pointers]
  | none =>
      have taken : nameTaken tree.fs = true := by simpa [made] using failed
      refine ⟨.eexist, by simp [firstFailure, made, taken], ?_⟩
      have clash : securityfsCreate none ⟨"aegis", 0o755, none, .dir⟩ tree.fs =
          (.error .eexist, tree.fs) := if_pos taken
      simp only [aegisSecurityfsInit, made, clash, pointers]

/-- The directory is created: the rest of the initialisation. -/
theorem aegisSecurityfsInit_of_dir {fails : Failures} {tree : Tree} (made : fails .dir = none)
    (free : nameTaken tree.fs = false) :
    let start : Tree := ⟨tree.fs.create (Slot.dir.dentry tree.fs.next),
      Function.update tree.ptr .dir (.entry tree.fs.next)⟩
    let read := createReadFiles fails tree.fs.next readFiles start
    let control := aegisControlInit fails tree.fs.next aectlEntries read.2
    aegisSecurityfsInit fails tree =
      if read.1 = none then
        if control.1 ≠ 0 then (aegisSecurityfsExit control.2).map fun tree => (control.1, tree)
        else some (0, control.2)
      else (aegisSecurityfsExit read.2).map fun tree => (retOf read.1, tree) := by
  intro start read control
  have created : securityfsCreate none ⟨"aegis", 0o755, none, .dir⟩ tree.fs =
      (.ok tree.fs.next, tree.fs.create (Slot.dir.dentry tree.fs.next)) := by
    have noClash : (tree.fs.entries.any fun entry =>
        entry.2.parent = (none : Option Nat) && entry.2.name = "aegis") = false := free
    simp only [securityfsCreate, noClash]
    rfl
  simp only [aegisSecurityfsInit, made, created]
  cases result : createReadFiles fails tree.fs.next readFiles start with
  | mk failure reached =>
      cases failure with
      | none => simp [read, control, result]
      | some error => simp [read, result, retOf]

/-- For every pattern of failures, loading creates the whole tree and returns
zero, or returns the error of the first creation that fails and leaves
securityfs and the pointers as they were. A tree that was created is removed
completely. No removal is an error. -/
theorem securityfsInit_all_or_nothing (fails : Failures) (tree : Tree)
    (unloaded : Unloaded tree) :
    ∃ after, aegisSecurityfsInit fails tree = some (retOf (firstFailure fails tree.fs), after) ∧
      (firstFailure fails tree.fs ≠ none →
        after.fs.entries = tree.fs.entries ∧ ∀ slot, after.ptr slot = .null) ∧
      (firstFailure fails tree.fs = none →
        after.fs.entries = tree.fs.entries ++
          (numbered tree.fs.next creationOrder).map (entryOf tree.fs.next) ∧
        (∀ slot handle, (after.ptr slot).handle? = some handle ↔
          (slot, handle) ∈ numbered tree.fs.next creationOrder) ∧
        ∃ removed, aegisSecurityfsExit after = some removed ∧
          removed.fs.entries = tree.fs.entries ∧ ∀ slot, removed.ptr slot = .null) := by
  by_cases failed : fails .dir ≠ none ∨ nameTaken tree.fs = true
  · obtain ⟨error, isFirst, result⟩ := aegisSecurityfsInit_of_no_dir unloaded failed
    refine ⟨tree, by rw [result, isFirst]; rfl, fun _ => ⟨rfl, unloaded.idle⟩, fun none => ?_⟩
    rw [isFirst] at none
    cases none
  · have made : fails .dir = none := by
      by_contra other
      exact failed (Or.inl other)
    have free : nameTaken tree.fs = false := by
      by_contra other
      exact failed (Or.inr (by simpa using other))
    rw [aegisSecurityfsInit_of_dir made free, firstFailure_of_dir made free]
    obtain ⟨readError, reads, readStanding, allRead⟩ := createReadFiles_standing fails
      unloaded.older readFiles unloaded.standing (by decide) (by simp)
    cases readFailure : readFiles.findSome? fun file => fails (.read file) with
    | some error =>
        obtain ⟨after, exits, -, restored⟩ :=
          readStanding.built.exit unloaded.older readStanding.distinct readStanding.head
        rw [readFailure] at readError
        simp only [readError, reduceCtorEq, if_false, exits]
        exact ⟨after, rfl, fun _ => restored, fun none => by cases none⟩
    | none =>
        rw [readFailure] at readError
        obtain rfl := allRead readFailure
        obtain ⟨ret, built, standing, all⟩ := aegisControlInit_standing fails unloaded.older
          aectlEntries name_of_mem_aectlEntries readStanding (by decide) (by decide)
        obtain ⟨after, exits, -, restored⟩ :=
          standing.built.exit unloaded.older standing.distinct standing.head
        simp only [readError, if_true, ret]
        cases controlFailure : aectlEntries.findSome? fun entry => fails (.control entry.2) with
        | some error =>
            have isError : retOf (some error) ≠ 0 := error.ret_ne_zero
            simp only [isError, ne_eq, not_false_eq_true, if_true, exits]
            exact ⟨after, rfl, fun _ => restored, fun none => by cases none⟩
        | none =>
            obtain rfl := all controlFailure
            refine ⟨_, rfl, fun error => absurd rfl error, fun _ => ?_⟩
            exact ⟨standing.built.beyond.entries, standing.built.live, after, exits, restored⟩

/-- The last of the twelve creations runs out of memory. -/
theorem securityfsInit_all_or_nothing_last :
    let fails : Failures := fun slot =>
      if slot = .control .blockedSyscallsDel then some .enomem else none
    ∃ after, aegisSecurityfsInit fails ⟨⟨[], 0⟩, fun _ => .null⟩ =
      some (Errno.enomem.ret, after) ∧ after.fs.entries = [] := by
  intro fails
  have unloaded : Unloaded ⟨⟨[], 0⟩, fun _ => .null⟩ :=
    ⟨⟨List.nodup_nil, by simp⟩, by simp [Older], fun _ => rfl⟩
  obtain ⟨after, result, restored, -⟩ := securityfsInit_all_or_nothing fails _ unloaded
  have isFirst : firstFailure fails ⟨[], 0⟩ = some .enomem := by decide
  rw [isFirst] at result restored
  exact ⟨after, result, (restored (by simp)).1⟩

end Aegis.Control
