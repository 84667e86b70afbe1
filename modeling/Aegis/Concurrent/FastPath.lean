import Aegis.Foundation.Lock
import Aegis.Concurrent.Lists

/-!
Owns the protected file list at the grain of single memory steps: the final
section of an add (lock, link, count, unlock), the section of a del (lock,
unlink, count, unlock), and hook callers that read the count without the lock
between any two of these steps.

The count differs from the length of the list only while a call is between its
list step and its count step. So a hook that reads zero skips no protection
whose add has returned.

The count is an unbounded integer: adds are admitted below 128 entries only, so
it exceeds 128 by no more than the adds in flight at one time, far below the
range of `int`. Each entry carries the index of the add that linked it; no step
of the code reads it.

Does not own: the atomic view of the sections, or memory that is not
sequentially consistent.
-/

namespace Aegis.Concurrent

open Aegis.Foundation
open Aegis.Kernel
open Aegis.Policy

/-! ### Steps -/

structure OwnedFile where
  owner : Nat
  file : AegisProtectedFile

structure LockedFiles where
  lock : Option Nat
  entries : List OwnedFile
  count : Int

/-- After `aegis_file_init`. -/
def LockedFiles.boot : LockedFiles := ⟨none, [], 0⟩

/-- How a call of `aegis_file_permission` came to its return value. -/
inductive HookExit where
  | featureOff
  | noEntries
  | noName
  | judged
deriving DecidableEq, Repr

/-- Where a call on the file list stands. -/
inductive FileTask where
  | add (path : Option PathKey)
  | addAdmitted (path : PathKey)
  | addFilled (path : PathKey) (file : AegisProtectedFile)
  | addHolding (path : PathKey) (file : AegisProtectedFile)
  | addLinked (path : PathKey) (file : AegisProtectedFile)
  | addCounted (path : PathKey) (file : AegisProtectedFile)
  | addReturned (path : Option PathKey) (result : AddResult)
  | del (path : Option PathKey)
  | delHolding (path : PathKey)
  | delUnlinked (path : PathKey)
  | delCounted (path : PathKey)
  | delMissed (path : PathKey)
  | delReturned (path : Option PathKey) (result : DelResult)
  | hook (file : File) (mask : BitVec 32)
  | hookActive (file : File) (mask : BitVec 32)
  | hookCounted (file : File) (mask : BitVec 32)
  | hookNamed (file : File) (mask : BitVec 32)
  | hookReturned (file : File) (mask : BitVec 32) (ret : Int) (exit : HookExit)

/-- What the environment decides at a step: the allocation and hash of an add,
and the switches, page and path name that a hook finds. -/
structure StepChoice where
  payload : Option (Digest × Bool)
  cfg : AegisConfig
  page : Bool
  dPath : Bool

def LockedFiles.registry (files : LockedFiles) : FileList :=
  ⟨files.entries.map OwnedFile.file, files.count⟩

/-- The check of an add. It is made under the lock and changes nothing, so it
is one step that needs the lock to be free. -/
def addCheck (files : LockedFiles) (path : PathKey) : FileTask :=
  match files.registry.admission aegisMaxProtectedFiles (filePathHit path.val) with
  | .full => .addReturned (some path) .full
  | .duplicate => .addReturned (some path) .duplicate
  | .admitted => .addAdmitted path

/-- The verdict of a hook that has the name, from the query and the switches. -/
def hookVerdict (cfg : AegisConfig) (files : LockedFiles) (file : File) (mask : BitVec 32) : Int :=
  if aegisIsFileProtected cfg files.registry (some file.path) &&
      hasBits mask (mayWrite ||| mayAppend) && cfg.fileIntegrityEnforce then Errno.eacces.ret
  else 0

/-- One step of a call. A step that takes the lock waits until it is free. -/
def FileTask.advance (index : Nat) (files : LockedFiles) (choice : StepChoice) :
    FileTask → Option (LockedFiles × FileTask)
  | .add none => some (files, .addReturned none .invalid)
  | .add (some path) => if files.lock = none then some (files, addCheck files path) else none
  | .addAdmitted path =>
      match choice.payload with
      | none => some (files, .addReturned (some path) .noMemory)
      | some hash => some (files, .addFilled path (fileEntry path.val hash))
  | .addFilled path file =>
      if files.lock = none then some ({ files with lock := some index }, .addHolding path file)
      else none
  | .addHolding path file =>
      some ({ files with entries := files.entries ++ [⟨index, file⟩] }, .addLinked path file)
  | .addLinked path file => some ({ files with count := files.count + 1 }, .addCounted path file)
  | .addCounted path _ => some ({ files with lock := none }, .addReturned (some path) .added)
  | .addReturned _ _ => none
  | .del none => some (files, .delReturned none .invalid)
  | .del (some path) =>
      if files.lock = none then some ({ files with lock := some index }, .delHolding path) else none
  | .delHolding path =>
      let hit := fun owned : OwnedFile => filePathHit path.val owned.file
      if files.entries.any hit then
        some ({ files with entries := files.entries.eraseP hit }, .delUnlinked path)
      else some (files, .delMissed path)
  | .delUnlinked path => some ({ files with count := files.count - 1 }, .delCounted path)
  | .delCounted path => some ({ files with lock := none }, .delReturned (some path) .removed)
  | .delMissed path => some ({ files with lock := none }, .delReturned (some path) .absent)
  | .delReturned _ _ => none
  | .hook file mask =>
      if choice.cfg.featureCheck featureFileIntegrity then some (files, .hookActive file mask)
      else some (files, .hookReturned file mask 0 .featureOff)
  | .hookActive file mask =>
      -- `aegis_protected_file_count` reads the count without the lock.
      if files.count = 0 then some (files, .hookReturned file mask 0 .noEntries)
      else some (files, .hookCounted file mask)
  | .hookCounted file mask =>
      if choice.page && choice.dPath then some (files, .hookNamed file mask)
      else some (files, .hookReturned file mask 0 .noName)
  | .hookNamed file mask =>
      if files.lock = none then
        some (files, .hookReturned file mask (hookVerdict choice.cfg files file mask) .judged)
      else none
  | .hookReturned _ _ _ _ => none

def filesProgram : Program LockedFiles FileTask StepChoice where
  entry
    | .add _ => true
    | .del _ => true
    | .hook _ _ => true
    | _ => false
  advance index files call choice := call.advance index files choice

abbrev FilesPool := Pool LockedFiles FileTask

def FilesPool.boot : FilesPool := Pool.start LockedFiles.boot

/-! ### Calls that run alone -/

section Alone

variable {files : LockedFiles} (free : files.lock = none)

include free

/-- Some uninterrupted run of a hook call gives the verdict of the hook. -/
theorem hook_alone (policy : PolicyState) (listed : files.registry = policy.files) (env : HookEnv)
    (file : File) (mask : BitVec 32) :
    ∃ exit, filesProgram.RunsAlone files (.hook file mask) files
      (.hookReturned file mask (aegisFilePermission policy env file mask).ret exit) := by
  let choice : StepChoice := ⟨none, policy.cfg, env.page, env.dPath⟩
  have count : files.count = policy.files.count := congrArg Registry.count listed
  rw [aegisFilePermission_ret]
  by_cases active : policy.cfg.featureCheck featureFileIntegrity = true
  · by_cases empty : policy.files.count = 0
    · rw [if_neg fun denied => denied.2.1 empty]
      exact ⟨.noEntries, .step choice (if_pos active) <|
        .step choice (if_pos (count.trans empty)) <| .refl _ _⟩
    · have counted : files.count ≠ 0 := fun zero => empty (count.symm.trans zero)
      by_cases named : (env.page && env.dPath) = true
      · refine ⟨.judged, .step choice (if_pos active) <| .step choice (if_neg counted) <|
          .step choice (if_pos named) <| .step choice ((if_pos free).trans ?_) <| .refl _ _⟩
        simp only [Bool.and_eq_true] at named
        simp [hookVerdict, listed, deniesWrite, choice, empty, named, and_right_comm]
      · simp only [Bool.and_eq_true] at named
        rw [if_neg fun denied => named denied.2.2]
        exact ⟨.noName, .step choice (if_pos active) <| .step choice (if_neg counted) <|
          .step choice (if_neg (by simpa [choice] using named)) <| .refl _ _⟩
  · have unprotected : deniesWrite policy file.path mask = false := by
      simp [deniesWrite, aegisIsFileProtected, active]
    rw [unprotected, if_neg fun denied => Bool.false_ne_true denied.1]
    exact ⟨.featureOff, .step choice (if_neg active) <| .refl _ _⟩

/-- Some uninterrupted run of an add does what the sequential function does. -/
theorem add_alone (shash : Shash) (env : FileAddEnv) (path : Option PathKey) :
    ∃ (after : LockedFiles) (result : AddResult),
      filesProgram.RunsAlone files (.add path) after (.addReturned path result) ∧
        after.lock = none ∧
        after.registry =
          (aegisProtectedFileAdd shash env (path.map Subtype.val) files.registry).list ∧
        AddResult.ret result =
          (aegisProtectedFileAdd shash env (path.map Subtype.val) files.registry).ret := by
  let idle : StepChoice := ⟨none, aegisCfg, true, true⟩
  cases path with
  | none => exact ⟨files, .invalid, .step idle rfl (.refl _ _), free, rfl, rfl⟩
  | some path =>
      have checked : filesProgram.advance 0 files (.add (some path)) idle =
          some (files, addCheck files path) := if_pos free
      simp only [Option.map_some, aegisProtectedFileAdd, listAdd]
      unfold addCheck at checked
      cases answer : files.registry.admission aegisMaxProtectedFiles (filePathHit path.val) with
      | full =>
          rw [answer] at checked
          exact ⟨files, .full, .step idle checked (.refl _ _), free, rfl, rfl⟩
      | duplicate =>
          rw [answer] at checked
          exact ⟨files, .duplicate, .step idle checked (.refl _ _), free, rfl, rfl⟩
      | admitted =>
          rw [answer] at checked
          cases memory : env.kmalloc with
          | none =>
              exact ⟨files, .noMemory, .step idle checked (.step idle rfl (.refl _ _)), free, rfl,
                rfl⟩
          | some junk =>
              let hashed : StepChoice :=
                { idle with payload := initialHash shash env path.val junk }
              refine ⟨_, .added, .step idle checked <| .step hashed rfl <|
                .step idle (if_pos free) <| .step idle rfl <| .step idle rfl <| .step idle rfl <|
                .refl _ _, rfl, ?_, rfl⟩
              simp [LockedFiles.registry, Registry.linkTail]

theorem del_alone (path : Option PathKey) :
    ∃ (after : LockedFiles) (result : DelResult),
      filesProgram.RunsAlone files (.del path) after (.delReturned path result) ∧
        after.lock = none ∧
        after.registry = (aegisProtectedFileDel (path.map Subtype.val) files.registry).list ∧
        DelResult.ret result =
          (aegisProtectedFileDel (path.map Subtype.val) files.registry).ret := by
  let idle : StepChoice := ⟨none, aegisCfg, true, true⟩
  cases path with
  | none => exact ⟨files, .invalid, .step idle rfl (.refl _ _), free, rfl, rfl⟩
  | some path =>
      have listed : files.registry.listed (filePathHit path.val) =
          files.entries.any fun owned => filePathHit path.val owned.file := by
        simp [Registry.listed, LockedFiles.registry, Function.comp_def]
      simp only [Option.map_some, aegisProtectedFileDel, listDel, listed]
      by_cases present : (files.entries.any fun owned => filePathHit path.val owned.file) = true
      · rw [if_pos present]
        refine ⟨_, .removed, .step idle (if_pos free) <| .step idle (if_pos present) <|
          .step idle rfl <| .step idle rfl <| .refl _ _, rfl, ?_, rfl⟩
        simp [LockedFiles.registry, Registry.unlinkFirst, List.eraseP_map, Function.comp_def]
      · rw [if_neg present]
        exact ⟨_, .absent, .step idle (if_pos free) <| .step idle (if_neg present) <|
          .step idle rfl <| .refl _ _, rfl, rfl, rfl⟩

end Alone

/-! ### Locked sections -/

/-- The call is inside a section that holds the lock over several steps. -/
def FileTask.holds : FileTask → Bool
  | .addHolding _ _ => true
  | .addLinked _ _ => true
  | .addCounted _ _ => true
  | .delHolding _ => true
  | .delUnlinked _ => true
  | .delCounted _ => true
  | .delMissed _ => true
  | _ => false

/-- How far the count is ahead of the length of the list. -/
def FileTask.owed : FileTask → Int
  | .addLinked _ _ => -1
  | .delUnlinked _ => 1
  | _ => 0

def filesLock : LockView LockedFiles FileTask := ⟨LockedFiles.lock, FileTask.holds⟩

/-- The steps of the calls, one for each transition of `FileTask.advance`. -/
inductive FileStep (index : Nat) (files : LockedFiles) :
    FileTask → LockedFiles → FileTask → Prop
  | addInvalid : FileStep index files (.add none) files (.addReturned none .invalid)
  | addRefused {path result} (refused : result ≠ .added) :
      FileStep index files (.add (some path)) files (.addReturned (some path) result)
  | addAdmit {path} : FileStep index files (.add (some path)) files (.addAdmitted path)
  | addNoMemory {path} :
      FileStep index files (.addAdmitted path) files (.addReturned (some path) .noMemory)
  | addFill {path file} (keyed : file.key = path) :
      FileStep index files (.addAdmitted path) files (.addFilled path file)
  | addLock {path file} (free : files.lock = none) :
      FileStep index files (.addFilled path file) { files with lock := some index }
        (.addHolding path file)
  | addLink {path file} :
      FileStep index files (.addHolding path file)
        { files with entries := files.entries ++ [⟨index, file⟩] } (.addLinked path file)
  | addCount {path file} :
      FileStep index files (.addLinked path file) { files with count := files.count + 1 }
        (.addCounted path file)
  | addUnlock {path file} :
      FileStep index files (.addCounted path file) { files with lock := none }
        (.addReturned (some path) .added)
  | delInvalid : FileStep index files (.del none) files (.delReturned none .invalid)
  | delLock {path} (free : files.lock = none) :
      FileStep index files (.del (some path)) { files with lock := some index } (.delHolding path)
  | delUnlink {path}
      (present : files.entries.any (fun owned => filePathHit path.val owned.file) = true) :
      FileStep index files (.delHolding path)
        { files with
          entries := files.entries.eraseP fun owned => filePathHit path.val owned.file }
        (.delUnlinked path)
  | delMiss {path} : FileStep index files (.delHolding path) files (.delMissed path)
  | delCount {path} :
      FileStep index files (.delUnlinked path) { files with count := files.count - 1 }
        (.delCounted path)
  | delUnlock {path} :
      FileStep index files (.delCounted path) { files with lock := none }
        (.delReturned (some path) .removed)
  | delMissUnlock {path} :
      FileStep index files (.delMissed path) { files with lock := none }
        (.delReturned (some path) .absent)
  | hookEnter {file mask} : FileStep index files (.hook file mask) files (.hookActive file mask)
  | hookOff {file mask} :
      FileStep index files (.hook file mask) files (.hookReturned file mask 0 .featureOff)
  | hookReadsZero {file mask} (zero : files.count = 0) :
      FileStep index files (.hookActive file mask) files (.hookReturned file mask 0 .noEntries)
  | hookReadsCount {file mask} :
      FileStep index files (.hookActive file mask) files (.hookCounted file mask)
  | hookName {file mask} :
      FileStep index files (.hookCounted file mask) files (.hookNamed file mask)
  | hookNoName {file mask} :
      FileStep index files (.hookCounted file mask) files (.hookReturned file mask 0 .noName)
  | hookJudge {file mask ret} :
      FileStep index files (.hookNamed file mask) files (.hookReturned file mask ret .judged)

theorem FileTask.advance_step {index : Nat} {files next : LockedFiles} {choice : StepChoice}
    {call after : FileTask} (advanced : call.advance index files choice = some (next, after)) :
    FileStep index files call next after := by
  cases call with
  | add path =>
      cases path with
      | none =>
          obtain ⟨rfl, rfl⟩ := Prod.mk.inj (Option.some.inj advanced)
          exact .addInvalid
      | some path =>
          obtain ⟨-, same⟩ := Option.ite_none_right_eq_some.mp advanced
          obtain ⟨rfl, rfl⟩ := Prod.mk.inj (Option.some.inj same)
          unfold addCheck
          split
          · exact .addRefused (by decide)
          · exact .addRefused (by decide)
          · exact .addAdmit
  | addAdmitted path =>
      simp only [FileTask.advance] at advanced
      split at advanced
      · obtain ⟨rfl, rfl⟩ := Prod.mk.inj (Option.some.inj advanced)
        exact .addNoMemory
      · obtain ⟨rfl, rfl⟩ := Prod.mk.inj (Option.some.inj advanced)
        exact .addFill (fileSpec.key_make path _)
  | addFilled path file =>
      obtain ⟨free, same⟩ := Option.ite_none_right_eq_some.mp advanced
      obtain ⟨rfl, rfl⟩ := Prod.mk.inj (Option.some.inj same)
      exact .addLock free
  | addHolding path file =>
      obtain ⟨rfl, rfl⟩ := Prod.mk.inj (Option.some.inj advanced)
      exact .addLink
  | addLinked path file =>
      obtain ⟨rfl, rfl⟩ := Prod.mk.inj (Option.some.inj advanced)
      exact .addCount
  | addCounted path file =>
      obtain ⟨rfl, rfl⟩ := Prod.mk.inj (Option.some.inj advanced)
      exact .addUnlock
  | addReturned path result => cases advanced
  | del path =>
      cases path with
      | none =>
          obtain ⟨rfl, rfl⟩ := Prod.mk.inj (Option.some.inj advanced)
          exact .delInvalid
      | some path =>
          obtain ⟨free, same⟩ := Option.ite_none_right_eq_some.mp advanced
          obtain ⟨rfl, rfl⟩ := Prod.mk.inj (Option.some.inj same)
          exact .delLock free
  | delHolding path =>
      simp only [FileTask.advance] at advanced
      split at advanced
      next present =>
        obtain ⟨rfl, rfl⟩ := Prod.mk.inj (Option.some.inj advanced)
        exact .delUnlink present
      next absent =>
        obtain ⟨rfl, rfl⟩ := Prod.mk.inj (Option.some.inj advanced)
        exact .delMiss
  | delUnlinked path =>
      obtain ⟨rfl, rfl⟩ := Prod.mk.inj (Option.some.inj advanced)
      exact .delCount
  | delCounted path =>
      obtain ⟨rfl, rfl⟩ := Prod.mk.inj (Option.some.inj advanced)
      exact .delUnlock
  | delMissed path =>
      obtain ⟨rfl, rfl⟩ := Prod.mk.inj (Option.some.inj advanced)
      exact .delMissUnlock
  | delReturned path result => cases advanced
  | hook file mask =>
      simp only [FileTask.advance] at advanced
      split at advanced
      · obtain ⟨rfl, rfl⟩ := Prod.mk.inj (Option.some.inj advanced)
        exact .hookEnter
      · obtain ⟨rfl, rfl⟩ := Prod.mk.inj (Option.some.inj advanced)
        exact .hookOff
  | hookActive file mask =>
      simp only [FileTask.advance] at advanced
      split at advanced
      next zero =>
        obtain ⟨rfl, rfl⟩ := Prod.mk.inj (Option.some.inj advanced)
        exact .hookReadsZero zero
      next nonzero =>
        obtain ⟨rfl, rfl⟩ := Prod.mk.inj (Option.some.inj advanced)
        exact .hookReadsCount
  | hookCounted file mask =>
      simp only [FileTask.advance] at advanced
      split at advanced
      · obtain ⟨rfl, rfl⟩ := Prod.mk.inj (Option.some.inj advanced)
        exact .hookName
      · obtain ⟨rfl, rfl⟩ := Prod.mk.inj (Option.some.inj advanced)
        exact .hookNoName
  | hookNamed file mask =>
      obtain ⟨-, same⟩ := Option.ite_none_right_eq_some.mp advanced
      obtain ⟨rfl, rfl⟩ := Prod.mk.inj (Option.some.inj same)
      exact .hookJudge
  | hookReturned file mask ret exit => cases advanced

theorem filesLock_obeys : filesLock.Obeys filesProgram where
  entry call enters := by
    cases call <;> first | rfl | cases enters
  advance {index files call choice next after} advanced := by
    cases FileTask.advance_step advanced with
    | addRefused refused => exact Or.inl ⟨rfl, rfl⟩
    | addLock free => exact Or.inr (Or.inl ⟨free, rfl, rfl, rfl⟩)
    | delLock free => exact Or.inr (Or.inl ⟨free, rfl, rfl, rfl⟩)
    | addUnlock => exact Or.inr (Or.inr ⟨rfl, rfl, rfl⟩)
    | delUnlock => exact Or.inr (Or.inr ⟨rfl, rfl, rfl⟩)
    | delMissUnlock => exact Or.inr (Or.inr ⟨rfl, rfl, rfl⟩)
    | _ => exact Or.inl ⟨rfl, rfl⟩

/-! ### The count -/

/-- The count is the length of the list, up to what the holder of the lock
still owes, and a linked but uncounted entry is the last one. -/
structure Accounted (pool : FilesPool) : Prop where
  exclusive : filesLock.Exclusive pool
  free : pool.shared.lock = none → pool.shared.count = pool.shared.entries.length
  held : ∀ {index : Nat} {call : FileTask}, pool.calls[index]? = some call → call.holds = true →
    pool.shared.count = pool.shared.entries.length + call.owed
  linked : ∀ {index : Nat} {path file}, pool.calls[index]? = some (.addLinked path file) →
    ∃ before, pool.shared.entries = before ++ [⟨index, file⟩]

theorem accounted_boot : Accounted FilesPool.boot where
  exclusive := LockView.exclusive_start rfl
  free _ := rfl
  held found := by simp [FilesPool.boot, Pool.start] at found
  linked found := by simp [FilesPool.boot, Pool.start] at found

/-- A step keeps the accounts if the mover's own account is right after it: the
other calls are outside every locked section, or nothing changed. -/
theorem Accounted.of_mover {pool : FilesPool} {index : Nat} {call after : FileTask}
    {next : LockedFiles} (accounted : Accounted pool) (found : pool.calls[index]? = some call)
    (exclusive : filesLock.Exclusive (⟨next, pool.calls.set index after⟩ : FilesPool))
    (still : call.holds = false →
      next.entries = pool.shared.entries ∧ next.count = pool.shared.count)
    (free : next.lock = none → next.count = next.entries.length)
    (mover : after.holds = true → next.count = next.entries.length + after.owed)
    (linked : ∀ path file, after = .addLinked path file →
      ∃ before, next.entries = before ++ [⟨index, file⟩]) :
    Accounted ⟨next, pool.calls.set index after⟩ := by
  have unchanged : ∀ {other : Nat} {bystander : FileTask}, other ≠ index →
      pool.calls[other]? = some bystander → bystander.holds = true →
      next.entries = pool.shared.entries ∧ next.count = pool.shared.count := by
    intro other bystander different lookup holds
    cases outside : call.holds with
    | false => exact still outside
    | true => exact absurd (accounted.exclusive.unique lookup found holds outside) different
  refine ⟨exclusive, free, fun {other present} lookup holds => ?_,
    fun {other path file} lookup => ?_⟩
  · rcases Pool.getElem?_set_cases lookup with ⟨-, rfl⟩ | ⟨different, earlier⟩
    · exact mover holds
    · obtain ⟨entries, count⟩ := unchanged different earlier holds
      show next.count = next.entries.length + present.owed
      rw [entries, count]
      exact accounted.held earlier holds
  · rcases Pool.getElem?_set_cases lookup with ⟨rfl, same⟩ | ⟨different, earlier⟩
    · exact linked path file same.symm
    · obtain ⟨entries, -⟩ := unchanged different earlier rfl
      show ∃ before, next.entries = before ++ [⟨other, file⟩]
      rw [entries]
      exact accounted.linked earlier

section Move

variable {pool : FilesPool} {index : Nat} {call after : FileTask} {next : LockedFiles}

/-- A call that owes nothing has no uncounted entry. -/
theorem FileTask.ne_addLinked (settled : call.owed = 0) (path : PathKey)
    (file : AegisProtectedFile) : call ≠ .addLinked path file := by
  rintro rfl
  cases settled

/-- A call may take the lock when it then owes nothing. -/
theorem Accounted.acquire (accounted : Accounted pool) (found : pool.calls[index]? = some call)
    (exclusive : filesLock.Exclusive
      (⟨{ pool.shared with lock := some index }, pool.calls.set index after⟩ : FilesPool))
    (free : pool.shared.lock = none) (settled : after.owed = 0) :
    Accounted ⟨{ pool.shared with lock := some index }, pool.calls.set index after⟩ := by
  have counted := accounted.free free
  apply accounted.of_mover found exclusive
  · intro _
    exact ⟨rfl, rfl⟩
  · intro unlocked
    cases unlocked
  · intro _
    show pool.shared.count = pool.shared.entries.length + after.owed
    omega
  · intro path file same
    exact absurd same (after.ne_addLinked settled path file)

/-- The holder may release the lock when it owes nothing. -/
theorem Accounted.release (accounted : Accounted pool) (found : pool.calls[index]? = some call)
    (exclusive : filesLock.Exclusive
      (⟨{ pool.shared with lock := none }, pool.calls.set index after⟩ : FilesPool))
    (holds : call.holds = true) (settled : call.owed = 0) (outside : after.holds = false) :
    Accounted ⟨{ pool.shared with lock := none }, pool.calls.set index after⟩ := by
  have counted := accounted.held found holds
  apply accounted.of_mover found exclusive
  · intro _
    exact ⟨rfl, rfl⟩
  · intro _
    show pool.shared.count = pool.shared.entries.length
    omega
  · intro inside
    simp [outside] at inside
  · rintro path file rfl
    cases outside

theorem Accounted.step (accounted : Accounted pool) (found : pool.calls[index]? = some call)
    (exclusive : filesLock.Exclusive (⟨next, pool.calls.set index after⟩ : FilesPool))
    (step : FileStep index pool.shared call next after) :
    Accounted ⟨next, pool.calls.set index after⟩ := by
  have owed := accounted.held found
  have locked : call.holds = true → pool.shared.lock ≠ none := by
    intro holds unlocked
    have recorded := (accounted.exclusive.holds_iff found).mp holds
    exact Option.some_ne_none index (recorded.symm.trans unlocked)
  cases step with
  | addLock free => exact accounted.acquire found exclusive free rfl
  | delLock free => exact accounted.acquire found exclusive free rfl
  | addUnlock => exact accounted.release found exclusive rfl rfl rfl
  | delUnlock => exact accounted.release found exclusive rfl rfl rfl
  | delMissUnlock => exact accounted.release found exclusive rfl rfl rfl
  | addLink =>
      -- The link makes the list one longer than the count.
      have before := owed rfl
      refine accounted.of_mover found exclusive (fun outside => by cases outside)
        (fun unlocked => absurd unlocked (locked rfl)) (fun _ => ?_) ?_
      · simp only [FileTask.owed, List.length_append, List.length_singleton] at before ⊢
        omega
      · rintro _ _ ⟨⟩
        exact ⟨pool.shared.entries, rfl⟩
  | addCount =>
      have before := owed rfl
      refine accounted.of_mover found exclusive (fun outside => by cases outside)
        (fun unlocked => absurd unlocked (locked rfl)) (fun _ => ?_) (fun _ _ same => by cases same)
      simp only [FileTask.owed] at before ⊢
      omega
  | @delUnlink path present =>
      -- The unlink makes the list one shorter than the count.
      have before := owed rfl
      have counted : (⟨pool.shared.entries, pool.shared.count⟩ : Registry OwnedFile).Counted := by
        show pool.shared.count = (pool.shared.entries.length : Int)
        simpa [FileTask.owed] using before
      have erased := counted.unlinkFirst present
      refine accounted.of_mover found exclusive (fun outside => by cases outside)
        (fun unlocked => absurd unlocked (locked rfl)) (fun _ => ?_) (fun _ _ same => by cases same)
      simp only [Registry.Counted, Registry.unlinkFirst, FileTask.owed] at erased ⊢
      omega
  | delMiss =>
      have before := owed rfl
      exact accounted.of_mover found exclusive (fun outside => by cases outside)
        (fun unlocked => absurd unlocked (locked rfl)) (fun _ => before)
        (fun _ _ same => by cases same)
  | delCount =>
      have before := owed rfl
      refine accounted.of_mover found exclusive (fun outside => by cases outside)
        (fun unlocked => absurd unlocked (locked rfl)) (fun _ => ?_) (fun _ _ same => by cases same)
      simp only [FileTask.owed] at before ⊢
      omega
  | _ =>
      exact accounted.of_mover found exclusive (fun _ => ⟨rfl, rfl⟩) accounted.free
        (fun holds => by cases holds) (fun _ _ same => by cases same)

end Move

theorem keeps_accounted : filesProgram.machine.Keeps Accounted := by
  intro pool move next guarded accounted stepped
  have exclusive := filesLock_obeys.keeps_exclusive guarded accounted.exclusive stepped
  rcases Program.machine_step_cases stepped with
    ⟨call, rfl, enters, rfl⟩ | ⟨index, choice, call, files, after, rfl, found, advanced, rfl⟩
  · have outside : call.holds = false := filesLock_obeys.entry call enters
    refine ⟨exclusive, accounted.free, fun {other present} lookup holds => ?_,
      fun {other path file} lookup => ?_⟩
    · rcases Pool.getElem?_concat_cases lookup with ⟨-, rfl⟩ | earlier
      · simp [outside] at holds
      · exact accounted.held earlier holds
    · rcases Pool.getElem?_concat_cases lookup with ⟨-, rfl⟩ | earlier
      · simp [FileTask.holds] at outside
      · exact accounted.linked earlier
  · exact accounted.step found exclusive (FileTask.advance_step advanced)

/-- The add is in its final section: it has linked its entry and not yet
released the lock. -/
def FileTask.inFinalSection (file : AegisProtectedFile) : FileTask → Prop
  | .addLinked _ linked => linked = file
  | .addCounted _ linked => linked = file
  | _ => False

/-- While the count is zero, every listed entry belongs to an add that has not
yet released the lock. -/
theorem Accounted.of_count_zero {pool : FilesPool} (accounted : Accounted pool)
    (zero : pool.shared.count = 0) {owned : OwnedFile} (member : owned ∈ pool.shared.entries) :
    pool.shared.lock = some owned.owner ∧
      ∃ call, pool.calls[owned.owner]? = some call ∧ call.inFinalSection owned.file := by
  have nonempty := List.length_pos_of_mem member
  cases locked : pool.shared.lock with
  | none =>
      have counted := accounted.free locked
      omega
  | some holder =>
      have inside := accounted.exclusive.holder locked
      have found : pool.calls[holder]? = some pool.calls[holder] := List.getElem?_eq_getElem inside
      have holds := (accounted.exclusive.holds_iff found).mpr locked
      have counted := accounted.held found holds
      -- Only a linked and uncounted entry makes the count smaller than the list.
      cases task : pool.calls[holder] with
      | addLinked path file =>
          rw [task] at found counted
          obtain ⟨before, entries⟩ := accounted.linked found
          simp only [FileTask.owed, entries, List.length_append, List.length_singleton] at counted
          have alone : before = [] := List.eq_nil_of_length_eq_zero (by omega)
          rw [entries, alone] at member
          obtain rfl : owned = ⟨holder, file⟩ := by simpa using member
          exact ⟨rfl, _, found, rfl⟩
      | delUnlinked path =>
          rw [task] at counted
          simp only [FileTask.owed] at counted
          omega
      | _ =>
          rw [task] at counted
          simp only [FileTask.owed] at counted
          omega

/-! ### Protections that have returned -/

section Returned

variable (path : PathKey)

/-- A del of the path that has not returned. -/
def FileTask.deletes : FileTask → Prop
  | .del (some target) => target = path
  | .delHolding target => target = path
  | .delUnlinked target => target = path
  | .delCounted target => target = path
  | .delMissed target => target = path
  | _ => False

def NoDel (pool : FilesPool) : Prop :=
  ∀ {index : Nat} {call : FileTask}, pool.calls[index]? = some call → ¬ call.deletes path

/-- The move starts no del of the path. -/
def StartsNoDel : Move FileTask StepChoice → Prop
  | .spawn call => ¬ call.deletes path
  | .advance _ _ => True

/-- The entry that an add of the path has linked is on the list; before that,
the entry in hand has the path as its key. -/
def FileTask.listedBy (entries : List OwnedFile) (index : Nat) : FileTask → Prop
  | .addFilled target file => file.key = target
  | .addHolding target file => file.key = target
  | .addLinked target file => target = path → file.key = path ∧ ⟨index, file⟩ ∈ entries
  | .addCounted target file => target = path → file.key = path ∧ ⟨index, file⟩ ∈ entries
  | .addReturned (some target) .added =>
      target = path → ∃ file, file.key = path ∧ ⟨index, file⟩ ∈ entries
  | _ => True

variable {path}

/-- A del call stays a del call of the same path until it returns. -/
theorem FileStep.deletes {index : Nat} {files next : LockedFiles} {call after : FileTask}
    (step : FileStep index files call next after) (deletes : after.deletes path) :
    call.deletes path := by
  cases step <;> first | exact deletes | cases deletes

/-- Entries of the path stay listed while no call deletes it. -/
theorem FileStep.keeps_entry {index : Nat} {files next : LockedFiles} {call after : FileTask}
    (step : FileStep index files call next after) (idle : ¬ call.deletes path) {owned : OwnedFile}
    (keyed : owned.file.key = path) (member : owned ∈ files.entries) : owned ∈ next.entries := by
  cases step with
  | addLink => exact List.mem_append_left _ member
  | @delUnlink target present =>
      have missed : ¬ filePathHit target.val owned.file = true := by
        intro hits
        have same : owned.file.key = target := (filePathHit_hitsKey target owned.file).mp hits
        exact idle (same.symm.trans keyed)
      exact (List.mem_eraseP_of_neg (p := fun owned => filePathHit target.val owned.file)
        missed).mpr member
  | _ => exact member

theorem FileTask.listedBy_mono {entries later : List OwnedFile} {index : Nat}
    (keeps : ∀ {owned : OwnedFile}, owned.file.key = path → owned ∈ entries → owned ∈ later)
    {call : FileTask} (listed : call.listedBy path entries index) :
    call.listedBy path later index := by
  cases call with
  | addLinked target file =>
      intro same
      exact ⟨(listed same).1, keeps (listed same).1 (listed same).2⟩
  | addCounted target file =>
      intro same
      exact ⟨(listed same).1, keeps (listed same).1 (listed same).2⟩
  | addReturned target result =>
      cases target with
      | none => trivial
      | some target =>
          cases result with
          | added =>
              intro same
              obtain ⟨file, keyed, member⟩ := listed same
              exact ⟨file, keyed, keeps keyed member⟩
          | _ => trivial
  | _ => exact listed

theorem FileStep.listedBy {index : Nat} {files next : LockedFiles} {call after : FileTask}
    (step : FileStep index files call next after)
    (listed : call.listedBy path files.entries index) :
    after.listedBy path next.entries index := by
  cases step with
  | @addRefused target result refused =>
      cases result with
      | added => exact absurd rfl refused
      | _ => trivial
  | addFill keyed => exact keyed
  | addLock free => exact listed
  | addLink =>
      intro same
      exact ⟨Eq.trans listed same, List.mem_append_right _ (List.mem_singleton.mpr rfl)⟩
  | addCount => exact listed
  | @addUnlock target file =>
      intro same
      exact ⟨file, (listed same).1, (listed same).2⟩
  | _ => trivial

variable (path) in
/-- No del of the path is under way, and the adds of the path made since a
point in time, given by the number of earlier calls, have their entries on the
list. -/
structure ListedSince (earlier : Nat) (pool : FilesPool) : Prop where
  noDel : NoDel path pool
  listed : ∀ {index : Nat} {call : FileTask}, earlier ≤ index → pool.calls[index]? = some call →
    call.listedBy path pool.shared.entries index

theorem keepsUnder_noDel :
    filesProgram.machine.KeepsUnder (fun _ move => StartsNoDel path move) (NoDel path) := by
  intro pool move next starts noDel stepped other present lookup
  rcases Program.machine_step_cases stepped with
    ⟨call, rfl, enters, rfl⟩ | ⟨index, choice, call, files, after, rfl, found, advanced, rfl⟩
  · rcases Pool.getElem?_concat_cases lookup with ⟨-, rfl⟩ | before
    · exact starts
    · exact noDel before
  · rcases Pool.getElem?_set_cases lookup with ⟨-, rfl⟩ | ⟨-, before⟩
    · exact fun deletes => noDel found ((FileTask.advance_step advanced).deletes deletes)
    · exact noDel before

theorem keepsUnder_listedSince (earlier : Nat) :
    filesProgram.machine.KeepsUnder (fun _ move => StartsNoDel path move)
      (ListedSince path earlier) := by
  intro pool move next starts since stepped
  refine ⟨keepsUnder_noDel starts since.noDel stepped, fun {other present} later lookup => ?_⟩
  rcases Program.machine_step_cases stepped with
    ⟨call, rfl, enters, rfl⟩ | ⟨index, choice, call, files, after, rfl, found, advanced, rfl⟩
  · rcases Pool.getElem?_concat_cases lookup with ⟨-, rfl⟩ | before
    · cases present <;> trivial
    · exact since.listed later before
  · have step := FileTask.advance_step advanced
    have idle := since.noDel found
    rcases Pool.getElem?_set_cases lookup with ⟨rfl, rfl⟩ | ⟨-, before⟩
    · exact step.listedBy (since.listed later found)
    · exact FileTask.listedBy_mono (step.keeps_entry idle) (since.listed later before)

variable (path) in
/-- An add of the path has returned, its entry is listed, and no hook called
since a point in time has left through the fast path. -/
structure Protecting (adder : Nat) (earlier : Nat) (pool : FilesPool) : Prop where
  accounted : Accounted pool
  noDel : NoDel path pool
  returned : pool.calls[adder]? = some (.addReturned (some path) .added)
  entry : ∃ file, file.key = path ∧ (⟨adder, file⟩ : OwnedFile) ∈ pool.shared.entries
  looked : ∀ {index : Nat} {file mask ret}, earlier ≤ index →
    pool.calls[index]? ≠ some (.hookReturned file mask ret .noEntries)

/-- The returned add has released the lock, so the count is not zero. -/
theorem Protecting.count_ne_zero {adder earlier : Nat} {pool : FilesPool}
    (protecting : Protecting path adder earlier pool) : pool.shared.count ≠ 0 := by
  intro zero
  obtain ⟨file, -, member⟩ := protecting.entry
  obtain ⟨-, call, found, inside⟩ := protecting.accounted.of_count_zero zero member
  obtain rfl := Option.some.inj (found.symm.trans protecting.returned)
  exact inside

theorem keepsUnder_protecting (adder earlier : Nat) :
    filesProgram.machine.KeepsUnder (fun _ move => StartsNoDel path move)
      (Protecting path adder earlier) := by
  intro pool move next starts protecting stepped
  have accounted := keeps_accounted trivial protecting.accounted stepped
  have noDel : NoDel path next := keepsUnder_noDel starts protecting.noDel stepped
  rcases Program.machine_step_cases stepped with
    ⟨call, rfl, enters, rfl⟩ | ⟨index, choice, call, files, after, rfl, found, advanced, rfl⟩
  · have below := (List.getElem?_eq_some_iff.mp protecting.returned).1
    refine ⟨accounted, noDel, ?_, protecting.entry, fun {other file mask ret} later lookup => ?_⟩
    · rw [List.getElem?_append_left below]
      exact protecting.returned
    · rcases Pool.getElem?_concat_cases lookup with ⟨-, rfl⟩ | before
      · cases enters
      · exact protecting.looked later before
  · have step := FileTask.advance_step advanced
    have different : index ≠ adder := by
      rintro rfl
      obtain rfl := Option.some.inj (found.symm.trans protecting.returned)
      cases step
    refine ⟨accounted, noDel, ?_, ?_, fun {other file mask ret} later lookup => ?_⟩
    · rw [List.getElem?_set_ne different]
      exact protecting.returned
    · obtain ⟨file, keyed, member⟩ := protecting.entry
      exact ⟨file, keyed, step.keeps_entry (protecting.noDel found) keyed member⟩
    · rcases Pool.getElem?_set_cases lookup with ⟨-, rfl⟩ | ⟨-, before⟩
      · -- Only a read of zero leads through the fast path.
        cases step with
        | hookReadsZero zero => exact protecting.count_ne_zero zero
      · exact protecting.looked later before

end Returned

/-- The unlocked read of the count never skips a completed protection. In every
reachable state with count zero, each listed entry belongs to an add that still
holds the lock. And a hook called after an add of a path has returned zero does
not leave through the fast path, if no del of the path was under way when the
add was called and none is called until the hook has returned. -/
theorem fastPath_skips_no_protection :
    (∀ pool, filesProgram.machine.Reachable FilesPool.boot pool → pool.shared.count = 0 →
      ∀ owned ∈ pool.shared.entries, pool.shared.lock = some owned.owner ∧
        ∃ call, pool.calls[owned.owner]? = some call ∧ call.inFinalSection owned.file) ∧
    (∀ (path : PathKey) (before adding hooking : List (Move FileTask StepChoice))
      (calm added final : FilesPool) (adder hooker : Nat) (file : File) (mask : BitVec 32),
      filesProgram.machine.run FilesPool.boot before = some calm → NoDel path calm →
      filesProgram.machine.run calm adding = some added → calm.calls.length ≤ adder →
      added.calls[adder]? = some (.addReturned (some path) .added) →
      filesProgram.machine.run added hooking = some final → added.calls.length ≤ hooker →
      (∀ move ∈ adding ++ hooking, StartsNoDel path move) →
      final.calls[hooker]? ≠ some (.hookReturned file mask 0 .noEntries)) := by
  constructor
  · intro pool reached zero owned member
    exact (keeps_accounted.reachable accounted_boot reached).of_count_zero zero member
  · intro path before adding hooking calm added final adder hooker file mask ranBefore noDel
      ranAdding spawned returned ranHooking called starts
    have reached : filesProgram.machine.Reachable FilesPool.boot added :=
      Machine.Reachable.run ⟨before, ranBefore⟩ ranAdding
    have accounted := keeps_accounted.reachable accounted_boot reached
    have since : ListedSince path calm.calls.length added := by
      refine (keepsUnder_listedSince calm.calls.length).run
        (filesProgram.machine.meets_of_forall_mem _ _ fun move member _ => ?_) ⟨noDel, ?_⟩ ranAdding
      · exact starts move (List.mem_append_left _ member)
      · intro index call later found
        have below := (List.getElem?_eq_some_iff.mp found).1
        omega
    have protecting : Protecting path adder added.calls.length added := by
      refine ⟨accounted, since.noDel, returned, since.listed spawned returned rfl, ?_⟩
      intro index later_file mask ret later found
      have below := (List.getElem?_eq_some_iff.mp found).1
      omega
    have still := (keepsUnder_protecting adder added.calls.length).run
      (filesProgram.machine.meets_of_forall_mem _ _ fun move member _ =>
        starts move (List.mem_append_right _ member)) protecting ranHooking
    exact still.looked called

/-- The environment supplies everything, with the configuration of boot. -/
def supplied : StepChoice := ⟨some (sha256 [], true), aegisCfg, true, true⟩

/-- An add up to its list step, which the count step has yet to follow. -/
def shadowUncounted : List (Move FileTask StepChoice) :=
  .spawn (.add (some shadowKey)) :: List.replicate 4 (.advance 0 supplied)

/-- Two adds: the first has returned, the second is between its list step and its
count step. -/
def bothAdded : List (Move FileTask StepChoice) :=
  [.spawn (.add (some shadowKey)), .spawn (.add (some passwdKey)), .advance 1 supplied,
    .advance 1 supplied] ++ List.replicate 6 (.advance 0 supplied) ++
    List.replicate 2 (.advance 1 supplied)

/-- A hook call for a write to the first path reads the count there, before the
second add goes on. -/
def shadowWritten : List (Move FileTask StepChoice) :=
  .spawn (.hook ⟨shadowKey.val, fmodeWrite⟩ mayWrite) :: List.replicate 2 (.advance 2 supplied) ++
    List.replicate 2 (.advance 1 supplied) ++ List.replicate 2 (.advance 2 supplied)

theorem fastPath_skips_no_protection_shadow :
    (∃ pool, filesProgram.machine.run FilesPool.boot shadowUncounted = some pool ∧
      pool.shared.count = 0 ∧ pool.shared.entries.length = 1 ∧
      ∀ owned ∈ pool.shared.entries, pool.shared.lock = some owned.owner) ∧
    ∃ added final, filesProgram.machine.run FilesPool.boot bothAdded = some added ∧
      added.shared.count = 1 ∧ added.shared.entries.length = 2 ∧
      filesProgram.machine.run added shadowWritten = some final ∧
      final.calls[2]? ≠ some (.hookReturned ⟨shadowKey.val, fmodeWrite⟩ mayWrite 0 .noEntries) := by
  have starts : ∀ move ∈ bothAdded ++ shadowWritten, StartsNoDel shadowKey move := by
    simp [bothAdded, shadowWritten, StartsNoDel, FileTask.deletes]
  constructor
  · refine ⟨_, rfl, rfl, rfl, fun owned member => ?_⟩
    exact (fastPath_skips_no_protection.1 _ ⟨shadowUncounted, rfl⟩ rfl owned member).1
  · exact ⟨_, _, rfl, rfl, rfl, rfl, fastPath_skips_no_protection.2 shadowKey [] bothAdded
      shadowWritten FilesPool.boot _ _ 0 2 _ mayWrite rfl (fun found => by cases found) rfl
      (Nat.le_refl _) rfl rfl (Nat.le_refl _) starts⟩

end Aegis.Concurrent
