import Aegis.Protection.World

/-!
Owns the guarantee that the file layer is for: while a file's name is listed
and the switches are on, no sequence of system calls changes its content.

`O_TRUNC` is the exception. `aegis_file_open` derives its mask from the open
mode, and an open for reading, or in the fourth access mode, truncates as well.
The guarantee holds in every run without such opens of the file.

Does not own: names of files, or the digest of their content.
-/

namespace Aegis.Protection

open Aegis.Foundation
open Aegis.Kernel
open Aegis.Policy
open Aegis.Concurrent

section Run

variable (fs : FileSystem) (inode : Inode)

/-- The action is an open of the file that truncates it without the mode to
write it. -/
def WorldAction.truncatesUnseen : WorldAction → Bool
  | .openat _ target flags =>
      target == inode && hasBits flags oTrunc && !hasBits (openFmode flags) fmodeWrite
  | _ => false

/-- Before the step the file is guarded, and the step is no truncating open
without write mode. -/
def Undisturbed (world : World) (action : WorldAction) : Prop :=
  Guards world.policy (fs.dPath inode) ∧ action.truncatesUnseen inode = false

instance (world : World) (action : WorldAction) : Decidable (Undisturbed fs inode world action) :=
  inferInstanceAs (Decidable (_ ∧ _))

variable {fs inode}

theorem openFile_content {world : World} {current : Task} {target : Inode} {flags : BitVec 32}
    (denies : DeniesWrites world.policy (fs.dPath inode))
    (seen : (WorldAction.openat current target flags).truncatesUnseen inode = false) :
    (world.openFile fs current target flags).content inode = world.content inode := by
  simp only [World.openFile]
  split
  next allowed =>
    by_cases truncates : hasBits flags oTrunc = true
    · by_cases same : target = inode
      · -- A truncating open in write mode is denied, so it was not allowed.
        subst same
        have writes : hasBits (openFmode flags) fmodeWrite = true := by
          simpa [WorldAction.truncatesUnseen, truncates] using seen
        have refused := (denies current (openFmode flags) 0).2 writes
        exact absurd (refused.symm.trans allowed) Errno.eacces.ret_ne_zero
      · simp only [truncates, if_true]
        exact Function.update_of_ne (Ne.symm same) [] world.content
    · simp only [truncates, Bool.false_eq_true, if_false]
  next => rfl

theorem writeFile_content {world : World} {current : Task} {fd : Nat} {bytes : List UInt8}
    {file : Descriptor} (denies : DeniesWrites world.policy (fs.dPath inode)) :
    (world.writeFile fs current fd bytes file).content inode = world.content inode := by
  simp only [World.writeFile]
  split
  · split
    next allowed =>
      by_cases same : file.inode = inode
      · subst same
        have refused := (denies current file.fMode mayWrite).1 (by decide)
        exact absurd (refused.symm.trans allowed) Errno.eacces.ret_ne_zero
      · exact Function.update_of_ne (Ne.symm same) _ world.content
    next => rfl
  · rfl

/-- A step that finds the file guarded leaves its content as it is. -/
theorem keepsUnder_content (bytes : List UInt8) :
    (worldMachine fs).KeepsUnder (Undisturbed fs inode) fun world =>
      world.policy.files.Counted ∧ world.content inode = bytes := by
  intro world action next undisturbed holds stepped
  refine ⟨keeps_filesCounted fs trivial holds.1 stepped, ?_⟩
  have denies := (deniesWrites_iff holds.1 (fs.dPath inode)).mpr undisturbed.1
  rw [← holds.2]
  cases action with
  | list move =>
      obtain ⟨lists, -, rfl⟩ := Option.map_eq_some_iff.mp stepped
      rfl
  | sysctl knob result =>
      obtain rfl := Option.some.inj stepped
      rfl
  | openat current target flags =>
      obtain rfl := Option.some.inj stepped
      exact openFile_content denies undisturbed.2
  | read current fd size =>
      obtain ⟨file, -, rfl⟩ := Option.map_eq_some_iff.mp stepped
      simp only [World.readFile]
      split
      · split <;> rfl
      · rfl
  | write current fd bytes =>
      obtain ⟨file, -, rfl⟩ := Option.map_eq_some_iff.mp stepped
      exact writeFile_content denies

end Run

/-- From every reachable state, every run of list calls, sysctl writes and
system calls leaves the content of a file as it is, as long as its name stays
listed, the switches stay on, and no open truncates it without write mode. -/
theorem worldMachine_keeps_content (fs : FileSystem) (procAlloc : Fin 3 → Bool)
    (syscallAlloc : Fin 5 → Bool) (content : Contents) (inode : Inode) (world final : World)
    (actions : List WorldAction)
    (reached : (worldMachine fs).Reachable (.boot procAlloc syscallAlloc content) world)
    (ran : (worldMachine fs).run world actions = some final)
    (undisturbed : (worldMachine fs).Meets (Undisturbed fs inode) world actions) :
    final.content inode = world.content inode :=
  ((keepsUnder_content (world.content inode)).run undisturbed
    ⟨filesCounted_reachable reached, rfl⟩ ran).2

/-- A file with canonical name `/etc/shadow`, and a link to it. -/
def guardedFs : FileSystem := .withLink shadowKey.val (.lit "/etc/alias") 7

def writer : Task := ⟨⟨.lit "vi", 200⟩, ⟨.lit "vi", 200⟩⟩

/-- One add of a path, from its start to its insertion. -/
def soleAdd : List ListMove :=
  [.files (.spawn (.add (some shadowKey))), .files (.advance 0 none),
    .files (.advance 0 (some (sha256 [], true))), .files (.advance 0 none)]

/-- The file holds one byte and is opened for writing before it is listed. -/
def listedWorld : Option World :=
  (worldMachine guardedFs).run (.boot (fun _ => true) (fun _ => true) fun _ => [0x21])
    (.openat writer 7 1 :: soleAdd.map .list)

/-- A write through the old descriptor, and a truncating open for writing. -/
def attempts : List WorldAction := [.write writer 0 [0x22], .openat writer 7 (1 ||| oTrunc)]

theorem worldMachine_keeps_content_attempts :
    ∃ world final, listedWorld = some world ∧
      (worldMachine guardedFs).run world attempts = some final ∧
      final.content 7 = world.content 7 := by
  have undisturbed : ∀ world ∈ listedWorld,
      (worldMachine guardedFs).Meets (Undisturbed guardedFs 7) world attempts ∧
        ((worldMachine guardedFs).run world attempts).isSome = true := by
    decide +kernel
  obtain ⟨world, listed⟩ : ∃ world, listedWorld = some world := ⟨_, rfl⟩
  obtain ⟨calm, runs⟩ := undisturbed world listed
  obtain ⟨final, ran⟩ := Option.isSome_iff_exists.mp runs
  exact ⟨world, final, listed, ran, worldMachine_keeps_content guardedFs (fun _ => true)
    (fun _ => true) (fun _ => [0x21]) 7 world final attempts ⟨_, listed⟩ ran calm⟩

/-- `open(O_RDONLY | O_TRUNC)` on a guarded file empties it. -/
theorem openat_truncates_guarded_file :
    ∃ world final, listedWorld = some world ∧ Guards world.policy (guardedFs.dPath 7) ∧
      (worldMachine guardedFs).run world [.openat writer 7 oTrunc] = some final ∧
      Guards final.policy (guardedFs.dPath 7) ∧
      world.content 7 = [0x21] ∧ final.content 7 = [] := by
  have emptied : ∀ world ∈ listedWorld,
      Guards world.policy (guardedFs.dPath 7) ∧
        Guards (world.openFile guardedFs writer 7 oTrunc).policy (guardedFs.dPath 7) ∧
        world.content 7 = [0x21] ∧ (world.openFile guardedFs writer 7 oTrunc).content 7 = [] := by
    decide +kernel
  obtain ⟨world, listed⟩ : ∃ world, listedWorld = some world := ⟨_, rfl⟩
  obtain ⟨guards, still, before, after⟩ := emptied world listed
  exact ⟨world, _, listed, guards, rfl, still, before, after⟩

end Aegis.Protection
