import Aegis.Kernel.FileSystem
import Aegis.Policy.Sysctl
import Aegis.Concurrent.Lists

/-!
Owns the module together with the file system it guards: the policy under
concurrent list calls and sysctl writes, the contents of all files, the open
descriptors, and the system calls `open`, `read` and `write` with the hooks
they run.

A system call is one step. The page of a hook is allocated and `d_path`
succeeds. `open` runs the hook before `O_TRUNC` takes effect; `read` and
`write` need a descriptor of the right mode and run `file_permission` first.

Does not own: other ways to change a file, such as `truncate(2)` or `mmap(2)`,
renames, and the steps inside a system call.
-/

namespace Aegis.Protection

open Aegis.Foundation
open Aegis.Kernel
open Aegis.Policy
open Aegis.Concurrent

/-! ### State -/

structure Descriptor where
  inode : Inode
  fMode : BitVec 32
  append : Bool
  pos : Nat

structure World where
  cfg : AegisConfig
  mirrors : SysctlMirrors
  stats : AegisStats
  lists : ListPools
  content : Contents
  opened : List Descriptor

/-- The policy as the hooks find it. -/
def World.policy (world : World) : PolicyState where
  cfg := world.cfg
  stats := world.stats
  files := world.lists.files.shared
  procs := world.lists.procs.shared
  syscalls := world.lists.syscalls.shared

def World.boot (procAlloc : Fin 3 → Bool) (syscallAlloc : Fin 5 → Bool) (content : Contents) :
    World where
  cfg := aegisCfg
  mirrors := sysctlMirrors
  stats := aegisStats
  lists := .boot procAlloc syscallAlloc
  content := content
  opened := []

/-! ### System calls -/

inductive WorldAction where
  | list (move : ListMove)
  | sysctl (knob : Knob) (result : Dointvec)
  | openat (current : Task) (inode : Inode) (flags : BitVec 32)
  | read (current : Task) (fd : Nat) (size : Nat)
  | write (current : Task) (fd : Nat) (bytes : List UInt8)

/-- A hook call in which the page and the name are there. -/
def suppliedEnv (current : Task) : HookEnv := ⟨current, true, true⟩

section Steps

variable (fs : FileSystem) (world : World)

def World.openFile (current : Task) (inode : Inode) (flags : BitVec 32) : World :=
  let outcome := aegisFileOpen world.policy (suppliedEnv current) ⟨fs.dPath inode, openFmode flags⟩
  if outcome.ret = 0 then
    { world with
      stats := outcome.stats
      content :=
        if hasBits flags oTrunc then Function.update world.content inode [] else world.content
      opened := world.opened ++ [⟨inode, openFmode flags, hasBits flags oAppend, 0⟩] }
  else { world with stats := outcome.stats }

def World.readFile (current : Task) (fd size : Nat) (file : Descriptor) : World :=
  if hasBits file.fMode fmodeRead then
    let outcome :=
      aegisFilePermission world.policy (suppliedEnv current)
        ⟨fs.dPath file.inode, file.fMode⟩ mayRead
    if outcome.ret = 0 then
      let read := readAt (world.content file.inode) file.pos size
      { world with
        stats := outcome.stats
        opened := world.opened.set fd { file with pos := file.pos + read.length } }
    else { world with stats := outcome.stats }
  else world

def World.writeFile (current : Task) (fd : Nat) (bytes : List UInt8) (file : Descriptor) : World :=
  if hasBits file.fMode fmodeWrite then
    let outcome :=
      aegisFilePermission world.policy (suppliedEnv current)
        ⟨fs.dPath file.inode, file.fMode⟩ mayWrite
    if outcome.ret = 0 then
      let pos := if file.append then (world.content file.inode).length else file.pos
      { world with
        stats := outcome.stats
        content := Function.update world.content file.inode
          (writeAt (world.content file.inode) pos bytes)
        opened := world.opened.set fd { file with pos := pos + bytes.length } }
    else { world with stats := outcome.stats }
  else world

end Steps

/-- All runs of list calls, sysctl writes and system calls. -/
def worldMachine (fs : FileSystem) : Machine World WorldAction where
  step world
    | .list move =>
        (listsMachine.step world.lists move).map fun lists => { world with lists := lists }
    | .sysctl knob result =>
        let outcome := aegisSysctlHandler knob true result world.mirrors world.cfg
        some { world with cfg := outcome.cfg, mirrors := outcome.mirrors }
    | .openat current inode flags => some (world.openFile fs current inode flags)
    | .read current fd size => world.opened[fd]?.map (world.readFile fs current fd size)
    | .write current fd bytes => world.opened[fd]?.map (world.writeFile fs current fd bytes)

/-! ### Denials -/

/-- The stored count is the length of the file list. -/
theorem keeps_filesCounted (fs : FileSystem) :
    (worldMachine fs).Keeps fun world => world.policy.files.Counted := by
  intro world action next _ counted stepped
  cases action with
  | list move =>
      obtain ⟨lists, moved, rfl⟩ := Option.map_eq_some_iff.mp stepped
      rcases listsMachine_step_cases moved with
        ⟨own, files, rfl, advanced, rfl⟩ | ⟨own, procs, rfl, -, rfl⟩ | ⟨own, syscalls, rfl, -, rfl⟩
      · exact fileSpec.keeps_counted trivial counted advanced
      · exact counted
      · exact counted
  | sysctl knob result =>
      obtain rfl := Option.some.inj stepped
      exact counted
  | openat current inode flags =>
      obtain rfl := Option.some.inj stepped
      simp only [World.openFile]
      split <;> exact counted
  | read current fd size =>
      obtain ⟨file, -, rfl⟩ := Option.map_eq_some_iff.mp stepped
      simp only [World.readFile]
      split
      · split <;> exact counted
      · exact counted
  | write current fd bytes =>
      obtain ⟨file, -, rfl⟩ := Option.map_eq_some_iff.mp stepped
      simp only [World.writeFile]
      split
      · split <;> exact counted
      · exact counted

theorem filesCounted_reachable {fs : FileSystem} {procAlloc : Fin 3 → Bool}
    {syscallAlloc : Fin 5 → Bool} {content : Contents} {world : World}
    (reached : (worldMachine fs).Reachable (.boot procAlloc syscallAlloc content) world) :
    world.policy.files.Counted := by
  have start : (World.boot procAlloc syscallAlloc content).policy.files.Counted :=
    Registry.counted_empty
  exact (keeps_filesCounted fs).reachable start reached

/-- The name is listed and the layer that denies writes is switched on. -/
structure Guards (policy : PolicyState) (name : CString) : Prop where
  active : policy.cfg.featureCheck featureFileIntegrity = true
  enforced : policy.cfg.fileIntegrityEnforce = true
  listed : ∃ entry ∈ policy.files.entries, entry.path.text = name

instance (policy : PolicyState) (name : CString) : Decidable (Guards policy name) :=
  decidable_of_iff
    (policy.cfg.featureCheck featureFileIntegrity = true ∧ policy.cfg.fileIntegrityEnforce = true ∧
      ∃ entry ∈ policy.files.entries, entry.path.text = name)
    ⟨fun guards => ⟨guards.1, guards.2.1, guards.2.2⟩,
      fun guards => ⟨guards.active, guards.enforced, guards.listed⟩⟩

/-- Both file hooks deny every write access to the name. -/
def DeniesWrites (policy : PolicyState) (name : CString) : Prop :=
  ∀ (current : Task) (fMode mask : BitVec 32),
    (hasBits mask (mayWrite ||| mayAppend) = true →
      (aegisFilePermission policy (suppliedEnv current) ⟨name, fMode⟩ mask).ret =
        Errno.eacces.ret) ∧
    (hasBits fMode fmodeWrite = true →
      (aegisFileOpen policy (suppliedEnv current) ⟨name, fMode⟩).ret = Errno.eacces.ret)

theorem deniesWrite_iff {policy : PolicyState} {name : CString} {mask : BitVec 32}
    (writes : hasBits mask (mayWrite ||| mayAppend) = true) :
    deniesWrite policy name mask = true ↔ Guards policy name := by
  simp only [deniesWrite, Bool.and_eq_true, writes, and_true, aegisIsFileProtected_iff]
  constructor
  · rintro ⟨⟨active, listed⟩, enforced⟩
    exact ⟨active, enforced, listed⟩
  · intro guards
    exact ⟨⟨guards.active, guards.listed⟩, guards.enforced⟩

/-- With a right count, the hooks deny all writes to a name exactly when it is
guarded. -/
theorem deniesWrites_iff {policy : PolicyState} (counted : policy.files.Counted)
    (name : CString) : DeniesWrites policy name ↔ Guards policy name := by
  constructor
  · intro denies
    have refused := (denies ⟨⟨.empty, 0⟩, ⟨.empty, 0⟩⟩ 0 mayWrite).1 (by decide)
    have nonzero := refused.trans_ne Errno.eacces.ret_ne_zero
    exact (deniesWrite_iff (by decide)).mp (aegisFilePermission_ret_ne_zero.mp nonzero).1
  · intro guards
    obtain ⟨entry, member, -⟩ := guards.listed
    have present : policy.files.count ≠ 0 := counted.count_ne_zero member
    have denied : ∀ (current : Task) (fMode mask : BitVec 32),
        hasBits mask (mayWrite ||| mayAppend) = true →
        (aegisFilePermission policy (suppliedEnv current) ⟨name, fMode⟩ mask).ret =
          Errno.eacces.ret := by
      intro current fMode mask writes
      rw [aegisFilePermission_ret]
      exact if_pos ⟨(deniesWrite_iff writes).mpr guards, present, rfl, rfl⟩
    intro current fMode mask
    refine ⟨denied current fMode mask, fun writes => ?_⟩
    rw [aegisFileOpen_ret]
    apply denied
    rw [openMask_writes]
    exact writes

end Aegis.Protection
