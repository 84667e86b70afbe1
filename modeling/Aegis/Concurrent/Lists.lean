import Mathlib.Data.Fintype.Pi
import Aegis.Policy.Hooks

/-!
Owns the three policy lists under concurrent callers. Each list is a pool of
`add` and `del` calls; each section under the list's lock is one step, and a
step of one list leaves the other two alone.

A call that runs alone does what the sequential function does. Keys stay
distinct in every run in which no two adds of one key are between their check
and their insertion.

Does not own: steps inside a locked section, hook callers, or entry lifetimes.
-/

namespace Aegis.Concurrent

open Aegis.Foundation
open Aegis.Kernel
open Aegis.Policy

abbrev FileCall := ListCall (Option PathKey) PathKey AegisProtectedFile
abbrev ProcCall := ListCall (Option CommKey × Int) (CommKey × Int) AegisProtectedProc
abbrev SyscallCall := ListCall Int Int AegisBlockedSyscall

/-- The lists with all calls made so far. -/
structure ListPools where
  files : Pool FileList FileCall
  procs : Pool ProcList ProcCall
  syscalls : Pool SyscallList SyscallCall

inductive ListMove where
  | files (move : Move FileCall (Option (Digest × Bool)))
  | procs (move : Move ProcCall (Option Unit))
  | syscalls (move : Move SyscallCall (Option Unit))

/-- All interleavings of calls on the three lists. -/
def listsMachine : Machine ListPools ListMove where
  step pools
    | .files move =>
        (fileSpec.program.machine.step pools.files move).map fun next =>
          { pools with files := next }
    | .procs move =>
        (procSpec.program.machine.step pools.procs move).map fun next =>
          { pools with procs := next }
    | .syscalls move =>
        (syscallSpec.program.machine.step pools.syscalls move).map fun next =>
          { pools with syscalls := next }

def ListPools.boot (procAlloc : Fin 3 → Bool) (syscallAlloc : Fin 5 → Bool) : ListPools where
  files := Pool.start Registry.empty
  procs := Pool.start (aegisProcessInit procAlloc).list
  syscalls := Pool.start (aegisAuditInit syscallAlloc).list

/-! ### Calls that run alone -/

section Alone

variable {Arg Key Payload Entry : Type}

/-- The error number a call returns. -/
def AddResult.ret : AddResult → Int
  | .invalid => Errno.einval.ret
  | .full => Errno.enospc.ret
  | .duplicate => Errno.eexist.ret
  | .noMemory => Errno.enomem.ret
  | .added => 0

def DelResult.ret : DelResult → Int
  | .invalid => Errno.einval.ret
  | .absent => Errno.enoent.ret
  | .removed => 0

/-- Some uninterrupted run of an `add` ends with this return value and list. -/
def AddsAlone (spec : CallSpec Arg Key Payload Entry) (registry : Registry Entry) (arg : Arg)
    (op : ListOp Entry) : Prop :=
  ∃ result : AddResult,
    spec.program.RunsAlone registry (.add arg) op.list (.addReturned arg result) ∧
      AddResult.ret result = op.ret

def DelsAlone (spec : CallSpec Arg Key Payload Entry) (registry : Registry Entry) (arg : Arg)
    (op : ListOp Entry) : Prop :=
  ∃ result : DelResult,
    spec.program.RunsAlone registry (.del arg) op.list (.delReturned arg result) ∧
      DelResult.ret result = op.ret

variable (spec : CallSpec Arg Key Payload Entry) (registry : Registry Entry) (arg : Arg)

theorem addsAlone_invalid (noKey : spec.addKey arg = none) :
    AddsAlone spec registry arg (.fail .einval registry) := by
  refine ⟨.invalid, .step none ?_ (.refl _ _), rfl⟩
  simp [CallSpec.program, CallSpec.checkSection, noKey]

theorem addsAlone_listAdd {key : Key} (keyed : spec.addKey arg = some key)
    (new : Option (Payload × LogRecord)) :
    AddsAlone spec registry arg
      (listAdd spec.max (spec.hit key) (new.map fun made => (spec.make key made.1, made.2))
        registry) := by
  unfold listAdd
  cases answer : registry.admission spec.max (spec.hit key) with
  | full =>
      refine ⟨.full, .step none ?_ (.refl _ _), rfl⟩
      simp [CallSpec.program, CallSpec.checkSection, keyed, answer]
  | duplicate =>
      refine ⟨.duplicate, .step none ?_ (.refl _ _), rfl⟩
      simp [CallSpec.program, CallSpec.checkSection, keyed, answer]
  | admitted =>
      have checked : spec.program.advance 0 registry (.add arg) none =
          some (registry, .admitted arg key) := by
        simp [CallSpec.program, CallSpec.checkSection, keyed, answer]
      cases new with
      | none => exact ⟨.noMemory, .step none checked (.step none rfl (.refl _ _)), rfl⟩
      | some made =>
          exact ⟨.added, .step none checked (.step (some made.1) rfl (.step none rfl (.refl _ _))),
            rfl⟩

theorem delsAlone_listDel {key : Key} (keyed : spec.delKey arg = some key) (record : LogRecord) :
    DelsAlone spec registry arg (listDel (spec.hit key) record registry) := by
  unfold listDel
  by_cases present : registry.listed (spec.hit key) = true
  · rw [if_pos present]
    refine ⟨.removed, .step none ?_ (.refl _ _), rfl⟩
    simp [CallSpec.program, CallSpec.removeSection, keyed, present]
  · rw [if_neg present]
    refine ⟨.absent, .step none ?_ (.refl _ _), rfl⟩
    simp [CallSpec.program, CallSpec.removeSection, keyed, present]

theorem delsAlone_invalid (noKey : spec.delKey arg = none) :
    DelsAlone spec registry arg (.fail .einval registry) := by
  refine ⟨.invalid, .step none ?_ (.refl _ _), rfl⟩
  simp [CallSpec.program, CallSpec.removeSection, noKey]

end Alone

theorem aegisProtectedFileAdd_alone (shash : Shash) (env : FileAddEnv) (path : Option PathKey)
    (files : FileList) :
    AddsAlone fileSpec files path
      (aegisProtectedFileAdd shash env (path.map Subtype.val) files) := by
  cases path with
  | none => exact addsAlone_invalid fileSpec files none rfl
  | some path =>
      have alone := addsAlone_listAdd fileSpec files (some path) rfl
        (env.kmalloc.map fun junk =>
          (initialHash shash env path.val junk, LogRecord.protectedFileAdded path.val
            (initialHash shash env path.val junk).2))
      rw [Option.map_map] at alone
      exact alone

theorem aegisProtectedFileDel_alone (path : Option PathKey) (files : FileList) :
    DelsAlone fileSpec files path (aegisProtectedFileDel (path.map Subtype.val) files) := by
  cases path with
  | none => exact delsAlone_invalid fileSpec files none rfl
  | some path => exact delsAlone_listDel fileSpec files (some path) rfl _

theorem aegisProtectProcessAdd_alone (kmalloc : Bool) (comm : Option CommKey) (pid : Int)
    (procs : ProcList) :
    AddsAlone procSpec procs (comm, pid)
      (aegisProtectProcessAdd kmalloc (comm.map Subtype.val) pid procs) := by
  cases comm with
  | none => exact addsAlone_invalid procSpec procs (none, pid) rfl
  | some comm =>
      have alone := addsAlone_listAdd procSpec procs (some comm, pid) rfl
        (if kmalloc then some ((), LogRecord.protectedProcessAdded comm.val pid) else none)
      rw [apply_ite (Option.map _)] at alone
      exact alone

theorem aegisProtectProcessDel_alone (comm : Option CommKey) (pid : Int) (procs : ProcList) :
    DelsAlone procSpec procs (comm, pid)
      (aegisProtectProcessDel (comm.map Subtype.val) pid procs) := by
  cases comm with
  | none => exact delsAlone_invalid procSpec procs (none, pid) rfl
  | some comm => exact delsAlone_listDel procSpec procs (some comm, pid) rfl _

theorem aegisSyscallBlockAdd_alone (kmalloc : Bool) (nr : Int) (syscalls : SyscallList) :
    AddsAlone syscallSpec syscalls nr (aegisSyscallBlockAdd kmalloc nr syscalls) := by
  unfold aegisSyscallBlockAdd
  by_cases negative : nr < 0
  · rw [if_pos negative]
    exact addsAlone_invalid syscallSpec syscalls nr (if_pos negative)
  · rw [if_neg negative]
    have alone := addsAlone_listAdd syscallSpec syscalls nr (if_neg negative)
      (if kmalloc then some ((), LogRecord.blockedSyscallAdded nr) else none)
    rw [apply_ite (Option.map _)] at alone
    exact alone

theorem aegisSyscallBlockDel_alone (nr : Int) (syscalls : SyscallList) :
    DelsAlone syscallSpec syscalls nr (aegisSyscallBlockDel nr syscalls) :=
  delsAlone_listDel syscallSpec syscalls nr rfl _

/-! ### Distinct keys -/

/-- No two entries of a list have the same key. -/
structure KeysDistinct (pools : ListPools) : Prop where
  files : (pools.files.shared.entries.map AegisProtectedFile.key).Nodup
  procs : (pools.procs.shared.entries.map AegisProtectedProc.key).Nodup
  syscalls : (pools.syscalls.shared.entries.map AegisBlockedSyscall.syscallNr).Nodup

/-- The step is no successful `del`, or it leaves its key unlisted. -/
def DelUnlists (pools next : ListPools) : ListMove → Prop
  | .files (.advance index _) =>
      ∀ arg key, pools.files.calls[index]? = some (.del arg) → fileSpec.delKey arg = some key →
        next.files.calls[index]? = some (.delReturned arg .removed) →
        key ∉ next.files.shared.entries.map AegisProtectedFile.key
  | .procs (.advance index _) =>
      ∀ arg key, pools.procs.calls[index]? = some (.del arg) → procSpec.delKey arg = some key →
        next.procs.calls[index]? = some (.delReturned arg .removed) →
        key ∉ next.procs.shared.entries.map AegisProtectedProc.key
  | .syscalls (.advance index _) =>
      ∀ arg key, pools.syscalls.calls[index]? = some (.del arg) →
        syscallSpec.delKey arg = some key →
        next.syscalls.calls[index]? = some (.delReturned arg .removed) →
        key ∉ next.syscalls.shared.entries.map AegisBlockedSyscall.syscallNr
  | _ => True

/-- A check is made only while no other add of the same key is between its
check and its insertion. -/
def SoleAdders (pools : ListPools) : ListMove → Prop
  | .files move => fileSpec.SoleAdder pools.files move
  | .procs move => procSpec.SoleAdder pools.procs move
  | .syscalls move => syscallSpec.SoleAdder pools.syscalls move

instance (pools : ListPools) (move : ListMove) : Decidable (SoleAdders pools move) :=
  match move with
  | .files own => inferInstanceAs (Decidable (fileSpec.SoleAdder pools.files own))
  | .procs own => inferInstanceAs (Decidable (procSpec.SoleAdder pools.procs own))
  | .syscalls own => inferInstanceAs (Decidable (syscallSpec.SoleAdder pools.syscalls own))

/-- What a step of the three lists does: a step of one of them. -/
theorem listsMachine_step_cases {pools next : ListPools} {move : ListMove}
    (stepped : listsMachine.step pools move = some next) :
    (∃ own files, move = .files own ∧
      fileSpec.program.machine.step pools.files own = some files ∧
      next = { pools with files := files }) ∨
    (∃ own procs, move = .procs own ∧
      procSpec.program.machine.step pools.procs own = some procs ∧
      next = { pools with procs := procs }) ∨
    (∃ own syscalls, move = .syscalls own ∧
      syscallSpec.program.machine.step pools.syscalls own = some syscalls ∧
      next = { pools with syscalls := syscalls }) := by
  cases move with
  | files own =>
      obtain ⟨files, moved, rfl⟩ := Option.map_eq_some_iff.mp stepped
      exact Or.inl ⟨own, files, rfl, moved, rfl⟩
  | procs own =>
      obtain ⟨procs, moved, rfl⟩ := Option.map_eq_some_iff.mp stepped
      exact Or.inr (Or.inl ⟨own, procs, rfl, moved, rfl⟩)
  | syscalls own =>
      obtain ⟨syscalls, moved, rfl⟩ := Option.map_eq_some_iff.mp stepped
      exact Or.inr (Or.inr ⟨own, syscalls, rfl, moved, rfl⟩)

/-- Listed keys and keys in flight are distinct, in each list. -/
structure AllDistinct (pools : ListPools) : Prop where
  files : fileSpec.Distinct pools.files
  procs : procSpec.Distinct pools.procs
  syscalls : syscallSpec.Distinct pools.syscalls

theorem AllDistinct.keysDistinct {pools : ListPools} (distinct : AllDistinct pools) :
    KeysDistinct pools where
  files := (List.nodup_append.mp distinct.files).1
  procs := (List.nodup_append.mp distinct.procs).1
  syscalls := (List.nodup_append.mp distinct.syscalls).1

theorem keepsUnder_allDistinct : listsMachine.KeepsUnder SoleAdders AllDistinct := by
  intro pools move next guarded distinct stepped
  rcases listsMachine_step_cases stepped with
    ⟨own, files, rfl, moved, rfl⟩ | ⟨own, procs, rfl, moved, rfl⟩ | ⟨own, syscalls, rfl, moved, rfl⟩
  · exact ⟨CallSpec.keepsUnder_distinct guarded distinct.files moved, distinct.procs,
      distinct.syscalls⟩
  · exact ⟨distinct.files, CallSpec.keepsUnder_distinct guarded distinct.procs moved,
      distinct.syscalls⟩
  · exact ⟨distinct.files, distinct.procs,
      CallSpec.keepsUnder_distinct guarded distinct.syscalls moved⟩

theorem allDistinct_boot (procAlloc : Fin 3 → Bool) (syscallAlloc : Fin 5 → Bool) :
    AllDistinct (.boot procAlloc syscallAlloc) where
  files := List.nodup_nil
  procs := by
    have keys : ∀ kmalloc : Fin 3 → Bool,
        ((aegisProcessInit kmalloc).list.entries.map AegisProtectedProc.key).Nodup := by
      decide +kernel
    exact CallSpec.distinct_start (keys procAlloc)
  syscalls := by
    have keys : ∀ kmalloc : Fin 5 → Bool,
        ((aegisAuditInit kmalloc).list.entries.map AegisBlockedSyscall.syscallNr).Nodup := by
      decide +kernel
    exact CallSpec.distinct_start (keys syscallAlloc)

theorem KeysDistinct.delUnlists {pools next : ListPools} (distinct : KeysDistinct pools)
    {move : ListMove} (stepped : listsMachine.step pools move = some next) :
    DelUnlists pools next move := by
  rcases listsMachine_step_cases stepped with
    ⟨own, files, rfl, moved, rfl⟩ | ⟨own, procs, rfl, moved, rfl⟩ | ⟨own, syscalls, rfl, moved, rfl⟩
  · cases own with
    | spawn call => trivial
    | advance index payload =>
        intro arg key deleting keyed removed
        exact CallSpec.not_mem_keys_of_removed distinct.files moved deleting keyed removed
  · cases own with
    | spawn call => trivial
    | advance index payload =>
        intro arg key deleting keyed removed
        exact CallSpec.not_mem_keys_of_removed distinct.procs moved deleting keyed removed
  · cases own with
    | spawn call => trivial
    | advance index payload =>
        intro arg key deleting keyed removed
        exact CallSpec.not_mem_keys_of_removed distinct.syscalls moved deleting keyed removed

/-- In every run from boot in which no check is made while another add of the
same key is in flight, the keys of each list are distinct in the state reached,
and a `del` that succeeds there leaves its key unlisted. -/
theorem listsMachine_keysDistinct (procAlloc : Fin 3 → Bool) (syscallAlloc : Fin 5 → Bool)
    (moves : List ListMove) (final : ListPools)
    (ran : listsMachine.run (.boot procAlloc syscallAlloc) moves = some final)
    (sole : listsMachine.Meets SoleAdders (.boot procAlloc syscallAlloc) moves) :
    KeysDistinct final ∧
      ∀ move next, listsMachine.step final move = some next → DelUnlists final next move := by
  have distinct := keepsUnder_allDistinct.run sole (allDistinct_boot procAlloc syscallAlloc) ran
  have keys := distinct.keysDistinct
  exact ⟨keys, fun move next stepped => keys.delUnlists stepped⟩

def shadowKey : PathKey := ⟨.lit "/etc/shadow", by decide⟩

def passwdKey : PathKey := ⟨.lit "/etc/passwd", by decide⟩

/-- Two adds of one path take turns, with a `del` between them, while an add of
another path is between its check and its insertion. A second `del` is called
at the end. -/
def addsInTurn : List ListMove :=
  [.files (.spawn (.add (some shadowKey))), .files (.spawn (.add (some passwdKey))),
    .files (.spawn (.add (some shadowKey))), .files (.spawn (.del (some shadowKey))),
    .files (.advance 0 none), .files (.advance 1 none),
    .files (.advance 0 (some (sha256 [], true))), .files (.advance 0 none),
    .files (.advance 3 none), .files (.advance 2 none),
    .files (.advance 1 (some (sha256 [], true))), .files (.advance 2 (some (sha256 [], true))),
    .files (.advance 2 none), .files (.advance 1 none),
    .files (.spawn (.del (some shadowKey)))]

theorem listsMachine_keysDistinct_addsInTurn :
    ∃ final after,
      listsMachine.run (.boot (fun _ => true) (fun _ => true)) addsInTurn = some final ∧
      final.files.shared.entries.map AegisProtectedFile.key = [shadowKey, passwdKey] ∧
      KeysDistinct final ∧ listsMachine.step final (.files (.advance 4 none)) = some after ∧
      after.files.calls[4]? = some (.delReturned (some shadowKey) .removed) ∧
      shadowKey ∉ after.files.shared.entries.map AegisProtectedFile.key := by
  have sole : listsMachine.Meets SoleAdders (.boot (fun _ => true) (fun _ => true)) addsInTurn := by
    decide +kernel
  have runs : (listsMachine.run (.boot (fun _ => true) (fun _ => true)) addsInTurn).isSome = true ∧
      ∀ final ∈ listsMachine.run (.boot (fun _ => true) (fun _ => true)) addsInTurn,
        final.files.shared.entries.map AegisProtectedFile.key = [shadowKey, passwdKey] ∧
          final.files.calls[4]? = some (.del (some shadowKey)) ∧
          (listsMachine.step final (.files (.advance 4 none))).isSome = true ∧
          ∀ after ∈ listsMachine.step final (.files (.advance 4 none)),
            after.files.calls[4]? = some (.delReturned (some shadowKey) .removed) := by
    decide +kernel
  obtain ⟨final, ran⟩ := Option.isSome_iff_exists.mp runs.1
  obtain ⟨keys, deleting, steps, removes⟩ := runs.2 final ran
  obtain ⟨after, stepped⟩ := Option.isSome_iff_exists.mp steps
  have removed := removes after stepped
  obtain ⟨distinct, unlists⟩ := listsMachine_keysDistinct _ _ addsInTurn final ran sole
  exact ⟨final, after, ran, keys, distinct, stepped, removed,
    unlists _ after stepped (some shadowKey) shadowKey deleting rfl removed⟩

/-- Two adds of one path that both check before either inserts. -/
def racingAdds : List ListMove :=
  [.files (.spawn (.add (some shadowKey))), .files (.spawn (.add (some shadowKey))),
    .files (.advance 0 none), .files (.advance 1 none),
    .files (.advance 0 (some (sha256 [], true))), .files (.advance 1 (some (sha256 [], true))),
    .files (.advance 0 none), .files (.advance 1 none)]

/-- Both adds succeed, the path is listed twice, and a successful `del` leaves
it listed. -/
theorem racingAdds_list_path_twice :
    ∃ final, listsMachine.run (.boot (fun _ => true) (fun _ => true)) racingAdds = some final ∧
      ¬ KeysDistinct final ∧
      ∃ after, listsMachine.run final
          [.files (.spawn (.del (some shadowKey))), .files (.advance 2 none)] = some after ∧
        after.files.calls[2]? = some (.delReturned (some shadowKey) .removed) ∧
        shadowKey ∈ after.files.shared.entries.map AegisProtectedFile.key := by
  refine ⟨_, rfl, fun distinct => ?_, _, rfl, ?_, ?_⟩
  · exact absurd distinct.files (by decide +kernel)
  · decide +kernel
  · decide +kernel

end Aegis.Concurrent
