import Aegis.Control.Outcomes
import Aegis.Refinement.Reachable

/-!
Owns what a caller can conclude from return values. A control write reports by
its return value whether it changed its list, so a caller who keeps the writes
and their return values knows, for every key, whether it is listed: the last
write of the key that returned its length decides.

This holds from every boot and with allocations that may fail anywhere.

Does not own: interleaved callers, or what a listed key denies.
-/

namespace Aegis.Refinement

open Aegis.Foundation
open Aegis.Kernel
open Aegis.Policy
open Aegis.Control

/-! ### Keys of one list -/

section OneList

variable {Entry Key : Type} {key : Entry → Key} {hit : Entry → Bool} {wanted : Key}
variable {registry : Registry Entry}

/-- If it returns zero the operation decides whether its key is listed, and it
decides nothing else. -/
structure Decides (key : Entry → Key) (wanted : Key) (adds : Bool) (old : Registry Entry)
    (op : ListOp Entry) : Prop where
  distinct : (op.list.entries.map key).Nodup
  own : op.ret = 0 → (wanted ∈ op.list.entries.map key ↔ adds = true)
  others : ∀ other ≠ wanted,
    (other ∈ op.list.entries.map key ↔ other ∈ old.entries.map key)
  failed : op.ret ≠ 0 → op.list = old

theorem decides_fail (distinct : (registry.entries.map key).Nodup) (adds : Bool) (error : Errno) :
    Decides key wanted adds registry (.fail error registry) where
  distinct := distinct
  own zero := absurd zero error.ret_ne_zero
  others _ _ := Iff.rfl
  failed _ := rfl

theorem listAdd_decides (distinct : (registry.entries.map key).Nodup)
    (exact : Registry.HitsKey key hit wanted) (max : Nat) {new : Option (Entry × LogRecord)}
    (keyed : ∀ made ∈ new, key made.1 = wanted) :
    Decides key wanted true registry (listAdd max hit new registry) := by
  unfold listAdd
  cases answer : registry.admission max hit with
  | full => exact decides_fail distinct true .enospc
  | duplicate => exact decides_fail distinct true .eexist
  | admitted =>
      cases new with
      | none => exact decides_fail distinct true .enomem
      | some made =>
          have absent : wanted ∉ registry.entries.map key := by
            rw [← Registry.listed_iff_mem_keys exact, (Registry.admission_eq_admitted.mp answer).2]
            exact Bool.false_ne_true
          have keys : (registry.linkTail made.1).entries.map key =
              registry.entries.map key ++ [wanted] := by
            rw [Registry.linkTail_entries, List.map_append, List.map_singleton, keyed made rfl]
          refine ⟨?_, fun _ => ?_, fun other different => ?_, fun nonzero => absurd rfl nonzero⟩
          · show ((registry.linkTail made.1).entries.map key).Nodup
            rw [keys]
            rw [(List.perm_append_singleton wanted _).nodup_iff]
            exact List.nodup_cons.mpr ⟨absent, distinct⟩
          · show wanted ∈ (registry.linkTail made.1).entries.map key ↔ true = true
            rw [keys]
            simp
          · show other ∈ (registry.linkTail made.1).entries.map key ↔ _
            rw [keys]
            simp [different]

theorem listDel_decides (distinct : (registry.entries.map key).Nodup)
    (exact : Registry.HitsKey key hit wanted) (record : LogRecord) :
    Decides key wanted false registry (listDel hit record registry) := by
  unfold listDel
  by_cases present : registry.listed hit = true
  · rw [if_pos present]
    refine ⟨?_, fun _ => ?_, fun other different => ?_, fun nonzero => absurd rfl nonzero⟩
    · exact distinct.sublist (List.eraseP_sublist.map key)
    · have gone := Registry.not_mem_keys_unlinkFirst exact distinct present
      exact iff_of_false gone Bool.false_ne_true
    · -- Only entries of the removed key can go.
      constructor
      · intro member
        exact (List.eraseP_sublist.map key).subset member
      · intro member
        obtain ⟨entry, listed, rfl⟩ := List.mem_map.mp member
        have missed : ¬ hit entry = true := fun hits => different ((exact entry).mp hits)
        exact List.mem_map_of_mem ((List.mem_eraseP_of_neg missed).mpr listed)
  · rw [if_neg present]
    exact decides_fail distinct false .enoent

/-- The same, by the value that a write makes of the return value. -/
theorem Decides.mem_iff {adds : Bool} {op : ListOp Entry}
    {change : Registry Entry → Registry Entry → Prop}
    (decides : Decides key wanted adds registry op) (settles : Settles change registry op)
    (len : Nat) (other : Key) :
    other ∈ op.list.entries.map key ↔
      (writeResult len op.ret = len ∧ wanted = other ∧ adds = true) ∨
        (¬ (writeResult len op.ret = len ∧ wanted = other) ∧ other ∈ registry.entries.map key) := by
  by_cases zero : op.ret = 0
  · have returned : writeResult len op.ret = len := if_pos zero
    by_cases same : wanted = other
    · subst same
      simp [returned, decides.own zero]
    · have others := decides.others other (Ne.symm same)
      simp only [returned, same, true_and, false_and, and_false, false_or, not_false_eq_true]
      exact others
  · have returned : ¬ writeResult len op.ret = len := fun back =>
      zero (ret_eq_zero_of_settles settles back)
    rw [decides.failed zero]
    simp only [returned, false_and, false_or, not_false_eq_true, true_and]

end OneList

/-! ### Keys of the policy -/

/-- What an entry of one of the three lists is about. -/
inductive PolicyKey where
  | file (path : PathKey)
  | proc (comm : CommKey) (pid : Int)
  | syscall (nr : Int)
deriving DecidableEq

def PolicyKey.Listed (policy : PolicyState) : PolicyKey → Prop
  | .file path => path ∈ policy.files.entries.map AegisProtectedFile.key
  | .proc comm pid => (comm, pid) ∈ policy.procs.entries.map AegisProtectedProc.key
  | .syscall nr => nr ∈ policy.syscalls.entries.map AegisBlockedSyscall.syscallNr

instance (policy : PolicyState) : ∀ key : PolicyKey, Decidable (key.Listed policy)
  | .file _ => inferInstanceAs (Decidable (_ ∈ _))
  | .proc _ _ => inferInstanceAs (Decidable (_ ∈ _))
  | .syscall _ => inferInstanceAs (Decidable (_ ∈ _))

def commandKey : Command → PolicyKey
  | .addFile path _ => .file path
  | .delFile path _ => .file path
  | .addProc comm pid => .proc comm pid
  | .delProc comm pid => .proc comm pid
  | .addSyscall nr => .syscall nr.val
  | .delSyscall nr => .syscall nr.val

def commandAdds : Command → Bool
  | .addFile _ _ => true
  | .addProc _ _ => true
  | .addSyscall _ => true
  | _ => false

/-- No key is listed twice. -/
structure DistinctKeys (policy : PolicyState) : Prop where
  files : (policy.files.entries.map AegisProtectedFile.key).Nodup
  procs : (policy.procs.entries.map AegisProtectedProc.key).Nodup
  syscalls : (policy.syscalls.entries.map AegisBlockedSyscall.syscallNr).Nodup

section Commands

theorem aegisProtectedFileAdd_decides {files : FileList}
    (distinct : (files.entries.map AegisProtectedFile.key).Nodup) (shash : Shash)
    (env : FileAddEnv) (path : PathKey) :
    Decides AegisProtectedFile.key path true files
      (aegisProtectedFileAdd shash env (some path.val) files) := by
  apply listAdd_decides distinct (filePathHit_hitsKey path)
  intro made isNew
  obtain ⟨junk, -, rfl⟩ := Option.map_eq_some_iff.mp isNew
  exact fileSpec.key_make path _

theorem aegisProtectProcessAdd_decides {procs : ProcList}
    (distinct : (procs.entries.map AegisProtectedProc.key).Nodup) (kmalloc : Bool)
    (comm : CommKey) (pid : Int) :
    Decides AegisProtectedProc.key (comm, pid) true procs
      (aegisProtectProcessAdd kmalloc (some comm.val) pid procs) := by
  apply listAdd_decides distinct (procHit_hitsKey comm pid)
  intro made isNew
  obtain ⟨-, ⟨⟩⟩ := Option.ite_none_right_eq_some.mp isNew
  exact procSpec.key_make (comm, pid) ()

theorem aegisSyscallBlockAdd_decides {syscalls : SyscallList}
    (distinct : (syscalls.entries.map AegisBlockedSyscall.syscallNr).Nodup) (kmalloc : Bool)
    (nr : Int) :
    Decides AegisBlockedSyscall.syscallNr nr true syscalls
      (aegisSyscallBlockAdd kmalloc nr syscalls) := by
  unfold aegisSyscallBlockAdd
  by_cases negative : nr < 0
  · rw [if_pos negative]
    exact decides_fail distinct true .einval
  · rw [if_neg negative]
    apply listAdd_decides distinct (syscallHit_hitsKey nr)
    intro made isNew
    obtain ⟨-, ⟨⟩⟩ := Option.ite_none_right_eq_some.mp isNew
    rfl

/-- Only distinct keys are added at boot. -/
theorem distinctKeys_boot (procAlloc : Fin 3 → Bool) (syscallAlloc : Fin 5 → Bool) :
    DistinctKeys (Policy.boot procAlloc syscallAlloc) where
  files := List.nodup_nil
  procs := by
    apply (aegisProtectProcessAdd_decides _ _ ⟨.lit "systemd", by decide⟩ 1).distinct
    apply (aegisProtectProcessAdd_decides _ _ ⟨.lit "init", by decide⟩ 1).distinct
    apply (aegisProtectProcessAdd_decides _ _ ⟨.lit "sshd", by decide⟩ 0).distinct
    exact List.nodup_nil
  syscalls := by
    apply (aegisSyscallBlockAdd_decides _ _ _).distinct
    apply (aegisSyscallBlockAdd_decides _ _ _).distinct
    apply (aegisSyscallBlockAdd_decides _ _ _).distinct
    apply (aegisSyscallBlockAdd_decides _ _ _).distinct
    apply (aegisSyscallBlockAdd_decides _ _ _).distinct
    exact List.nodup_nil

variable {policy : PolicyState} (distinct : DistinctKeys policy)

include distinct

/-- A command leaves the keys distinct. -/
theorem DistinctKeys.perform (shash : Shash) (env : ControlEnv) (len : Nat) (command : Command) :
    DistinctKeys (command.perform shash env len policy).policy := by
  cases command with
  | addFile path _ =>
      exact { distinct with
        files := (aegisProtectedFileAdd_decides distinct.files shash env.fileAdd path).distinct }
  | delFile path _ =>
      exact { distinct with
        files := (listDel_decides distinct.files (filePathHit_hitsKey path) _).distinct }
  | addProc comm pid =>
      exact { distinct with
        procs :=
          (aegisProtectProcessAdd_decides distinct.procs env.kmallocEntry comm pid).distinct }
  | delProc comm pid =>
      exact { distinct with
        procs := (listDel_decides distinct.procs (procHit_hitsKey comm pid) _).distinct }
  | addSyscall nr =>
      exact { distinct with
        syscalls :=
          (aegisSyscallBlockAdd_decides distinct.syscalls env.kmallocEntry nr.val).distinct }
  | delSyscall nr =>
      exact { distinct with
        syscalls := (listDel_decides distinct.syscalls (syscallHit_hitsKey nr.val) _).distinct }

/-- What a command does to the keys, by its return value. -/
theorem DistinctKeys.listed_perform (shash : Shash) (env : ControlEnv) (len : Nat)
    (command : Command) (key : PolicyKey) :
    key.Listed (command.perform shash env len policy).policy ↔
      ((command.perform shash env len policy).ret = len ∧ commandKey command = key ∧
        commandAdds command = true) ∨
      (¬ ((command.perform shash env len policy).ret = len ∧ commandKey command = key) ∧
        key.Listed policy) := by
  -- A command changes no other list.
  have elsewhere : ∀ {returned same adds listed : Prop}, ¬ same →
      (listed ↔ (returned ∧ same ∧ adds) ∨ (¬ (returned ∧ same) ∧ listed)) := by
    intro returned same adds listed different
    simp [different]
  cases command with
  | addFile path _ =>
      have own := (aegisProtectedFileAdd_decides distinct.files shash env.fileAdd path).mem_iff
        (aegisProtectedFileAdd_settles shash env.fileAdd _ _) len
      cases key with
      | file other =>
          rw [commandKey, PolicyKey.file.injEq]
          exact own other
      | _ => exact elsewhere (by simp [commandKey])
  | delFile path _ =>
      have own := (listDel_decides distinct.files (filePathHit_hitsKey path)
        (.protectedFileRemoved path.val)).mem_iff (listDel_settles _ _) len
      cases key with
      | file other =>
          rw [commandKey, PolicyKey.file.injEq]
          exact own other
      | _ => exact elsewhere (by simp [commandKey])
  | addProc comm pid =>
      have own := (aegisProtectProcessAdd_decides distinct.procs env.kmallocEntry comm pid).mem_iff
        (aegisProtectProcessAdd_settles env.kmallocEntry _ pid _) len
      cases key with
      | proc other otherPid =>
          rw [commandKey, PolicyKey.proc.injEq, ← Prod.mk.injEq]
          exact own (other, otherPid)
      | _ => exact elsewhere (by simp [commandKey])
  | delProc comm pid =>
      have own := (listDel_decides distinct.procs (procHit_hitsKey comm pid)
        (.protectedProcessRemoved comm.val pid)).mem_iff (listDel_settles _ _) len
      cases key with
      | proc other otherPid =>
          rw [commandKey, PolicyKey.proc.injEq, ← Prod.mk.injEq]
          exact own (other, otherPid)
      | _ => exact elsewhere (by simp [commandKey])
  | addSyscall nr =>
      have own := (aegisSyscallBlockAdd_decides distinct.syscalls env.kmallocEntry nr.val).mem_iff
        (aegisSyscallBlockAdd_settles env.kmallocEntry nr.val _) len
      cases key with
      | syscall other =>
          rw [commandKey, PolicyKey.syscall.injEq]
          exact own other
      | _ => exact elsewhere (by simp [commandKey])
  | delSyscall nr =>
      have own := (listDel_decides distinct.syscalls (syscallHit_hitsKey nr.val)
        (.blockedSyscallRemoved nr.val)).mem_iff (listDel_settles _ _) len
      cases key with
      | syscall other =>
          rw [commandKey, PolicyKey.syscall.injEq]
          exact own other
      | _ => exact elsewhere (by simp [commandKey])

end Commands

/-! ### Histories -/

/-- What a caller concludes for a key from one more operation and its return
value. -/
def conclude (key : PolicyKey) (listed : Bool) : Operation × Int → Bool
  | (.write _ endpoint ubuf, ret) =>
      match endpoint.command ubuf with
      | some command =>
          if ret = ubuf.length ∧ commandKey command = key then commandAdds command else listed
      | none => listed
  | _ => listed

/-- What a caller concludes from a history. -/
def replay (key : PolicyKey) (listed : Bool) (history : List (Operation × Int)) : Bool :=
  history.foldl (conclude key) listed

theorem conclude_of_ne {key : PolicyKey} {listed : Bool} {env : ControlEnv} {endpoint : Endpoint}
    {ubuf : List UInt8} {ret : Int} (failed : ¬ ret = ubuf.length) :
    conclude key listed (.write env endpoint ubuf, ret) = listed := by
  simp only [conclude, failed, false_and, if_false]
  split <;> rfl

/-- A write that does not return its length changes nothing. -/
theorem aectlWrite_unchanged {shash : Shash} {env : ControlEnv} {endpoint : Endpoint}
    {ubuf : List UInt8} {policy : PolicyState}
    (failed : ¬ (aectlWrite shash env endpoint ubuf policy).ret = ubuf.length) :
    (aectlWrite shash env endpoint ubuf policy).policy = policy := by
  rw [aectlWrite_eq] at failed ⊢
  cases parsed : parseWrite env endpoint ubuf with
  | error ret => rfl
  | ok command =>
      rw [parsed] at failed
      rcases command.perform_allOrNothing shash env ubuf.length policy with
        ⟨returned, -⟩ | ⟨error, -, same⟩
      · exact absurd returned failed
      · exact same

section Steps

variable (shash : Shash) {state : KernelState} (distinct : DistinctKeys state.policy)

include distinct

theorem DistinctKeys.step (operation : Operation) :
    DistinctKeys ((kernel shash).step state operation).1.policy := by
  cases operation with
  | write env endpoint ubuf =>
      show DistinctKeys (aectlWrite shash env endpoint ubuf state.policy).policy
      rw [aectlWrite_eq]
      cases parseWrite env endpoint ubuf with
      | error ret => exact distinct
      | ok command => exact distinct.perform shash env ubuf.length command
  | sysctl knob result => exact ⟨distinct.files, distinct.procs, distinct.syscalls⟩
  | hook env request => exact ⟨distinct.files, distinct.procs, distinct.syscalls⟩

/-- A caller who knows whether the key was listed knows it after the operation. -/
theorem DistinctKeys.conclude_step (key : PolicyKey) (operation : Operation) :
    conclude key (decide (key.Listed state.policy))
        (operation, ((kernel shash).step state operation).2) =
      decide (key.Listed ((kernel shash).step state operation).1.policy) := by
  cases operation with
  | write env endpoint ubuf =>
      show conclude key _ (_, (aectlWrite shash env endpoint ubuf state.policy).ret) =
        decide (key.Listed (aectlWrite shash env endpoint ubuf state.policy).policy)
      by_cases returned : (aectlWrite shash env endpoint ubuf state.policy).ret = ubuf.length
      · obtain ⟨-, command, reads, performed⟩ := exists_command_of_ret_eq_length returned
        have listed := distinct.listed_perform shash env ubuf.length command key
        rw [performed] at returned ⊢
        simp only [returned, true_and] at listed
        simp only [conclude, Endpoint.command_eq_some_iff.mpr reads, returned, true_and]
        by_cases same : commandKey command = key
        · simp only [same, true_and, not_true_eq_false, false_and, or_false] at listed
          rw [if_pos same, Bool.eq_iff_iff, decide_eq_true_eq, listed]
        · simp only [same, false_and, not_false_eq_true, true_and, false_or] at listed
          rw [if_neg same, decide_eq_decide, listed]
      · rw [conclude_of_ne returned, aectlWrite_unchanged returned]
  | sysctl knob result => rfl
  | hook env request => rfl

end Steps

/-- From any state with distinct keys, what a caller concludes is what is
listed. -/
theorem DistinctKeys.replay_run (shash : Shash) (key : PolicyKey) {state : KernelState}
    (distinct : DistinctKeys state.policy) (operations : List Operation) :
    replay key (decide (key.Listed state.policy))
        (operations.zip ((kernel shash).run state operations).2) =
      decide (key.Listed ((kernel shash).run state operations).1.policy) := by
  induction operations generalizing state with
  | nil => rfl
  | cons operation rest inductionHypothesis =>
      have later := inductionHypothesis (distinct.step shash operation)
      rw [Transducer.run_cons, List.zip_cons_cons, replay, List.foldl_cons,
        distinct.conclude_step shash key operation]
      exact later

/-- From every boot and for every sequence of control writes, sysctl writes and
hook calls, with allocations that may fail anywhere: a key is listed at the end
if and only if a caller concludes it from the writes and their return values,
the last write of the key that returned its length deciding. -/
theorem returnValues_determine_lists (shash : Shash) (procAlloc : Fin 3 → Bool)
    (syscallAlloc : Fin 5 → Bool) (operations : List Operation) (key : PolicyKey) :
    let start := KernelState.bootWith procAlloc syscallAlloc
    let final := (kernel shash).run start operations
    key.Listed final.1.policy ↔
      replay key (decide (key.Listed start.policy)) (operations.zip final.2) = true := by
  intro start final
  have distinct : DistinctKeys start.policy := distinctKeys_boot procAlloc syscallAlloc
  rw [distinct.replay_run shash key operations, decide_eq_true_eq]

end Aegis.Refinement
