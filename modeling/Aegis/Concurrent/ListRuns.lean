import Aegis.Foundation.Capacity
import Aegis.Foundation.History
import Aegis.Concurrent.Lists

/-!
Owns what whole runs of concurrent adds and removals do to the three lists: the
exact length they can reach, and the history that the listed keys and their
order tell.

Does not own: steps inside a locked section, or which keys are distinct.
-/

namespace Aegis.Concurrent

open Aegis.Foundation
open Aegis.Kernel
open Aegis.Policy

/-! ### Capacity -/

/-- Paths of different lengths, enough to fill the list. -/
def fillerPath (n : Fin aegisMaxProtectedFiles) : PathKey :=
  ⟨⟨List.replicate (n.val + 1) 97, by simp⟩, by
    have small := n.isLt
    simp only [CString.length, List.length_replicate, aegisMaxProtectedFiles, aegisPathLen] at *
    omega⟩

/-- One name under different process ids. -/
def fillerProc (n : Fin aegisMaxProtectedProcs) : CommKey × Int := (⟨.lit "worker", by decide⟩, n)

/-- Numbers above those of the boot list. -/
def fillerSyscall (n : Fin aegisMaxBlockedSyscalls) : Int := 1000 + n

theorem fillerPath_injective : Function.Injective fillerPath := by
  intro first second same
  have lengths := congrArg (fun path : PathKey => path.val.length) same
  simp only [fillerPath, CString.length, List.length_replicate] at lengths
  exact Fin.ext (by omega)

theorem fillerProc_injective : Function.Injective fillerProc := by
  intro first second same
  have pids : (first.val : Int) = second.val := congrArg Prod.snd same
  exact Fin.ext (by omega)

theorem fillerSyscall_injective : Function.Injective fillerSyscall := by
  intro first second same
  unfold fillerSyscall at same
  exact Fin.ext (by omega)

/-- A list that has a free place and knows none of the filler keys. -/
theorem exactCapacity_of_filler {Arg Key Payload Entry : Type}
    (spec : CallSpec Arg Key Payload Entry) (payload : Payload) (argOf : Key → Arg)
    {filler : Fin spec.max → Key} (injective : Function.Injective filler)
    {start : Registry Entry} (counted : start.Counted) (room : start.entries.length < spec.max)
    (keyed : ∀ n, spec.addKey (argOf (filler n)) = some (filler n))
    (distinct : (start.entries.map spec.key).Nodup)
    (fresh : ∀ n, filler n ∉ start.entries.map spec.key) :
    spec.ExactCapacity spec.addsInFlight start ∧ spec.ExactCapacity CallSpec.openAdds start := by
  refine CallSpec.exactCapacity payload argOf (List.ofFn filler) counted room (by simp)
    ?_ ?_
  · intro key member
    obtain ⟨n, rfl⟩ := List.mem_ofFn.mp member
    exact keyed n
  · rw [List.nodup_append]
    refine ⟨distinct, List.nodup_ofFn.mpr injective, ?_⟩
    rintro key listed other member rfl
    obtain ⟨n, rfl⟩ := List.mem_ofFn.mp member
    exact fresh n listed

/-- For every number `k` of adds in flight at a time, the length of each list
stays at most its limit less one plus `k`, and some run reaches that length. -/
theorem lists_exactCapacity (procAlloc : Fin 3 → Bool) (syscallAlloc : Fin 5 → Bool) :
    (fileSpec.ExactCapacity fileSpec.addsInFlight Registry.empty ∧
      fileSpec.ExactCapacity CallSpec.openAdds Registry.empty) ∧
    (procSpec.ExactCapacity procSpec.addsInFlight (aegisProcessInit procAlloc).list ∧
      procSpec.ExactCapacity CallSpec.openAdds (aegisProcessInit procAlloc).list) ∧
    (syscallSpec.ExactCapacity syscallSpec.addsInFlight (aegisAuditInit syscallAlloc).list ∧
      syscallSpec.ExactCapacity CallSpec.openAdds (aegisAuditInit syscallAlloc).list) := by
  have distinct := (allDistinct_boot procAlloc syscallAlloc).keysDistinct
  refine ⟨?_, ?_, ?_⟩
  · exact exactCapacity_of_filler fileSpec (sha256 [], true) some fillerPath_injective
      Registry.counted_empty (by decide) (fun _ => rfl) distinct.files
      (fun _ => List.not_mem_nil)
  · have boot : ∀ kmalloc : Fin 3 → Bool, (aegisProcessInit kmalloc).list.Counted ∧
        (aegisProcessInit kmalloc).list.entries.length < 64 ∧
        ∀ entry ∈ (aegisProcessInit kmalloc).list.entries, entry.comm.text ≠ .lit "worker" := by
      decide +kernel
    obtain ⟨counted, room, others⟩ := boot procAlloc
    refine exactCapacity_of_filler procSpec () (fun key => (some key.1, key.2))
      fillerProc_injective counted room (fun _ => rfl) distinct.procs ?_
    intro n member
    obtain ⟨entry, listed, same⟩ := List.mem_map.mp member
    exact others entry listed (congrArg (fun key : CommKey × Int => key.1.val) same)
  · have boot : ∀ kmalloc : Fin 5 → Bool, (aegisAuditInit kmalloc).list.Counted ∧
        (aegisAuditInit kmalloc).list.entries.length < 256 ∧
        ∀ entry ∈ (aegisAuditInit kmalloc).list.entries, entry.syscallNr < 1000 := by
      decide +kernel
    obtain ⟨counted, room, others⟩ := boot syscallAlloc
    refine exactCapacity_of_filler syscallSpec () id fillerSyscall_injective counted
      room ?_ distinct.syscalls ?_
    · intro n
      have nonneg : ¬ fillerSyscall n < 0 := by
        unfold fillerSyscall
        omega
      simp [syscallSpec, nonneg]
    · intro n member
      obtain ⟨entry, listed, same⟩ := List.mem_map.mp member
      have small := others entry listed
      simp only [fillerSyscall, syscallSpec] at same
      omega

/-! ### History -/

section History

variable {Arg Key Payload Entry : Type}

/-- A call that returned an error contributed nothing to the list. -/
structure FailuresSilent (spec : CallSpec Arg Key Payload Entry) : Prop where
  adds : ∀ arg result, AddResult.ret result ≠ 0 → spec.addedKey (.addReturned arg result) = none
  dels : ∀ arg result, DelResult.ret result ≠ 0 → spec.removedKey (.delReturned arg result) = none

theorem failuresSilent (spec : CallSpec Arg Key Payload Entry) : FailuresSilent spec where
  adds arg result failed := by
    apply CallSpec.addedKey_of_ne
    rintro rfl
    exact failed rfl
  dels arg result failed := by
    apply CallSpec.removedKey_of_ne
    rintro rfl
    exact failed rfl

end History

/-- In every run of concurrent calls on each list, from any contents with a
right count: the listed keys are the initial ones, with those of the adds that
inserted and without those of the removals that succeeded, the entries stand in
the order of their insertions, the count is right, and a call that returned an
error changed nothing. -/
theorem lists_updatesKept (start : PolicyState) (files : start.files.Counted)
    (procs : start.procs.Counted) (syscalls : start.syscalls.Counted) :
    (∀ moves final, fileSpec.program.machine.run (Pool.start start.files) moves = some final →
      fileSpec.UpdatesKept start.files moves final) ∧
    (∀ moves final, procSpec.program.machine.run (Pool.start start.procs) moves = some final →
      procSpec.UpdatesKept start.procs moves final) ∧
    (∀ moves final,
      syscallSpec.program.machine.run (Pool.start start.syscalls) moves = some final →
      syscallSpec.UpdatesKept start.syscalls moves final) ∧
    FailuresSilent fileSpec ∧ FailuresSilent procSpec ∧ FailuresSilent syscallSpec := by
  refine ⟨?_, ?_, ?_, failuresSilent _, failuresSilent _, failuresSilent _⟩
  · intro moves final ran
    exact CallSpec.updatesKept files ran
  · intro moves final ran
    exact CallSpec.updatesKept procs ran
  · intro moves final ran
    exact CallSpec.updatesKept syscalls ran

/-- Two removals of one number, of which the second finds nothing. -/
def racingDels : List (Move SyscallCall (Option Unit)) :=
  [.spawn (.del nrKexecLoad), .spawn (.del nrKexecLoad), .advance 1 none, .advance 0 none]

theorem lists_updatesKept_boot :
    ∃ final,
      syscallSpec.program.machine.run
        (Pool.start (boot (fun _ => true) (fun _ => true)).syscalls) racingDels = some final ∧
      syscallSpec.removedKeys final = {nrKexecLoad} ∧
      syscallSpec.UpdatesKept (boot (fun _ => true) (fun _ => true)).syscalls racingDels final := by
  have kept := lists_updatesKept (boot (fun _ => true) (fun _ => true)) rfl (by decide +kernel)
    (by decide +kernel)
  exact ⟨_, rfl, rfl, kept.2.2.1 racingDels _ rfl⟩

end Aegis.Concurrent
