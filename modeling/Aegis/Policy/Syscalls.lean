import Aegis.Policy.Procs

/-!
Owns `aegis_audit.c`: the blocked system call list, its operations and query,
and the list as a registry of numbers.

Does not own: the loading hooks that map a request to a number, locking, or
the listing text.
-/

namespace Aegis.Policy

open Aegis.Foundation
open Aegis.Kernel

structure AegisBlockedSyscall where
  syscallNr : Int
deriving DecidableEq

abbrev SyscallList := Registry AegisBlockedSyscall

def syscallHit (nr : Int) (entry : AegisBlockedSyscall) : Bool := entry.syscallNr == nr

def aegisSyscallBlockAdd (kmalloc : Bool) (nr : Int) (syscalls : SyscallList) :
    ListOp AegisBlockedSyscall :=
  if nr < 0 then .fail .einval syscalls
  else
    let new := if kmalloc then some (⟨nr⟩, .blockedSyscallAdded nr) else none
    listAdd aegisMaxBlockedSyscalls (syscallHit nr) new syscalls

/-- Unlike the other two deletions this one checks no argument. -/
def aegisSyscallBlockDel (nr : Int) (syscalls : SyscallList) : ListOp AegisBlockedSyscall :=
  listDel (syscallHit nr) (.blockedSyscallRemoved nr) syscalls

def aegisIsSyscallBlocked (cfg : AegisConfig) (syscalls : SyscallList) (nr : Int) : Bool :=
  if !cfg.featureCheck featureSyscallAudit then false
  else if !cfg.syscallAuditEnable then false
  else syscalls.listed (syscallHit nr)

/-- `aegis_audit_init`: the default block list, with the outcome of the five
allocations. -/
def aegisAuditInit (kmalloc : Fin 5 → Bool) : ListOp AegisBlockedSyscall :=
  let kexecLoad := aegisSyscallBlockAdd (kmalloc 0) nrKexecLoad Registry.empty
  let kexecFileLoad := aegisSyscallBlockAdd (kmalloc 1) nrKexecFileLoad kexecLoad.list
  let initModule := aegisSyscallBlockAdd (kmalloc 2) nrInitModule kexecFileLoad.list
  let finitModule := aegisSyscallBlockAdd (kmalloc 3) nrFinitModule initModule.list
  let deleteModule := aegisSyscallBlockAdd (kmalloc 4) nrDeleteModule finitModule.list
  ⟨0, deleteModule.list,
    kexecLoad.log ++ kexecFileLoad.log ++ initModule.log ++ finitModule.log ++ deleteModule.log⟩

theorem syscallHit_hitsKey (nr : Int) :
    Registry.HitsKey AegisBlockedSyscall.syscallNr (syscallHit nr) nr := by
  intro entry
  simp [syscallHit]

/-- Concurrent calls of `aegis_syscall_block_add` and `aegis_syscall_block_del`. -/
def syscallSpec : CallSpec Int Int Unit AegisBlockedSyscall where
  max := aegisMaxBlockedSyscalls
  addKey nr := if nr < 0 then none else some nr
  delKey nr := some nr
  key := AegisBlockedSyscall.syscallNr
  hit := syscallHit
  make nr _ := ⟨nr⟩
  hitsKey := syscallHit_hitsKey
  key_make _ _ := rfl

end Aegis.Policy
