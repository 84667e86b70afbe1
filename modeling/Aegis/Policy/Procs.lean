import Aegis.Policy.Files

/-!
Owns `aegis_process.c`: the protected process list, its operations and the
test for a protected task, and the list as a registry of pairs of a name and a
process id.

Does not own: the ptrace hooks, locking, or the listing text.
-/

namespace Aegis.Policy

open Aegis.Foundation
open Aegis.Kernel

structure AegisProtectedProc where
  comm : CBuffer aegisCommLen
  pid : Int
deriving DecidableEq

abbrev ProcList := Registry AegisProtectedProc

/-- `strncmp(entry->comm, comm, AEGIS_COMM_LEN) == 0`. -/
def procCommHit (comm : CString) (entry : AegisProtectedProc) : Bool :=
  strncmp entry.comm.memory comm.bytes aegisCommLen == 0

/-- The comparison of the add and del loops. -/
def procHit (comm : CString) (pid : Int) (entry : AegisProtectedProc) : Bool :=
  entry.pid == pid && procCommHit comm entry

def procEntry (comm : CString) (pid : Int) : AegisProtectedProc where
  comm := CBuffer.filled aegisCommLen (by decide) comm
  pid := pid

/-- `kmalloc` is whether the allocation of the entry succeeds. -/
def aegisProtectProcessAdd (kmalloc : Bool) (comm : Option CString) (pid : Int)
    (procs : ProcList) : ListOp AegisProtectedProc :=
  match comm with
  | none => .fail .einval procs
  | some comm =>
      let new :=
        if kmalloc then some (procEntry comm pid, .protectedProcessAdded comm pid) else none
      listAdd aegisMaxProtectedProcs (procHit comm pid) new procs

def aegisProtectProcessDel (comm : Option CString) (pid : Int) (procs : ProcList) :
    ListOp AegisProtectedProc :=
  match comm with
  | none => .fail .einval procs
  | some comm => listDel (procHit comm pid) (.protectedProcessRemoved comm pid) procs

/-- The body of the loop of `aegis_is_process_protected`: by process id, by
name, by the group leader's name. -/
def procProtects (task : Task) (entry : AegisProtectedProc) : Bool :=
  (entry.pid != 0 && entry.pid == task.pid) ||
    (entry.pid == 0 && procCommHit task.comm entry) ||
    (entry.pid == 0 && procCommHit task.groupLeader.comm entry)

def aegisIsProcessProtected (cfg : AegisConfig) (procs : ProcList) (task : Option Task) : Bool :=
  match task with
  | none => false
  | some task =>
      if !cfg.featureCheck featureProcessProtect then false
      else procs.listed (procProtects task)

/-- `aegis_process_init`: the default entries, with the outcome of the three
allocations. -/
def aegisProcessInit (kmalloc : Fin 3 → Bool) : ListOp AegisProtectedProc :=
  let sshd := aegisProtectProcessAdd (kmalloc 0) (some (.lit "sshd")) 0 Registry.empty
  let init := aegisProtectProcessAdd (kmalloc 1) (some (.lit "init")) 1 sshd.list
  let systemd := aegisProtectProcessAdd (kmalloc 2) (some (.lit "systemd")) 1 init.list
  ⟨0, systemd.list, sshd.log ++ init.log ++ systemd.log⟩

/-! ### The list as a registry of names and process ids -/

/-- A name as the control interface passes it on: at most 15 bytes. -/
abbrev CommKey := { comm : CString // comm.length < aegisCommLen }

def AegisProtectedProc.key (entry : AegisProtectedProc) : CommKey × Int :=
  (⟨entry.comm.text, entry.comm.text_length_lt⟩, entry.pid)

theorem procCommHit_iff {comm : CString} {entry : AegisProtectedProc} :
    procCommHit comm entry = true ↔ entry.comm.text = comm := by
  unfold procCommHit
  rw [beq_iff_eq, entry.comm.strncmp_eq_zero_iff]
  exact eq_comm

theorem procHit_iff {comm : CString} {pid : Int} {entry : AegisProtectedProc} :
    procHit comm pid entry = true ↔ entry.pid = pid ∧ entry.comm.text = comm := by
  unfold procHit
  rw [Bool.and_eq_true, beq_iff_eq, procCommHit_iff]

theorem procEntry_comm_text_of_fits {comm : CString} (fits : comm.length < aegisCommLen)
    (pid : Int) : (procEntry comm pid).comm.text = comm := by
  unfold procEntry
  rw [CBuffer.text_filled]
  exact CString.take_of_length_le (Nat.le_sub_one_of_lt fits)

theorem procHit_hitsKey (comm : CommKey) (pid : Int) :
    Registry.HitsKey AegisProtectedProc.key (procHit comm.val pid) (comm, pid) := by
  intro entry
  rw [procHit_iff, AegisProtectedProc.key, Prod.mk.injEq, Subtype.ext_iff]
  exact and_comm

/-- Concurrent calls of `aegis_protect_process_add` and
`aegis_protect_process_del`. -/
def procSpec :
    CallSpec (Option CommKey × Int) (CommKey × Int) Unit AegisProtectedProc where
  max := aegisMaxProtectedProcs
  addKey arg := arg.1.map fun comm => (comm, arg.2)
  delKey arg := arg.1.map fun comm => (comm, arg.2)
  key := AegisProtectedProc.key
  hit wanted := procHit wanted.1.val wanted.2
  make wanted _ := procEntry wanted.1.val wanted.2
  hitsKey wanted := procHit_hitsKey wanted.1 wanted.2
  key_make wanted _ :=
    Prod.ext (Subtype.ext (procEntry_comm_text_of_fits wanted.1.property wanted.2)) rfl

end Aegis.Policy
