import Aegis.Control.Commands
import Aegis.Policy.Sysctl

/-!
Owns the abstract policy: a configuration and three bounded finite sets, of
paths, of pairs of a process name and an id, and of system call numbers. It
says what each command answers, what each sysctl write changes, and which
requests are denied, in terms of set membership only.

Does not own: lists, counters, buffers or allocation.
-/

namespace Aegis.Refinement

open Aegis.Foundation
open Aegis.Kernel
open Aegis.Policy
open Aegis.Control

/-! ### Bounded sets -/

section BoundedSets

variable {Key : Type} [DecidableEq Key] {max : Nat} {wanted : Key} {keys : Finset Key}

theorem setAdd_card_le (bounded : keys.card ≤ max) : (setAdd max wanted keys).2.card ≤ max := by
  unfold setAdd
  split_ifs with full present
  · exact bounded
  · exact bounded
  · rw [Finset.card_insert_of_notMem present]
    omega

theorem setAdd_forall {holds : Key → Prop} (all : ∀ key ∈ keys, holds key) (new : holds wanted) :
    ∀ key ∈ (setAdd max wanted keys).2, holds key := by
  unfold setAdd
  split_ifs with full present
  · exact all
  · exact all
  · intro key member
    rcases Finset.mem_insert.mp member with rfl | earlier
    · exact new
    · exact all key earlier

theorem setDel_subset : (setDel wanted keys).2 ⊆ keys := by
  unfold setDel
  split_ifs with present
  · exact Finset.erase_subset wanted keys
  · exact Finset.Subset.refl keys

theorem setDel_card_le (bounded : keys.card ≤ max) : (setDel wanted keys).2.card ≤ max :=
  (Finset.card_le_card setDel_subset).trans bounded

end BoundedSets

/-! ### The policy -/

@[ext] structure SetPolicy where
  cfg : AegisConfig
  files : Finset PathKey
  procs : Finset (CommKey × Int)
  syscalls : Finset Int
  files_nonempty : ∀ path ∈ files, 0 < path.val.length
  files_card : files.card ≤ aegisMaxProtectedFiles
  procs_card : procs.card ≤ aegisMaxProtectedProcs
  syscalls_nonneg : ∀ nr ∈ syscalls, 0 ≤ nr
  syscalls_card : syscalls.card ≤ aegisMaxBlockedSyscalls

namespace SetPolicy

variable (policy : SetPolicy)

/-- Return value of a command, and the policy after it. -/
def perform : Command → Int × SetPolicy
  | .addFile path nonempty =>
      let result := setAdd aegisMaxProtectedFiles path policy.files
      (result.1, { policy with
        files := result.2
        files_nonempty := setAdd_forall policy.files_nonempty nonempty
        files_card := setAdd_card_le policy.files_card })
  | .delFile path _ =>
      let result := setDel path policy.files
      (result.1, { policy with
        files := result.2
        files_nonempty := fun key member => policy.files_nonempty key (setDel_subset member)
        files_card := setDel_card_le policy.files_card })
  | .addProc comm pid =>
      let result := setAdd aegisMaxProtectedProcs (comm, pid) policy.procs
      (result.1, { policy with
        procs := result.2
        procs_card := setAdd_card_le policy.procs_card })
  | .delProc comm pid =>
      let result := setDel (comm, pid) policy.procs
      (result.1, { policy with
        procs := result.2
        procs_card := setDel_card_le policy.procs_card })
  | .addSyscall nr =>
      let result := setAdd aegisMaxBlockedSyscalls nr.val policy.syscalls
      (result.1, { policy with
        syscalls := result.2
        syscalls_nonneg := setAdd_forall policy.syscalls_nonneg nr.property
        syscalls_card := setAdd_card_le policy.syscalls_card })
  | .delSyscall nr =>
      let result := setDel nr.val policy.syscalls
      (result.1, { policy with
        syscalls := result.2
        syscalls_nonneg := fun key member => policy.syscalls_nonneg key (setDel_subset member)
        syscalls_card := setDel_card_le policy.syscalls_card })

/-- A sysctl write sets one switch, unless it stored no number. -/
def sysctl (knob : Knob) : Dointvec → SetPolicy
  | .stored value => { policy with cfg := policy.cfg.commit knob value }
  | _ => policy

/-! ### Verdicts -/

/-- By id, by name, or by the name of the thread group leader. -/
def KeyProtects (task : Task) (key : CommKey × Int) : Prop :=
  (key.2 ≠ 0 ∧ key.2 = task.pid) ∨
    (key.2 = 0 ∧ (key.1.val = task.comm ∨ key.1.val = task.groupLeader.comm))

instance (task : Task) : DecidablePred (KeyProtects task) :=
  fun _ => inferInstanceAs (Decidable (_ ∨ _))

theorem procProtects_iff {task : Task} {entry : AegisProtectedProc} :
    procProtects task entry = true ↔ KeyProtects task entry.key := by
  simp only [procProtects, Bool.or_eq_true, Bool.and_eq_true, bne_iff_ne, beq_iff_eq,
    procCommHit_iff, AegisProtectedProc.key, KeyProtects]
  tauto

def ProtectsFile (path : CString) : Prop :=
  policy.cfg.featureCheck featureFileIntegrity = true ∧ ∃ key ∈ policy.files, key.val = path

def ProtectsTask (task : Task) : Prop :=
  policy.cfg.featureCheck featureProcessProtect = true ∧
    ∃ key ∈ policy.procs, KeyProtects task key

def Blocks (nr : Int) : Prop :=
  policy.cfg.featureCheck featureSyscallAudit = true ∧ policy.cfg.syscallAuditEnable = true ∧
    nr ∈ policy.syscalls

def DeniesModules : Prop :=
  policy.cfg.featureCheck featureModuleControl = true ∧ policy.cfg.moduleLoadingDenied = true

instance (path : CString) : Decidable (policy.ProtectsFile path) :=
  inferInstanceAs (Decidable (_ ∧ _))
instance (task : Task) : Decidable (policy.ProtectsTask task) := inferInstanceAs (Decidable (_ ∧ _))
instance (nr : Int) : Decidable (policy.Blocks nr) := inferInstanceAs (Decidable (_ ∧ _))
instance : Decidable policy.DeniesModules := inferInstanceAs (Decidable (_ ∧ _))

/-- The requests the policy denies, with the error they are denied with. -/
def verdict : HookRequest → Int
  | .ptraceAccessCheck child _ =>
      if policy.cfg.featureCheck featurePtraceRestrict = true ∧
        (policy.cfg.ptraceRestrictAll = true ∨ policy.ProtectsTask child)
      then Errno.eperm.ret else 0
  | .ptraceTraceme _ =>
      if policy.cfg.featureCheck featurePtraceRestrict = true ∧ policy.cfg.ptraceRestrictAll = true
      then Errno.eperm.ret else 0
  | .filePermission file mask =>
      if policy.ProtectsFile file.path ∧ policy.cfg.fileIntegrityEnforce = true ∧
        hasBits mask (mayWrite ||| mayAppend) = true then Errno.eacces.ret else 0
  | .fileOpen file =>
      if policy.ProtectsFile file.path ∧ policy.cfg.fileIntegrityEnforce = true ∧
        hasBits file.fMode fmodeWrite = true then Errno.eacces.ret else 0
  | .kernelReadFile _ id =>
      if policy.Blocks (aegisReadIdToSyscall id) ∨
        (policy.DeniesModules ∧ (id = .readingModule ∨ id = .readingFirmware)) then Errno.eperm.ret
      else 0
  | .kernelLoadData id =>
      if (id = .loadingModule ∧ policy.Blocks nrInitModule) ∨
        (id = .loadingKexecImage ∧ policy.Blocks nrKexecLoad) ∨
        (policy.DeniesModules ∧ id = .loadingModule) then Errno.eperm.ret
      else 0
  | .taskAlloc => 0
  | .taskFree => 0
  | .bprmCheckSecurity => 0
  | .socketCreate => 0
  | .inodePermission => 0

end SetPolicy

end Aegis.Refinement
