import Aegis.Policy.Syscalls

/-!
Owns the hooks of `aegis_lsm.c` and the policy they consult: configuration,
counters and the three lists. A hook returns its verdict, the counters after
the call and the records it logs; it changes nothing else.

The outcome of the page allocation and of `d_path` is part of `HookEnv`.

Does not own: the order of single counter increments, locking, or the hook
registration.
-/

namespace Aegis.Policy

open Aegis.Foundation
open Aegis.Kernel

structure PolicyState where
  cfg : AegisConfig
  stats : AegisStats
  files : FileList
  procs : ProcList
  syscalls : SyscallList
deriving DecidableEq

/-- The policy after `aegis_init`. `aegis_file_init` adds no entry. -/
def boot (procAlloc : Fin 3 → Bool) (syscallAlloc : Fin 5 → Bool) : PolicyState where
  cfg := aegisCfg
  stats := aegisStats
  files := Registry.empty
  procs := (aegisProcessInit procAlloc).list
  syscalls := (aegisAuditInit syscallAlloc).list

/-- The calling task, and whether `__get_free_page` and `d_path` succeed. -/
structure HookEnv where
  current : Task
  page : Bool
  dPath : Bool

structure HookOutcome where
  ret : Int
  stats : AegisStats
  log : List LogRecord
deriving DecidableEq

/-- The request is allowed and nothing is counted. -/
def HookOutcome.allow (policy : PolicyState) : HookOutcome := ⟨0, policy.stats, []⟩

/-! ### Process and ptrace hooks -/

def aegisTaskAlloc (policy : PolicyState) : HookOutcome := .allow policy

def aegisTaskFree (policy : PolicyState) : HookOutcome :=
  if !policy.cfg.enabled then .allow policy
  else ⟨0, policy.stats.incTotalEvents, []⟩

def aegisPtraceAccessCheck (policy : PolicyState) (env : HookEnv) (child : Task)
    (mode : BitVec 32) : HookOutcome :=
  if !policy.cfg.featureCheck featurePtraceRestrict then .allow policy
  else if policy.cfg.ptraceRestrictAll then
    if hasBits mode ptraceModeNoaudit then
      ⟨Errno.eperm.ret, policy.stats.incPtraceBlocked, []⟩
    else
      ⟨Errno.eperm.ret, policy.stats.incPtraceBlocked,
        [.ptraceRestricted env.current.toTaskName child.toTaskName]⟩
  else if policy.cfg.featureCheck featureProcessProtect &&
      aegisIsProcessProtected policy.cfg policy.procs (some child) then
    -- This branch logs whatever `PTRACE_MODE_NOAUDIT` says.
    ⟨Errno.eperm.ret, policy.stats.incPtraceBlocked,
      [.ptraceProtected env.current.toTaskName child.toTaskName]⟩
  else .allow policy

def aegisPtraceTraceme (policy : PolicyState) (env : HookEnv) (parent : Task) : HookOutcome :=
  if !policy.cfg.featureCheck featurePtraceRestrict then .allow policy
  else if policy.cfg.ptraceRestrictAll then
    ⟨Errno.eperm.ret, policy.stats.incPtraceBlocked,
      [.tracemeRestricted env.current.toTaskName parent.toTaskName]⟩
  else .allow policy

/-! ### File hooks -/

def aegisFilePermission (policy : PolicyState) (env : HookEnv) (file : File)
    (mask : BitVec 32) : HookOutcome :=
  if !policy.cfg.featureCheck featureFileIntegrity then .allow policy
  else if aegisProtectedFileCount policy.files = 0 then .allow policy
  else if !env.page then .allow policy
  else if !env.dPath then .allow policy
  else if aegisIsFileProtected policy.cfg policy.files (some file.path) then
    if hasBits mask (mayWrite ||| mayAppend) && policy.cfg.fileIntegrityEnforce then
      ⟨Errno.eacces.ret, policy.stats.incFileViolations,
        [.fileWriteBlocked env.current.toTaskName file.path]⟩
    else if policy.cfg.fileIntegrityLog then
      ⟨0, policy.stats.incTotalEvents, [.fileAccess env.current.toTaskName file.path mask]⟩
    else .allow policy
  else .allow policy

/-- The mask `aegis_file_open` derives from the open mode. -/
def openMask (file : File) : BitVec 32 :=
  (if hasBits file.fMode fmodeWrite then mayWrite else 0) |||
    (if hasBits file.fMode fmodeRead then mayRead else 0)

def aegisFileOpen (policy : PolicyState) (env : HookEnv) (file : File) : HookOutcome :=
  if openMask file = 0 then .allow policy
  else aegisFilePermission policy env file (openMask file)

/-! ### Loading hooks -/

def aegisReadIdToSyscall : KernelReadFileId → Int
  | .readingModule => nrFinitModule
  | .readingKexecImage => nrKexecFileLoad
  | .readingKexecInitramfs => nrKexecFileLoad
  | _ => -1

/-- `file` is `none` for a NULL file. -/
def aegisKernelReadFile (policy : PolicyState) (env : HookEnv) (file : Option File)
    (id : KernelReadFileId) : HookOutcome :=
  let nr := aegisReadIdToSyscall id
  if !policy.cfg.enabled then .allow policy
  else if 0 ≤ nr && aegisIsSyscallBlocked policy.cfg policy.syscalls nr then
    ⟨Errno.eperm.ret, policy.stats.incSyscallViolations, [.readFileSyscallBlocked nr id]⟩
  else if !policy.cfg.featureCheck featureModuleControl then .allow policy
  else if id == .readingModule && policy.cfg.moduleLoadingDenied then
    match file with
    | none => ⟨Errno.eperm.ret, policy.stats, []⟩
    | some file =>
        if !env.page then ⟨Errno.enomem.ret, policy.stats, []⟩
        else if env.dPath then
          ⟨Errno.eperm.ret, policy.stats.incModuleViolations,
            [.moduleLoadBlocked env.current.toTaskName file.path]⟩
        else ⟨Errno.eperm.ret, policy.stats, []⟩
  else if id == .readingFirmware && policy.cfg.moduleLoadingDenied then
    ⟨Errno.eperm.ret, policy.stats.incModuleViolations,
      [.firmwareLoadBlocked env.current.toTaskName]⟩
  else .allow policy

def aegisKernelLoadData (policy : PolicyState) (env : HookEnv) (id : KernelLoadDataId) :
    HookOutcome :=
  if !policy.cfg.enabled then .allow policy
  else if policy.cfg.featureCheck featureSyscallAudit &&
      ((id == .loadingModule && aegisIsSyscallBlocked policy.cfg policy.syscalls nrInitModule) ||
        (id == .loadingKexecImage &&
          aegisIsSyscallBlocked policy.cfg policy.syscalls nrKexecLoad)) then
    ⟨Errno.eperm.ret, policy.stats.incSyscallViolations, [.loadDataSyscallBlocked id]⟩
  else if !policy.cfg.featureCheck featureModuleControl then .allow policy
  else if id == .loadingModule && policy.cfg.moduleLoadingDenied then
    ⟨Errno.eperm.ret, policy.stats.incModuleViolations,
      [.moduleLoadDataBlocked env.current.toTaskName]⟩
  else .allow policy

/-! ### Remaining hooks -/

def aegisBprmCheckSecurity (policy : PolicyState) : HookOutcome :=
  if !policy.cfg.enabled then .allow policy
  else if policy.cfg.featureCheck featureSyscallAudit && policy.cfg.syscallAuditEnable then
    ⟨0, policy.stats.incTotalEvents, []⟩
  else .allow policy

/-- Both branches of the source allow the socket. -/
def aegisSocketCreate (policy : PolicyState) : HookOutcome := .allow policy

def aegisInodePermission (policy : PolicyState) : HookOutcome := .allow policy

/-- A call of one of the registered hooks, with the arguments the hook reads. -/
inductive HookRequest where
  | taskAlloc
  | taskFree
  | ptraceAccessCheck (child : Task) (mode : BitVec 32)
  | ptraceTraceme (parent : Task)
  | filePermission (file : File) (mask : BitVec 32)
  | fileOpen (file : File)
  | kernelReadFile (file : Option File) (id : KernelReadFileId)
  | kernelLoadData (id : KernelLoadDataId)
  | bprmCheckSecurity
  | socketCreate
  | inodePermission
deriving DecidableEq

def runHook (policy : PolicyState) (env : HookEnv) : HookRequest → HookOutcome
  | .taskAlloc => aegisTaskAlloc policy
  | .taskFree => aegisTaskFree policy
  | .ptraceAccessCheck child mode => aegisPtraceAccessCheck policy env child mode
  | .ptraceTraceme parent => aegisPtraceTraceme policy env parent
  | .filePermission file mask => aegisFilePermission policy env file mask
  | .fileOpen file => aegisFileOpen policy env file
  | .kernelReadFile file id => aegisKernelReadFile policy env file id
  | .kernelLoadData id => aegisKernelLoadData policy env id
  | .bprmCheckSecurity => aegisBprmCheckSecurity policy
  | .socketCreate => aegisSocketCreate policy
  | .inodePermission => aegisInodePermission policy

/-! ### Verdicts of the file hooks -/

/-- A write to a listed file that the configuration forbids. -/
def deniesWrite (policy : PolicyState) (path : CString) (mask : BitVec 32) : Bool :=
  aegisIsFileProtected policy.cfg policy.files (some path) &&
    policy.cfg.fileIntegrityEnforce && hasBits mask (mayWrite ||| mayAppend)

theorem aegisIsFileProtected_iff {cfg : AegisConfig} {files : FileList} {path : CString} :
    aegisIsFileProtected cfg files (some path) = true ↔
      cfg.featureCheck featureFileIntegrity = true ∧
        ∃ entry ∈ files.entries, entry.path.text = path := by
  unfold aegisIsFileProtected
  cases active : cfg.featureCheck featureFileIntegrity with
  | false => simp
  | true => simp [Registry.listed_iff, filePathHit_iff]

/-- The file hook denies exactly the writes the policy forbids, provided that
the fast path, the allocation and `d_path` let it look. -/
theorem aegisFilePermission_ret (policy : PolicyState) (env : HookEnv) (file : File)
    (mask : BitVec 32) :
    (aegisFilePermission policy env file mask).ret =
      if deniesWrite policy file.path mask = true ∧ policy.files.count ≠ 0 ∧
        env.page = true ∧ env.dPath = true then Errno.eacces.ret else 0 := by
  unfold aegisFilePermission deniesWrite aegisProtectedFileCount
  by_cases active : policy.cfg.featureCheck featureFileIntegrity = true
  · simp only [active, Bool.not_true, Bool.false_eq_true, if_false]
    by_cases empty : policy.files.count = 0
    · simp [empty, HookOutcome.allow]
    · cases env.page <;> cases env.dPath <;>
        cases aegisIsFileProtected policy.cfg policy.files (some file.path) <;>
        cases hasBits mask (mayWrite ||| mayAppend) <;>
        cases policy.cfg.fileIntegrityEnforce <;> cases policy.cfg.fileIntegrityLog <;>
        simp [empty, HookOutcome.allow]
  · have inactive : aegisIsFileProtected policy.cfg policy.files (some file.path) = false := by
      rw [← Bool.not_eq_true, aegisIsFileProtected_iff]
      exact fun both => active both.1
    simp [active, inactive, HookOutcome.allow]

theorem aegisFilePermission_ret_ne_zero {policy : PolicyState} {env : HookEnv} {file : File}
    {mask : BitVec 32} :
    (aegisFilePermission policy env file mask).ret ≠ 0 ↔
      deniesWrite policy file.path mask = true ∧ policy.files.count ≠ 0 ∧
        env.page = true ∧ env.dPath = true := by
  rw [aegisFilePermission_ret, ite_ne_right_iff]
  exact and_iff_left Errno.eacces.ret_ne_zero

theorem openMask_writes (file : File) :
    hasBits (openMask file) (mayWrite ||| mayAppend) = hasBits file.fMode fmodeWrite := by
  unfold openMask
  cases hasBits file.fMode fmodeWrite <;> cases hasBits file.fMode fmodeRead <;> decide

/-- The open hook judges an open by its access mode alone. -/
theorem aegisFileOpen_ret (policy : PolicyState) (env : HookEnv) (file : File) :
    (aegisFileOpen policy env file).ret =
      (aegisFilePermission policy env file (openMask file)).ret := by
  unfold aegisFileOpen
  by_cases silent : openMask file = 0
  · have readOnly : deniesWrite policy file.path 0 = false := by
      simp [deniesWrite, hasBits]
    rw [if_pos silent, silent, aegisFilePermission_ret, readOnly]
    rfl
  · rw [if_neg silent]

theorem aegisFileOpen_ret_ne_zero {policy : PolicyState} {env : HookEnv} {file : File} :
    (aegisFileOpen policy env file).ret ≠ 0 ↔
      deniesWrite policy file.path (openMask file) = true ∧ policy.files.count ≠ 0 ∧
        env.page = true ∧ env.dPath = true := by
  rw [aegisFileOpen_ret, aegisFilePermission_ret_ne_zero]

end Aegis.Policy
