import Aegis.Policy.FailClosed

/-!
Owns which requests a policy denies, hook by hook, and how the two loading
hooks combine their parts: the blocked system call list is asked first, and
what it lets through is left to module control.

Two pairs of hooks guard one operation each, becoming a tracer and loading
code. For both pairs the requests on which the hooks disagree are named.

Does not own: counters, or failures to allocate a page or to name a file.
-/

namespace Aegis.Policy

open Aegis.Foundation
open Aegis.Kernel

theorem AegisConfig.featureCheck_of_disabled {cfg : AegisConfig} (disabled : cfg.enabled = false)
    (feature : BitVec 32) : cfg.featureCheck feature = false := by
  simp [featureCheck, disabled]

/-! ### Process and ptrace hooks -/

theorem aegisIsProcessProtected_iff {cfg : AegisConfig} {procs : ProcList} {task : Task} :
    aegisIsProcessProtected cfg procs (some task) = true ↔
      cfg.featureCheck featureProcessProtect = true ∧ procs.listed (procProtects task) = true := by
  unfold aegisIsProcessProtected
  cases cfg.featureCheck featureProcessProtect <;> simp

theorem aegisPtraceAccessCheck_ret (policy : PolicyState) (env : HookEnv) (child : Task)
    (mode : BitVec 32) :
    (aegisPtraceAccessCheck policy env child mode).ret =
      if policy.cfg.featureCheck featurePtraceRestrict = true ∧
        (policy.cfg.ptraceRestrictAll = true ∨
          aegisIsProcessProtected policy.cfg policy.procs (some child) = true)
      then Errno.eperm.ret else 0 := by
  unfold aegisPtraceAccessCheck
  cases policy.cfg.featureCheck featurePtraceRestrict with
  | false => simp [HookOutcome.allow]
  | true =>
      cases policy.cfg.ptraceRestrictAll with
      | true => cases hasBits mode ptraceModeNoaudit <;> simp
      | false =>
          cases isProtected : aegisIsProcessProtected policy.cfg policy.procs (some child) with
          | false => simp [HookOutcome.allow]
          | true => simp [(aegisIsProcessProtected_iff.mp isProtected).1]

theorem aegisPtraceTraceme_ret (policy : PolicyState) (env : HookEnv) (parent : Task) :
    (aegisPtraceTraceme policy env parent).ret =
      if policy.cfg.featureCheck featurePtraceRestrict = true ∧
        policy.cfg.ptraceRestrictAll = true then Errno.eperm.ret else 0 := by
  unfold aegisPtraceTraceme
  cases policy.cfg.featureCheck featurePtraceRestrict <;> cases policy.cfg.ptraceRestrictAll <;>
    simp [HookOutcome.allow]

theorem ite_ret_eq_ret_iff {condition : Prop} [Decidable condition] {error : Errno} :
    (if condition then error.ret else 0) = error.ret ↔ condition := by
  by_cases holds : condition
  · simp [holds]
  · simpa [holds] using Ne.symm error.ret_ne_zero

/-- The tracee asks with `PTRACE_TRACEME`, or the tracer attaches. The two
hooks answer alike unless the tracee is a protected process and tracing is
restricted, but not for all. -/
theorem ptrace_routes_agree_iff (policy : PolicyState) (asTracee asTracer : HookEnv)
    (mode : BitVec 32) :
    ((aegisPtraceTraceme policy asTracee asTracer.current).ret = Errno.eperm.ret ↔
      (aegisPtraceAccessCheck policy asTracer asTracee.current mode).ret = Errno.eperm.ret) ↔
      ¬ (policy.cfg.featureCheck featurePtraceRestrict = true ∧
        policy.cfg.ptraceRestrictAll = false ∧
        policy.cfg.featureCheck featureProcessProtect = true ∧
        policy.procs.listed (procProtects asTracee.current) = true) := by
  rw [aegisPtraceTraceme_ret, aegisPtraceAccessCheck_ret, ite_ret_eq_ret_iff, ite_ret_eq_ret_iff,
    aegisIsProcessProtected_iff]
  cases policy.cfg.ptraceRestrictAll with
  | true => simp
  | false => simp

def sshd : Task := ⟨⟨.lit "sshd", 700⟩, ⟨.lit "sshd", 700⟩⟩

/-- Under the boot policy `sshd` may not be attached to, but may ask its parent
to trace it. -/
theorem aegisPtraceTraceme_allows_protected :
    (aegisPtraceAccessCheck (boot (fun _ => true) (fun _ => true)) ⟨shell, true, true⟩ sshd 0).ret =
        Errno.eperm.ret ∧
      (aegisPtraceTraceme (boot (fun _ => true) (fun _ => true)) ⟨sshd, true, true⟩ shell).ret =
        0 := by
  decide +kernel

/-! ### Loading hooks -/

/-- The system call that leads to the request, where the module knows it. -/
def HookRequest.syscall : HookRequest → Option Int
  | .kernelReadFile _ .readingModule => some nrFinitModule
  | .kernelReadFile _ .readingKexecImage => some nrKexecFileLoad
  | .kernelReadFile _ .readingKexecInitramfs => some nrKexecFileLoad
  | .kernelLoadData .loadingModule => some nrInitModule
  | .kernelLoadData .loadingKexecImage => some nrKexecLoad
  | _ => none

/-- The request's system call is on the list. -/
def PolicyState.listsSyscall (policy : PolicyState) (request : HookRequest) : Bool :=
  request.syscall.any fun nr => policy.syscalls.listed (syscallHit nr)

/-- The list is enforced, and the request's system call is on it. -/
def PolicyState.blocksRequest (policy : PolicyState) (request : HookRequest) : Bool :=
  request.syscall.any (aegisIsSyscallBlocked policy.cfg policy.syscalls)

/-- Module control is on and denies loading. -/
def PolicyState.deniesModules (policy : PolicyState) : Bool :=
  policy.cfg.featureCheck featureModuleControl && policy.cfg.moduleLoadingDenied

/-- The loading hooks without the blocked system call list. -/
def moduleControl (policy : PolicyState) (env : HookEnv) : HookRequest → HookOutcome
  | .kernelReadFile file .readingModule =>
      if !policy.deniesModules then .allow policy
      else
        match file with
        | none => ⟨Errno.eperm.ret, policy.stats, []⟩
        | some file =>
            if !env.page then ⟨Errno.enomem.ret, policy.stats, []⟩
            else if env.dPath then
              ⟨Errno.eperm.ret, policy.stats.incModuleViolations,
                [.moduleLoadBlocked env.current.toTaskName file.path]⟩
            else ⟨Errno.eperm.ret, policy.stats, []⟩
  | .kernelReadFile _ .readingFirmware =>
      if !policy.deniesModules then .allow policy
      else
        ⟨Errno.eperm.ret, policy.stats.incModuleViolations,
          [.firmwareLoadBlocked env.current.toTaskName]⟩
  | .kernelLoadData .loadingModule =>
      if !policy.deniesModules then .allow policy
      else
        ⟨Errno.eperm.ret, policy.stats.incModuleViolations,
          [.moduleLoadDataBlocked env.current.toTaskName]⟩
  | _ => .allow policy

/-- The requests that module control denies. -/
def HookRequest.loadsCode : HookRequest → Bool
  | .kernelReadFile _ .readingModule => true
  | .kernelReadFile _ .readingFirmware => true
  | .kernelLoadData .loadingModule => true
  | _ => false

section Loading

variable (policy : PolicyState) (env : HookEnv)

theorem aegisIsSyscallBlocked_iff {cfg : AegisConfig} {syscalls : SyscallList} {nr : Int} :
    aegisIsSyscallBlocked cfg syscalls nr = true ↔
      cfg.featureCheck featureSyscallAudit = true ∧ cfg.syscallAuditEnable = true ∧
        syscalls.listed (syscallHit nr) = true := by
  unfold aegisIsSyscallBlocked
  cases cfg.featureCheck featureSyscallAudit <;> cases cfg.syscallAuditEnable <;> simp

theorem PolicyState.blocksRequest_iff {request : HookRequest} :
    policy.blocksRequest request = true ↔
      policy.cfg.featureCheck featureSyscallAudit = true ∧
        policy.cfg.syscallAuditEnable = true ∧ policy.listsSyscall request = true := by
  unfold blocksRequest listsSyscall
  cases request.syscall with
  | none => simp
  | some nr => simpa using aegisIsSyscallBlocked_iff

theorem PolicyState.blocksRequest_of_disabled (disabled : policy.cfg.enabled = false)
    (request : HookRequest) : policy.blocksRequest request = false := by
  rw [← Bool.not_eq_true, blocksRequest_iff]
  intro blocks
  simp [AegisConfig.featureCheck_of_disabled disabled] at blocks

theorem PolicyState.deniesModules_of_disabled (disabled : policy.cfg.enabled = false) :
    policy.deniesModules = false := by
  simp [deniesModules, AegisConfig.featureCheck_of_disabled disabled]

theorem moduleControl_of_not_deniesModules (allowed : policy.deniesModules = false)
    (request : HookRequest) : moduleControl policy env request = .allow policy := by
  unfold moduleControl
  split <;> simp [allowed]

theorem moduleControl_ret (page : env.page = true) (request : HookRequest) :
    (moduleControl policy env request).ret =
      if policy.deniesModules = true ∧ request.loadsCode = true then Errno.eperm.ret else 0 := by
  cases denies : policy.deniesModules with
  | false => simp [moduleControl_of_not_deniesModules policy env denies, HookOutcome.allow]
  | true =>
      unfold moduleControl HookRequest.loadsCode
      rw [denies]
      split
      · rename_i file
        cases file <;> cases env.dPath <;> simp [page]
      · simp
      · simp
      · simp [HookOutcome.allow]

theorem moduleControl_ret_ne_zero {request : HookRequest} :
    (moduleControl policy env request).ret ≠ 0 ↔
      policy.deniesModules = true ∧ request.loadsCode = true := by
  cases denies : policy.deniesModules with
  | false => simp [moduleControl_of_not_deniesModules policy env denies, HookOutcome.allow]
  | true =>
      unfold moduleControl HookRequest.loadsCode
      rw [denies]
      split
      · -- A module is refused, with one of two errors.
        rename_i file
        cases file <;> cases env.page <;> cases env.dPath <;> simp
      · simp
      · simp
      · simp [HookOutcome.allow]

/-- A disabled module blocks nothing and controls nothing. -/
theorem blocked_or_moduleControl_of_disabled (disabled : policy.cfg.enabled = false)
    (request : HookRequest) (blocked : HookOutcome) :
    (if policy.blocksRequest request then blocked else moduleControl policy env request) =
      .allow policy := by
  have allowed := policy.deniesModules_of_disabled disabled
  rw [policy.blocksRequest_of_disabled disabled request, if_neg Bool.false_ne_true]
  exact moduleControl_of_not_deniesModules policy env allowed request

/-- The reading hook asks the list first, whatever module control is set to. -/
theorem aegisKernelReadFile_eq (file : Option File) (id : KernelReadFileId) :
    aegisKernelReadFile policy env file id =
      if policy.blocksRequest (.kernelReadFile file id) then
        ⟨Errno.eperm.ret, policy.stats.incSyscallViolations,
          [.readFileSyscallBlocked (aegisReadIdToSyscall id) id]⟩
      else moduleControl policy env (.kernelReadFile file id) := by
  have asksList : (decide (0 ≤ aegisReadIdToSyscall id) &&
      aegisIsSyscallBlocked policy.cfg policy.syscalls (aegisReadIdToSyscall id)) =
      policy.blocksRequest (.kernelReadFile file id) := by
    cases id <;>
      simp [aegisReadIdToSyscall, PolicyState.blocksRequest, HookRequest.syscall, nrFinitModule,
        nrKexecFileLoad]
  simp only [aegisKernelReadFile, asksList]
  cases enabled : policy.cfg.enabled with
  | false =>
      rw [blocked_or_moduleControl_of_disabled policy env enabled]
      rfl
  | true =>
      simp only [Bool.not_true, Bool.false_eq_true, if_false]
      refine if_congr Iff.rfl rfl ?_
      unfold moduleControl PolicyState.deniesModules
      cases policy.cfg.featureCheck featureModuleControl <;>
        cases policy.cfg.moduleLoadingDenied <;> cases id <;> rfl

/-- So does the hook for data in memory. -/
theorem aegisKernelLoadData_eq (id : KernelLoadDataId) :
    aegisKernelLoadData policy env id =
      if policy.blocksRequest (.kernelLoadData id) then
        ⟨Errno.eperm.ret, policy.stats.incSyscallViolations, [.loadDataSyscallBlocked id]⟩
      else moduleControl policy env (.kernelLoadData id) := by
  have asksList : (policy.cfg.featureCheck featureSyscallAudit &&
      ((id == .loadingModule && aegisIsSyscallBlocked policy.cfg policy.syscalls nrInitModule) ||
        (id == .loadingKexecImage &&
          aegisIsSyscallBlocked policy.cfg policy.syscalls nrKexecLoad))) =
      policy.blocksRequest (.kernelLoadData id) := by
    -- The first test repeats one that `aegis_is_syscall_blocked` makes.
    unfold PolicyState.blocksRequest HookRequest.syscall aegisIsSyscallBlocked
    cases policy.cfg.featureCheck featureSyscallAudit <;> cases id <;> simp
  simp only [aegisKernelLoadData, asksList]
  cases enabled : policy.cfg.enabled with
  | false =>
      rw [blocked_or_moduleControl_of_disabled policy env enabled]
      rfl
  | true =>
      simp only [Bool.not_true, Bool.false_eq_true, if_false]
      refine if_congr Iff.rfl rfl ?_
      unfold moduleControl PolicyState.deniesModules
      cases policy.cfg.featureCheck featureModuleControl <;>
        cases policy.cfg.moduleLoadingDenied <;> cases id <;> rfl

/-- With a page, the loading hooks have one error. -/
theorem aegisKernelReadFile_ret (page : env.page = true) (file : Option File)
    (id : KernelReadFileId) :
    (aegisKernelReadFile policy env file id).ret =
      if policy.blocksRequest (.kernelReadFile file id) = true ∨
        policy.deniesModules = true ∧ (HookRequest.kernelReadFile file id).loadsCode = true
      then Errno.eperm.ret else 0 := by
  rw [aegisKernelReadFile_eq]
  cases policy.blocksRequest (.kernelReadFile file id) with
  | false => simp [moduleControl_ret policy env page]
  | true => simp

theorem aegisKernelLoadData_ret (page : env.page = true) (id : KernelLoadDataId) :
    (aegisKernelLoadData policy env id).ret =
      if policy.blocksRequest (.kernelLoadData id) = true ∨
        policy.deniesModules = true ∧ (HookRequest.kernelLoadData id).loadsCode = true
      then Errno.eperm.ret else 0 := by
  rw [aegisKernelLoadData_eq]
  cases policy.blocksRequest (.kernelLoadData id) with
  | false => simp [moduleControl_ret policy env page]
  | true => simp

theorem aegisKernelReadFile_ret_ne_zero {file : Option File} {id : KernelReadFileId} :
    (aegisKernelReadFile policy env file id).ret ≠ 0 ↔
      policy.blocksRequest (.kernelReadFile file id) = true ∨
        policy.deniesModules = true ∧
          (HookRequest.kernelReadFile file id).loadsCode = true := by
  rw [aegisKernelReadFile_eq, ← moduleControl_ret_ne_zero policy env]
  cases policy.blocksRequest (.kernelReadFile file id) <;> simp

theorem aegisKernelLoadData_ret_ne_zero {id : KernelLoadDataId} :
    (aegisKernelLoadData policy env id).ret ≠ 0 ↔
      policy.blocksRequest (.kernelLoadData id) = true ∨
        policy.deniesModules = true ∧ (HookRequest.kernelLoadData id).loadsCode = true := by
  rw [aegisKernelLoadData_eq, ← moduleControl_ret_ne_zero policy env]
  cases policy.blocksRequest (.kernelLoadData id) <;> simp

end Loading

/-! ### The two ways to load -/

/-- What can be loaded from a file or from memory. -/
inductive LoadKind where
  | module
  | firmware
  | kexecImage
deriving DecidableEq, Repr

def LoadKind.fromFile (file : Option File) : LoadKind → HookRequest
  | .module => .kernelReadFile file .readingModule
  | .firmware => .kernelReadFile file .readingFirmware
  | .kexecImage => .kernelReadFile file .readingKexecImage

def LoadKind.fromMemory : LoadKind → HookRequest
  | .module => .kernelLoadData .loadingModule
  | .firmware => .kernelLoadData .loadingFirmware
  | .kexecImage => .kernelLoadData .loadingKexecImage

/-- If the list treats the two system calls alike, the two hooks answer alike,
except that `aegis_kernel_load_data` has no case for firmware. -/
theorem load_routes_agree_iff (policy : PolicyState) (env : HookEnv) (file : Option File)
    (kind : LoadKind)
    (alike : policy.listsSyscall (kind.fromFile file) = policy.listsSyscall kind.fromMemory) :
    ((runHook policy env (kind.fromFile file)).ret ≠ 0 ↔
      (runHook policy env kind.fromMemory).ret ≠ 0) ↔
      ¬ (kind = .firmware ∧ policy.cfg.featureCheck featureModuleControl = true ∧
        policy.cfg.moduleLoadingDenied = true) := by
  have sameBlocked :
      policy.blocksRequest (kind.fromFile file) = policy.blocksRequest kind.fromMemory := by
    rw [Bool.eq_iff_iff, policy.blocksRequest_iff, policy.blocksRequest_iff, alike]
  have denies : policy.deniesModules = true ↔
      policy.cfg.featureCheck featureModuleControl = true ∧
        policy.cfg.moduleLoadingDenied = true := by
    rw [PolicyState.deniesModules, Bool.and_eq_true]
  rw [← denies]
  cases kind with
  | module =>
      simp only [LoadKind.fromFile, LoadKind.fromMemory] at sameBlocked
      simp only [LoadKind.fromFile, LoadKind.fromMemory, runHook, aegisKernelReadFile_ret_ne_zero,
        aegisKernelLoadData_ret_ne_zero, sameBlocked, HookRequest.loadsCode]
      simp
  | firmware =>
      simp [LoadKind.fromFile, LoadKind.fromMemory, runHook, aegisKernelReadFile_ret_ne_zero,
        aegisKernelLoadData_ret_ne_zero, PolicyState.blocksRequest, HookRequest.syscall,
        HookRequest.loadsCode]
  | kexecImage =>
      simp only [LoadKind.fromFile, LoadKind.fromMemory] at sameBlocked
      simp only [LoadKind.fromFile, LoadKind.fromMemory, runHook, aegisKernelReadFile_ret_ne_zero,
        aegisKernelLoadData_ret_ne_zero, sameBlocked, HookRequest.loadsCode]
      simp

theorem load_routes_agree_boot_module :
    (boot (fun _ => true) (fun _ => true)).listsSyscall (LoadKind.module.fromFile none) =
        (boot (fun _ => true) (fun _ => true)).listsSyscall LoadKind.module.fromMemory ∧
      ((runHook (boot (fun _ => true) (fun _ => true)) ⟨shell, true, true⟩
          (LoadKind.module.fromFile none)).ret ≠ 0 ↔
        (runHook (boot (fun _ => true) (fun _ => true)) ⟨shell, true, true⟩
          LoadKind.module.fromMemory).ret ≠ 0) := by
  have alike : (boot (fun _ => true) (fun _ => true)).listsSyscall (LoadKind.module.fromFile none) =
      (boot (fun _ => true) (fun _ => true)).listsSyscall LoadKind.module.fromMemory := by
    decide +kernel
  refine ⟨alike, (load_routes_agree_iff _ _ _ .module alike).mpr ?_⟩
  rintro ⟨firmware, -⟩
  cases firmware

/-- The boot policy with `module_loading_denied` switched on. -/
def lockedPolicy : PolicyState :=
  { boot (fun _ => true) (fun _ => true) with
    cfg := { aegisCfg with moduleLoadingDenied := true } }

/-- Firmware that may not be read from a file may be loaded from memory. -/
theorem aegisKernelLoadData_allows_firmware :
    lockedPolicy.listsSyscall (LoadKind.firmware.fromFile none) =
        lockedPolicy.listsSyscall LoadKind.firmware.fromMemory ∧
      (runHook lockedPolicy ⟨shell, true, true⟩ (LoadKind.firmware.fromFile none)).ret =
        Errno.eperm.ret ∧
      (runHook lockedPolicy ⟨shell, true, true⟩ LoadKind.firmware.fromMemory).ret = 0 := by
  decide +kernel

/-! ### What the blocked system call list decides -/

/-- The numbers on the list that have an effect. -/
def enforcedSyscalls : List Int := [nrFinitModule, nrKexecFileLoad, nrInitModule, nrKexecLoad]

theorem HookRequest.syscall_mem_enforced {request : HookRequest} {nr : Int}
    (mapped : request.syscall = some nr) : nr ∈ enforcedSyscalls := by
  unfold syscall at mapped
  split at mapped <;> simp_all [enforcedSyscalls]

/-- A loading request whose system call is not blocked is left to module
control. -/
theorem runHook_of_not_blocked {policy : PolicyState} (env : HookEnv) {request : HookRequest}
    (mapped : request.syscall.isSome = true) (unblocked : policy.blocksRequest request = false) :
    runHook policy env request = moduleControl policy env request := by
  cases request with
  | kernelReadFile file id =>
      rw [runHook, aegisKernelReadFile_eq, if_neg (by simp [unblocked])]
  | kernelLoadData id =>
      rw [runHook, aegisKernelLoadData_eq, if_neg (by simp [unblocked])]
  | _ => cases mapped

theorem runHook_ret_of_blocked {policy : PolicyState} (env : HookEnv) {request : HookRequest}
    (blocked : policy.blocksRequest request = true) :
    (runHook policy env request).ret = Errno.eperm.ret := by
  cases request with
  | kernelReadFile file id => rw [runHook, aegisKernelReadFile_eq, if_pos blocked]
  | kernelLoadData id => rw [runHook, aegisKernelLoadData_eq, if_pos blocked]
  | _ => cases blocked

/-- A hook reads the list for the request's own system call only. -/
theorem runHook_with_syscalls (policy : PolicyState) (env : HookEnv) {request : HookRequest}
    {syscalls : SyscallList}
    (same : ∀ nr, request.syscall = some nr →
      syscalls.listed (syscallHit nr) = policy.syscalls.listed (syscallHit nr)) :
    runHook { policy with syscalls := syscalls } env request = runHook policy env request := by
  have sameBlocked : { policy with syscalls := syscalls }.blocksRequest request =
      policy.blocksRequest request := by
    unfold PolicyState.blocksRequest
    cases mapped : request.syscall with
    | none => rfl
    | some nr => simp [aegisIsSyscallBlocked, same nr mapped]
  cases request with
  | kernelReadFile file id =>
      simp only [runHook, aegisKernelReadFile_eq, sameBlocked]
      rfl
  | kernelLoadData id =>
      simp only [runHook, aegisKernelLoadData_eq, sameBlocked]
      rfl
  | _ => rfl

/-- The outcome of a request depends on the list through the request's own
system call, hence through four numbers. With the audit on, a listed call is
denied and an unlisted one is judged by module control. -/
theorem blockedSyscalls_enforcement_map (policy : PolicyState) (env : HookEnv)
    (request : HookRequest) :
    (∀ syscalls : SyscallList,
      (∀ nr, request.syscall = some nr →
        syscalls.listed (syscallHit nr) = policy.syscalls.listed (syscallHit nr)) →
      runHook { policy with syscalls := syscalls } env request = runHook policy env request) ∧
    (∀ syscalls : SyscallList,
      (∀ nr ∈ enforcedSyscalls,
        syscalls.listed (syscallHit nr) = policy.syscalls.listed (syscallHit nr)) →
      runHook { policy with syscalls := syscalls } env request = runHook policy env request) ∧
    (policy.cfg.featureCheck featureSyscallAudit = true → policy.cfg.syscallAuditEnable = true →
      ∀ nr, request.syscall = some nr →
        (policy.syscalls.listed (syscallHit nr) = true →
          (runHook policy env request).ret = Errno.eperm.ret) ∧
        (policy.syscalls.listed (syscallHit nr) = false →
          runHook policy env request = moduleControl policy env request)) := by
  refine ⟨fun syscalls same => runHook_with_syscalls policy env same, fun syscalls same => ?_, ?_⟩
  · exact runHook_with_syscalls policy env fun nr mapped =>
      same nr (HookRequest.syscall_mem_enforced mapped)
  · intro active enabled nr mapped
    have lists : policy.listsSyscall request = policy.syscalls.listed (syscallHit nr) := by
      simp [PolicyState.listsSyscall, mapped]
    constructor
    · intro isListed
      exact runHook_ret_of_blocked env (policy.blocksRequest_iff.mpr
        ⟨active, enabled, lists.trans isListed⟩)
    · intro unlisted
      refine runHook_of_not_blocked env (by simp [mapped]) ?_
      rw [← Bool.not_eq_true, policy.blocksRequest_iff, lists, unlisted]
      simp

theorem blockedSyscalls_enforcement_map_boot :
    aegisCfg.featureCheck featureSyscallAudit = true ∧
      (runHook (boot (fun _ => true) (fun _ => true)) ⟨shell, true, true⟩
        (.kernelLoadData .loadingKexecImage)).ret = Errno.eperm.ret := by
  have active : aegisCfg.featureCheck featureSyscallAudit = true := by decide
  have judged := (blockedSyscalls_enforcement_map (boot (fun _ => true) (fun _ => true))
    ⟨shell, true, true⟩ (.kernelLoadData .loadingKexecImage)).2.2 active rfl nrKexecLoad rfl
  exact ⟨active, judged.1 (by decide +kernel)⟩

/-! ### All hooks -/

/-- The requests that the hooks deny. -/
def PolicyState.Denies (policy : PolicyState) (env : HookEnv) : HookRequest → Prop
  | .ptraceAccessCheck child _ =>
      policy.cfg.featureCheck featurePtraceRestrict = true ∧
        (policy.cfg.ptraceRestrictAll = true ∨
          aegisIsProcessProtected policy.cfg policy.procs (some child) = true)
  | .ptraceTraceme _ =>
      policy.cfg.featureCheck featurePtraceRestrict = true ∧ policy.cfg.ptraceRestrictAll = true
  | .filePermission file mask =>
      deniesWrite policy file.path mask = true ∧ policy.files.count ≠ 0 ∧
        env.page = true ∧ env.dPath = true
  | .fileOpen file =>
      deniesWrite policy file.path (openMask file) = true ∧ policy.files.count ≠ 0 ∧
        env.page = true ∧ env.dPath = true
  | request =>
      policy.blocksRequest request = true ∨
        policy.deniesModules = true ∧ request.loadsCode = true

theorem runHook_ret_ne_zero_iff {policy : PolicyState} {env : HookEnv} {request : HookRequest} :
    (runHook policy env request).ret ≠ 0 ↔ policy.Denies env request := by
  cases request with
  | ptraceAccessCheck child mode =>
      rw [runHook, aegisPtraceAccessCheck_ret, ite_ne_right_iff]
      exact and_iff_left Errno.eperm.ret_ne_zero
  | ptraceTraceme parent =>
      rw [runHook, aegisPtraceTraceme_ret, ite_ne_right_iff]
      exact and_iff_left Errno.eperm.ret_ne_zero
  | filePermission file mask => exact aegisFilePermission_ret_ne_zero
  | fileOpen file => exact aegisFileOpen_ret_ne_zero
  | kernelReadFile file id => exact aegisKernelReadFile_ret_ne_zero policy env
  | kernelLoadData id => exact aegisKernelLoadData_ret_ne_zero policy env
  | taskFree =>
      simp only [runHook, aegisTaskFree, PolicyState.Denies, PolicyState.blocksRequest,
        HookRequest.syscall, HookRequest.loadsCode]
      split <;> simp [HookOutcome.allow]
  | bprmCheckSecurity =>
      simp only [runHook, aegisBprmCheckSecurity, PolicyState.Denies, PolicyState.blocksRequest,
        HookRequest.syscall, HookRequest.loadsCode]
      split_ifs <;> simp [HookOutcome.allow]
  | _ =>
      simp [runHook, aegisTaskAlloc, aegisSocketCreate, aegisInodePermission, HookOutcome.allow,
        PolicyState.Denies, PolicyState.blocksRequest, HookRequest.syscall, HookRequest.loadsCode]

end Aegis.Policy
