import Aegis.Foundation.Transducer
import Aegis.Policy.Verdicts
import Aegis.Refinement.SetPolicy

/-!
Owns the module as a sequential system, from boot on: control writes, sysctl
writes and hook calls run one at a time, with allocations that succeed. The
abstract policy simulates it, so every run gives the answers of the three sets.

Does not own: interleaved calls, or calls that run out of memory.
-/

namespace Aegis.Refinement

open Aegis.Foundation
open Aegis.Kernel
open Aegis.Policy
open Aegis.Control

structure KernelState where
  policy : PolicyState
  mirrors : SysctlMirrors

/-- After `aegis_init`, with every allocation successful. -/
def KernelState.boot : KernelState where
  policy := Policy.boot (fun _ => true) (fun _ => true)
  mirrors := sysctlMirrors

inductive Operation where
  | write (env : ControlEnv) (endpoint : Endpoint) (ubuf : List UInt8)
  | sysctl (knob : Knob) (result : Dointvec)
  | hook (env : HookEnv) (request : HookRequest)

/-- The allocations of the operation succeed, and `d_path` fails only for names
that do not fit in a page. -/
def Operation.Supplied : Operation → Prop
  | .write env _ _ =>
      env.kmallocBuf = true ∧ env.kmallocEntry = true ∧ env.fileAdd.kmalloc.isSome = true
  | .sysctl _ _ => True
  | .hook env request => env.page = true ∧ DPathFits env request

/-- The module. The output is the return value of the operation. -/
def kernel (shash : Shash) : Transducer KernelState Operation Int where
  step state
    | .write env endpoint ubuf =>
        let outcome := aectlWrite shash env endpoint ubuf state.policy
        ({ state with policy := outcome.policy }, outcome.ret)
    | .sysctl knob result =>
        let outcome := aegisSysctlHandler knob true result state.mirrors state.policy.cfg
        (⟨{ state.policy with cfg := outcome.cfg }, outcome.mirrors⟩, outcome.ret)
    | .hook env request =>
        let outcome := runHook state.policy env request
        ({ state with policy := { state.policy with stats := outcome.stats } }, outcome.ret)

/-- The abstract policy, reading the same writes. -/
def specification : Transducer SetPolicy Operation Int where
  step policy
    | .write env endpoint ubuf =>
        match parseWrite env endpoint ubuf with
        | .error ret => (policy, ret)
        | .ok command =>
            let result := policy.perform command
            (result.2, writeResult ubuf.length result.1)
    | .sysctl knob result => (policy.sysctl knob result, result.ret)
    | .hook _ request => (policy, policy.verdict request)

def bootProcs : Finset (CommKey × Int) :=
  {(⟨.lit "sshd", by decide⟩, 0), (⟨.lit "init", by decide⟩, 1), (⟨.lit "systemd", by decide⟩, 1)}

def bootSyscalls : Finset Int :=
  {nrKexecLoad, nrKexecFileLoad, nrInitModule, nrFinitModule, nrDeleteModule}

def SetPolicy.boot : SetPolicy where
  cfg := aegisCfg
  files := ∅
  procs := bootProcs
  syscalls := bootSyscalls
  files_nonempty := by simp
  files_card := by simp
  procs_card := by decide +kernel
  syscalls_nonneg := by decide
  syscalls_card := by decide

/-! ### The representation -/

/-- The three lists represent the three sets, under the same configuration. -/
structure Represented (policy : PolicyState) (sets : SetPolicy) : Prop where
  cfg : policy.cfg = sets.cfg
  files : Registry.Represents AegisProtectedFile.key aegisMaxProtectedFiles policy.files sets.files
  procs : Registry.Represents AegisProtectedProc.key aegisMaxProtectedProcs policy.procs sets.procs
  syscalls :
    Registry.Represents AegisBlockedSyscall.syscallNr aegisMaxBlockedSyscalls policy.syscalls
      sets.syscalls

structure Refines (state : KernelState) (sets : SetPolicy) : Prop where
  represented : Represented state.policy sets
  synced : Synced state.mirrors state.policy.cfg

theorem refines_boot : Refines KernelState.boot SetPolicy.boot where
  represented :=
    { cfg := rfl
      files := Registry.represents_empty _ _
      procs := ⟨by decide +kernel, by decide +kernel, by decide +kernel, by decide +kernel⟩
      syscalls := ⟨by decide +kernel, by decide +kernel, by decide +kernel, by decide +kernel⟩ }
  synced := synced_boot

/-! ### Hook verdicts -/

section Verdicts

variable {policy : PolicyState} {sets : SetPolicy} (represented : Represented policy sets)

include represented

theorem Represented.isFileProtected_iff (path : CString) :
    aegisIsFileProtected policy.cfg policy.files (some path) = true ↔ sets.ProtectsFile path := by
  have onKeys : ∀ entry : AegisProtectedFile,
      filePathHit path entry = true ↔ entry.key.val = path := fun _ => filePathHit_iff
  have query := represented.files.any_iff (fun key => key.val = path) onKeys
  unfold aegisIsFileProtected SetPolicy.ProtectsFile
  rw [represented.cfg]
  cases sets.cfg.featureCheck featureFileIntegrity <;> simp [query]

theorem Represented.isProcessProtected_iff (task : Task) :
    aegisIsProcessProtected policy.cfg policy.procs (some task) = true ↔
      sets.ProtectsTask task := by
  have query := represented.procs.any_iff (SetPolicy.KeyProtects task)
    fun _ => SetPolicy.procProtects_iff
  rw [aegisIsProcessProtected_iff, represented.cfg]
  exact and_congr_right' query

theorem Represented.isSyscallBlocked_iff (nr : Int) :
    aegisIsSyscallBlocked policy.cfg policy.syscalls nr = true ↔ sets.Blocks nr := by
  rw [aegisIsSyscallBlocked_iff, represented.cfg,
    represented.syscalls.listed_iff (syscallHit_hitsKey nr)]
  rfl

theorem Represented.deniesWrite_iff (path : CString) (mask : BitVec 32) :
    deniesWrite policy path mask = true ↔
      sets.ProtectsFile path ∧ sets.cfg.fileIntegrityEnforce = true ∧
        hasBits mask (mayWrite ||| mayAppend) = true := by
  rw [deniesWrite, Bool.and_eq_true, Bool.and_eq_true, represented.isFileProtected_iff,
    represented.cfg, and_assoc]

/-- With a page, the file hook gives the verdict of the set: a listed file
makes the count nonzero, and its name fits in a page. -/
theorem Represented.filePermission_ret {env : HookEnv} {file : File} (mask : BitVec 32)
    (page : env.page = true) (fits : env.dPath = false → pageSize ≤ file.path.length) :
    (aegisFilePermission policy env file mask).ret =
      if sets.ProtectsFile file.path ∧ sets.cfg.fileIntegrityEnforce = true ∧
        hasBits mask (mayWrite ||| mayAppend) = true then Errno.eacces.ret else 0 := by
  rw [aegisFilePermission_ret]
  apply if_congr _ rfl rfl
  rw [← represented.deniesWrite_iff]
  constructor
  · exact fun looks => looks.1
  · intro denied
    have isListed := (represented.deniesWrite_iff _ _).mp denied
    obtain ⟨key, member, -⟩ := isListed.1.2
    have nonempty : policy.files.count ≠ 0 := by
      have positive := Finset.card_pos.mpr ⟨key, member⟩
      have counted := represented.files.count_eq_card
      omega
    have named : env.dPath = true := by
      rw [← Bool.not_eq_false]
      intro unnamed
      have short := deniesWrite_path_length denied
      have long := fits unnamed
      omega
    exact ⟨denied, nonempty, page, named⟩

theorem Represented.ptraceAccessCheck_ret (env : HookEnv) (child : Task) (mode : BitVec 32) :
    (aegisPtraceAccessCheck policy env child mode).ret =
      sets.verdict (.ptraceAccessCheck child mode) := by
  rw [aegisPtraceAccessCheck_ret]
  apply if_congr _ rfl rfl
  rw [represented.isProcessProtected_iff, represented.cfg]

theorem Represented.ptraceTraceme_ret (env : HookEnv) (parent : Task) :
    (aegisPtraceTraceme policy env parent).ret = sets.verdict (.ptraceTraceme parent) := by
  rw [aegisPtraceTraceme_ret, represented.cfg]
  rfl

theorem Represented.blocksRequest_iff (request : HookRequest) :
    policy.blocksRequest request = true ↔ ∃ nr, request.syscall = some nr ∧ sets.Blocks nr := by
  unfold PolicyState.blocksRequest
  cases request.syscall with
  | none => simp
  | some nr => simp [represented.isSyscallBlocked_iff]

theorem Represented.deniesModules_iff : policy.deniesModules = true ↔ sets.DeniesModules := by
  rw [PolicyState.deniesModules, Bool.and_eq_true, represented.cfg]
  rfl

theorem Represented.kernelReadFile_ret {env : HookEnv} (page : env.page = true)
    (file : Option File) (id : KernelReadFileId) :
    (aegisKernelReadFile policy env file id).ret = sets.verdict (.kernelReadFile file id) := by
  -- The number -1 of an identifier without a system call is not listed.
  have unmapped : ¬ sets.Blocks (-1) := fun blocks =>
    absurd (sets.syscalls_nonneg (-1) blocks.2.2) (by decide)
  rw [aegisKernelReadFile_ret policy env page]
  apply if_congr _ rfl rfl
  rw [represented.blocksRequest_iff, represented.deniesModules_iff]
  cases id <;> simp [HookRequest.syscall, HookRequest.loadsCode, aegisReadIdToSyscall, unmapped]

theorem Represented.kernelLoadData_ret {env : HookEnv} (page : env.page = true)
    (id : KernelLoadDataId) :
    (aegisKernelLoadData policy env id).ret = sets.verdict (.kernelLoadData id) := by
  rw [aegisKernelLoadData_ret policy env page]
  apply if_congr _ rfl rfl
  rw [represented.blocksRequest_iff, represented.deniesModules_iff]
  cases id <;> simp [HookRequest.syscall, HookRequest.loadsCode]

/-- Every hook gives the verdict of the sets. -/
theorem Represented.runHook_ret {env : HookEnv} {request : HookRequest} (page : env.page = true)
    (fits : DPathFits env request) :
    (runHook policy env request).ret = sets.verdict request := by
  cases request with
  | ptraceAccessCheck child mode => exact represented.ptraceAccessCheck_ret env child mode
  | ptraceTraceme parent => exact represented.ptraceTraceme_ret env parent
  | filePermission file mask => exact represented.filePermission_ret mask page (fits file rfl)
  | fileOpen file =>
      rw [runHook, aegisFileOpen_ret, represented.filePermission_ret _ page (fits file rfl),
        openMask_writes]
      rfl
  | kernelReadFile file id => exact represented.kernelReadFile_ret page file id
  | kernelLoadData id => exact represented.kernelLoadData_ret page id
  | taskFree =>
      show (aegisTaskFree policy).ret = 0
      unfold aegisTaskFree
      split <;> rfl
  | bprmCheckSecurity =>
      show (aegisBprmCheckSecurity policy).ret = 0
      unfold aegisBprmCheckSecurity
      split_ifs <;> rfl
  | _ => rfl

end Verdicts

/-! ### Policies with the same sets -/

section SameVerdicts

variable {left right : PolicyState} {sets : SetPolicy}
variable (leftRepresented : Represented left sets) (rightRepresented : Represented right sets)

include leftRepresented rightRepresented

theorem Represented.cfg_eq : left.cfg = right.cfg :=
  leftRepresented.cfg.trans rightRepresented.cfg.symm

theorem Represented.filePermission_ret_eq (env : HookEnv) (file : File) (mask : BitVec 32) :
    (aegisFilePermission left env file mask).ret =
      (aegisFilePermission right env file mask).ret := by
  have denies : deniesWrite left file.path mask = deniesWrite right file.path mask := by
    rw [Bool.eq_iff_iff, leftRepresented.deniesWrite_iff, rightRepresented.deniesWrite_iff]
  have counts : left.files.count = right.files.count := by
    rw [leftRepresented.files.count_eq_card, rightRepresented.files.count_eq_card]
  rw [aegisFilePermission_ret, aegisFilePermission_ret, denies, counts]

theorem Represented.blocksRequest_eq (request : HookRequest) :
    left.blocksRequest request = right.blocksRequest request := by
  rw [Bool.eq_iff_iff, leftRepresented.blocksRequest_iff, rightRepresented.blocksRequest_iff]

/-- Module control looks at the configuration only. -/
theorem Represented.moduleControl_ret_eq (env : HookEnv) (request : HookRequest) :
    (moduleControl left env request).ret = (moduleControl right env request).ret := by
  have denies : left.deniesModules = right.deniesModules := by
    rw [PolicyState.deniesModules, leftRepresented.cfg_eq rightRepresented,
      PolicyState.deniesModules]
  cases modules : left.deniesModules with
  | false =>
      rw [moduleControl_of_not_deniesModules left env modules,
        moduleControl_of_not_deniesModules right env (denies.symm.trans modules)]
      rfl
  | true =>
      unfold moduleControl
      rw [← denies, modules]
      cases request with
      | kernelReadFile file id =>
          cases id with
          | readingModule => cases file <;> cases env.page <;> cases env.dPath <;> rfl
          | _ => rfl
      | kernelLoadData id => cases id <;> rfl
      | _ => rfl

/-- Every hook gives the same verdict under both, in every environment. -/
theorem Represented.runHook_ret_eq (env : HookEnv) (request : HookRequest) :
    (runHook left env request).ret = (runHook right env request).ret := by
  have cfg := leftRepresented.cfg_eq rightRepresented
  cases request with
  | ptraceAccessCheck child mode =>
      exact (leftRepresented.ptraceAccessCheck_ret env child mode).trans
        (rightRepresented.ptraceAccessCheck_ret env child mode).symm
  | ptraceTraceme parent =>
      exact (leftRepresented.ptraceTraceme_ret env parent).trans
        (rightRepresented.ptraceTraceme_ret env parent).symm
  | filePermission file mask =>
      exact leftRepresented.filePermission_ret_eq rightRepresented env file mask
  | fileOpen file =>
      simp only [runHook, aegisFileOpen_ret]
      exact leftRepresented.filePermission_ret_eq rightRepresented env file (openMask file)
  | kernelReadFile file id =>
      simp only [runHook, aegisKernelReadFile_eq, apply_ite HookOutcome.ret,
        leftRepresented.blocksRequest_eq rightRepresented,
        leftRepresented.moduleControl_ret_eq rightRepresented]
  | kernelLoadData id =>
      simp only [runHook, aegisKernelLoadData_eq, apply_ite HookOutcome.ret,
        leftRepresented.blocksRequest_eq rightRepresented,
        leftRepresented.moduleControl_ret_eq rightRepresented]
  | taskFree =>
      simp only [runHook, aegisTaskFree, cfg]
      split <;> rfl
  | bprmCheckSecurity =>
      simp only [runHook, aegisBprmCheckSecurity, cfg]
      split_ifs <;> rfl
  | _ => rfl

end SameVerdicts

/-! ### The simulation -/

/-- The allocations that the command makes succeed. -/
def Command.Supplied (env : ControlEnv) : Command → Prop
  | .addFile _ _ => env.fileAdd.kmalloc.isSome = true
  | .addProc _ _ => env.kmallocEntry = true
  | .addSyscall _ => env.kmallocEntry = true
  | _ => True

section Simulation

variable {policy : PolicyState} {sets : SetPolicy} (represented : Represented policy sets)

include represented

/-- A command that finds memory answers as the set does. -/
theorem Represented.perform (shash : Shash) {env : ControlEnv} (len : Nat) {command : Command}
    (supplied : Command.Supplied env command) :
    (command.perform shash env len policy).ret = writeResult len (sets.perform command).1 ∧
      Represented (command.perform shash env len policy).policy (sets.perform command).2 := by
  cases command with
  | addFile path nonempty =>
      obtain ⟨junk, allocated⟩ := Option.isSome_iff_exists.mp supplied
      have keyed : (fileEntry path.val (initialHash shash env.fileAdd path.val junk)).key = path :=
        fileSpec.key_make path _
      obtain ⟨ret, files⟩ := listAdd_represents represented.files (filePathHit_hitsKey path) _ keyed
        (.protectedFileAdded path.val
          (fileEntry path.val (initialHash shash env.fileAdd path.val junk)).hashValid)
      simp only [Command.perform, aegisProtectedFileAdd, allocated, Option.map_some, ret]
      exact ⟨rfl, ⟨represented.cfg, files, represented.procs, represented.syscalls⟩⟩
  | delFile path nonempty =>
      obtain ⟨ret, files⟩ := listDel_represents represented.files (filePathHit_hitsKey path)
        (.protectedFileRemoved path.val)
      simp only [Command.perform, aegisProtectedFileDel, ret]
      exact ⟨rfl, ⟨represented.cfg, files, represented.procs, represented.syscalls⟩⟩
  | addProc comm pid =>
      have entry : env.kmallocEntry = true := supplied
      have keyed : (procEntry comm.val pid).key = (comm, pid) := procSpec.key_make (comm, pid) ()
      obtain ⟨ret, procs⟩ := listAdd_represents represented.procs (procHit_hitsKey comm pid) _ keyed
        (.protectedProcessAdded comm.val pid)
      simp only [Command.perform, aegisProtectProcessAdd, entry, if_true, ret]
      exact ⟨rfl, ⟨represented.cfg, represented.files, procs, represented.syscalls⟩⟩
  | delProc comm pid =>
      obtain ⟨ret, procs⟩ := listDel_represents represented.procs (procHit_hitsKey comm pid)
        (.protectedProcessRemoved comm.val pid)
      simp only [Command.perform, aegisProtectProcessDel, ret]
      exact ⟨rfl, ⟨represented.cfg, represented.files, procs, represented.syscalls⟩⟩
  | addSyscall nr =>
      have entry : env.kmallocEntry = true := supplied
      have nonneg : ¬ nr.val < 0 := not_lt.mpr nr.property
      obtain ⟨ret, syscalls⟩ := listAdd_represents represented.syscalls (syscallHit_hitsKey nr.val)
        ⟨nr.val⟩ rfl (.blockedSyscallAdded nr.val)
      simp only [Command.perform, aegisSyscallBlockAdd, nonneg, if_false, entry, if_true, ret]
      exact ⟨rfl, ⟨represented.cfg, represented.files, represented.procs, syscalls⟩⟩
  | delSyscall nr =>
      obtain ⟨ret, syscalls⟩ := listDel_represents represented.syscalls (syscallHit_hitsKey nr.val)
        (.blockedSyscallRemoved nr.val)
      simp only [Command.perform, aegisSyscallBlockDel, ret]
      exact ⟨rfl, ⟨represented.cfg, represented.files, represented.procs, syscalls⟩⟩

end Simulation

/-- Every operation leaves the mirrors in step with the configuration. -/
theorem synced_step (shash : Shash) {state : KernelState} (operation : Operation)
    (synced : Synced state.mirrors state.policy.cfg) :
    Synced ((kernel shash).step state operation).1.mirrors
      ((kernel shash).step state operation).1.policy.cfg := by
  cases operation with
  | write env endpoint ubuf =>
      show Synced state.mirrors (aectlWrite shash env endpoint ubuf state.policy).policy.cfg
      rw [aectlWrite_cfg]
      exact synced
  | sysctl knob result => exact (aegisSysctlHandler_write synced knob result).2.2
  | hook env request => exact synced

/-- A write whose command finds memory. -/
theorem Refines.write {state : KernelState} {sets : SetPolicy} (refines : Refines state sets)
    (shash : Shash) {env : ControlEnv} {endpoint : Endpoint} {ubuf : List UInt8}
    (supplied : ∀ command, parseWrite env endpoint ubuf = .ok command →
      Command.Supplied env command) :
    ((kernel shash).step state (.write env endpoint ubuf)).2 =
        (specification.step sets (.write env endpoint ubuf)).2 ∧
      Refines ((kernel shash).step state (.write env endpoint ubuf)).1
        (specification.step sets (.write env endpoint ubuf)).1 := by
  have synced := synced_step shash (.write env endpoint ubuf) refines.synced
  simp only [kernel, specification, aectlWrite_eq] at synced ⊢
  cases parsed : parseWrite env endpoint ubuf with
  | error ret => exact ⟨rfl, refines⟩
  | ok command =>
      obtain ⟨ret, represented⟩ :=
        refines.represented.perform shash ubuf.length (supplied command parsed)
      rw [parsed] at synced
      exact ⟨ret, represented, synced⟩

/-- Each operation of the module is one of the abstract policy. -/
theorem kernel_simulates (shash : Shash) :
    (kernel shash).Simulates specification Operation.Supplied Refines := by
  intro state sets operation supplied refines
  cases operation with
  | write env endpoint ubuf =>
      apply refines.write shash
      intro command _
      cases command with
      | addFile path nonempty => exact supplied.2.2
      | addProc comm pid => exact supplied.2.1
      | addSyscall nr => exact supplied.2.1
      | _ => trivial
  | sysctl knob result =>
      obtain ⟨ret, cfg, synced⟩ := aegisSysctlHandler_write refines.synced knob result
      refine ⟨ret, ?_, synced⟩
      obtain ⟨sameCfg, files, procs, syscalls⟩ := refines.represented
      cases result with
      | failed error => exact ⟨cfg.trans sameCfg, files, procs, syscalls⟩
      | kept => exact ⟨cfg.trans sameCfg, files, procs, syscalls⟩
      | stored value =>
          have committed := congrArg (fun before => AegisConfig.commit before knob value) sameCfg
          exact ⟨cfg.trans committed, files, procs, syscalls⟩
  | hook env request =>
      refine ⟨refines.represented.runHook_ret supplied.1 supplied.2, ?_, refines.synced⟩
      obtain ⟨cfg, files, procs, syscalls⟩ := refines.represented
      exact ⟨cfg, files, procs, syscalls⟩

/-! ### Whole runs -/

/-- The keys of a list, as a set. -/
def PolicyState.pathKeys (policy : PolicyState) : Finset PathKey :=
  (policy.files.entries.map AegisProtectedFile.key).toFinset

def PolicyState.procKeys (policy : PolicyState) : Finset (CommKey × Int) :=
  (policy.procs.entries.map AegisProtectedProc.key).toFinset

def PolicyState.syscallKeys (policy : PolicyState) : Finset Int :=
  (policy.syscalls.entries.map AegisBlockedSyscall.syscallNr).toFinset

/-- The policy at the end of a run from boot. -/
def finalPolicy (shash : Shash) (operations : List Operation) : PolicyState :=
  ((kernel shash).run KernelState.boot operations).1.policy

/-- Two policies with the same configuration and the same sets of keys. -/
structure SameSets (left right : PolicyState) : Prop where
  cfg : left.cfg = right.cfg
  paths : PolicyState.pathKeys left = PolicyState.pathKeys right
  procs : PolicyState.procKeys left = PolicyState.procKeys right
  syscalls : PolicyState.syscallKeys left = PolicyState.syscallKeys right

/-- The order in which entries were listed does not show in what is
represented. -/
theorem Represented.eq_of_sameSets {left right : PolicyState} {leftSets rightSets : SetPolicy}
    (leftRepresented : Represented left leftSets) (rightRepresented : Represented right rightSets)
    (same : SameSets left right) : leftSets = rightSets := by
  apply SetPolicy.ext
  · rw [← leftRepresented.cfg, same.cfg, rightRepresented.cfg]
  · exact leftRepresented.files.members.symm.trans
      (same.paths.trans rightRepresented.files.members)
  · exact leftRepresented.procs.members.symm.trans
      (same.procs.trans rightRepresented.procs.members)
  · exact leftRepresented.syscalls.members.symm.trans
      (same.syscalls.trans rightRepresented.syscalls.members)

theorem finalPolicy_represented (shash : Shash) {operations : List Operation}
    (supplied : ∀ operation ∈ operations, operation.Supplied) :
    Represented (finalPolicy shash operations) (specification.run SetPolicy.boot operations).1 :=
  ((kernel_simulates shash).run refines_boot operations supplied).2.represented

/-- From boot, every run of supplied operations answers as the three sets do,
the lists represent the sets and their counts are the sizes of the sets. Two
runs that end with the same sets and configuration give the same verdicts. -/
theorem kernel_refines_setPolicy (shash : Shash) (operations : List Operation)
    (supplied : ∀ operation ∈ operations, operation.Supplied) :
    let sets := (specification.run SetPolicy.boot operations).1
    ((kernel shash).run KernelState.boot operations).2 =
        (specification.run SetPolicy.boot operations).2 ∧
      Represented (finalPolicy shash operations) sets ∧
      (finalPolicy shash operations).files.count = sets.files.card ∧
      (finalPolicy shash operations).procs.count = sets.procs.card ∧
      (finalPolicy shash operations).syscalls.count = sets.syscalls.card ∧
      ∀ others : List Operation, (∀ operation ∈ others, operation.Supplied) →
        SameSets (finalPolicy shash operations) (finalPolicy shash others) →
        ∀ env request, Operation.Supplied (.hook env request) →
          (runHook (finalPolicy shash operations) env request).ret =
            (runHook (finalPolicy shash others) env request).ret := by
  have outputs := ((kernel_simulates shash).run refines_boot operations supplied).1
  have represented := finalPolicy_represented shash supplied
  refine ⟨outputs, represented, represented.files.count_eq_card,
    represented.procs.count_eq_card, represented.syscalls.count_eq_card, ?_⟩
  intro others othersSupplied same env request hookSupplied
  have othersRepresented := finalPolicy_represented shash othersSupplied
  have setsEqual := represented.eq_of_sameSets othersRepresented same
  rw [represented.runHook_ret hookSupplied.1 hookSupplied.2, setsEqual,
    othersRepresented.runHook_ret hookSupplied.1 hookSupplied.2]

/-- List a file, then try to write to it. -/
def passwdRun : List Operation :=
  [.write administrator .protectedFilesAdd (CString.ascii "/etc/passwd\n"),
    .hook ⟨shell, true, true⟩ (.filePermission passwd mayWrite)]

theorem passwdRun_supplied : ∀ operation ∈ passwdRun, operation.Supplied := by
  intro operation member
  simp only [passwdRun, List.mem_cons, List.not_mem_nil, or_false] at member
  rcases member with rfl | rfl
  · exact ⟨rfl, rfl, rfl⟩
  · exact ⟨rfl, fun file _ unnamed => absurd unnamed (by decide)⟩

theorem kernel_refines_setPolicy_passwd :
    ((kernel sha256Shash).run KernelState.boot passwdRun).2 =
        (specification.run SetPolicy.boot passwdRun).2 ∧
      (finalPolicy sha256Shash passwdRun).files.count =
        (specification.run SetPolicy.boot passwdRun).1.files.card := by
  have refined := kernel_refines_setPolicy sha256Shash passwdRun passwdRun_supplied
  exact ⟨refined.1, refined.2.2.1⟩

end Aegis.Refinement
