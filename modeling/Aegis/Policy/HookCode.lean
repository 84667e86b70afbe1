import Aegis.Foundation.Metered
import Aegis.Policy.Accounting

/-!
Owns the hooks of `aegis_lsm.c` as code: every read of the configuration, every
read of a list under its lock and every `atomic64_inc` in the order of the
source, so that other calls can come between any two of them.

Under a policy that does not change, the code of a hook gives the outcome of
the hook. Whatever it reads, a call bumps nothing, or one violation counter and
then `total_events`, or `total_events` alone for one of three kinds of events: a
task is freed while the module is enabled, an exec is audited, or an access to a
listed file is allowed and logged. What it was answered decides which.

Does not own: interleaved calls, or who changes the configuration.
-/

namespace Aegis.Policy

open Aegis.Foundation
open Aegis.Kernel

/-- What a hook reads of the policy. -/
structure PolicyView where
  cfg : AegisConfig
  files : FileList
  procs : ProcList
  syscalls : SyscallList

def PolicyState.view (policy : PolicyState) : PolicyView :=
  ⟨policy.cfg, policy.files, policy.procs, policy.syscalls⟩

/-- What a hook returns and logs. -/
structure HookReply where
  ret : Int
  log : List LogRecord
deriving DecidableEq

abbrev HookCode := Code PolicyView Counter HookReply

namespace HookCode

/-! ### Building blocks -/

def allow : HookCode := .ret ⟨0, []⟩

/-- The two increments of a denial. -/
def denyThen (kind : Violation) (next : HookCode) : HookCode :=
  .bump (.violation kind) (.bump .totalEvents next)

def deny (kind : Violation) (error : Errno) (log : List LogRecord) : HookCode :=
  denyThen kind (.ret ⟨error.ret, log⟩)

/-- An event that is no denial. -/
def event (log : List LogRecord) : HookCode := .bump .totalEvents (.ret ⟨0, log⟩)

def whenEnabled (yes no : HookCode) : HookCode := .ask (fun view => view.cfg.enabled) yes no

/-- `AEGIS_FEATURE_CHECK`. -/
def whenFeature (feature : BitVec 32) (yes no : HookCode) : HookCode :=
  whenEnabled (.ask (fun view => hasBits view.cfg.features feature) yes no) no

/-- A branch on `aegis_is_process_protected`. -/
def whenProcessProtected (task : Task) (yes no : HookCode) : HookCode :=
  whenFeature featureProcessProtect
    (.ask (fun view => view.procs.listed (procProtects task)) yes no) no

/-- A branch on `aegis_is_file_protected`. -/
def whenFileProtected (path : CString) (yes no : HookCode) : HookCode :=
  whenFeature featureFileIntegrity
    (.ask (fun view => view.files.listed (filePathHit path)) yes no) no

/-- A branch on `aegis_is_syscall_blocked`. -/
def whenSyscallBlocked (nr : Int) (yes no : HookCode) : HookCode :=
  whenFeature featureSyscallAudit
    (.ask (fun view => view.cfg.syscallAuditEnable)
      (.ask (fun view => view.syscalls.listed (syscallHit nr)) yes no) no) no

def whenModulesDenied (yes no : HookCode) : HookCode :=
  .ask (fun view => view.cfg.moduleLoadingDenied) yes no

/-! ### Hooks -/

def aegisTaskAlloc : HookCode := allow

def aegisTaskFree : HookCode := whenEnabled (event []) allow

def aegisPtraceAccessCheck (env : HookEnv) (child : Task) (mode : BitVec 32) : HookCode :=
  whenFeature featurePtraceRestrict
    (.ask (fun view => view.cfg.ptraceRestrictAll)
      (deny .ptraceBlocked .eperm
        (if hasBits mode ptraceModeNoaudit then []
          else [.ptraceRestricted env.current.toTaskName child.toTaskName]))
      (whenFeature featureProcessProtect
        (whenProcessProtected child
          (deny .ptraceBlocked .eperm
            [.ptraceProtected env.current.toTaskName child.toTaskName])
          allow)
        allow))
    allow

def aegisPtraceTraceme (env : HookEnv) (parent : Task) : HookCode :=
  whenFeature featurePtraceRestrict
    (.ask (fun view => view.cfg.ptraceRestrictAll)
      (deny .ptraceBlocked .eperm
        [.tracemeRestricted env.current.toTaskName parent.toTaskName])
      allow)
    allow

def aegisFilePermission (env : HookEnv) (file : File) (mask : BitVec 32) : HookCode :=
  -- `rc` is 0 here, so that the log switch decides.
  let logged : HookCode :=
    .ask (fun view => view.cfg.fileIntegrityLog)
      (event [.fileAccess env.current.toTaskName file.path mask]) allow
  -- The log switch is read after a denial too, and then ignored.
  let denied : HookReply :=
    ⟨Errno.eacces.ret, [.fileWriteBlocked env.current.toTaskName file.path]⟩
  let judged : HookCode :=
    whenFileProtected file.path
      (if hasBits mask (mayWrite ||| mayAppend) then
        .ask (fun view => view.cfg.fileIntegrityEnforce)
          (denyThen .fileViolations
            (.ask (fun view => view.cfg.fileIntegrityLog) (.ret denied) (.ret denied)))
          logged
      else logged)
      allow
  whenFeature featureFileIntegrity
    (.ask (fun view => aegisProtectedFileCount view.files = 0) allow
      (if !env.page then allow
      else if !env.dPath then allow
      else judged))
    allow

def aegisFileOpen (env : HookEnv) (file : File) : HookCode :=
  if openMask file = 0 then allow else aegisFilePermission env file (openMask file)

def aegisKernelReadFile (env : HookEnv) (file : Option File) (id : KernelReadFileId) : HookCode :=
  let nr := aegisReadIdToSyscall id
  let firmware : HookCode :=
    if id == .readingFirmware then
      whenModulesDenied
        (deny .moduleViolations .eperm [.firmwareLoadBlocked env.current.toTaskName]) allow
    else allow
  let refused : HookCode :=
    match file with
    | none => .ret ⟨Errno.eperm.ret, []⟩
    | some file =>
        if !env.page then .ret ⟨Errno.enomem.ret, []⟩
        else if env.dPath then
          deny .moduleViolations .eperm [.moduleLoadBlocked env.current.toTaskName file.path]
        else .ret ⟨Errno.eperm.ret, []⟩
  let control : HookCode :=
    whenFeature featureModuleControl
      (if id == .readingModule then whenModulesDenied refused firmware else firmware) allow
  whenEnabled
    (if 0 ≤ nr then
      whenSyscallBlocked nr
        (deny .syscallViolations .eperm [.readFileSyscallBlocked nr id]) control
    else control)
    allow

def aegisKernelLoadData (env : HookEnv) (id : KernelLoadDataId) : HookCode :=
  let blocked : HookCode := deny .syscallViolations .eperm [.loadDataSyscallBlocked id]
  let control : HookCode :=
    whenFeature featureModuleControl
      (if id == .loadingModule then
        whenModulesDenied
          (deny .moduleViolations .eperm [.moduleLoadDataBlocked env.current.toTaskName]) allow
      else allow)
      allow
  let kexec : HookCode :=
    if id == .loadingKexecImage then whenSyscallBlocked nrKexecLoad blocked control else control
  whenEnabled
    (whenFeature featureSyscallAudit
      (if id == .loadingModule then whenSyscallBlocked nrInitModule blocked kexec else kexec)
      control)
    allow

def aegisBprmCheckSecurity : HookCode :=
  whenEnabled
    (whenFeature featureSyscallAudit
      (.ask (fun view => view.cfg.syscallAuditEnable) (event []) allow) allow)
    allow

def aegisSocketCreate : HookCode := whenEnabled allow allow

def aegisInodePermission : HookCode := allow

end HookCode

def hookCode (env : HookEnv) : HookRequest → HookCode
  | .taskAlloc => HookCode.aegisTaskAlloc
  | .taskFree => HookCode.aegisTaskFree
  | .ptraceAccessCheck child mode => HookCode.aegisPtraceAccessCheck env child mode
  | .ptraceTraceme parent => HookCode.aegisPtraceTraceme env parent
  | .filePermission file mask => HookCode.aegisFilePermission env file mask
  | .fileOpen file => HookCode.aegisFileOpen env file
  | .kernelReadFile file id => HookCode.aegisKernelReadFile env file id
  | .kernelLoadData id => HookCode.aegisKernelLoadData env id
  | .bprmCheckSecurity => HookCode.aegisBprmCheckSecurity
  | .socketCreate => HookCode.aegisSocketCreate
  | .inodePermission => HookCode.aegisInodePermission

/-! ### Calls under a policy that does not change -/

namespace HookCode

/-- What the code gives when nothing else runs. -/
def outcome (policy : PolicyState) (code : HookCode) : HookOutcome :=
  let done := code.eval policy.view
  ⟨done.1.ret, done.2.foldl AegisStats.inc policy.stats, done.1.log⟩

section Outcome

private theorem ite_bnot {Value : Type} (condition : Bool) (first second : Value) :
    (if !condition then first else second) = if condition then second else first := by
  cases condition <;> rfl

variable (policy : PolicyState)

@[simp] theorem outcome_ret (reply : HookReply) :
    outcome policy (.ret reply) = ⟨reply.ret, policy.stats, reply.log⟩ := rfl

@[simp] theorem outcome_allow : outcome policy allow = .allow policy := rfl

@[simp] theorem outcome_event (log : List LogRecord) :
    outcome policy (event log) = ⟨0, policy.stats.incTotalEvents, log⟩ := rfl

@[simp] theorem outcome_deny (kind : Violation) (error : Errno) (log : List LogRecord) :
    outcome policy (deny kind error log) = ⟨error.ret, policy.stats.deny kind, log⟩ := rfl

@[simp] theorem outcome_denyThen_ask (kind : Violation) (question : PolicyView → Bool)
    (reply : HookReply) :
    outcome policy (denyThen kind (.ask question (.ret reply) (.ret reply))) =
      ⟨reply.ret, policy.stats.deny kind, reply.log⟩ := by
  simp only [outcome, denyThen, Code.eval_bump, Code.eval_ask, Code.eval_ret, ite_self]
  rfl

@[simp] theorem outcome_ask (question : PolicyView → Bool) (yes no : HookCode) :
    outcome policy (.ask question yes no) =
      if question policy.view then outcome policy yes else outcome policy no := by
  unfold outcome
  rw [Code.eval_ask]
  split <;> rfl

theorem outcome_ite (condition : Prop) [Decidable condition] (yes no : HookCode) :
    outcome policy (if condition then yes else no) =
      if condition then outcome policy yes else outcome policy no :=
  apply_ite _ _ _ _

@[simp] theorem outcome_whenEnabled (yes no : HookCode) :
    outcome policy (whenEnabled yes no) =
      if policy.cfg.enabled then outcome policy yes else outcome policy no :=
  outcome_ask policy _ yes no

@[simp] theorem outcome_whenFeature (feature : BitVec 32) (yes no : HookCode) :
    outcome policy (whenFeature feature yes no) =
      if policy.cfg.featureCheck feature then outcome policy yes else outcome policy no := by
  rw [whenFeature, outcome_whenEnabled, outcome_ask, AegisConfig.featureCheck]
  cases policy.cfg.enabled with
  | false => rfl
  | true => rw [if_pos rfl, Bool.true_and]; rfl

@[simp] theorem outcome_whenModulesDenied (yes no : HookCode) :
    outcome policy (whenModulesDenied yes no) =
      if policy.cfg.moduleLoadingDenied then outcome policy yes else outcome policy no :=
  outcome_ask policy _ yes no

@[simp] theorem outcome_whenProcessProtected (task : Task) (yes no : HookCode) :
    outcome policy (whenProcessProtected task yes no) =
      if aegisIsProcessProtected policy.cfg policy.procs (some task) then outcome policy yes
      else outcome policy no := by
  rw [whenProcessProtected, outcome_whenFeature, outcome_ask, aegisIsProcessProtected]
  cases policy.cfg.featureCheck featureProcessProtect <;> rfl

@[simp] theorem outcome_whenFileProtected (path : CString) (yes no : HookCode) :
    outcome policy (whenFileProtected path yes no) =
      if aegisIsFileProtected policy.cfg policy.files (some path) then outcome policy yes
      else outcome policy no := by
  rw [whenFileProtected, outcome_whenFeature, outcome_ask, aegisIsFileProtected]
  cases policy.cfg.featureCheck featureFileIntegrity <;> rfl

@[simp] theorem outcome_whenSyscallBlocked (nr : Int) (yes no : HookCode) :
    outcome policy (whenSyscallBlocked nr yes no) =
      if aegisIsSyscallBlocked policy.cfg policy.syscalls nr then outcome policy yes
      else outcome policy no := by
  rw [whenSyscallBlocked, outcome_whenFeature, outcome_ask, outcome_ask, aegisIsSyscallBlocked]
  cases policy.cfg.featureCheck featureSyscallAudit with
  | false => rfl
  | true =>
      rw [if_pos rfl]
      show (if policy.cfg.syscallAuditEnable then _ else _) = _
      cases policy.cfg.syscallAuditEnable <;> rfl

variable (env : HookEnv)

theorem aegisTaskFree_outcome : outcome policy aegisTaskFree = Policy.aegisTaskFree policy := by
  unfold aegisTaskFree Policy.aegisTaskFree
  simp only [outcome_whenEnabled, outcome_event, outcome_allow, ite_bnot]

theorem aegisPtraceAccessCheck_outcome (child : Task) (mode : BitVec 32) :
    outcome policy (aegisPtraceAccessCheck env child mode) =
      Policy.aegisPtraceAccessCheck policy env child mode := by
  unfold aegisPtraceAccessCheck Policy.aegisPtraceAccessCheck
  simp only [outcome_whenFeature, outcome_ask, outcome_deny, outcome_whenProcessProtected,
    outcome_allow, ite_bnot, Bool.and_eq_true, ite_and]
  cases hasBits mode ptraceModeNoaudit <;> rfl

theorem aegisPtraceTraceme_outcome (parent : Task) :
    outcome policy (aegisPtraceTraceme env parent) =
      Policy.aegisPtraceTraceme policy env parent := by
  unfold aegisPtraceTraceme Policy.aegisPtraceTraceme
  simp only [outcome_whenFeature, outcome_ask, outcome_deny, outcome_allow, ite_bnot]
  rfl

theorem aegisFilePermission_outcome (file : File) (mask : BitVec 32) :
    outcome policy (aegisFilePermission env file mask) =
      Policy.aegisFilePermission policy env file mask := by
  unfold aegisFilePermission Policy.aegisFilePermission
  simp only [outcome_whenFeature, outcome_ask, outcome_denyThen_ask, outcome_allow, outcome_ite,
    outcome_whenFileProtected, outcome_event, ite_bnot, Bool.and_eq_true, ite_and,
    decide_eq_true_eq]
  rfl

theorem aegisFileOpen_outcome (file : File) :
    outcome policy (aegisFileOpen env file) = Policy.aegisFileOpen policy env file := by
  unfold aegisFileOpen Policy.aegisFileOpen
  rw [outcome_ite, outcome_allow, aegisFilePermission_outcome]

theorem aegisKernelReadFile_outcome (file : Option File) (id : KernelReadFileId) :
    outcome policy (aegisKernelReadFile env file id) =
      Policy.aegisKernelReadFile policy env file id := by
  unfold aegisKernelReadFile Policy.aegisKernelReadFile
  cases file <;>
    simp only [outcome_whenEnabled, outcome_whenFeature, outcome_deny, outcome_allow, outcome_ret,
      outcome_ite, outcome_whenSyscallBlocked, outcome_whenModulesDenied, ite_bnot,
      Bool.and_eq_true, ite_and, decide_eq_true_eq] <;>
    rfl

theorem aegisKernelLoadData_outcome (id : KernelLoadDataId) :
    outcome policy (aegisKernelLoadData env id) = Policy.aegisKernelLoadData policy env id := by
  unfold aegisKernelLoadData Policy.aegisKernelLoadData
  simp only [outcome_whenEnabled, outcome_whenFeature, outcome_deny, outcome_allow, outcome_ite,
    outcome_whenSyscallBlocked, outcome_whenModulesDenied, ite_bnot, Bool.and_eq_true,
    Bool.or_eq_true, ite_and, ite_or]
  rfl

theorem aegisBprmCheckSecurity_outcome :
    outcome policy aegisBprmCheckSecurity = Policy.aegisBprmCheckSecurity policy := by
  unfold aegisBprmCheckSecurity Policy.aegisBprmCheckSecurity
  simp only [outcome_whenEnabled, outcome_whenFeature, outcome_ask, outcome_event, outcome_allow,
    ite_bnot, Bool.and_eq_true, ite_and]
  rfl

end Outcome

end HookCode

/-- Under a policy that does not change, a hook's code gives its outcome. -/
theorem hookCode_outcome (policy : PolicyState) (env : HookEnv) (request : HookRequest) :
    HookCode.outcome policy (hookCode env request) = runHook policy env request := by
  cases request with
  | taskAlloc => rfl
  | taskFree => exact HookCode.aegisTaskFree_outcome policy
  | ptraceAccessCheck child mode =>
      exact HookCode.aegisPtraceAccessCheck_outcome policy env child mode
  | ptraceTraceme parent => exact HookCode.aegisPtraceTraceme_outcome policy env parent
  | filePermission file mask => exact HookCode.aegisFilePermission_outcome policy env file mask
  | fileOpen file => exact HookCode.aegisFileOpen_outcome policy env file
  | kernelReadFile file id => exact HookCode.aegisKernelReadFile_outcome policy env file id
  | kernelLoadData id => exact HookCode.aegisKernelLoadData_outcome policy env id
  | bprmCheckSecurity => exact HookCode.aegisBprmCheckSecurity_outcome policy
  | socketCreate =>
      show HookCode.outcome policy (HookCode.whenEnabled HookCode.allow HookCode.allow) = _
      rw [HookCode.outcome_whenEnabled, ite_self]
      rfl
  | inodePermission => rfl

/-! ### What a call bumps -/

section Answers

variable (env : HookEnv) (given : Answer PolicyView → Prop)

/-- The answers with which an access to a file is allowed and logged: the file is
listed under an active feature, the log switch is on, and a write finds that
nothing is enforced. -/
structure LoggedAccess (file : File) (mask : BitVec 32) : Prop where
  enabled : given ⟨fun view => view.cfg.enabled, true⟩
  feature : given ⟨fun view => hasBits view.cfg.features featureFileIntegrity, true⟩
  listed : given ⟨fun view => view.files.listed (filePathHit file.path), true⟩
  allowed : hasBits mask (mayWrite ||| mayAppend) = true →
    given ⟨fun view => view.cfg.fileIntegrityEnforce, false⟩
  logs : given ⟨fun view => view.cfg.fileIntegrityLog, true⟩

/-- What `total_events` counts alone: a task freed while enabled, an audited
exec, or an access to a listed file that is logged and not denied. -/
inductive CountedEvent : HookRequest → HookReply → Prop where
  | taskFree (enabled : given ⟨fun view => view.cfg.enabled, true⟩) :
      CountedEvent .taskFree ⟨0, []⟩
  | bprmCheckSecurity (enabled : given ⟨fun view => view.cfg.enabled, true⟩)
      (feature : given ⟨fun view => hasBits view.cfg.features featureSyscallAudit, true⟩)
      (audits : given ⟨fun view => view.cfg.syscallAuditEnable, true⟩) :
      CountedEvent .bprmCheckSecurity ⟨0, []⟩
  | filePermission {file : File} {mask : BitVec 32} (logged : LoggedAccess given file mask) :
      CountedEvent (.filePermission file mask)
        ⟨0, [.fileAccess env.current.toTaskName file.path mask]⟩
  | fileOpen {file : File} (logged : LoggedAccess given file (openMask file)) :
      CountedEvent (.fileOpen file)
        ⟨0, [.fileAccess env.current.toTaskName file.path (openMask file)]⟩

/-- What keeps an access to a file from being counted. -/
inductive UnloggedAccess (file : File) : Prop where
  | disabled (answer : given ⟨fun view => view.cfg.enabled, false⟩)
  | featureOff (answer : given ⟨fun view => hasBits view.cfg.features featureFileIntegrity, false⟩)
  | noEntries (answer : given ⟨fun view => aegisProtectedFileCount view.files = 0, true⟩)
  | noName (missing : env.page = false ∨ env.dPath = false)
  | unlisted (answer : given ⟨fun view => view.files.listed (filePathHit file.path), false⟩)
  | logOff (answer : given ⟨fun view => view.cfg.fileIntegrityLog, false⟩)

/-- What keeps a call of one of the three kinds from being counted. -/
def Uncounted : HookRequest → Prop
  | .taskFree => given ⟨fun view => view.cfg.enabled, false⟩
  | .bprmCheckSecurity => given ⟨fun view => view.cfg.enabled, false⟩ ∨
      given ⟨fun view => hasBits view.cfg.features featureSyscallAudit, false⟩ ∨
      given ⟨fun view => view.cfg.syscallAuditEnable, false⟩
  | .filePermission file _ => UnloggedAccess env given file
  | .fileOpen file => openMask file = 0 ∨ UnloggedAccess env given file
  | _ => True

variable {env given} {later : Answer PolicyView → Prop}
variable (kept : ∀ answer, given answer → later answer)

include kept

theorem LoggedAccess.mono {file : File} {mask : BitVec 32}
    (logged : LoggedAccess given file mask) : LoggedAccess later file mask where
  enabled := kept _ logged.enabled
  feature := kept _ logged.feature
  listed := kept _ logged.listed
  allowed writes := kept _ (logged.allowed writes)
  logs := kept _ logged.logs

theorem CountedEvent.mono {request : HookRequest} {reply : HookReply}
    (event : CountedEvent env given request reply) : CountedEvent env later request reply := by
  cases event with
  | taskFree enabled => exact .taskFree (kept _ enabled)
  | bprmCheckSecurity enabled feature audits =>
      exact .bprmCheckSecurity (kept _ enabled) (kept _ feature) (kept _ audits)
  | filePermission logged => exact .filePermission (logged.mono kept)
  | fileOpen logged => exact .fileOpen (logged.mono kept)

theorem UnloggedAccess.mono {file : File} (unlogged : UnloggedAccess env given file) :
    UnloggedAccess env later file := by
  cases unlogged with
  | disabled answer => exact .disabled (kept _ answer)
  | featureOff answer => exact .featureOff (kept _ answer)
  | noEntries answer => exact .noEntries (kept _ answer)
  | noName missing => exact .noName missing
  | unlisted answer => exact .unlisted (kept _ answer)
  | logOff answer => exact .logOff (kept _ answer)

theorem Uncounted.mono {request : HookRequest} (uncounted : Uncounted env given request) :
    Uncounted env later request := by
  cases request with
  | taskFree => exact kept _ uncounted
  | bprmCheckSecurity => exact uncounted.imp (kept _) (Or.imp (kept _) (kept _))
  | filePermission file mask => exact UnloggedAccess.mono kept uncounted
  | fileOpen file => exact uncounted.imp_right (UnloggedAccess.mono kept)
  | _ => trivial

end Answers

/-- What a call has bumped, after the answers `known`, with its reply once there
is one. -/
inductive HookBumps (env : HookEnv) (request : HookRequest) (known : List (Answer PolicyView)) :
    List Counter → Option HookReply → Prop where
  | started : HookBumps env request known [] none
  | silent (reply : HookReply) (uncounted : Uncounted env (· ∈ known) request) :
      HookBumps env request known [] (some reply)
  | pending (kind : Violation) : HookBumps env request known [.violation kind] none
  | denied (kind : Violation) (result : Option HookReply) :
      HookBumps env request known [.violation kind, .totalEvents] result
  | counted {reply : HookReply} (event : CountedEvent env (· ∈ known) request reply)
      {result : Option HookReply} (shown : ∀ other ∈ result, other = reply) :
      HookBumps env request known [.totalEvents] result

namespace HookCode

section Assertions

variable {env : HookEnv} {request : HookRequest} {known : List (Answer PolicyView)}
variable {yes no : HookCode} {question : PolicyView → Bool}

theorem asserts_ret (reply : HookReply) (uncounted : Uncounted env (· ∈ known) request) :
    Code.Asserts (HookBumps env request) known [] (.ret reply : HookCode) :=
  ⟨.started, .silent reply uncounted⟩

theorem asserts_allow (uncounted : Uncounted env (· ∈ known) request) :
    allow.Asserts (HookBumps env request) known [] := asserts_ret _ uncounted

theorem asserts_deny (kind : Violation) (error : Errno) (log : List LogRecord) :
    (deny kind error log).Asserts (HookBumps env request) known [] :=
  ⟨.started, .pending kind, .denied kind none, .denied kind _⟩

theorem asserts_event {log : List LogRecord}
    (counts : CountedEvent env (· ∈ known) request ⟨0, log⟩) :
    (event log).Asserts (HookBumps env request) known [] :=
  ⟨.started, .counted counts (by simp), .counted counts (by simp)⟩

theorem asserts_ask
    (onYes : yes.Asserts (HookBumps env request) (known ++ [⟨question, true⟩]) [])
    (onNo : no.Asserts (HookBumps env request) (known ++ [⟨question, false⟩]) []) :
    Code.Asserts (HookBumps env request) known [] (.ask question yes no) :=
  ⟨.started, onYes, onNo⟩

theorem asserts_ite {condition : Prop} [Decidable condition]
    (onYes : condition → yes.Asserts (HookBumps env request) known [])
    (onNo : ¬ condition → no.Asserts (HookBumps env request) known []) :
    (if condition then yes else no).Asserts (HookBumps env request) known [] := by
  split
  next met => exact onYes met
  next unmet => exact onNo unmet

/-- The answers of `AEGIS_FEATURE_CHECK`. -/
def featureAnswers (feature : BitVec 32) (active : Bool) : List (Answer PolicyView) :=
  [⟨fun view => view.cfg.enabled, true⟩, ⟨fun view => hasBits view.cfg.features feature, active⟩]

theorem asserts_whenFeature {feature : BitVec 32}
    (onYes : yes.Asserts (HookBumps env request) (known ++ featureAnswers feature true) [])
    (featureOff : no.Asserts (HookBumps env request) (known ++ featureAnswers feature false) [])
    (disabled : no.Asserts (HookBumps env request)
      (known ++ [⟨fun view => view.cfg.enabled, false⟩]) []) :
    (whenFeature feature yes no).Asserts (HookBumps env request) known [] := by
  refine asserts_ask (asserts_ask ?_ ?_) disabled
  · rw [List.append_assoc]
    exact onYes
  · rw [List.append_assoc]
    exact featureOff

/-! #### Hooks that count an event -/

theorem asserts_logged {file : File} {mask : BitVec 32} {log : List LogRecord}
    (counts : ∀ known : List (Answer PolicyView), LoggedAccess (· ∈ known) file mask →
      CountedEvent env (· ∈ known) request ⟨0, log⟩)
    (uncounted : ∀ known : List (Answer PolicyView), UnloggedAccess env (· ∈ known) file →
      Uncounted env (· ∈ known) request)
    (access :
      LoggedAccess (· ∈ known ++ [⟨fun view => view.cfg.fileIntegrityLog, true⟩]) file mask) :
    Code.Asserts (HookBumps env request) known []
      (.ask (fun view => view.cfg.fileIntegrityLog) (event log) allow) :=
  asserts_ask (asserts_event (counts _ access)) (asserts_allow (uncounted _ (.logOff (by simp))))

theorem asserts_aegisFilePermission {file : File} {mask : BitVec 32}
    (counts : ∀ known : List (Answer PolicyView), LoggedAccess (· ∈ known) file mask →
      CountedEvent env (· ∈ known) request
        ⟨0, [.fileAccess env.current.toTaskName file.path mask]⟩)
    (uncounted : ∀ known : List (Answer PolicyView), UnloggedAccess env (· ∈ known) file →
      Uncounted env (· ∈ known) request) :
    (aegisFilePermission env file mask).Asserts (HookBumps env request) [] [] := by
  have skips : ∀ {known : List (Answer PolicyView)}, UnloggedAccess env (· ∈ known) file →
      allow.Asserts (HookBumps env request) known [] := fun unlogged =>
    asserts_allow (uncounted _ unlogged)
  refine asserts_whenFeature (asserts_ask (skips (.noEntries (by simp))) ?_)
    (skips (.featureOff (by simp [featureAnswers]))) (skips (.disabled (by simp)))
  refine asserts_ite (fun noPage => skips (.noName (Or.inl (by simpa using noPage)))) fun _ => ?_
  refine asserts_ite (fun noName => skips (.noName (Or.inr (by simpa using noName)))) fun _ => ?_
  refine asserts_whenFeature (asserts_ask ?_ (skips (.unlisted (by simp))))
    (skips (.featureOff (by simp [featureAnswers]))) (skips (.disabled (by simp)))
  refine asserts_ite (fun _ => asserts_ask ?_ ?_) fun reads => ?_
  · exact ⟨.started, .pending .fileViolations, .denied .fileViolations none,
      ⟨.denied .fileViolations none, .denied .fileViolations _⟩,
      ⟨.denied .fileViolations none, .denied .fileViolations _⟩⟩
  · apply asserts_logged counts uncounted
    constructor <;> simp [featureAnswers]
  · apply asserts_logged counts uncounted
    constructor <;> simp [featureAnswers, reads]

theorem asserts_aegisBprmCheckSecurity :
    aegisBprmCheckSecurity.Asserts (HookBumps env .bprmCheckSecurity) [] [] := by
  refine asserts_ask (asserts_whenFeature (asserts_ask ?_ ?_) ?_ ?_) ?_
  · exact asserts_event (.bprmCheckSecurity (by simp) (by simp [featureAnswers]) (by simp))
  · exact asserts_allow (Or.inr (Or.inr (by simp)))
  · exact asserts_allow (Or.inr (Or.inl (by simp [featureAnswers])))
  · exact asserts_allow (Or.inl (by simp))
  · exact asserts_allow (Or.inl (by simp))

/-! #### Hooks that count denials only -/

variable (env request) in
/-- The code bumps as it may, whatever was answered before. -/
def Settles (code : HookCode) : Prop :=
  ∀ known, code.Asserts (HookBumps env request) known []

theorem settles_deny (kind : Violation) (error : Errno) (log : List LogRecord) :
    Settles env request (deny kind error log) := fun _ => asserts_deny kind error log

theorem settles_ask (onYes : Settles env request yes) (onNo : Settles env request no) :
    Settles env request (.ask question yes no) := fun _ => asserts_ask (onYes _) (onNo _)

theorem settles_ite {condition : Prop} [Decidable condition] (onYes : Settles env request yes)
    (onNo : Settles env request no) : Settles env request (if condition then yes else no) :=
  fun _ => asserts_ite (fun _ => onYes _) fun _ => onNo _

theorem settles_whenFeature {feature : BitVec 32} (onYes : Settles env request yes)
    (onNo : Settles env request no) : Settles env request (whenFeature feature yes no) :=
  fun _ => asserts_whenFeature (onYes _) (onNo _) (onNo _)

theorem settles_whenSyscallBlocked {nr : Int} (onYes : Settles env request yes)
    (onNo : Settles env request no) : Settles env request (whenSyscallBlocked nr yes no) :=
  settles_whenFeature (settles_ask (settles_ask onYes onNo) onNo) onNo

section Uncounted

variable (uncounted : ∀ known : List (Answer PolicyView), Uncounted env (· ∈ known) request)

include uncounted

theorem settles_ret (reply : HookReply) : Settles env request (.ret reply) :=
  fun known => asserts_ret reply (uncounted known)

theorem settles_allow : Settles env request allow := settles_ret uncounted _

theorem settles_aegisPtraceAccessCheck (child : Task) (mode : BitVec 32) :
    Settles env request (aegisPtraceAccessCheck env child mode) := by
  have allows := settles_allow uncounted
  refine settles_whenFeature (settles_ask (settles_deny _ _ _) ?_) allows
  refine settles_whenFeature (settles_whenFeature ?_ allows) allows
  exact settles_ask (settles_deny _ _ _) allows

theorem settles_aegisPtraceTraceme (parent : Task) :
    Settles env request (aegisPtraceTraceme env parent) := by
  have allows := settles_allow uncounted
  exact settles_whenFeature (settles_ask (settles_deny _ _ _) allows) allows

theorem settles_aegisKernelReadFile (file : Option File) (id : KernelReadFileId) :
    Settles env request (aegisKernelReadFile env file id) := by
  unfold aegisKernelReadFile
  extract_lets nr firmware refused control
  have allows := settles_allow uncounted
  have firmwareSettles : Settles env request firmware :=
    settles_ite (settles_ask (settles_deny _ _ _) allows) allows
  have refusedSettles : Settles env request refused := by
    unfold refused
    cases file with
    | none => exact settles_ret uncounted _
    | some file =>
        exact settles_ite (settles_ret uncounted _)
          (settles_ite (settles_deny _ _ _) (settles_ret uncounted _))
  have controlSettles : Settles env request control :=
    settles_whenFeature (settles_ite (settles_ask refusedSettles firmwareSettles) firmwareSettles)
      allows
  exact settles_ask (settles_ite (settles_whenSyscallBlocked (settles_deny _ _ _) controlSettles)
    controlSettles) allows

theorem settles_aegisKernelLoadData (id : KernelLoadDataId) :
    Settles env request (aegisKernelLoadData env id) := by
  unfold aegisKernelLoadData
  extract_lets blocked control kexec
  have allows := settles_allow uncounted
  have blockedSettles : Settles env request blocked := settles_deny _ _ _
  have controlSettles : Settles env request control :=
    settles_whenFeature (settles_ite (settles_ask (settles_deny _ _ _) allows) allows) allows
  have kexecSettles : Settles env request kexec :=
    settles_ite (settles_whenSyscallBlocked blockedSettles controlSettles) controlSettles
  refine settles_ask (settles_whenFeature (settles_ite ?_ kexecSettles) controlSettles) allows
  exact settles_whenSyscallBlocked blockedSettles kexecSettles

end Uncounted

end Assertions

end HookCode

/-- Whatever it reads on its way, a hook bumps what `HookBumps` says. -/
theorem hookCode_asserts (env : HookEnv) (request : HookRequest) :
    (hookCode env request).Asserts (HookBumps env request) [] [] := by
  cases request with
  | taskAlloc => exact HookCode.asserts_allow trivial
  | taskFree =>
      exact HookCode.asserts_ask (HookCode.asserts_event (.taskFree (by simp)))
        (HookCode.asserts_allow (List.mem_singleton.mpr rfl))
  | ptraceAccessCheck child mode =>
      refine HookCode.settles_aegisPtraceAccessCheck (fun _ => ?_) child mode []
      trivial
  | ptraceTraceme parent =>
      refine HookCode.settles_aegisPtraceTraceme (fun _ => ?_) parent []
      trivial
  | filePermission file mask =>
      exact HookCode.asserts_aegisFilePermission (fun _ => .filePermission) fun _ => id
  | fileOpen file =>
      refine HookCode.asserts_ite (fun none => HookCode.asserts_allow (Or.inl none)) fun _ => ?_
      exact HookCode.asserts_aegisFilePermission (fun _ => .fileOpen) fun _ => Or.inr
  | kernelReadFile file id =>
      refine HookCode.settles_aegisKernelReadFile (fun _ => ?_) file id []
      trivial
  | kernelLoadData id =>
      refine HookCode.settles_aegisKernelLoadData (fun _ => ?_) id []
      trivial
  | bprmCheckSecurity => exact HookCode.asserts_aegisBprmCheckSecurity
  | socketCreate =>
      exact HookCode.asserts_ask (HookCode.asserts_allow trivial) (HookCode.asserts_allow trivial)
  | inodePermission => exact HookCode.asserts_allow trivial

end Aegis.Policy
