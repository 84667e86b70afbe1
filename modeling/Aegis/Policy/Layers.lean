import Aegis.Policy.Verdicts

/-!
Owns the feature layers as `aegis_status_show` lists them: which requests each
layer is there to deny, under its own switch and list, and whether a request is
denied exactly when some layer that is reported on covers it.

Nothing in the cover of a layer mentions a feature bit, so agreement means that
a layer's denials depend on no bit but its own.

Does not own: the text of the status file.
-/

namespace Aegis.Policy

open Aegis.Foundation
open Aegis.Kernel

inductive Layer where
  | processProtect
  | fileIntegrity
  | syscallAudit
  | moduleControl
  | ptraceRestrict
deriving DecidableEq, Repr

def Layer.feature : Layer → BitVec 32
  | .processProtect => featureProcessProtect
  | .fileIntegrity => featureFileIntegrity
  | .syscallAudit => featureSyscallAudit
  | .moduleControl => featureModuleControl
  | .ptraceRestrict => featurePtraceRestrict

/-! ### The status file -/

/-- The lines of the status file that depend on the configuration. -/
inductive StatusLine where
  | status (active : Bool)
  | features (mask : BitVec 32)
  | layer (layer : Layer) (on : Bool)
  | ptraceAllRestrict (on : Bool)
  | fileIntegrityEnf (on : Bool)
  | moduleLoadingDeny (on : Bool)
deriving DecidableEq

def aegisStatusShow (cfg : AegisConfig) : List StatusLine :=
  [.status cfg.enabled,
    .features cfg.features,
    .layer .processProtect (cfg.featureCheck featureProcessProtect),
    .layer .fileIntegrity (cfg.featureCheck featureFileIntegrity),
    .layer .syscallAudit (cfg.featureCheck featureSyscallAudit),
    .layer .moduleControl (cfg.featureCheck featureModuleControl),
    .layer .ptraceRestrict (cfg.featureCheck featurePtraceRestrict),
    .ptraceAllRestrict cfg.ptraceRestrictAll,
    .fileIntegrityEnf cfg.fileIntegrityEnforce,
    .moduleLoadingDeny cfg.moduleLoadingDenied]

theorem layer_on_mem_status_iff {cfg : AegisConfig} {layer : Layer} :
    .layer layer true ∈ aegisStatusShow cfg ↔ cfg.featureCheck layer.feature = true := by
  cases layer <;> simp [aegisStatusShow, Layer.feature]

/-! ### What the layers cover -/

/-- The requests a layer is there to deny. -/
def Layer.Covers (policy : PolicyState) : Layer → HookRequest → Prop
  | .processProtect, .ptraceAccessCheck child _ =>
      policy.procs.listed (procProtects child) = true
  | .fileIntegrity, .filePermission file mask =>
      policy.cfg.fileIntegrityEnforce = true ∧
        policy.files.listed (filePathHit file.path) = true ∧
        hasBits mask (mayWrite ||| mayAppend) = true
  | .fileIntegrity, .fileOpen file =>
      policy.cfg.fileIntegrityEnforce = true ∧
        policy.files.listed (filePathHit file.path) = true ∧
        hasBits file.fMode fmodeWrite = true
  | .syscallAudit, request =>
      policy.cfg.syscallAuditEnable = true ∧ policy.listsSyscall request = true
  | .moduleControl, request =>
      policy.cfg.moduleLoadingDenied = true ∧ request.loadsCode = true
  | .ptraceRestrict, .ptraceAccessCheck _ _ => policy.cfg.ptraceRestrictAll = true
  | .ptraceRestrict, .ptraceTraceme _ => policy.cfg.ptraceRestrictAll = true
  | _, _ => False

/-- A layer that is reported on denies what it covers, and whatever is denied
is covered by such a layer. -/
structure LayersIndependent (policy : PolicyState) (env : HookEnv) (request : HookRequest) :
    Prop where
  enforced : ∀ layer, .layer layer true ∈ aegisStatusShow policy.cfg →
    layer.Covers policy request → (runHook policy env request).ret ≠ 0
  attributed : (runHook policy env request).ret ≠ 0 →
    ∃ layer, .layer layer true ∈ aegisStatusShow policy.cfg ∧ layer.Covers policy request

/-- The request attaches to a listed process while process protection is on and
the restriction of `ptrace` is off. -/
def UnguardedAttach (policy : PolicyState) : HookRequest → Prop
  | .ptraceAccessCheck child _ =>
      policy.cfg.featureCheck featureProcessProtect = true ∧
        policy.cfg.featureCheck featurePtraceRestrict = false ∧
        policy.procs.listed (procProtects child) = true
  | _ => False

theorem Layer.exists_iff {holds : Layer → Prop} :
    (∃ layer, holds layer) ↔
      holds .processProtect ∨ holds .fileIntegrity ∨ holds .syscallAudit ∨
        holds .moduleControl ∨ holds .ptraceRestrict := by
  constructor
  · rintro ⟨layer, held⟩
    cases layer <;> simp [held]
  · rintro (held | held | held | held | held)
    all_goals exact ⟨_, held⟩

section Independence

variable {policy : PolicyState}

theorem layersIndependent_iff {env : HookEnv} {request : HookRequest} :
    LayersIndependent policy env request ↔
      (policy.Denies env request ↔
        ∃ layer : Layer, policy.cfg.featureCheck layer.feature = true ∧
          layer.Covers policy request) := by
  rw [← runHook_ret_ne_zero_iff]
  constructor
  · intro independent
    constructor
    · intro denied
      obtain ⟨layer, on, covers⟩ := independent.attributed denied
      exact ⟨layer, layer_on_mem_status_iff.mp on, covers⟩
    · rintro ⟨layer, on, covers⟩
      exact independent.enforced layer (layer_on_mem_status_iff.mpr on) covers
  · intro same
    constructor
    · intro layer on covers
      exact same.mpr ⟨layer, layer_on_mem_status_iff.mp on, covers⟩
    · intro denied
      obtain ⟨layer, on, covers⟩ := same.mp denied
      exact ⟨layer, layer_on_mem_status_iff.mpr on, covers⟩

/-- The file layer denies the writes it covers: a listed file makes the count
nonzero. -/
theorem deniesWrite_counted_iff (counted : policy.files.Counted) (path : CString)
    (mask : BitVec 32) :
    (deniesWrite policy path mask = true ∧ policy.files.count ≠ 0) ↔
      policy.cfg.featureCheck featureFileIntegrity = true ∧
        policy.cfg.fileIntegrityEnforce = true ∧
        policy.files.listed (filePathHit path) = true ∧
        hasBits mask (mayWrite ||| mayAppend) = true := by
  have isProtected : aegisIsFileProtected policy.cfg policy.files (some path) = true ↔
      policy.cfg.featureCheck featureFileIntegrity = true ∧
        policy.files.listed (filePathHit path) = true := by
    unfold aegisIsFileProtected
    cases policy.cfg.featureCheck featureFileIntegrity <;> simp
  rw [deniesWrite, Bool.and_eq_true, Bool.and_eq_true, isProtected]
  constructor
  · rintro ⟨⟨⟨⟨active, isListed⟩, enforced⟩, writes⟩, -⟩
    exact ⟨active, enforced, isListed, writes⟩
  · rintro ⟨active, enforced, isListed, writes⟩
    obtain ⟨entry, member, -⟩ := Registry.listed_iff.mp isListed
    exact ⟨⟨⟨⟨active, isListed⟩, enforced⟩, writes⟩, counted.count_ne_zero member⟩

theorem PolicyState.denies_loading_iff {request : HookRequest} :
    (policy.blocksRequest request = true ∨
        policy.deniesModules = true ∧ request.loadsCode = true) ↔
      (policy.cfg.featureCheck featureSyscallAudit = true ∧
          Layer.syscallAudit.Covers policy request) ∨
        (policy.cfg.featureCheck featureModuleControl = true ∧
          Layer.moduleControl.Covers policy request) := by
  rw [policy.blocksRequest_iff, deniesModules, Bool.and_eq_true, and_assoc]
  rfl

/-- The layers are independent for every request but one: attaching to a listed
process while process protection is on and `ptrace` is not restricted. -/
theorem layers_independent_iff (counted : policy.files.Counted) (env : HookEnv)
    (request : HookRequest) :
    LayersIndependent policy env.supplied request ↔ ¬ UnguardedAttach policy request := by
  rw [layersIndependent_iff, Layer.exists_iff]
  cases request with
  | ptraceAccessCheck child mode =>
      simp only [PolicyState.Denies, Layer.Covers, Layer.feature, UnguardedAttach,
        aegisIsProcessProtected_iff, PolicyState.listsSyscall, HookRequest.syscall,
        HookRequest.loadsCode]
      cases policy.cfg.featureCheck featurePtraceRestrict <;> simp
      tauto
  | ptraceTraceme parent =>
      simp [PolicyState.Denies, Layer.Covers, Layer.feature, UnguardedAttach,
        PolicyState.listsSyscall, HookRequest.syscall, HookRequest.loadsCode]
  | filePermission file mask =>
      simp only [PolicyState.Denies, HookEnv.supplied, and_true,
        deniesWrite_counted_iff counted, UnguardedAttach]
      simp [Layer.Covers, Layer.feature, PolicyState.listsSyscall, HookRequest.syscall,
        HookRequest.loadsCode]
  | fileOpen file =>
      simp only [PolicyState.Denies, HookEnv.supplied, and_true,
        deniesWrite_counted_iff counted, openMask_writes, UnguardedAttach]
      simp [Layer.Covers, Layer.feature, PolicyState.listsSyscall, HookRequest.syscall,
        HookRequest.loadsCode]
  | kernelReadFile file id =>
      simp only [PolicyState.Denies, policy.denies_loading_iff, UnguardedAttach, Layer.feature]
      simp [Layer.Covers]
  | kernelLoadData id =>
      simp only [PolicyState.Denies, policy.denies_loading_iff, UnguardedAttach, Layer.feature]
      simp [Layer.Covers]
  | _ =>
      simp only [PolicyState.Denies, policy.denies_loading_iff, UnguardedAttach, Layer.feature]
      simp [Layer.Covers]

end Independence

theorem layers_independent_passwd :
    passwdPolicy.files.Counted ∧
      LayersIndependent passwdPolicy (HookEnv.supplied ⟨shell, false, false⟩)
        (.filePermission passwd mayWrite) := by
  have counted : passwdPolicy.files.Counted := by decide +kernel
  exact ⟨counted, (layers_independent_iff counted _ _).mpr fun attach => attach⟩

/-- The boot policy with every feature off but process protection. -/
def protectOnlyPolicy : PolicyState :=
  { boot (fun _ => true) (fun _ => true) with
    cfg := { aegisCfg with features := featureProcessProtect } }

/-- The status file shows process protection on, and `sshd` may be attached
to. -/
theorem processProtect_on_allows_attach :
    .layer .processProtect true ∈ aegisStatusShow protectOnlyPolicy.cfg ∧
      Layer.processProtect.Covers protectOnlyPolicy (.ptraceAccessCheck sshd 0) ∧
      (runHook protectOnlyPolicy ⟨shell, true, true⟩ (.ptraceAccessCheck sshd 0)).ret = 0 ∧
      ¬ LayersIndependent protectOnlyPolicy ⟨shell, true, true⟩ (.ptraceAccessCheck sshd 0) := by
  have on : .layer .processProtect true ∈ aegisStatusShow protectOnlyPolicy.cfg := by decide
  have covers : Layer.processProtect.Covers protectOnlyPolicy (.ptraceAccessCheck sshd 0) := by
    show protectOnlyPolicy.procs.listed (procProtects sshd) = true
    decide +kernel
  have allowed :
      (runHook protectOnlyPolicy ⟨shell, true, true⟩ (.ptraceAccessCheck sshd 0)).ret = 0 := by
    decide +kernel
  exact ⟨on, covers, allowed, fun independent => independent.enforced _ on covers allowed⟩

end Aegis.Policy
