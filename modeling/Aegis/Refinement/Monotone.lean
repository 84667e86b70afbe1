import Mathlib.Order.Basic
import Aegis.Policy.Verdicts
import Aegis.Control.Outcomes
import Aegis.Refinement.Sequential

/-!
Owns the order of policies by strictness: switches, feature bits and the keys
of the three lists. A stricter policy denies every request that a weaker one
denies, so a run of additions and of switching on never lifts a denial.

Does not own: removals, or switching off.
-/

namespace Aegis.Refinement

open Aegis.Foundation
open Aegis.Kernel
open Aegis.Policy
open Aegis.Control

/-! ### The order -/

/-- The second policy has every switch, feature and key of the first.
`file_integrity_log` decides no verdict. -/
structure AtMost (weak strict : PolicyState) : Prop where
  enabled : weak.cfg.enabled ≤ strict.cfg.enabled
  features : weak.cfg.features &&& strict.cfg.features = weak.cfg.features
  ptraceRestrictAll : weak.cfg.ptraceRestrictAll ≤ strict.cfg.ptraceRestrictAll
  fileIntegrityEnforce : weak.cfg.fileIntegrityEnforce ≤ strict.cfg.fileIntegrityEnforce
  syscallAuditEnable : weak.cfg.syscallAuditEnable ≤ strict.cfg.syscallAuditEnable
  moduleLoadingDenied : weak.cfg.moduleLoadingDenied ≤ strict.cfg.moduleLoadingDenied
  files :
    weak.files.entries.map AegisProtectedFile.key ⊆ strict.files.entries.map AegisProtectedFile.key
  procs :
    weak.procs.entries.map AegisProtectedProc.key ⊆ strict.procs.entries.map AegisProtectedProc.key
  syscalls :
    weak.syscalls.entries.map AegisBlockedSyscall.syscallNr ⊆
      strict.syscalls.entries.map AegisBlockedSyscall.syscallNr

instance : Preorder PolicyState where
  le := AtMost
  le_refl policy :=
    { enabled := le_refl _
      features := BitVec.and_self
      ptraceRestrictAll := le_refl _
      fileIntegrityEnforce := le_refl _
      syscallAuditEnable := le_refl _
      moduleLoadingDenied := le_refl _
      files := List.Subset.refl _
      procs := List.Subset.refl _
      syscalls := List.Subset.refl _ }
  le_trans weak middle strict first second :=
    { enabled := first.enabled.trans second.enabled
      features := by
        rw [← first.features, BitVec.and_assoc, second.features]
      ptraceRestrictAll := first.ptraceRestrictAll.trans second.ptraceRestrictAll
      fileIntegrityEnforce := first.fileIntegrityEnforce.trans second.fileIntegrityEnforce
      syscallAuditEnable := first.syscallAuditEnable.trans second.syscallAuditEnable
      moduleLoadingDenied := first.moduleLoadingDenied.trans second.moduleLoadingDenied
      files := List.Subset.trans first.files second.files
      procs := List.Subset.trans first.procs second.procs
      syscalls := List.Subset.trans first.syscalls second.syscalls }

section Verdicts

variable {weak strict : PolicyState} (order : weak ≤ strict)

include order

theorem featureCheck_mono {feature : BitVec 32}
    (active : weak.cfg.featureCheck feature = true) : strict.cfg.featureCheck feature = true := by
  unfold AegisConfig.featureCheck at *
  rw [Bool.and_eq_true] at *
  refine ⟨Bool.le_iff_imp.mp order.enabled active.1, ?_⟩
  have set : weak.cfg.features &&& feature ≠ 0 := by simpa [hasBits] using active.2
  have wider : strict.cfg.features &&& feature ≠ 0 := by
    intro clear
    apply set
    rw [← order.features, BitVec.and_assoc, clear]
    exact BitVec.and_zero
  simpa [hasBits] using wider

theorem isFileProtected_mono {path : CString}
    (isProtected : aegisIsFileProtected weak.cfg weak.files (some path) = true) :
    aegisIsFileProtected strict.cfg strict.files (some path) = true := by
  obtain ⟨active, entry, member, named⟩ := aegisIsFileProtected_iff.mp isProtected
  obtain ⟨other, inStrict, sameKey⟩ :=
    List.mem_map.mp (order.files (List.mem_map_of_mem member))
  have sameText : other.path.text = entry.path.text := congrArg Subtype.val sameKey
  exact aegisIsFileProtected_iff.mpr
    ⟨featureCheck_mono order active, other, inStrict, sameText.trans named⟩

theorem isProcessProtected_mono {task : Task}
    (isProtected : aegisIsProcessProtected weak.cfg weak.procs (some task) = true) :
    aegisIsProcessProtected strict.cfg strict.procs (some task) = true := by
  obtain ⟨active, isListed⟩ := aegisIsProcessProtected_iff.mp isProtected
  have onKeys : ∀ first second : AegisProtectedProc, first.key = second.key →
      procProtects task first = procProtects task second := by
    intro first second sameKey
    rw [Bool.eq_iff_iff, SetPolicy.procProtects_iff, SetPolicy.procProtects_iff, sameKey]
  exact aegisIsProcessProtected_iff.mpr ⟨featureCheck_mono order active,
    Registry.listed_mono AegisProtectedProc.key onKeys order.procs isListed⟩

theorem blocksRequest_mono {request : HookRequest} (blocks : weak.blocksRequest request = true) :
    strict.blocksRequest request = true := by
  obtain ⟨active, audits, isListed⟩ := weak.blocksRequest_iff.mp blocks
  refine strict.blocksRequest_iff.mpr
    ⟨featureCheck_mono order active, Bool.le_iff_imp.mp order.syscallAuditEnable audits, ?_⟩
  unfold PolicyState.listsSyscall at *
  cases mapped : request.syscall with
  | none => simp [mapped] at isListed
  | some nr =>
      rw [mapped, Option.any_some] at isListed
      rw [Option.any_some]
      refine Registry.listed_mono AegisBlockedSyscall.syscallNr ?_ order.syscalls isListed
      intro first second sameKey
      simp [syscallHit, sameKey]

theorem deniesModules_mono (denies : weak.deniesModules = true) :
    strict.deniesModules = true := by
  unfold PolicyState.deniesModules at *
  rw [Bool.and_eq_true] at *
  exact ⟨featureCheck_mono order denies.1, Bool.le_iff_imp.mp order.moduleLoadingDenied denies.2⟩

theorem deniesWrite_mono {path : CString} {mask : BitVec 32}
    (denies : deniesWrite weak path mask = true) : deniesWrite strict path mask = true := by
  simp only [deniesWrite, Bool.and_eq_true] at *
  obtain ⟨⟨isProtected, enforced⟩, writes⟩ := denies
  exact ⟨⟨isFileProtected_mono order isProtected,
    Bool.le_iff_imp.mp order.fileIntegrityEnforce enforced⟩, writes⟩

/-- A stricter policy denies what a weaker one denies. -/
theorem denies_mono (counted : strict.files.Counted) {env : HookEnv} {request : HookRequest}
    (denies : weak.Denies env request) : strict.Denies env request := by
  -- A path that is denied is listed, so the count lets the stricter hook look.
  have counts : ∀ {path : CString} {mask : BitVec 32}, deniesWrite strict path mask = true →
      strict.files.count ≠ 0 := by
    intro path mask denied
    rw [deniesWrite, Bool.and_eq_true, Bool.and_eq_true] at denied
    obtain ⟨-, entry, member, -⟩ := aegisIsFileProtected_iff.mp denied.1.1
    exact counted.count_ne_zero member
  cases request with
  | ptraceAccessCheck child mode =>
      exact ⟨featureCheck_mono order denies.1,
        denies.2.imp (Bool.le_iff_imp.mp order.ptraceRestrictAll) (isProcessProtected_mono order)⟩
  | ptraceTraceme parent =>
      exact ⟨featureCheck_mono order denies.1,
        Bool.le_iff_imp.mp order.ptraceRestrictAll denies.2⟩
  | filePermission file mask =>
      have denied := deniesWrite_mono order denies.1
      exact ⟨denied, counts denied, denies.2.2⟩
  | fileOpen file =>
      have denied := deniesWrite_mono order denies.1
      exact ⟨denied, counts denied, denies.2.2⟩
  | _ =>
      exact denies.imp (blocksRequest_mono order)
        (And.imp_left (deniesModules_mono order))

end Verdicts

/-! ### Runs that only tighten -/

/-- The value switches the knob on; for the feature mask, it keeps every bit
that is set. -/
def SwitchesOn (cfg : AegisConfig) (knob : Knob) (value : Int) : Prop :=
  match knob with
  | .features => cfg.features &&& BitVec.ofInt 32 value = cfg.features
  | _ => value ≠ 0

def Endpoint.adds : Endpoint → Bool
  | .protectedFilesAdd => true
  | .protectedProcsAdd => true
  | .blockedSyscallsAdd => true
  | _ => false

/-- The operation adds, switches on, fails, or calls a hook. -/
def Operation.Tightens (state : KernelState) : Operation → Prop
  | .write _ endpoint _ => Endpoint.adds endpoint = true
  | .sysctl knob result =>
      result.ret = 0 →
        SwitchesOn state.policy.cfg knob (result.mirrors knob state.mirrors knob)
  | .hook _ _ => True

theorem le_commit {policy : PolicyState} {knob : Knob} {value : Int}
    (on : SwitchesOn policy.cfg knob value) :
    policy ≤ { policy with cfg := policy.cfg.commit knob value } := by
  cases knob with
  | features =>
      exact ⟨le_refl _, on, le_refl _, le_refl _, le_refl _, le_refl _, List.Subset.refl _,
        List.Subset.refl _, List.Subset.refl _⟩
  | _ =>
      have set : (value != 0) = true := bne_iff_ne.mpr on
      constructor <;> simp [AegisConfig.commit, set]

/-- One entry more keeps every key, and the count. -/
theorem keys_subset_of_oneAppended {Entry Key : Type} {old new : Registry Entry}
    (appended : OneAppended old new) (key : Entry → Key) :
    old.entries.map key ⊆ new.entries.map key := by
  obtain ⟨entry, rfl⟩ := appended
  rw [List.map_append]
  exact List.subset_append_left _ _

theorem counted_of_oneAppended {Entry : Type} {old new : Registry Entry}
    (appended : OneAppended old new) (counted : old.Counted) : new.Counted := by
  obtain ⟨entry, rfl⟩ := appended
  exact counted.linkTail entry

theorem le_of_changesOwnList {old new : PolicyState} {endpoint : Endpoint}
    (adds : Endpoint.adds endpoint = true) (changes : ChangesOwnList old new endpoint)
    (counted : old.files.Counted) : old ≤ new ∧ new.files.Counted := by
  have same := le_refl old
  cases endpoint with
  | protectedFilesAdd =>
      obtain ⟨files, appended, rfl⟩ := changes
      exact ⟨{ same with files := keys_subset_of_oneAppended appended _ },
        counted_of_oneAppended appended counted⟩
  | protectedProcsAdd =>
      obtain ⟨procs, appended, rfl⟩ := changes
      exact ⟨{ same with procs := keys_subset_of_oneAppended appended _ }, counted⟩
  | blockedSyscallsAdd =>
      obtain ⟨syscalls, appended, rfl⟩ := changes
      exact ⟨{ same with syscalls := keys_subset_of_oneAppended appended _ }, counted⟩
  | protectedFilesDel => cases adds
  | protectedProcsDel => cases adds
  | blockedSyscallsDel => cases adds

/-- One tightening operation. -/
theorem kernel_step_le (shash : Shash) {state : KernelState} {operation : Operation}
    (tightens : operation.Tightens state) (counted : state.policy.files.Counted) :
    state.policy ≤ ((kernel shash).step state operation).1.policy ∧
      ((kernel shash).step state operation).1.policy.files.Counted := by
  cases operation with
  | write env endpoint ubuf =>
      simp only [kernel, aectlWrite_eq]
      cases parsed : parseWrite env endpoint ubuf with
      | error ret => exact ⟨le_refl _, counted⟩
      | ok command =>
          have settled := command.perform_allOrNothing shash env ubuf.length state.policy
          rw [(parseWrite_eq_ok_iff.mp parsed).2.endpoint_eq] at settled
          rcases settled with ⟨-, changes⟩ | ⟨error, -, same⟩
          · exact le_of_changesOwnList tightens changes counted
          · rw [same]
            exact ⟨le_refl _, counted⟩
  | sysctl knob result =>
      refine ⟨?_, counted⟩
      show state.policy ≤ { state.policy with
        cfg := (aegisSysctlHandler knob true result state.mirrors state.policy.cfg).cfg }
      rw [aegisSysctlHandler_write_cfg]
      by_cases succeeded : result.ret = 0
      · rw [if_pos succeeded]
        exact le_commit (tightens succeeded)
      · rw [if_neg succeeded]
  | hook env request =>
      have same : AtMost state.policy state.policy := le_refl state.policy
      exact ⟨{ same with }, counted⟩

theorem runHook_ret_ne_zero_mono {weak strict : PolicyState} (order : weak ≤ strict)
    (counted : strict.files.Counted) {env : HookEnv} {request : HookRequest}
    (denied : (runHook weak env request).ret ≠ 0) : (runHook strict env request).ret ≠ 0 := by
  rw [runHook_ret_ne_zero_iff] at *
  exact denies_mono order counted denied

/-- A denial under one policy is a denial under every stricter policy with a
right count, in the same environment. So no run of tightening operations lifts
a denial. -/
theorem policy_monotone (shash : Shash) :
    (∀ (weak strict : PolicyState) (env : HookEnv) (request : HookRequest), weak ≤ strict →
      strict.files.Counted → (runHook weak env request).ret ≠ 0 →
      (runHook strict env request).ret ≠ 0) ∧
    (∀ (state : KernelState) (operations : List Operation) (env : HookEnv)
      (request : HookRequest), state.policy.files.Counted →
      (kernel shash).Meets Operation.Tightens state operations →
      (runHook state.policy env request).ret ≠ 0 →
      (runHook ((kernel shash).run state operations).1.policy env request).ret ≠ 0) := by
  constructor
  · intro weak strict env request order counted denied
    exact runHook_ret_ne_zero_mono order counted denied
  · intro state operations env request counted meets denied
    have tightened := meets.run
      (fun later => state.policy ≤ later.policy ∧ later.policy.files.Counted)
      (fun later operation tightens holds => by
        obtain ⟨order, stillCounted⟩ := kernel_step_le shash tightens holds.2
        exact ⟨le_trans holds.1 order, stillCounted⟩)
      ⟨le_refl _, counted⟩
    exact runHook_ret_ne_zero_mono tightened.1 tightened.2 denied

/-- Listing `/etc/passwd` and restricting all tracing leaves `kexec_load`
denied. -/
theorem policy_monotone_boot :
    let operations := [.write administrator .protectedFilesAdd (CString.ascii "/etc/passwd\n"),
      .sysctl .ptraceRestrictAll (.stored 1)]
    (kernel sha256Shash).Meets Operation.Tightens KernelState.boot operations ∧
      (runHook ((kernel sha256Shash).run KernelState.boot operations).1.policy ⟨shell, true, true⟩
        (.kernelLoadData .loadingKexecImage)).ret ≠ 0 := by
  intro operations
  have meets : (kernel sha256Shash).Meets Operation.Tightens KernelState.boot operations :=
    ⟨rfl, fun _ => by simp [SwitchesOn, Dointvec.mirrors], trivial⟩
  refine ⟨meets, (policy_monotone sha256Shash).2 _ operations _ _ rfl meets ?_⟩
  decide +kernel

end Aegis.Refinement
