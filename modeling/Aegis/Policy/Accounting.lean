import Aegis.Policy.Sysctl
import Aegis.Policy.Verdicts

/-!
Owns what the hooks count: the counters as an indexed family, what a hook adds
to them in one uninterrupted call, and the denials that no counter shows.

Does not own: the order of the increments, or interleaved calls.
-/

namespace Aegis.Policy

open Aegis.Foundation
open Aegis.Kernel

/-! ### Counters -/

inductive Violation where
  | ptraceBlocked
  | fileViolations
  | syscallViolations
  | moduleViolations
deriving DecidableEq, Repr

inductive Counter where
  | violation (kind : Violation)
  | totalEvents
deriving DecidableEq, Repr

namespace AegisStats

/-- `atomic64_read`. -/
def read (stats : AegisStats) : Counter → BitVec 64
  | .violation .ptraceBlocked => stats.ptraceBlocked
  | .violation .fileViolations => stats.fileViolations
  | .violation .syscallViolations => stats.syscallViolations
  | .violation .moduleViolations => stats.moduleViolations
  | .totalEvents => stats.totalEvents

theorem ext_read {first second : AegisStats}
    (same : ∀ counter, first.read counter = second.read counter) : first = second := by
  have ptrace := same (.violation .ptraceBlocked)
  have file := same (.violation .fileViolations)
  have syscall := same (.violation .syscallViolations)
  have loading := same (.violation .moduleViolations)
  have total := same .totalEvents
  cases first
  cases second
  simp_all [read]

/-- `AEGIS_STAT_INC`. -/
def inc (stats : AegisStats) : Counter → AegisStats
  | .violation .ptraceBlocked => { stats with ptraceBlocked := stats.ptraceBlocked + 1 }
  | .violation .fileViolations => { stats with fileViolations := stats.fileViolations + 1 }
  | .violation .syscallViolations =>
      { stats with syscallViolations := stats.syscallViolations + 1 }
  | .violation .moduleViolations => { stats with moduleViolations := stats.moduleViolations + 1 }
  | .totalEvents => { stats with totalEvents := stats.totalEvents + 1 }

theorem read_inc (stats : AegisStats) (bumped counter : Counter) :
    (stats.inc bumped).read counter =
      if counter = bumped then stats.read counter + 1 else stats.read counter := by
  cases bumped with
  | violation kind =>
      cases counter with
      | violation other => cases kind <;> cases other <;> rfl
      | totalEvents => cases kind <;> rfl
  | totalEvents =>
      cases counter with
      | violation other => cases other <;> rfl
      | totalEvents => rfl

/-- The two increments of a denial. -/
def deny (stats : AegisStats) (kind : Violation) : AegisStats :=
  (stats.inc (.violation kind)).inc .totalEvents

end AegisStats

/-! ### Accounted outcomes -/

/-- A denial adds one to one violation counter and to the total, and nothing to
the other violation counters. A request that is let through adds nothing to any
violation counter. -/
structure Accounted (old : AegisStats) (outcome : HookOutcome) : Prop where
  denied : outcome.ret ≠ 0 →
    ∃ kind : Violation,
      outcome.stats.read (.violation kind) = old.read (.violation kind) + 1 ∧
      (∀ other, other ≠ kind →
        outcome.stats.read (.violation other) = old.read (.violation other)) ∧
      outcome.stats.read .totalEvents = old.read .totalEvents + 1
  allowed : outcome.ret = 0 →
    ∀ kind : Violation, outcome.stats.read (.violation kind) = old.read (.violation kind)

/-- Module control denies a module that it cannot name. -/
def UncountedDenial (policy : PolicyState) (env : HookEnv) : HookRequest → Prop
  | .kernelReadFile file .readingModule =>
      policy.blocksRequest (.kernelReadFile file .readingModule) = false ∧
        policy.cfg.featureCheck featureModuleControl = true ∧
        policy.cfg.moduleLoadingDenied = true ∧
        (file = none ∨ env.page = false ∨ env.dPath = false)
  | _ => False

theorem UncountedDenial.reaches_moduleControl {policy : PolicyState} {env : HookEnv}
    {request : HookRequest} (uncounted : UncountedDenial policy env request) :
    policy.blocksRequest request = false ∧ policy.deniesModules = true := by
  unfold UncountedDenial at uncounted
  split at uncounted
  · exact ⟨uncounted.1, Bool.and_eq_true _ _ ▸ ⟨uncounted.2.1, uncounted.2.2.1⟩⟩
  · exact uncounted.elim

section Accounted

variable {stats : AegisStats}

theorem accounted_deny (error : Errno) (kind : Violation) (log : List LogRecord) :
    Accounted stats ⟨error.ret, stats.deny kind, log⟩ where
  denied _ := by
    refine ⟨kind, ?_, fun other different => ?_, ?_⟩
    · simp [AegisStats.deny, AegisStats.read_inc]
    · simp [AegisStats.deny, AegisStats.read_inc, different]
    · simp [AegisStats.deny, AegisStats.read_inc]
  allowed zero := absurd zero error.ret_ne_zero

theorem accounted_allow (log : List LogRecord) : Accounted stats ⟨0, stats, log⟩ where
  denied nonzero := absurd rfl nonzero
  allowed _ _ := rfl

theorem accounted_event (log : List LogRecord) :
    Accounted stats ⟨0, stats.inc .totalEvents, log⟩ where
  denied nonzero := absurd rfl nonzero
  allowed _ kind := by simp [AegisStats.read_inc]

/-- An error with the counters unchanged is not accounted. -/
theorem not_accounted_silent (error : Errno) (log : List LogRecord) :
    ¬ Accounted stats ⟨error.ret, stats, log⟩ := by
  intro accounted
  obtain ⟨kind, grown, -⟩ := accounted.denied error.ret_ne_zero
  have grows : ∀ value : BitVec 64, value ≠ value + 1 := by
    intro value same
    bv_omega
  exact grows _ grown

variable (policy : PolicyState) (env : HookEnv)

theorem aegisPtraceAccessCheck_accounted (child : Task) (mode : BitVec 32) :
    Accounted policy.stats (aegisPtraceAccessCheck policy env child mode) := by
  unfold aegisPtraceAccessCheck
  split_ifs
  · exact accounted_allow _
  · exact accounted_deny _ .ptraceBlocked _
  · exact accounted_deny _ .ptraceBlocked _
  · exact accounted_deny _ .ptraceBlocked _
  · exact accounted_allow _

theorem aegisPtraceTraceme_accounted (parent : Task) :
    Accounted policy.stats (aegisPtraceTraceme policy env parent) := by
  unfold aegisPtraceTraceme
  split_ifs
  · exact accounted_allow _
  · exact accounted_deny _ .ptraceBlocked _
  · exact accounted_allow _

theorem aegisFilePermission_accounted (file : File) (mask : BitVec 32) :
    Accounted policy.stats (aegisFilePermission policy env file mask) := by
  unfold aegisFilePermission
  split_ifs
  · exact accounted_allow _
  · exact accounted_allow _
  · exact accounted_allow _
  · exact accounted_allow _
  · exact accounted_deny _ .fileViolations _
  · exact accounted_event _
  · exact accounted_allow _
  · exact accounted_allow _

/-- Module control accounts for its denials, unless it cannot name a module. -/
theorem moduleControl_accounted_iff (request : HookRequest)
    (unblocked : policy.blocksRequest request = false) :
    Accounted policy.stats (moduleControl policy env request) ↔
      ¬ UncountedDenial policy env request := by
  cases denies : policy.deniesModules with
  | false =>
      rw [moduleControl_of_not_deniesModules policy env denies]
      refine iff_of_true (accounted_allow _) fun uncounted => ?_
      rw [uncounted.reaches_moduleControl.2] at denies
      cases denies
  | true =>
      have both := Bool.and_eq_true _ _ ▸ denies
      cases request with
      | kernelReadFile file id =>
          cases id with
          | readingModule =>
              simp only [moduleControl, denies, UncountedDenial, unblocked, both.1, both.2,
                true_and]
              cases file with
              | none => simp [not_accounted_silent]
              | some file =>
                  cases env.page with
                  | false => simp [not_accounted_silent]
                  | true =>
                      cases env.dPath with
                      | false => simp [not_accounted_silent]
                      | true =>
                          exact iff_of_true (accounted_deny _ .moduleViolations _) (by simp)
          | readingFirmware =>
              rw [moduleControl, denies]
              exact iff_of_true (accounted_deny _ .moduleViolations _) not_false
          | _ => exact iff_of_true (accounted_allow _) not_false
      | kernelLoadData id =>
          cases id with
          | loadingModule =>
              rw [moduleControl, denies]
              exact iff_of_true (accounted_deny _ .moduleViolations _) not_false
          | _ => exact iff_of_true (accounted_allow _) not_false
      | _ => exact iff_of_true (accounted_allow _) not_false

theorem aegisKernelReadFile_accounted_iff (file : Option File) (id : KernelReadFileId) :
    Accounted policy.stats (aegisKernelReadFile policy env file id) ↔
      ¬ UncountedDenial policy env (.kernelReadFile file id) := by
  rw [aegisKernelReadFile_eq]
  cases blocks : policy.blocksRequest (.kernelReadFile file id) with
  | false => exact moduleControl_accounted_iff policy env _ blocks
  | true =>
      refine iff_of_true (accounted_deny _ .syscallViolations _) fun uncounted => ?_
      rw [uncounted.reaches_moduleControl.1] at blocks
      cases blocks

theorem aegisKernelLoadData_accounted (id : KernelLoadDataId) :
    Accounted policy.stats (aegisKernelLoadData policy env id) := by
  rw [aegisKernelLoadData_eq]
  cases blocks : policy.blocksRequest (.kernelLoadData id) with
  | false => exact (moduleControl_accounted_iff policy env _ blocks).mpr fun uncounted => uncounted
  | true => exact accounted_deny _ .syscallViolations _

end Accounted

/-- Every call of a hook accounts for its denial and counts no violation
otherwise, except when a module is denied without a name. -/
theorem runHook_accounted_iff (policy : PolicyState) (env : HookEnv) (request : HookRequest) :
    Accounted policy.stats (runHook policy env request) ↔
      ¬ UncountedDenial policy env request := by
  cases request with
  | ptraceAccessCheck child mode =>
      exact iff_of_true (aegisPtraceAccessCheck_accounted policy env child mode) not_false
  | ptraceTraceme parent =>
      exact iff_of_true (aegisPtraceTraceme_accounted policy env parent) not_false
  | filePermission file mask =>
      exact iff_of_true (aegisFilePermission_accounted policy env file mask) not_false
  | fileOpen file =>
      refine iff_of_true ?_ not_false
      rw [runHook, aegisFileOpen]
      split
      · exact accounted_allow _
      · exact aegisFilePermission_accounted policy env file _
  | kernelReadFile file id => exact aegisKernelReadFile_accounted_iff policy env file id
  | kernelLoadData id => exact iff_of_true (aegisKernelLoadData_accounted policy env id) not_false
  | taskFree =>
      refine iff_of_true ?_ not_false
      rw [runHook, aegisTaskFree]
      split
      · exact accounted_allow _
      · exact accounted_event _
  | bprmCheckSecurity =>
      refine iff_of_true ?_ not_false
      rw [runHook, aegisBprmCheckSecurity]
      split_ifs
      · exact accounted_allow _
      · exact accounted_event _
      · exact accounted_allow _
  | _ => exact iff_of_true (accounted_allow _) not_false

/-- The boot policy after `module_loading_denied` is switched on and
`finit_module` is taken off the list. -/
def unlistedModulePolicy : PolicyState :=
  let start := boot (fun _ => true) (fun _ => true)
  { start with
    cfg := (aegisSysctlHandler .moduleLoadingDenied true (.stored 1) sysctlMirrors start.cfg).cfg
    syscalls := (aegisSyscallBlockDel nrFinitModule start.syscalls).list }

/-- A module whose page cannot be allocated is denied and counted nowhere. -/
theorem moduleDenial_without_page_uncounted :
    let outcome := runHook unlistedModulePolicy ⟨shell, false, true⟩
      (.kernelReadFile (some passwd) .readingModule)
    outcome.ret = Errno.enomem.ret ∧ outcome.stats = unlistedModulePolicy.stats ∧
      ¬ Accounted unlistedModulePolicy.stats outcome := by
  intro outcome
  have silent : outcome = ⟨Errno.enomem.ret, unlistedModulePolicy.stats, []⟩ := by decide +kernel
  rw [silent]
  exact ⟨rfl, rfl, not_accounted_silent _ _⟩

end Aegis.Policy
