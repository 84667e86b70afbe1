import Mathlib.Logic.Function.Basic
import Aegis.Policy.Config

/-!
Owns `aegis_sysctl.c`: the integers behind the sysctl files, and the handlers
that commit a written integer into the configuration the hooks read.

`proc_dointvec` belongs to the kernel; what it did with the written text is the
parameter `Dointvec`.

Does not own: the text formats of the sysctl files.
-/

namespace Aegis.Policy

open Aegis.Foundation
open Aegis.Kernel

/-- The variables that `proc_dointvec` reads and writes. -/
abbrev SysctlMirrors := Knob → Int

/-- Boot values of the mirrors. -/
def sysctlMirrors : SysctlMirrors
  | .enabled => 1
  | .features => featureAll.toInt
  | .ptraceRestrictAll => 0
  | .fileIntegrityEnforce => 1
  | .fileIntegrityLog => 1
  | .moduleLoadingDenied => 0
  | .syscallAuditEnable => 1

/-- What `proc_dointvec` did: it failed, it found no number, or it stored one. -/
inductive Dointvec where
  | failed (error : Errno)
  | kept
  | stored (value : Int)
deriving DecidableEq

def Dointvec.ret : Dointvec → Int
  | .failed error => error.ret
  | .kept => 0
  | .stored _ => 0

def Dointvec.mirrors (result : Dointvec) (knob : Knob) (mirrors : SysctlMirrors) : SysctlMirrors :=
  match result with
  | .stored value => Function.update mirrors knob value
  | _ => mirrors

theorem Dointvec.mirrors_of_failed {result : Dointvec} (failed : result.ret ≠ 0) (knob : Knob)
    (mirrors : SysctlMirrors) : result.mirrors knob mirrors = mirrors := by
  cases result with
  | failed error => rfl
  | kept => rfl
  | stored value => exact absurd rfl failed

theorem Dointvec.mirrors_of_ne (result : Dointvec) {knob other : Knob} (different : other ≠ knob)
    (mirrors : SysctlMirrors) : result.mirrors knob mirrors other = mirrors other := by
  cases result with
  | failed error => rfl
  | kept => rfl
  | stored value => exact Function.update_of_ne different _ _

/-- The configuration with one mirror committed. -/
def AegisConfig.commit (cfg : AegisConfig) (knob : Knob) (value : Int) : AegisConfig :=
  match knob with
  | .enabled => { cfg with enabled := value != 0 }
  | .features => { cfg with features := BitVec.ofInt 32 value }
  | .ptraceRestrictAll => { cfg with ptraceRestrictAll := value != 0 }
  | .fileIntegrityEnforce => { cfg with fileIntegrityEnforce := value != 0 }
  | .fileIntegrityLog => { cfg with fileIntegrityLog := value != 0 }
  | .moduleLoadingDenied => { cfg with moduleLoadingDenied := value != 0 }
  | .syscallAuditEnable => { cfg with syscallAuditEnable := value != 0 }

structure SysctlOutcome where
  ret : Int
  mirrors : SysctlMirrors
  cfg : AegisConfig
  log : List LogRecord

/-- What a handler logs after a write. -/
def writeRecord (cfg : AegisConfig) : Knob → LogRecord
  | .enabled => .aegisSwitched cfg.enabled
  | .features => .featuresUpdated cfg.features
  | .ptraceRestrictAll => .toggled .ptraceRestrictAll cfg.ptraceRestrictAll
  | .fileIntegrityEnforce => .toggled .fileIntegrityEnforce cfg.fileIntegrityEnforce
  | .fileIntegrityLog => .toggled .fileIntegrityLog cfg.fileIntegrityLog
  | .moduleLoadingDenied => .toggled .moduleLoadingDenied cfg.moduleLoadingDenied
  | .syscallAuditEnable => .toggled .syscallAuditEnable cfg.syscallAuditEnable

/-- The common body of the handlers. -/
def procHandler (knob : Knob) (write : Bool) (result : Dointvec) (mirrors : SysctlMirrors)
    (cfg : AegisConfig) : SysctlOutcome :=
  let after := if write then result.mirrors knob mirrors else mirrors
  if write && result.ret = 0 then
    let committed := cfg.commit knob (after knob)
    ⟨result.ret, after, committed, [writeRecord committed knob]⟩
  else ⟨result.ret, after, cfg, []⟩

def aegisProcEnable := procHandler .enabled
def aegisProcFeatures := procHandler .features
def aegisProcPtraceRestrictAll := procHandler .ptraceRestrictAll
def aegisProcFileIntegrityEnforce := procHandler .fileIntegrityEnforce
def aegisProcFileIntegrityLog := procHandler .fileIntegrityLog
def aegisProcModuleLoadingDenied := procHandler .moduleLoadingDenied
def aegisProcSyscallAuditEnable := procHandler .syscallAuditEnable

/-- `aegis_sysctl_table`: each file's handler. -/
def aegisSysctlHandler :
    Knob → Bool → Dointvec → SysctlMirrors → AegisConfig → SysctlOutcome
  | .enabled => aegisProcEnable
  | .features => aegisProcFeatures
  | .ptraceRestrictAll => aegisProcPtraceRestrictAll
  | .fileIntegrityEnforce => aegisProcFileIntegrityEnforce
  | .fileIntegrityLog => aegisProcFileIntegrityLog
  | .moduleLoadingDenied => aegisProcModuleLoadingDenied
  | .syscallAuditEnable => aegisProcSyscallAuditEnable

/-- `aegis_sysctl_table`: each file's name. -/
def Knob.procname : Knob → String
  | .enabled => "enabled"
  | .features => "features"
  | .ptraceRestrictAll => "ptrace_restrict_all"
  | .fileIntegrityEnforce => "file_integrity_enforce"
  | .fileIntegrityLog => "file_integrity_log"
  | .moduleLoadingDenied => "module_loading_denied"
  | .syscallAuditEnable => "syscall_audit_enable"

theorem aegisSysctlHandler_eq (knob : Knob) : aegisSysctlHandler knob = procHandler knob := by
  cases knob <;> rfl

/-- A write commits the mirror as it is after `proc_dointvec`. -/
theorem aegisSysctlHandler_write_cfg (knob : Knob) (result : Dointvec) (mirrors : SysctlMirrors)
    (cfg : AegisConfig) :
    (aegisSysctlHandler knob true result mirrors cfg).cfg =
      if result.ret = 0 then cfg.commit knob (result.mirrors knob mirrors knob) else cfg := by
  rw [aegisSysctlHandler_eq]
  by_cases succeeded : result.ret = 0
  · simp [procHandler, succeeded]
  · simp [procHandler, succeeded]

theorem aegisSysctlHandler_write_mirrors (knob : Knob) (result : Dointvec)
    (mirrors : SysctlMirrors) (cfg : AegisConfig) :
    (aegisSysctlHandler knob true result mirrors cfg).mirrors = result.mirrors knob mirrors := by
  rw [aegisSysctlHandler_eq]
  by_cases succeeded : result.ret = 0
  · simp [procHandler, succeeded]
  · simp [procHandler, succeeded]

/-! ### Mirrors in step with the configuration -/

/-- Committing any mirror again would change nothing. -/
def Synced (mirrors : SysctlMirrors) (cfg : AegisConfig) : Prop :=
  ∀ knob, cfg.commit knob (mirrors knob) = cfg

/-- The configuration that the mirrors show. -/
def AegisConfig.ofMirrors (mirrors : SysctlMirrors) : AegisConfig where
  enabled := mirrors .enabled != 0
  features := BitVec.ofInt 32 (mirrors .features)
  ptraceRestrictAll := mirrors .ptraceRestrictAll != 0
  fileIntegrityEnforce := mirrors .fileIntegrityEnforce != 0
  fileIntegrityLog := mirrors .fileIntegrityLog != 0
  syscallAuditEnable := mirrors .syscallAuditEnable != 0
  moduleLoadingDenied := mirrors .moduleLoadingDenied != 0

theorem Synced.eq_ofMirrors {mirrors : SysctlMirrors} {cfg : AegisConfig}
    (synced : Synced mirrors cfg) : cfg = .ofMirrors mirrors := by
  have enabled := congrArg AegisConfig.enabled (synced .enabled)
  have features := congrArg AegisConfig.features (synced .features)
  have ptraceRestrictAll := congrArg AegisConfig.ptraceRestrictAll (synced .ptraceRestrictAll)
  have enforce := congrArg AegisConfig.fileIntegrityEnforce (synced .fileIntegrityEnforce)
  have log := congrArg AegisConfig.fileIntegrityLog (synced .fileIntegrityLog)
  have audit := congrArg AegisConfig.syscallAuditEnable (synced .syscallAuditEnable)
  have denied := congrArg AegisConfig.moduleLoadingDenied (synced .moduleLoadingDenied)
  cases cfg
  simp_all [AegisConfig.commit, AegisConfig.ofMirrors]

theorem synced_boot : Synced sysctlMirrors aegisCfg := by
  intro knob
  cases knob <;> decide

theorem AegisConfig.commit_commit (cfg : AegisConfig) (knob : Knob) (first second : Int) :
    (cfg.commit knob first).commit knob second = cfg.commit knob second := by
  cases knob <;> rfl

theorem AegisConfig.commit_comm (cfg : AegisConfig) {knob other : Knob} (different : knob ≠ other)
    (first second : Int) :
    (cfg.commit knob first).commit other second = (cfg.commit other second).commit knob first := by
  cases knob <;> cases other <;> first | rfl | exact absurd rfl different

theorem Synced.commit {mirrors : SysctlMirrors} {cfg : AegisConfig} (synced : Synced mirrors cfg)
    (knob : Knob) (value : Int) :
    Synced (Function.update mirrors knob value) (cfg.commit knob value) := by
  intro other
  by_cases same : other = knob
  · subst same
    rw [Function.update_self, AegisConfig.commit_commit]
  · rw [Function.update_of_ne same, AegisConfig.commit_comm cfg (Ne.symm same), synced other]

/-- A write that finds the mirrors in step commits what it stored and nothing
else. -/
theorem aegisSysctlHandler_write {mirrors : SysctlMirrors} {cfg : AegisConfig}
    (synced : Synced mirrors cfg) (knob : Knob) (result : Dointvec) :
    (aegisSysctlHandler knob true result mirrors cfg).ret = result.ret ∧
      (aegisSysctlHandler knob true result mirrors cfg).cfg =
        (match result with
          | .stored value => cfg.commit knob value
          | _ => cfg) ∧
      Synced (aegisSysctlHandler knob true result mirrors cfg).mirrors
        (aegisSysctlHandler knob true result mirrors cfg).cfg := by
  rw [aegisSysctlHandler_eq]
  cases result with
  | failed error => simp [procHandler, Dointvec.ret, Dointvec.mirrors, synced]
  | kept =>
      have same := synced knob
      simp [procHandler, Dointvec.ret, Dointvec.mirrors, same, synced]
  | stored value =>
      simpa [procHandler, Dointvec.ret, Dointvec.mirrors] using synced.commit knob value

end Aegis.Policy
