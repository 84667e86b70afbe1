import Mathlib.Data.BitVec
import Aegis.Kernel.Interface

/-!
Owns `aegis.h` and the boot values of `aegis_lsm.c`: limits, feature bits, the
configuration the hooks consult, the event counters, and the records the
module logs.

Does not own: `ptrace_scope`, `syscall_deny_unlisted` and `module_force_loading`,
which no function reads, and `AEGIS_FEATURE_FULL_SHIELD`, which no function tests.
-/

namespace Aegis.Policy

open Aegis.Foundation
open Aegis.Kernel

/-! ### Limits -/

def aegisMaxProtectedProcs : Nat := 64
def aegisMaxProtectedFiles : Nat := 128
def aegisMaxBlockedSyscalls : Nat := 256
def aegisCommLen : Nat := 16
def aegisPathLen : Nat := 256

/-! ### Features -/

def featureProcessProtect : BitVec 32 := 1 <<< 0
def featureFileIntegrity : BitVec 32 := 1 <<< 1
def featureSyscallAudit : BitVec 32 := 1 <<< 2
def featureModuleControl : BitVec 32 := 1 <<< 3
def featurePtraceRestrict : BitVec 32 := 1 <<< 4

def featureAll : BitVec 32 :=
  featureProcessProtect ||| featureFileIntegrity ||| featureSyscallAudit |||
    featureModuleControl ||| featurePtraceRestrict

/-! ### Configuration and counters -/

/-- The switches of `struct aegis_config`. -/
structure AegisConfig where
  enabled : Bool
  features : BitVec 32
  ptraceRestrictAll : Bool
  fileIntegrityEnforce : Bool
  fileIntegrityLog : Bool
  syscallAuditEnable : Bool
  moduleLoadingDenied : Bool
deriving DecidableEq

/-- The sysctl files, one for each switch. -/
inductive Knob where
  | enabled
  | features
  | ptraceRestrictAll
  | fileIntegrityEnforce
  | fileIntegrityLog
  | moduleLoadingDenied
  | syscallAuditEnable
deriving DecidableEq, Repr

/-- The switches with a handler made by `AEGIS_BOOL_HANDLER`. -/
inductive Toggle where
  | ptraceRestrictAll
  | fileIntegrityEnforce
  | fileIntegrityLog
  | moduleLoadingDenied
  | syscallAuditEnable
deriving DecidableEq, Repr

/-- The counters of `struct aegis_config`, 64-bit atomics. -/
structure AegisStats where
  ptraceBlocked : BitVec 64
  fileViolations : BitVec 64
  syscallViolations : BitVec 64
  moduleViolations : BitVec 64
  totalEvents : BitVec 64
deriving DecidableEq

/-- Boot value of the switches of `aegis_cfg`. -/
def aegisCfg : AegisConfig where
  enabled := true
  features := featureAll
  ptraceRestrictAll := false
  fileIntegrityEnforce := true
  fileIntegrityLog := true
  syscallAuditEnable := true
  moduleLoadingDenied := false

/-- Boot value of the counters of `aegis_cfg`. -/
def aegisStats : AegisStats := ⟨0, 0, 0, 0, 0⟩

/-- `AEGIS_FEATURE_CHECK`. -/
def AegisConfig.featureCheck (cfg : AegisConfig) (feature : BitVec 32) : Bool :=
  cfg.enabled && hasBits cfg.features feature

namespace AegisStats

/-- A denial: its own counter and `total_events`. -/
def incPtraceBlocked (stats : AegisStats) : AegisStats :=
  { stats with ptraceBlocked := stats.ptraceBlocked + 1, totalEvents := stats.totalEvents + 1 }

def incFileViolations (stats : AegisStats) : AegisStats :=
  { stats with fileViolations := stats.fileViolations + 1, totalEvents := stats.totalEvents + 1 }

def incSyscallViolations (stats : AegisStats) : AegisStats :=
  { stats with
    syscallViolations := stats.syscallViolations + 1, totalEvents := stats.totalEvents + 1 }

def incModuleViolations (stats : AegisStats) : AegisStats :=
  { stats with
    moduleViolations := stats.moduleViolations + 1, totalEvents := stats.totalEvents + 1 }

/-- An event that is no denial. -/
def incTotalEvents (stats : AegisStats) : AegisStats :=
  { stats with totalEvents := stats.totalEvents + 1 }

end AegisStats

/-! ### Log records -/

/-- The records of `AEGIS_AUDIT` and `AEGIS_INFO`, with their arguments. -/
inductive LogRecord where
  | ptraceRestricted (current child : TaskName)
  | ptraceProtected (current child : TaskName)
  | tracemeRestricted (current parent : TaskName)
  | fileWriteBlocked (current : TaskName) (path : CString)
  | fileAccess (current : TaskName) (path : CString) (mask : BitVec 32)
  | readFileSyscallBlocked (nr : Int) (id : KernelReadFileId)
  | loadDataSyscallBlocked (id : KernelLoadDataId)
  | moduleLoadBlocked (current : TaskName) (path : CString)
  | firmwareLoadBlocked (current : TaskName)
  | moduleLoadDataBlocked (current : TaskName)
  | protectedFileAdded (path : CString) (hashValid : Bool)
  | protectedFileRemoved (path : CString)
  | protectedProcessAdded (comm : CString) (pid : Int)
  | protectedProcessRemoved (comm : CString) (pid : Int)
  | blockedSyscallAdded (nr : Int)
  | blockedSyscallRemoved (nr : Int)
  | aegisSwitched (on : Bool)
  | featuresUpdated (features : BitVec 32)
  | toggled (toggle : Toggle) (on : Bool)
deriving DecidableEq

end Aegis.Policy
