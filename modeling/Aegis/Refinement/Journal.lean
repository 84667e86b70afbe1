import Aegis.Policy.Messages
import Aegis.Refinement.Reachable

/-!
Owns the messages of a run: what `aegis_init` and the deferred creation of the
securityfs files log, what every operation logs, and the whole from the boot on.
Only the registration of the sysctl files can make `aegis_init` fail; the hooks
are registered before anything else, so the policy is `boot` in either case, and
there are operations before and after the securityfs files exist.

Does not own: the tree of securityfs files, or the order of messages of calls
that overlap.
-/

namespace Aegis.Refinement

open Aegis.Foundation
open Aegis.Kernel
open Aegis.Policy
open Aegis.Control

/-! ### Initialization -/

/-- The outcomes of the allocations for the default entries and of
`register_sysctl`. -/
structure InitEnv where
  procAlloc : Fin 3 → Bool
  syscallAlloc : Fin 5 → Bool
  registerSysctl : Bool

def bannerLines : List Message :=
  [.startup .rule, .startup .title, .startup .subtitle, .startup .rule, .startup .initializing]

def shieldLines : List Message :=
  [.startup .rule, .startup .shieldUp, .features aegisCfg.features, .startup .rule]

/-- The return value of `aegis_init`, and its messages in order. -/
def aegisInit (env : InitEnv) : Int × List Message :=
  let started := bannerLines ++
    (aegisProcessInit env.procAlloc).log.map .logged ++
    [.startup (.active .process), .startup (.active .file)] ++
    (aegisAuditInit env.syscallAlloc).log.map .logged ++
    [.startup (.active .audit), .startup (.active .module)]
  if env.registerSysctl then
    (0, started ++ [.startup .sysctlCreated, .startup (.active .sysctl)] ++ shieldLines)
  else
    (Errno.enomem.ret, started ++ [.startup .sysctlRefused, .failure .sysctl .enomem])

/-- How the deferred creation of the securityfs files ends. -/
inductive SecurityfsResult where
  | created
  | directoryFailed (error : Errno)
  | entryFailed (error : Errno)

/-- The messages of `aegis_securityfs_late_init`. -/
def aegisSecurityfsLateInit : SecurityfsResult → List Message
  | .created => [.startup .controlReady, .startup .securityfsCreated]
  | .directoryFailed error => [.failure .directory error, .failure .deferred error]
  | .entryFailed error => [.failure .entry error, .failure .deferred error]

/-! ### Operations -/

/-- What an operation logs. -/
def logOf (shash : Shash) (state : KernelState) : Operation → List LogRecord
  | .write env endpoint ubuf => (aectlWrite shash env endpoint ubuf state.policy).log
  | .sysctl knob result =>
      (aegisSysctlHandler knob true result state.mirrors state.policy.cfg).log
  | .hook env request => (runHook state.policy env request).log

def runLog (shash : Shash) (state : KernelState) : List Operation → List LogRecord
  | [] => []
  | operation :: rest =>
      logOf shash state operation ++ runLog shash ((kernel shash).step state operation).1 rest

/-- A run of the system, from its boot: the operations before and after the
securityfs files are created. -/
structure Uptime where
  env : InitEnv
  early : List Operation
  securityfs : SecurityfsResult
  operations : List Operation

/-- All messages since the boot. -/
def Uptime.messages (shash : Shash) (uptime : Uptime) : List Message :=
  let boot := KernelState.bootWith uptime.env.procAlloc uptime.env.syscallAlloc
  (aegisInit uptime.env).2 ++ (runLog shash boot uptime.early).map .logged ++
    aegisSecurityfsLateInit uptime.securityfs ++
    (runLog shash ((kernel shash).run boot uptime.early).1 uptime.operations).map .logged

end Aegis.Refinement
