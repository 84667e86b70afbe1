import Aegis.Control.Tree
import Aegis.Protection.World
import Aegis.Refinement.Encodings
import Aegis.Refinement.Noninterference
import Aegis.Refinement.Restore

/-!
Owns the control files as files. A write to a control endpoint or to a sysctl
file goes through `open` and `write`, so the module's own file hooks judge it by
the name of the control file. A listed file stays protected in every run exactly
when four control files are listed as well: the one that removes files, and the
three switches without which a listed file can be written.

System calls run one at a time. The hooks are asked on every write, also through
descriptors that were opened before.

Does not own: other names of a control file, such as those under a second mount
of securityfs.
-/

namespace Aegis.Protection

open Aegis.Foundation
open Aegis.Kernel
open Aegis.Policy
open Aegis.Control
open Aegis.Refinement
open CString (ascii)

/-! ### Control files -/

/-- A file whose writes change the policy. -/
inductive ControlFile where
  | control (endpoint : Endpoint)
  | sysctl (knob : Knob)
deriving DecidableEq

/-- The canonical name, with securityfs and procfs mounted where `aegisctl.c`
expects them. -/
def ControlFile.name : ControlFile → CString
  | .control endpoint => .ofMemory (ascii "/sys/kernel/security/aegis/" ++ ascii endpoint.fileName)
  | .sysctl knob => .ofMemory (ascii "/proc/sys/kernel/aegis/" ++ ascii knob.procname)

/-- What a write brings to the handler of its file. A sysctl handler sees what
`proc_dointvec` made of the bytes. -/
structure Payload where
  env : ControlEnv
  ubuf : List UInt8
  dointvec : Dointvec

def ControlFile.operation (payload : Payload) : ControlFile → Operation
  | .control endpoint => .write payload.env endpoint payload.ubuf
  | .sysctl knob => .sysctl knob payload.dointvec

structure ControlHandle where
  file : ControlFile
  fMode : BitVec 32

structure Console where
  state : KernelState
  opened : List ControlHandle

inductive ConsoleCall where
  | openat (env : HookEnv) (file : ControlFile) (flags : BitVec 32)
  | write (env : HookEnv) (fd : Nat) (payload : Payload)
  | hook (env : HookEnv) (request : HookRequest)

/-- The page of a file hook is allocated, and `d_path` succeeds. -/
def ConsoleCall.Supplied : ConsoleCall → Prop
  | .openat env _ _ => env.page = true ∧ env.dPath = true
  | .write env _ _ => env.page = true ∧ env.dPath = true
  | .hook _ _ => True

section Calls

variable (shash : Shash) (console : Console)

def Console.openat (env : HookEnv) (file : ControlFile) (flags : BitVec 32) : Console × Int :=
  let judged :=
    (kernel shash).step console.state (.hook env (.fileOpen ⟨file.name, openFmode flags⟩))
  if judged.2 = 0 then
    (⟨judged.1, console.opened ++ [⟨file, openFmode flags⟩]⟩, console.opened.length)
  else (⟨judged.1, console.opened⟩, judged.2)

/-- The hook's question before a write. -/
def ControlHandle.permission (env : HookEnv) (handle : ControlHandle) : Operation :=
  .hook env (.filePermission ⟨handle.file.name, handle.fMode⟩ mayWrite)

def Console.write (env : HookEnv) (handle : ControlHandle) (payload : Payload) : Console × Int :=
  if hasBits handle.fMode fmodeWrite then
    let judged := (kernel shash).step console.state (handle.permission env)
    if judged.2 = 0 then
      let done := (kernel shash).step judged.1 (handle.file.operation payload)
      (⟨done.1, console.opened⟩, done.2)
    else (⟨judged.1, console.opened⟩, judged.2)
  else (console, Errno.ebadf.ret)

end Calls

/-- System calls on the control files, and hook calls for anything else. -/
def consoleCalls (shash : Shash) : Transducer Console ConsoleCall Int where
  step console
    | .openat env file flags => console.openat shash env file flags
    | .write env fd payload =>
        match console.opened[fd]? with
        | none => (console, Errno.ebadf.ret)
        | some handle => console.write shash env handle payload
    | .hook env request =>
        let judged := (kernel shash).step console.state (.hook env request)
        (⟨judged.1, console.opened⟩, judged.2)

/-- The files that have to be guarded for a listed file to stay protected. -/
def sealFiles : List ControlFile :=
  [.control .protectedFilesDel, .sysctl .enabled, .sysctl .features,
    .sysctl .fileIntegrityEnforce]

/-! ### What a call can do -/

theorem sameButCounters_hook (shash : Shash) (state : KernelState) (env : HookEnv)
    (request : HookRequest) :
    SameButCounters ((kernel shash).step state (.hook env request)).1 state := ⟨rfl, rfl⟩

/-- A call changes the counters only, or it is a write that the hook let through
to the handler of its file. -/
theorem consoleCalls_step_cases (shash : Shash) (console : Console) (call : ConsoleCall) :
    SameButCounters ((consoleCalls shash).step console call).1.state console.state ∨
      ∃ env fd payload, ∃ handle : ControlHandle, call = .write env fd payload ∧
        ((kernel shash).step console.state (handle.permission env)).2 = 0 ∧
        ((consoleCalls shash).step console call).1.state =
          ((kernel shash).step ((kernel shash).step console.state (handle.permission env)).1
            (handle.file.operation payload)).1 := by
  cases call with
  | openat env file flags =>
      left
      simp only [consoleCalls, Console.openat]
      split <;> exact sameButCounters_hook shash _ _ _
  | write env fd payload =>
      simp only [consoleCalls]
      cases console.opened[fd]? with
      | none => exact Or.inl ⟨rfl, rfl⟩
      | some handle =>
          simp only [Console.write]
          split
          · split
            · rename_i permitted
              exact Or.inr ⟨env, fd, payload, handle, rfl, permitted, rfl⟩
            · exact Or.inl (sameButCounters_hook shash _ _ _)
          · exact Or.inl ⟨rfl, rfl⟩
  | hook env request => exact Or.inl (sameButCounters_hook shash _ _ _)

/-! ### Guarded names -/

theorem guards_iff_listed {policy : PolicyState} {name : CString} :
    Guards policy name ↔ policy.cfg.featureCheck featureFileIntegrity = true ∧
      policy.cfg.fileIntegrityEnforce = true ∧
      ∃ path : PathKey, path.val = name ∧ (PolicyKey.file path).Listed policy := by
  constructor
  · intro guards
    obtain ⟨entry, member, same⟩ := guards.listed
    exact ⟨guards.active, guards.enforced, entry.key, same, List.mem_map_of_mem member⟩
  · rintro ⟨active, enforced, path, same, listed⟩
    obtain ⟨entry, member, isKey⟩ := List.mem_map.mp listed
    exact ⟨active, enforced, entry, member, (congrArg Subtype.val isKey).trans same⟩

theorem guards_of_view_eq {left right : PolicyState} (same : left.view = right.view)
    {name : CString} (guards : Guards left name) : Guards right name := by
  have cfg : left.cfg = right.cfg := congrArg PolicyView.cfg same
  have files : left.files = right.files := congrArg PolicyView.files same
  exact ⟨cfg ▸ guards.active, cfg ▸ guards.enforced, files ▸ guards.listed⟩

/-- What every operation keeps, from boot on. -/
structure Orderly (policy : PolicyState) : Prop where
  expressible : Expressible policy
  wellFormed : WellFormed (fun _ => True) policy

theorem orderly_of_reachable {shash : Shash} {policy : PolicyState}
    (reached : Reachable shash policy) : Orderly policy :=
  ⟨expressible_of_reachable reached, wellFormed_of_reachable reached⟩

/-- The counters do not matter. -/
theorem Orderly.of_sameButCounters {left right : KernelState} (orderly : Orderly right.policy)
    (same : SameButCounters left right) : Orderly left.policy := by
  obtain ⟨files, procs, syscalls⟩ := sameLists_of_view_eq same.view
  obtain ⟨⟨⟨fileKeys, procKeys, syscallKeys⟩, writable⟩, ⟨soundFiles, soundProcs, soundSyscalls⟩⟩ :=
    orderly
  rw [← files] at fileKeys soundFiles
  rw [← procs] at procKeys soundProcs
  rw [← syscalls] at syscallKeys soundSyscalls
  refine ⟨⟨⟨fileKeys, procKeys, syscallKeys⟩, fun key listed => writable key ?_⟩,
    ⟨soundFiles, soundProcs, soundSyscalls⟩⟩
  cases key with
  | file path =>
      rw [PolicyKey.Listed, files] at listed
      exact listed
  | proc comm pid =>
      rw [PolicyKey.Listed, procs] at listed
      exact listed
  | syscall nr =>
      rw [PolicyKey.Listed, syscalls] at listed
      exact listed

section Steps

variable (shash : Shash) {state : KernelState} (orderly : Orderly state.policy)

include orderly

theorem Orderly.step (operation : Operation) :
    Orderly ((kernel shash).step state operation).1.policy := by
  have good : AddsGoodFile (fun _ => True) operation := by
    cases operation with
    | write env endpoint ubuf => cases endpoint <;> simp [AddsGoodFile]
    | sysctl knob result => trivial
    | hook env request => trivial
  exact ⟨orderly.expressible.step shash operation, orderly.wellFormed.step shash good⟩

/-- The hook lets no write to a guarded control file through. -/
theorem Orderly.not_guards_of_permitted {env : HookEnv} {handle : ControlHandle}
    (supplied : env.page = true ∧ env.dPath = true)
    (permitted : ((kernel shash).step state (handle.permission env)).2 = 0) :
    ¬ Guards state.policy handle.file.name := by
  intro guards
  have counted : state.policy.files.Counted := orderly.wellFormed.files.counted
  obtain ⟨entry, member, -⟩ := guards.listed
  have denied : (runHook state.policy env
      (.filePermission ⟨handle.file.name, handle.fMode⟩ mayWrite)).ret ≠ 0 :=
    aegisFilePermission_ret_ne_zero.mpr ⟨(deniesWrite_iff (by decide)).mpr guards,
      counted.count_ne_zero member, supplied.1, supplied.2⟩
  exact denied permitted

/-- Every other endpoint leaves the listed files listed. -/
theorem Orderly.listed_write {endpoint : Endpoint} (other : endpoint ≠ .protectedFilesDel)
    (env : ControlEnv) (ubuf : List UInt8) {path : PathKey}
    (listed : (PolicyKey.file path).Listed state.policy) :
    (PolicyKey.file path).Listed (aectlWrite shash env endpoint ubuf state.policy).policy := by
  rw [aectlWrite_eq]
  cases parsed : parseWrite env endpoint ubuf with
  | error ret => exact listed
  | ok command =>
      have isEndpoint := (parseWrite_eq_ok_iff.mp parsed).2.endpoint_eq
      apply (orderly.expressible.distinct.listed_perform shash env ubuf.length command _).mpr
      by_cases own : (command.perform shash env ubuf.length state.policy).ret = ubuf.length ∧
          commandKey command = .file path
      · refine Or.inl ⟨own.1, own.2, ?_⟩
        cases command with
        | addFile added nonempty => rfl
        | delFile removed nonempty => exact absurd isEndpoint.symm other
        | _ => exact absurd own.2 (by simp [commandKey])
      · exact Or.inr ⟨own, listed⟩

/-- A control file outside the four leaves every guard in place. -/
theorem Orderly.guards_operation {file : ControlFile} (outside : file ∉ sealFiles)
    (payload : Payload) {name : CString} (guards : Guards state.policy name) :
    Guards ((kernel shash).step state (file.operation payload)).1.policy name := by
  obtain ⟨active, enforced, path, same, listed⟩ := guards_iff_listed.mp guards
  apply guards_iff_listed.mpr
  cases file with
  | control endpoint =>
      have cfg := aectlWrite_cfg shash payload.env endpoint payload.ubuf state.policy
      have other : endpoint ≠ .protectedFilesDel := by
        rintro rfl
        exact outside (by decide)
      refine ⟨?_, ?_, path, same, orderly.listed_write shash other payload.env payload.ubuf listed⟩
      · exact (congrArg (AegisConfig.featureCheck · featureFileIntegrity) cfg).trans active
      · exact (congrArg AegisConfig.fileIntegrityEnforce cfg).trans enforced
  | sysctl knob =>
      have cfg := aegisSysctlHandler_write_cfg knob payload.dointvec state.mirrors state.policy.cfg
      have kept : ∀ value, (state.policy.cfg.commit knob value).featureCheck featureFileIntegrity =
            state.policy.cfg.featureCheck featureFileIntegrity ∧
          (state.policy.cfg.commit knob value).fileIntegrityEnforce =
            state.policy.cfg.fileIntegrityEnforce := by
        intro value
        cases knob with
        | enabled => exact absurd (by decide) outside
        | features => exact absurd (by decide) outside
        | fileIntegrityEnforce => exact absurd (by decide) outside
        | _ => exact ⟨rfl, rfl⟩
      refine ⟨?_, ?_, path, same, listed⟩
      · refine (congrArg (AegisConfig.featureCheck · featureFileIntegrity) cfg).trans ?_
        split
        · exact (kept _).1.trans active
        · exact active
      · refine (congrArg AegisConfig.fileIntegrityEnforce cfg).trans ?_
        split
        · exact (kept _).2.trans enforced
        · exact enforced

/-- The line of a listed file, written to the deleting endpoint, removes it. -/
theorem Orderly.not_listed_of_deleted {path : PathKey}
    (listed : (PolicyKey.file path).Listed state.policy) :
    ¬ (PolicyKey.file path).Listed (aectlWrite shash administrator .protectedFilesDel
      (PolicyKey.file path).line state.policy).policy := by
  have writable := orderly.expressible.writable _ listed
  obtain ⟨command, parsed, isKey, isDel⟩ :=
    PolicyKey.parse_line writable false (⟨rfl, fun _ => rfl, rfl⟩ :
      Delivered administrator ((PolicyKey.file path).endpoint false))
  have written : aectlWrite shash administrator .protectedFilesDel (PolicyKey.file path).line
      state.policy = command.perform shash administrator (PolicyKey.file path).line.length
        state.policy := by
    rw [aectlWrite_eq, show parseWrite administrator .protectedFilesDel _ = _ from parsed]
  have returned : (command.perform shash administrator (PolicyKey.file path).line.length
      state.policy).ret = (PolicyKey.file path).line.length := by
    cases command with
    | delFile removed nonempty =>
        obtain rfl : removed = path := PolicyKey.file.inj isKey
        have present : state.policy.files.listed (filePathHit removed.val) = true :=
          (Registry.listed_iff_mem_keys (filePathHit_hitsKey removed) _).mpr listed
        simp [Command.perform, aegisProtectedFileDel, listDel, present, writeResult]
    | addFile added nonempty => cases isDel
    | _ => cases isKey
  rw [written, orderly.expressible.distinct.listed_perform]
  simp [returned, isKey, isDel]

/-- A write to any of the four that takes the guard off a name. -/
theorem Orderly.exists_revocation {file : ControlFile} (inSeal : file ∈ sealFiles)
    (name : CString) :
    ∃ payload, ¬ Guards ((kernel shash).step state (file.operation payload)).1.policy name := by
  have switchedOff : ∀ knob, (∀ cfg : AegisConfig,
      ¬ ((cfg.commit knob 0).featureCheck featureFileIntegrity = true ∧
        (cfg.commit knob 0).fileIntegrityEnforce = true)) →
      ∃ payload, ¬ Guards ((kernel shash).step state
        ((ControlFile.sysctl knob).operation payload)).1.policy name := by
    intro knob off
    refine ⟨⟨administrator, [], .stored 0⟩, fun guards => off state.policy.cfg ?_⟩
    have cfg := aegisSysctlHandler_write_cfg knob (.stored 0) state.mirrors state.policy.cfg
    have stored : (Dointvec.stored 0).mirrors knob state.mirrors knob = 0 :=
      Function.update_self knob 0 state.mirrors
    rw [if_pos (show (Dointvec.stored 0).ret = 0 from rfl), stored] at cfg
    rw [← cfg]
    exact ⟨guards.active, guards.enforced⟩
  simp only [sealFiles, List.mem_cons, List.not_mem_nil, or_false] at inSeal
  rcases inSeal with rfl | rfl | rfl | rfl
  · by_cases listed : ∃ path : PathKey, path.val = name ∧ (PolicyKey.file path).Listed state.policy
    · obtain ⟨path, same, isListed⟩ := listed
      refine ⟨⟨administrator, (PolicyKey.file path).line, .kept⟩, fun guards => ?_⟩
      obtain ⟨-, -, other, sameOther, stillListed⟩ := guards_iff_listed.mp guards
      obtain rfl : path = other := Subtype.ext (same.trans sameOther.symm)
      exact orderly.not_listed_of_deleted shash isListed stillListed
    · refine ⟨⟨{ administrator with capable := false }, [], .kept⟩, fun guards => listed ?_⟩
      have unchanged := aectlWrite_of_incapable shash { administrator with capable := false }
        .protectedFilesDel [] rfl state.policy
      have before : Guards state.policy name := by
        rw [← unchanged]
        exact guards
      exact (guards_iff_listed.mp before).2.2
  · exact switchedOff .enabled fun cfg both => absurd both.1 (by simp [AegisConfig.commit,
      AegisConfig.featureCheck])
  · exact switchedOff .features fun cfg both => absurd both.1 (by simp [AegisConfig.commit,
      AegisConfig.featureCheck, hasBits])
  · exact switchedOff .fileIntegrityEnforce fun cfg both => absurd both.2 (by simp [
      AegisConfig.commit])

end Steps

/-! ### Runs -/

section Runs

variable (shash : Shash) {console : Console}

/-- The four control files and the name are guarded. -/
structure Sealed (name : CString) (console : Console) : Prop where
  orderly : Orderly console.state.policy
  controls : ∀ file ∈ sealFiles, Guards console.state.policy file.name
  guards : Guards console.state.policy name

theorem Sealed.step {name : CString} {call : ConsoleCall} (supplied : call.Supplied)
    (secured : Sealed name console) : Sealed name ((consoleCalls shash).step console call).1 := by
  rcases consoleCalls_step_cases shash console call with
    same | ⟨env, fd, payload, handle, rfl, permitted, after⟩
  · exact ⟨secured.orderly.of_sameButCounters same,
      fun file inSeal => guards_of_view_eq same.view.symm (secured.controls file inSeal),
      guards_of_view_eq same.view.symm secured.guards⟩
  · have unguarded := secured.orderly.not_guards_of_permitted shash supplied permitted
    have outside : handle.file ∉ sealFiles := fun inSeal =>
      unguarded (secured.controls handle.file inSeal)
    have judged : SameButCounters ((kernel shash).step console.state (handle.permission env)).1
        console.state := sameButCounters_hook shash _ _ _
    have orderly := secured.orderly.of_sameButCounters judged
    constructor
    · rw [after]
      exact orderly.step shash _
    · intro file inSeal
      rw [after]
      exact orderly.guards_operation shash outside payload
        (guards_of_view_eq judged.view.symm (secured.controls file inSeal))
    · rw [after]
      exact orderly.guards_operation shash outside payload
        (guards_of_view_eq judged.view.symm secured.guards)

/-- An unguarded control file can be opened and written. -/
theorem exists_calls_of_unguarded {file : ControlFile}
    (unguarded : ¬ Guards console.state.policy file.name) :
    ∃ state, SameButCounters state console.state ∧
      ∀ payload, ∃ calls : List ConsoleCall, (∀ call ∈ calls, call.Supplied) ∧
        ((consoleCalls shash).run console calls).1.state =
          ((kernel shash).step state (file.operation payload)).1 := by
  let env := suppliedEnv ⟨⟨.empty, 0⟩, ⟨.empty, 0⟩⟩
  let handle : ControlHandle := ⟨file, openFmode 1⟩
  have writes : hasBits (openFmode 1) fmodeWrite = true := by decide
  have allowed : ∀ state : KernelState, SameButCounters state console.state →
      ((kernel shash).step state (.hook env (.fileOpen ⟨file.name, openFmode 1⟩))).2 = 0 ∧
        ((kernel shash).step state (handle.permission env)).2 = 0 := by
    intro state same
    have stillUnguarded : ¬ Guards state.policy file.name := fun guards =>
      unguarded (guards_of_view_eq same.view guards)
    constructor
    · by_contra denied
      have deniedOpen := (aegisFileOpen_ret_ne_zero.mp denied).1
      exact stillUnguarded ((deniesWrite_iff ((openMask_writes _).trans writes)).mp deniedOpen)
    · by_contra denied
      have deniedWrite := (aegisFilePermission_ret_ne_zero.mp denied).1
      exact stillUnguarded ((deniesWrite_iff (by decide)).mp deniedWrite)
  let opened := ((kernel shash).step console.state
    (.hook env (.fileOpen ⟨file.name, openFmode 1⟩))).1
  have sameOpened : SameButCounters opened console.state := sameButCounters_hook shash _ _ _
  let judged := ((kernel shash).step opened (handle.permission env)).1
  refine ⟨judged, ⟨sameOpened.view, sameOpened.mirrors⟩, fun payload => ?_⟩
  refine ⟨[.openat env file 1, .write env console.opened.length payload], ?_, ?_⟩
  · simp [ConsoleCall.Supplied, env, suppliedEnv]
  · have openStep : ((consoleCalls shash).step console (.openat env file 1)).1 =
        ⟨opened, console.opened ++ [handle]⟩ := by
      simp only [consoleCalls, Console.openat, (allowed console.state ⟨rfl, rfl⟩).1, if_true]
      rfl
    have mode : hasBits handle.fMode fmodeWrite = true := writes
    rw [Transducer.run_cons, Transducer.run_cons, openStep]
    simp only [Transducer.run_nil, consoleCalls, List.getElem?_concat_length, Console.write, mode,
      if_true, (allowed opened sameOpened).2]
    rfl

/-- From every reachable policy in which a name is guarded: no system calls on
the control files can ever make it writable exactly when the four control files
are guarded too. -/
theorem protection_irrevocable_iff (console : Console) (victim : CString)
    (reached : Reachable shash console.state.policy)
    (guarded : Guards console.state.policy victim) :
    (∀ calls : List ConsoleCall, (∀ call ∈ calls, call.Supplied) →
      DeniesWrites ((consoleCalls shash).run console calls).1.state.policy victim) ↔
        ∀ file ∈ sealFiles, Guards console.state.policy file.name := by
  have orderly := orderly_of_reachable reached
  constructor
  · intro denies file inSeal
    by_contra unguarded
    obtain ⟨state, same, reach⟩ := exists_calls_of_unguarded shash unguarded
    have stillOrderly := orderly.of_sameButCounters same
    obtain ⟨payload, revoked⟩ := stillOrderly.exists_revocation shash inSeal victim
    obtain ⟨calls, supplied, final⟩ := reach payload
    have denied := denies calls supplied
    rw [final] at denied
    have counted := (stillOrderly.step shash (file.operation payload)).wellFormed.files.counted
    exact revoked ((deniesWrites_iff counted victim).mp denied)
  · intro controls calls supplied
    have secured : Sealed victim ((consoleCalls shash).run console calls).1 :=
      Transducer.run_of_forall (Sealed victim) (fun _ _ allowed holds => holds.step shash allowed)
        ⟨orderly, controls, guarded⟩ supplied
    exact (deniesWrites_iff secured.orderly.wellFormed.files.counted victim).mpr secured.guards

end Runs

/-- The four names listed after boot, with a descriptor of `enabled` that was
opened before. -/
def selfGuarded : Console where
  state :=
    { policy := afterWriting .protectedFilesAdd (sealFiles.map fun file => file.name.bytes)
      mirrors := sysctlMirrors }
  opened := [⟨.sysctl .enabled, openFmode 1⟩]

theorem protection_irrevocable_iff_selfGuarded :
    DeniesWrites ((consoleCalls sha256Shash).run selfGuarded
      [.write (suppliedEnv shell) 0 ⟨administrator, [], .stored 0⟩]).1.state.policy
        (ControlFile.name (.control .protectedFilesDel)) := by
  have reached : Reachable sha256Shash selfGuarded.state.policy :=
    afterWriting_reachableBy fun _ _ => trivial
  have controls : ∀ file ∈ sealFiles, Guards selfGuarded.state.policy file.name := by
    decide +kernel
  apply (protection_irrevocable_iff sha256Shash selfGuarded
    (ControlFile.name (.control .protectedFilesDel)) reached
    (controls _ List.mem_cons_self)).mpr controls
  simp [ConsoleCall.Supplied, suppliedEnv]

end Aegis.Protection
