import Aegis.Foundation.Unwinding
import Aegis.Policy.HookCode
import Aegis.Refinement.Sequential

/-!
Owns what an operation cannot influence. Hook calls, control writes without the
capability and refused sysctl writes leave no trace: without them every other
operation answers as before, and the configuration, the lists and the mirrors
end as before. The master switch hides the policy from the hooks and from
nothing else: what is administered while it is off is in force once it is on.

Does not own: the counters, which hooks do change, and interleaved calls.
-/

namespace Aegis.Refinement

open Aegis.Foundation
open Aegis.Kernel
open Aegis.Policy
open Aegis.Control

/-! ### What an operation reads -/

/-- The verdict of a hook depends on what it reads of the policy, not on the
counters. -/
theorem runHook_ret_of_view_eq {left right : PolicyState} (same : left.view = right.view)
    (env : HookEnv) (request : HookRequest) :
    (runHook left env request).ret = (runHook right env request).ret := by
  rw [← hookCode_outcome, ← hookCode_outcome]
  simp only [HookCode.outcome, same]

/-- The lists of a policy. -/
structure SameLists (left right : PolicyState) : Prop where
  files : left.files = right.files
  procs : left.procs = right.procs
  syscalls : left.syscalls = right.syscalls

theorem sameLists_of_view_eq {left right : PolicyState} (same : left.view = right.view) :
    SameLists left right where
  files := congrArg PolicyView.files same
  procs := congrArg PolicyView.procs same
  syscalls := congrArg PolicyView.syscalls same

theorem view_eq_of_sameLists {left right : PolicyState} (lists : SameLists left right)
    (cfg : left.cfg = right.cfg) : left.view = right.view := by
  rw [PolicyState.view, PolicyState.view, lists.files, lists.procs, lists.syscalls, cfg]

section Writes

variable (shash : Shash) (env : ControlEnv) (endpoint : Endpoint) (ubuf : List UInt8)

/-- A control write reads the lists only. -/
theorem aectlWrite_of_sameLists {left right : PolicyState} (same : SameLists left right) :
    (aectlWrite shash env endpoint ubuf left).ret =
        (aectlWrite shash env endpoint ubuf right).ret ∧
      SameLists (aectlWrite shash env endpoint ubuf left).policy
        (aectlWrite shash env endpoint ubuf right).policy := by
  obtain ⟨files, procs, syscalls⟩ := same
  rw [aectlWrite_eq, aectlWrite_eq]
  cases parseWrite env endpoint ubuf with
  | error ret => exact ⟨rfl, files, procs, syscalls⟩
  | ok command =>
      cases command <;>
        exact ⟨by simp only [Command.perform, files, procs, syscalls],
          by simp only [Command.perform, files], by simp only [Command.perform, procs],
          by simp only [Command.perform, syscalls]⟩

/-- Without the capability a write changes nothing. -/
theorem aectlWrite_of_incapable (incapable : env.capable = false) (policy : PolicyState) :
    (aectlWrite shash env endpoint ubuf policy).policy = policy := by
  have refused : refusal env endpoint ubuf = some Errno.eperm.ret := by
    simp [refusal, incapable]
  have parsed : parseWrite env endpoint ubuf = .error Errno.eperm.ret := by
    simp only [parseWrite, refused]
  rw [aectlWrite_eq, parsed]
  rfl

end Writes

/-! ### Operations without privilege -/

/-- Hook calls, which any task causes, and administration that is refused
because its caller lacks the capability or `proc_dointvec` fails. -/
def Operation.Unprivileged : Operation → Prop
  | .write env _ _ => env.capable = false
  | .sysctl _ result => result.ret ≠ 0
  | .hook _ _ => True

/-- All but the counters. -/
structure SameButCounters (left right : KernelState) : Prop where
  view : left.policy.view = right.policy.view
  mirrors : left.mirrors = right.mirrors

theorem sameButCounters_step (shash : Shash) {left right : KernelState}
    (same : SameButCounters left right) (operation : Operation) :
    ((kernel shash).step left operation).2 = ((kernel shash).step right operation).2 ∧
      SameButCounters ((kernel shash).step left operation).1
        ((kernel shash).step right operation).1 := by
  have cfg : left.policy.cfg = right.policy.cfg := congrArg PolicyView.cfg same.view
  have lists := sameLists_of_view_eq same.view
  cases operation with
  | write env endpoint ubuf =>
      obtain ⟨ret, after⟩ := aectlWrite_of_sameLists shash env endpoint ubuf lists
      refine ⟨ret, view_eq_of_sameLists after ?_, same.mirrors⟩
      exact (aectlWrite_cfg shash env endpoint ubuf _).trans
        (cfg.trans (aectlWrite_cfg shash env endpoint ubuf _).symm)
  | sysctl knob result =>
      simp only [kernel, same.mirrors, cfg, true_and]
      exact ⟨view_eq_of_sameLists ⟨lists.files, lists.procs, lists.syscalls⟩ rfl, rfl⟩
  | hook env request =>
      exact ⟨runHook_ret_of_view_eq same.view env request, same.view, same.mirrors⟩

theorem sameButCounters_of_unprivileged (shash : Shash) {state : KernelState}
    {operation : Operation} (unprivileged : operation.Unprivileged) :
    SameButCounters ((kernel shash).step state operation).1 state := by
  cases operation with
  | write env endpoint ubuf =>
      refine ⟨congrArg PolicyState.view ?_, rfl⟩
      exact aectlWrite_of_incapable shash env endpoint ubuf unprivileged state.policy
  | sysctl knob result =>
      have cfg := aegisSysctlHandler_write_cfg knob result state.mirrors state.policy.cfg
      rw [if_neg unprivileged] at cfg
      refine ⟨view_eq_of_sameLists ⟨rfl, rfl, rfl⟩ cfg, ?_⟩
      exact (aegisSysctlHandler_write_mirrors knob result state.mirrors state.policy.cfg).trans
        (Dointvec.mirrors_of_failed unprivileged knob state.mirrors)
  | hook env request => exact ⟨rfl, rfl⟩

theorem kernel_unwinds (shash : Shash) :
    (kernel shash).Unwinds Operation.Unprivileged (fun _ => True) SameButCounters where
  hides {left right operation} unprivileged same := by
    have unchanged : SameButCounters ((kernel shash).step left operation).1 left :=
      sameButCounters_of_unprivileged shash unprivileged
    exact ⟨unchanged.view.trans same.view, unchanged.mirrors.trans same.mirrors⟩
  respects input same := (sameButCounters_step shash same input).2
  answers _ same := (sameButCounters_step shash same _).1

/-- From any state, leave any unprivileged operations out of a run: every other
operation answers as before, and the configuration, the lists and the mirrors
end as before. -/
theorem unprivileged_operations_leave_no_trace (shash : Shash) (start : KernelState)
    (operations kept : List Operation)
    (purged : Purged Operation.Unprivileged Eq operations kept) :
    Purged (fun answered => answered.1.Unprivileged) Eq
        ((kernel shash).trace start operations) ((kernel shash).trace start kept) ∧
      ((kernel shash).run start operations).1.policy.view =
        ((kernel shash).run start kept).1.policy.view ∧
      ((kernel shash).run start operations).1.mirrors =
        ((kernel shash).run start kept).1.mirrors := by
  have related : SameButCounters start start := ⟨rfl, rfl⟩
  obtain ⟨traces, final⟩ := (kernel_unwinds shash).run purged related
  refine ⟨traces.imp ?_, final.view, final.mirrors⟩
  intro first second sameAnswer
  exact Prod.ext sameAnswer.1 (sameAnswer.2 trivial)

/-- A task that tries to write a listed file, and to take it off the list. -/
def interference : List Operation :=
  [.write administrator .protectedFilesAdd (CString.ascii "/etc/passwd\n"),
    .write { administrator with capable := false } .protectedFilesDel
      (CString.ascii "/etc/passwd\n"),
    .hook ⟨shell, true, true⟩ (.filePermission passwd mayWrite),
    .write administrator .protectedFilesAdd (CString.ascii "/etc/shadow\n")]

theorem unprivileged_operations_leave_no_trace_passwd :
    ((kernel sha256Shash).run .boot interference).1.policy.view =
      ((kernel sha256Shash).run .boot
        [.write administrator .protectedFilesAdd (CString.ascii "/etc/passwd\n"),
          .write administrator .protectedFilesAdd (CString.ascii "/etc/shadow\n")]).1.policy.view :=
  (unprivileged_operations_leave_no_trace sha256Shash .boot interference _
    (.keep rfl (.drop rfl (.drop trivial (.keep rfl .nil))))).2.1

/-! ### The master switch -/

/-- Write a value to `/proc/sys/kernel/aegis/enabled`. -/
def switchTo (value : Int) : Operation := .sysctl .enabled (.stored value)

def Operation.IsHook : Operation → Prop
  | .hook _ _ => True
  | _ => False

/-- All but the counters and the master switch. -/
structure SameButSwitch (left right : KernelState) : Prop where
  lists : SameLists left.policy right.policy
  cfg : left.policy.cfg.commit .enabled 0 = right.policy.cfg.commit .enabled 0
  mirrors : ∀ knob, knob ≠ .enabled → left.mirrors knob = right.mirrors knob

/-- A sysctl write of either side, seen with the switch off. -/
theorem sysctl_cfg_switchedOff (knob : Knob) (result : Dointvec) (mirrors : SysctlMirrors)
    (cfg : AegisConfig) :
    (aegisSysctlHandler knob true result mirrors cfg).cfg.commit .enabled 0 =
      if result.ret = 0 ∧ knob ≠ .enabled then
        (cfg.commit .enabled 0).commit knob (result.mirrors knob mirrors knob)
      else cfg.commit .enabled 0 := by
  rw [aegisSysctlHandler_write_cfg]
  by_cases succeeded : result.ret = 0
  · by_cases switch : knob = .enabled
    · subst switch
      simp [succeeded, AegisConfig.commit_commit]
    · simp [succeeded, switch, AegisConfig.commit_comm]
  · simp [succeeded]

theorem sameButSwitch_step (shash : Shash) {left right : KernelState}
    (same : SameButSwitch left right) (operation : Operation) :
    SameButSwitch ((kernel shash).step left operation).1
      ((kernel shash).step right operation).1 := by
  cases operation with
  | write env endpoint ubuf =>
      obtain ⟨-, lists⟩ := aectlWrite_of_sameLists shash env endpoint ubuf same.lists
      refine ⟨lists, ?_, same.mirrors⟩
      show (aectlWrite shash env endpoint ubuf left.policy).policy.cfg.commit .enabled 0 =
        (aectlWrite shash env endpoint ubuf right.policy).policy.cfg.commit .enabled 0
      rw [aectlWrite_cfg, aectlWrite_cfg]
      exact same.cfg
  | sysctl knob result =>
      have committed : knob ≠ .enabled →
          result.mirrors knob left.mirrors knob = result.mirrors knob right.mirrors knob := by
        intro other
        cases result with
        | stored value => simp [Dointvec.mirrors]
        | kept => exact same.mirrors knob other
        | failed error => exact same.mirrors knob other
      refine ⟨⟨same.lists.files, same.lists.procs, same.lists.syscalls⟩, ?_, ?_⟩
      · show (aegisSysctlHandler knob true result left.mirrors left.policy.cfg).cfg.commit
            .enabled 0 =
          (aegisSysctlHandler knob true result right.mirrors right.policy.cfg).cfg.commit
            .enabled 0
        rw [sysctl_cfg_switchedOff, sysctl_cfg_switchedOff, same.cfg]
        split_ifs with commits
        · rw [committed commits.2]
        · rfl
      · intro other notSwitch
        show (aegisSysctlHandler knob true result left.mirrors left.policy.cfg).mirrors other =
          (aegisSysctlHandler knob true result right.mirrors right.policy.cfg).mirrors other
        rw [aegisSysctlHandler_write_mirrors, aegisSysctlHandler_write_mirrors]
        by_cases own : other = knob
        · subst own
          exact committed notSwitch
        · rw [result.mirrors_of_ne own, result.mirrors_of_ne own]
          exact same.mirrors other notSwitch
  | hook env request =>
      exact ⟨⟨same.lists.files, same.lists.procs, same.lists.syscalls⟩, same.cfg, same.mirrors⟩

theorem kernel_unwinds_switch (shash : Shash) :
    (kernel shash).Unwinds (fun _ => False) (fun operation => ¬ operation.IsHook)
      SameButSwitch where
  hides := False.elim
  respects operation same := sameButSwitch_step shash same operation
  answers {left right operation} notHook same := by
    cases operation with
    | write env endpoint ubuf =>
        exact (aectlWrite_of_sameLists shash env endpoint ubuf same.lists).1
    | sysctl knob result =>
        show (aegisSysctlHandler knob true result left.mirrors left.policy.cfg).ret =
          (aegisSysctlHandler knob true result right.mirrors right.policy.cfg).ret
        rw [aegisSysctlHandler_eq]
        simp only [procHandler]
        split_ifs <;> rfl
    | hook env request => exact absurd trivial notHook

theorem sameButSwitch_switchTo (shash : Shash) (state : KernelState) (value : Int) :
    SameButSwitch ((kernel shash).step state (switchTo value)).1 state where
  lists := ⟨rfl, rfl, rfl⟩
  cfg := by
    show (aegisSysctlHandler .enabled true (.stored value) state.mirrors
      state.policy.cfg).cfg.commit .enabled 0 = _
    rw [sysctl_cfg_switchedOff, if_neg (by simp)]
  mirrors other notSwitch := by
    show (aegisSysctlHandler .enabled true (.stored value) state.mirrors
      state.policy.cfg).mirrors other = _
    rw [aegisSysctlHandler_write_mirrors, Dointvec.mirrors_of_ne _ notSwitch]

/-- Where only the switch differs, writing it makes all but the counters
equal. -/
theorem SameButSwitch.switchTo {left right : KernelState} (same : SameButSwitch left right)
    (shash : Shash) (value : Int) :
    SameButCounters ((kernel shash).step left (switchTo value)).1
      ((kernel shash).step right (switchTo value)).1 := by
  have committed : ∀ state : KernelState,
      ((kernel shash).step state (Refinement.switchTo value)).1.policy.cfg =
        (state.policy.cfg.commit .enabled 0).commit .enabled value := by
    intro state
    have written := aegisSysctlHandler_write_cfg .enabled (.stored value) state.mirrors
      state.policy.cfg
    simp only [Dointvec.ret, Dointvec.mirrors, Function.update_self, if_true] at written
    rw [AegisConfig.commit_commit]
    exact written
  refine ⟨view_eq_of_sameLists ⟨same.lists.files, same.lists.procs, same.lists.syscalls⟩ ?_, ?_⟩
  · rw [committed, committed, same.cfg]
  · show (aegisSysctlHandler .enabled true (.stored value) left.mirrors left.policy.cfg).mirrors =
      (aegisSysctlHandler .enabled true (.stored value) right.mirrors right.policy.cfg).mirrors
    rw [aegisSysctlHandler_write_mirrors, aegisSysctlHandler_write_mirrors]
    funext knob
    by_cases switch : knob = .enabled
    · subst switch
      simp [Dointvec.mirrors]
    · rw [Dointvec.mirrors_of_ne _ switch, Dointvec.mirrors_of_ne _ switch]
      exact same.mirrors knob switch

/-- With the switch off a hook allows, counts nothing and logs nothing. -/
theorem runHook_of_disabled {policy : PolicyState} (disabled : policy.cfg.enabled = false)
    (env : HookEnv) (request : HookRequest) : runHook policy env request = .allow policy := by
  have features : ∀ feature, policy.cfg.featureCheck feature = false := by
    intro feature
    simp [AegisConfig.featureCheck, disabled]
  cases request with
  | fileOpen file => simp [runHook, aegisFileOpen, aegisFilePermission, features]
  | _ =>
      simp [runHook, aegisTaskAlloc, aegisTaskFree, aegisPtraceAccessCheck, aegisPtraceTraceme,
        aegisFilePermission, aegisKernelReadFile, aegisKernelLoadData, aegisBprmCheckSecurity,
        aegisSocketCreate, aegisInodePermission, features, disabled]

theorem commit_enabled_of_ne {knob : Knob} (other : knob ≠ .enabled)
    (cfg : AegisConfig) (value : Int) : (cfg.commit knob value).enabled = cfg.enabled := by
  cases knob with
  | enabled => exact absurd rfl other
  | _ => rfl

/-- The operation writes the master switch. -/
def Operation.WritesSwitch : Operation → Prop
  | .sysctl knob _ => knob = .enabled
  | _ => False

/-- What holds of a policy that is switched off. -/
structure Paused (stats : AegisStats) (state : KernelState) : Prop where
  disabled : state.policy.cfg.enabled = false
  uncounted : state.policy.stats = stats

theorem Paused.step {stats : AegisStats} {state : KernelState} (paused : Paused stats state)
    (shash : Shash) {operation : Operation} (other : ¬ operation.WritesSwitch) :
    Paused stats ((kernel shash).step state operation).1 := by
  cases operation with
  | write env endpoint ubuf =>
      exact ⟨(congrArg AegisConfig.enabled (aectlWrite_cfg shash env endpoint ubuf _)).trans
          paused.disabled,
        (aectlWrite_stats shash env endpoint ubuf _).trans paused.uncounted⟩
  | sysctl knob result =>
      refine ⟨?_, paused.uncounted⟩
      show (aegisSysctlHandler knob true result state.mirrors state.policy.cfg).cfg.enabled = false
      rw [aegisSysctlHandler_write_cfg]
      split_ifs with succeeded
      · rw [commit_enabled_of_ne other]
        exact paused.disabled
      · exact paused.disabled
  | hook env request =>
      refine ⟨paused.disabled, ?_⟩
      show (runHook state.policy env request).stats = stats
      rw [runHook_of_disabled paused.disabled]
      exact paused.uncounted

/-- Switch off, run any operations, and write the switch again: every operation
but the hook calls answers as if the module had never been off, and so does the
policy end. If the switch is not written in between, the hooks allow everything
and count nothing while it is off. -/
theorem master_switch_lossless (shash : Shash) (start : KernelState)
    (operations : List Operation) (value : Int) :
    let off := ((kernel shash).step start (switchTo 0)).1
    List.Forall₂ (Transducer.SameAnswer fun operation => ¬ operation.IsHook)
        ((kernel shash).trace off operations) ((kernel shash).trace start operations) ∧
      SameButCounters ((kernel shash).run off (operations ++ [switchTo value])).1
        ((kernel shash).run start (operations ++ [switchTo value])).1 ∧
      ((∀ operation ∈ operations, ¬ operation.WritesSwitch) →
        (∀ answered ∈ (kernel shash).trace off operations,
          answered.1.IsHook → answered.2 = 0) ∧
        ((kernel shash).run off operations).1.policy.stats = start.policy.stats) := by
  intro off
  have related := sameButSwitch_switchTo shash start 0
  obtain ⟨traces, final⟩ := (kernel_unwinds_switch shash).run (Purged.refl operations) related
  refine ⟨traces.forall₂, ?_, fun others => ?_⟩
  · rw [Transducer.run_append_fst, Transducer.run_append_fst]
    exact final.switchTo shash value
  · have keeps : ∀ state operation, ¬ operation.WritesSwitch → Paused start.policy.stats state →
        Paused start.policy.stats ((kernel shash).step state operation).1 :=
      fun _ _ other paused => paused.step shash other
    have paused : Paused start.policy.stats off := ⟨rfl, rfl⟩
    refine ⟨Transducer.forall_mem_trace _ keeps ?_ paused others,
      (Transducer.run_of_forall _ keeps paused others).uncounted⟩
    intro state operation _ stillPaused isHook
    cases operation with
    | hook env request =>
        show (runHook state.policy env request).ret = 0
        rw [runHook_of_disabled stillPaused.disabled]
        rfl
    | write env endpoint ubuf => exact isHook.elim
    | sysctl knob result => exact isHook.elim

/-- A file is listed and written to while the module is off. -/
theorem master_switch_lossless_passwd :
    ((kernel sha256Shash).run ((kernel sha256Shash).step .boot (switchTo 0)).1
      passwdRun).1.policy.stats = aegisStats := by
  have others : ∀ operation ∈ passwdRun, ¬ operation.WritesSwitch := by
    intro operation member
    simp only [passwdRun, List.mem_cons, List.not_mem_nil, or_false] at member
    rcases member with rfl | rfl
    · exact not_false
    · exact not_false
  exact ((master_switch_lossless sha256Shash .boot passwdRun 1).2.2 others).2

end Aegis.Refinement
