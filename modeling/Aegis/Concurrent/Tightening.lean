import Aegis.Foundation.Tightening
import Aegis.Concurrent.Counters
import Aegis.Refinement.Monotone

/-!
Owns the verdict of a hook call while the policy changes under it. The hook
reads the configuration and the lists one after another, so its answers may
come from different policies; its verdict still lies between those of any two
policies that bound all policies during the call.

So a call denies what the policy at its start denies while other callers only
add entries and switch on, and it allows what that policy allows while they
only remove entries and switch off.

Does not own: the counters, or what single-threaded runs do to a verdict.
-/

namespace Aegis.Concurrent

open Aegis.Foundation
open Aegis.Kernel
open Aegis.Policy
open Aegis.Refinement

/-! ### The order of views -/

/-- The policy that a view shows. The hooks read no counter. -/
def shown (view : PolicyView) : PolicyState :=
  ⟨view.cfg, aegisStats, view.files, view.procs, view.syscalls⟩

/-- The second view is at least as strict; both have a right count. -/
structure ViewOrder (weak strict : PolicyView) : Prop where
  order : shown weak ≤ shown strict
  weakCounted : weak.files.Counted
  strictCounted : strict.files.Counted

/-- The hook denies with this reply. -/
def Denied (reply : HookReply) : Prop := reply.ret ≠ 0

abbrev Follows (code : HookCode) : Prop := code.Tracks ViewOrder Denied

namespace ViewOrder

variable {weak strict : PolicyView} (order : ViewOrder weak strict)

include order

theorem enabled (on : weak.cfg.enabled = true) : strict.cfg.enabled = true :=
  Bool.le_iff_imp.mp order.order.enabled on

theorem features {feature : BitVec 32} (on : hasBits weak.cfg.features feature = true) :
    hasBits strict.cfg.features feature = true := by
  have wider := order.order.features
  simp only [shown] at wider
  simp only [hasBits, bne_iff_ne, ne_eq] at on ⊢
  intro clear
  apply on
  rw [← wider, BitVec.and_assoc, clear]
  exact BitVec.and_zero

theorem procs {task : Task} (isListed : weak.procs.listed (procProtects task) = true) :
    strict.procs.listed (procProtects task) = true := by
  refine Registry.listed_mono AegisProtectedProc.key (fun first second sameKey => ?_)
    order.order.procs isListed
  rw [Bool.eq_iff_iff, SetPolicy.procProtects_iff, SetPolicy.procProtects_iff, sameKey]

theorem files {path : CString} (isListed : weak.files.listed (filePathHit path) = true) :
    strict.files.listed (filePathHit path) = true := by
  refine Registry.listed_mono AegisProtectedFile.key (fun first second sameKey => ?_)
    order.order.files isListed
  rw [Bool.eq_iff_iff, filePathHit_iff, filePathHit_iff]
  exact Eq.congr_left (congrArg Subtype.val sameKey)

theorem syscalls {nr : Int} (isListed : weak.syscalls.listed (syscallHit nr) = true) :
    strict.syscalls.listed (syscallHit nr) = true := by
  refine Registry.listed_mono AegisBlockedSyscall.syscallNr (fun first second sameKey => ?_)
    order.order.syscalls isListed
  simp [syscallHit, sameKey]

/-- A stricter policy does not stop at the fast path if a weaker one does not. -/
theorem fastPath (empty : decide (aegisProtectedFileCount strict.files = 0) = true) :
    decide (aegisProtectedFileCount weak.files = 0) = true := by
  have zero : strict.files.count = 0 := of_decide_eq_true empty
  have strictCounted : strict.files.count = strict.files.entries.length := order.strictCounted
  have weakCounted : weak.files.count = weak.files.entries.length := order.weakCounted
  have none : strict.files.entries = [] := List.eq_nil_of_length_eq_zero (by omega)
  have keys := order.order.files
  simp only [shown, none, List.map_nil, List.subset_nil, List.map_eq_nil_iff] at keys
  apply decide_eq_true
  show weak.files.count = 0
  rw [weakCounted, keys]
  rfl

end ViewOrder

/-! ### The hooks -/

section Hooks

open Aegis.Policy.HookCode (allow deny event whenEnabled whenFeature whenProcessProtected
  whenFileProtected whenSyscallBlocked whenModulesDenied)

variable {yes no base : HookCode}

theorem always_deny (kind : Violation) (error : Errno) (log : List LogRecord) :
    (deny kind error log).Always Denied := error.ret_ne_zero

theorem always_allow : allow.Always fun reply => ¬ Denied reply := not_not_intro rfl

theorem always_event (log : List LogRecord) : (event log).Always fun reply => ¬ Denied reply :=
  not_not_intro rfl

section Above

variable (first : yes.Above Denied base) (second : no.Above Denied base)

include first second

theorem above_whenEnabled : (whenEnabled yes no).Above Denied base := first.ask second

theorem above_whenFeature (feature : BitVec 32) : (whenFeature feature yes no).Above Denied base :=
  above_whenEnabled (first.ask second) second

theorem above_whenSyscallBlocked (nr : Int) : (whenSyscallBlocked nr yes no).Above Denied base :=
  above_whenFeature ((first.ask second).ask second) second _

end Above

section Follows

variable (first : Follows yes) (second : Follows no) (above : yes.Above Denied no)

include first second above

theorem follows_whenEnabled : Follows (whenEnabled yes no) :=
  .ask ViewOrder.enabled first second above

theorem follows_whenFeature (feature : BitVec 32) : Follows (whenFeature feature yes no) :=
  follows_whenEnabled (.ask (fun order => order.features) first second above) second
    (above.ask (.refl no))

theorem follows_whenProcessProtected (task : Task) : Follows (whenProcessProtected task yes no) :=
  follows_whenFeature (.ask (fun order => order.procs) first second above) second
    (above.ask (.refl no)) _

theorem follows_whenFileProtected (path : CString) : Follows (whenFileProtected path yes no) :=
  follows_whenFeature (.ask (fun order => order.files) first second above) second
    (above.ask (.refl no)) _

theorem follows_whenSyscallBlocked (nr : Int) : Follows (whenSyscallBlocked nr yes no) := by
  have audited : Follows (.ask (fun view => view.cfg.syscallAuditEnable)
      (.ask (fun view => view.syscalls.listed (syscallHit nr)) yes no) no) :=
    .ask (fun order => Bool.le_iff_imp.mp order.order.syscallAuditEnable)
      (.ask (fun order => order.syscalls) first second above) second (above.ask (.refl no))
  exact follows_whenFeature audited second ((above.ask (.refl no)).ask (.refl no)) _

theorem follows_whenModulesDenied : Follows (whenModulesDenied yes no) :=
  .ask (fun order => Bool.le_iff_imp.mp order.order.moduleLoadingDenied) first second above

theorem follows_restrictAll :
    Follows (.ask (fun view => view.cfg.ptraceRestrictAll) yes no) :=
  .ask (fun order => Bool.le_iff_imp.mp order.order.ptraceRestrictAll) first second above

end Follows

theorem follows_deny (kind : Violation) (error : Errno) (log : List LogRecord) :
    Follows (deny kind error log) := .of_denies (always_deny kind error log)

theorem follows_allow : Follows allow := .of_allows always_allow

theorem follows_aegisPtraceAccessCheck (env : HookEnv) (child : Task) (mode : BitVec 32) :
    Follows (HookCode.aegisPtraceAccessCheck env child mode) := by
  unfold HookCode.aegisPtraceAccessCheck
  apply follows_whenFeature _ follows_allow (.of_allows always_allow)
  apply follows_restrictAll (follows_deny _ _ _) _ (.of_denies (always_deny _ _ _))
  apply follows_whenFeature _ follows_allow (.of_allows always_allow)
  exact follows_whenProcessProtected (follows_deny _ _ _) follows_allow (.of_allows always_allow) _

theorem follows_aegisPtraceTraceme (env : HookEnv) (parent : Task) :
    Follows (HookCode.aegisPtraceTraceme env parent) := by
  unfold HookCode.aegisPtraceTraceme
  apply follows_whenFeature _ follows_allow (.of_allows always_allow)
  exact follows_restrictAll (follows_deny _ _ _) follows_allow (.of_allows always_allow)

theorem follows_aegisFilePermission (env : HookEnv) (file : File) (mask : BitVec 32) :
    Follows (HookCode.aegisFilePermission env file mask) := by
  unfold HookCode.aegisFilePermission
  apply follows_whenFeature _ follows_allow (.of_allows always_allow)
  -- The fast path is the allowing branch of its question.
  refine Code.Tracks.ask_falling (fun order => order.fastPath) follows_allow ?_
    (.of_allows always_allow)
  have logged : (Code.ask (fun view => view.cfg.fileIntegrityLog)
      (event [.fileAccess env.current.toTaskName file.path mask]) allow : HookCode).Always
        fun reply => ¬ Denied reply := ⟨always_event _, always_allow⟩
  have denied : (⟨Errno.eacces.ret,
      [.fileWriteBlocked env.current.toTaskName file.path]⟩ : HookReply).ret ≠ 0 :=
    Errno.eacces.ret_ne_zero
  cases env.page with
  | false => exact follows_allow
  | true =>
      cases env.dPath with
      | false => exact follows_allow
      | true =>
          apply follows_whenFileProtected _ follows_allow (.of_allows always_allow)
          split
          · exact .ask (fun order => Bool.le_iff_imp.mp order.order.fileIntegrityEnforce)
              (.of_denies ⟨denied, denied⟩) (.of_allows logged) (.of_allows logged)
          · exact .of_allows logged

theorem follows_aegisKernelReadFile (env : HookEnv) (file : Option File) (id : KernelReadFileId) :
    Follows (HookCode.aegisKernelReadFile env file id) := by
  unfold HookCode.aegisKernelReadFile
  extract_lets nr firmware refused control
  have firmwareFollows : Follows firmware := by
    unfold firmware
    split
    · exact follows_whenModulesDenied (follows_deny _ _ _) follows_allow (.of_allows always_allow)
    · exact follows_allow
  have refusedDenies : refused.Always Denied := by
    unfold refused
    split
    · exact Errno.eperm.ret_ne_zero
    · split
      · exact Errno.enomem.ret_ne_zero
      · split
        · exact always_deny _ _ _
        · exact Errno.eperm.ret_ne_zero
  have controlFollows : Follows control := by
    unfold control
    apply follows_whenFeature _ follows_allow (.of_allows always_allow)
    split
    · exact follows_whenModulesDenied (.of_denies refusedDenies) firmwareFollows
        (.of_denies refusedDenies)
    · exact firmwareFollows
  apply follows_whenEnabled _ follows_allow (.of_allows always_allow)
  split
  · exact follows_whenSyscallBlocked (follows_deny _ _ _) controlFollows
      (.of_denies (always_deny _ _ _)) _
  · exact controlFollows

theorem follows_aegisKernelLoadData (env : HookEnv) (id : KernelLoadDataId) :
    Follows (HookCode.aegisKernelLoadData env id) := by
  unfold HookCode.aegisKernelLoadData
  extract_lets blocked control kexec
  have blockedDenies : blocked.Always Denied := always_deny _ _ _
  have controlFollows : Follows control := by
    unfold control
    apply follows_whenFeature _ follows_allow (.of_allows always_allow)
    split
    · exact follows_whenModulesDenied (follows_deny _ _ _) follows_allow (.of_allows always_allow)
    · exact follows_allow
  have kexecFollows : Follows kexec := by
    unfold kexec
    split
    · exact follows_whenSyscallBlocked (.of_denies blockedDenies) controlFollows
        (.of_denies blockedDenies) _
    · exact controlFollows
  have kexecAbove : kexec.Above Denied control := by
    unfold kexec
    split
    · exact above_whenSyscallBlocked (.of_denies blockedDenies) (.refl control) _
    · exact .refl control
  apply follows_whenEnabled _ follows_allow (.of_allows always_allow)
  -- A feature switched off between two reads skips to the module control.
  split
  · exact follows_whenFeature
      (follows_whenSyscallBlocked (.of_denies blockedDenies) kexecFollows
        (.of_denies blockedDenies) _)
      controlFollows (above_whenSyscallBlocked (.of_denies blockedDenies) kexecAbove _) _
  · exact follows_whenFeature kexecFollows controlFollows kexecAbove _

theorem follows_hookCode (env : HookEnv) (request : HookRequest) :
    Follows (hookCode env request) := by
  cases request with
  | ptraceAccessCheck child mode => exact follows_aegisPtraceAccessCheck env child mode
  | ptraceTraceme parent => exact follows_aegisPtraceTraceme env parent
  | filePermission file mask => exact follows_aegisFilePermission env file mask
  | fileOpen file =>
      show Follows (if openMask file = 0 then _ else _)
      split
      · exact follows_allow
      · exact follows_aegisFilePermission env file (openMask file)
  | kernelReadFile file id => exact follows_aegisKernelReadFile env file id
  | kernelLoadData id => exact follows_aegisKernelLoadData env id
  | taskFree => exact .of_allows ⟨always_event _, always_allow⟩
  | bprmCheckSecurity =>
      have allows := always_allow
      exact .of_allows ⟨⟨⟨⟨always_event _, allows⟩, allows⟩, allows⟩, allows⟩
  | socketCreate => exact .of_allows ⟨always_allow, always_allow⟩
  | taskAlloc => exact follows_allow
  | inodePermission => exact follows_allow

end Hooks

/-! ### Calls under a changing policy -/

theorem shown_le_iff {weak strict : PolicyState} :
    shown weak.view ≤ shown strict.view ↔ weak ≤ strict :=
  ⟨fun order => { order with }, fun order => { order with }⟩

/-- The verdict of the code under a policy is that of the hook. -/
theorem denied_eval_iff {policy : PolicyState} {env : HookEnv} {request : HookRequest} :
    Denied ((hookCode env request).eval policy.view).1 ↔ (runHook policy env request).ret ≠ 0 := by
  rw [← hookCode_outcome]
  rfl

/-- Hook calls leave the policy alone, apart from the counters. -/
theorem hooksMachine_call_control {pool next : HookPool} {move : Move HookCall Unit}
    (stepped : hooksMachine.step pool (.call move) = some next) :
    next.shared.1 = pool.shared.1 := by
  rcases Program.machine_step_cases stepped with
    ⟨call, rfl, -, rfl⟩ | ⟨index, choice, call, shared, after, rfl, -, advanced, rfl⟩
  · rfl
  · rcases meteredProgram_advance_cases _ _ _ advanced with
      ⟨arg, -, rfl, -⟩ | ⟨arg, result, bumped, -, rfl, -⟩ |
        ⟨arg, question, yes, no, bumped, -, rfl, -⟩ | ⟨arg, counter, rest, bumped, -, rfl, -⟩
    · rfl
    · rfl
    · rfl
    · rfl

theorem keeps_filesCounted : hooksMachine.Keeps fun pool => pool.shared.1.view.files.Counted := by
  intro pool move next _ counted stepped
  cases move with
  | environment action =>
      obtain ⟨control, moved, rfl⟩ := Option.map_eq_some_iff.mp stepped
      cases action with
      | knobs own =>
          obtain ⟨knobs, -, rfl⟩ := Option.map_eq_some_iff.mp moved
          exact counted
      | lists own =>
          obtain ⟨lists, movedLists, rfl⟩ := Option.map_eq_some_iff.mp moved
          rcases listsMachine_step_cases movedLists with
            ⟨own, files, rfl, movedFiles, rfl⟩ | ⟨own, procs, rfl, -, rfl⟩ |
              ⟨own, syscalls, rfl, -, rfl⟩
          · exact CallSpec.keeps_counted trivial counted movedFiles
          · exact counted
          · exact counted
  | call move =>
      rw [hooksMachine_call_control stepped]
      exact counted

/-- The policy that hooks find in a state. -/
def HookPool.policy (pool : HookPool) : PolicyState := pool.shared.1.policy pool.shared.2

section Bracket

variable {early final : HookPool} {moves : List (MeteredMove ControlMove HookCall)}
variable {index : Nat} {env : HookEnv} {request : HookRequest} {reply : HookReply}
variable {bumps : List Counter}

/-- What is forced under all views that the run passes through holds of the
reply. -/
theorem reply_of_forced {possible : PolicyView → Prop}
    {holds : HookEnv × HookRequest → HookReply → Prop}
    (forced : ∀ arg, (hookBody arg).Forced possible (holds arg))
    (counted : early.shared.1.view.files.Counted)
    (throughout : hooksMachine.Throughout
      (fun pool => pool.shared.1.view.files.Counted → possible pool.shared.1.view) early moves)
    (ran : hooksMachine.run early moves = some final) (called : early.calls.length ≤ index)
    (returned : final.calls[index]? = some (.returned (env, request) reply bumps)) :
    holds (env, request) reply := by
  have keeps : hooksMachine.KeepsUnder
      (fun pool _ => pool.shared.1.view.files.Counted → possible pool.shared.1.view)
      fun pool => pool.shared.1.view.files.Counted ∧ early.calls.length ≤ pool.calls.length ∧
        ∀ index call, early.calls.length ≤ index → pool.calls[index]? = some call →
          call.Bound hookBody possible holds := by
    intro pool move next guarded invariant stepped
    exact ⟨keeps_filesCounted trivial invariant.1 stepped,
      keepsUnder_bound forced early.calls.length (guarded invariant.1) invariant.2 stepped⟩
  have start : ∀ index call, early.calls.length ≤ index → early.calls[index]? = some call →
      call.Bound hookBody possible holds := by
    intro index call later found
    have below := (List.getElem?_eq_some_iff.mp found).1
    omega
  have bound := keeps.run throughout.meets ⟨counted, Nat.le_refl _, start⟩ ran
  exact bound.2.2 index _ called returned

/-- A policy at most as strict as all policies during the call. -/
theorem reply_denied_of_floor (counted : early.shared.1.view.files.Counted)
    (ran : hooksMachine.run early moves = some final) (called : early.calls.length ≤ index)
    (returned : final.calls[index]? = some (.returned (env, request) reply bumps))
    {floor : PolicyState} (floorCounted : floor.files.Counted)
    (throughout : hooksMachine.Throughout (fun pool => floor ≤ HookPool.policy pool) early moves)
    (denied : (runHook floor env request).ret ≠ 0) : reply.ret ≠ 0 := by
  have own : ViewOrder floor.view floor.view := ⟨le_refl _, floorCounted, floorCounted⟩
  have forced : ∀ arg : HookEnv × HookRequest, (hookBody arg).Forced (ViewOrder floor.view)
      fun reply => (runHook floor arg.1 arg.2).ret ≠ 0 → Denied reply := by
    intro arg
    refine .of_imp fun denies => ?_
    exact (follows_hookCode arg.1 arg.2).floor own (denied_eval_iff.mpr denies)
  refine reply_of_forced forced counted (throughout.mono fun pool order poolCounted => ?_) ran
    called returned denied
  exact ⟨shown_le_iff.mpr order, floorCounted, poolCounted⟩

/-- A policy at least as strict as all policies during the call. -/
theorem reply_allowed_of_ceiling (counted : early.shared.1.view.files.Counted)
    (ran : hooksMachine.run early moves = some final) (called : early.calls.length ≤ index)
    (returned : final.calls[index]? = some (.returned (env, request) reply bumps))
    {ceiling : PolicyState} (ceilingCounted : ceiling.files.Counted)
    (throughout : hooksMachine.Throughout (fun pool => HookPool.policy pool ≤ ceiling) early moves)
    (allowed : (runHook ceiling env request).ret = 0) : reply.ret = 0 := by
  have own : ViewOrder ceiling.view ceiling.view := ⟨le_refl _, ceilingCounted, ceilingCounted⟩
  have forced : ∀ arg : HookEnv × HookRequest,
      (hookBody arg).Forced (fun view => ViewOrder view ceiling.view)
        fun reply => (runHook ceiling arg.1 arg.2).ret = 0 → ¬ Denied reply := by
    intro arg
    refine .of_imp fun allows => ?_
    refine (follows_hookCode arg.1 arg.2).ceiling own fun denies => ?_
    exact denied_eval_iff.mp denies allows
  have bounded : hooksMachine.Throughout
      (fun pool => pool.shared.1.view.files.Counted → ViewOrder pool.shared.1.view ceiling.view)
      early moves :=
    throughout.mono fun pool order poolCounted =>
      ⟨shown_le_iff.mpr order, poolCounted, ceilingCounted⟩
  exact not_not.mp (reply_of_forced forced counted bounded ran called returned allowed)

end Bracket

theorem counted_of_reachable {procAlloc : Fin 3 → Bool} {syscallAlloc : Fin 5 → Bool}
    {pool : HookPool} (reached : hooksMachine.Reachable (.boot procAlloc syscallAlloc) pool) :
    pool.shared.1.view.files.Counted := by
  have booted : (HookPool.boot procAlloc syscallAlloc).shared.1.view.files.Counted := rfl
  exact keeps_filesCounted.reachable booted reached

/-! ### Control that moves in one direction -/

/-- The value switches the knob off; for the feature mask, it sets no new bit. -/
def SwitchesOff (cfg : AegisConfig) (knob : Knob) (value : Int) : Prop :=
  match knob with
  | .features => BitVec.ofInt 32 value &&& cfg.features = BitVec.ofInt 32 value
  | _ => value = 0

/-- What the next step of a handler commits. -/
def KnobCall.commits : KnobCall → Option (Knob × Int)
  | .loaded knob value => some (knob, value)
  | _ => none

/-- What the step commits, if anything, meets a condition. -/
def Commits (condition : AegisConfig → Knob → Int → Prop) (pool : KnobPool) :
    Move KnobCall Unit → Prop
  | .spawn _ => True
  | .advance index _ => ∀ commit ∈ pool.calls[index]?.bind KnobCall.commits,
      condition pool.shared.cfg commit.1 commit.2

/-- The step adds an entry, switches on, or leaves the policy alone. -/
def ControlMove.Raises (control : Control) : ControlMove → Prop
  | .knobs move => Commits SwitchesOn control.knobs move
  | .lists (.files move) => CallSpec.Avoids CallSpec.removesNext control.lists.files move
  | .lists (.procs move) => CallSpec.Avoids CallSpec.removesNext control.lists.procs move
  | .lists (.syscalls move) => CallSpec.Avoids CallSpec.removesNext control.lists.syscalls move

/-- The step removes an entry, switches off, or leaves the policy alone. -/
def ControlMove.Lowers (control : Control) : ControlMove → Prop
  | .knobs move => Commits SwitchesOff control.knobs move
  | .lists (.files move) => CallSpec.Avoids CallSpec.insertsNext control.lists.files move
  | .lists (.procs move) => CallSpec.Avoids CallSpec.insertsNext control.lists.procs move
  | .lists (.syscalls move) => CallSpec.Avoids CallSpec.insertsNext control.lists.syscalls move

/-- Hook calls take any steps; control takes only steps that meet a condition. -/
def HookMove (condition : Control → ControlMove → Prop) (pool : HookPool) :
    MeteredMove ControlMove HookCall → Prop
  | .environment action => condition pool.shared.1 action
  | .call _ => True

section Decidability

instance (cfg : AegisConfig) (knob : Knob) (value : Int) : Decidable (SwitchesOn cfg knob value) :=
  match knob with
  | .features => inferInstanceAs (Decidable (cfg.features &&& _ = cfg.features))
  | .enabled => inferInstanceAs (Decidable (value ≠ 0))
  | .ptraceRestrictAll => inferInstanceAs (Decidable (value ≠ 0))
  | .fileIntegrityEnforce => inferInstanceAs (Decidable (value ≠ 0))
  | .fileIntegrityLog => inferInstanceAs (Decidable (value ≠ 0))
  | .syscallAuditEnable => inferInstanceAs (Decidable (value ≠ 0))
  | .moduleLoadingDenied => inferInstanceAs (Decidable (value ≠ 0))

instance (pool : KnobPool) (move : Move KnobCall Unit) : Decidable (Commits SwitchesOn pool move) :=
  match move with
  | .spawn _ => isTrue trivial
  | .advance index _ =>
      inferInstanceAs (Decidable (∀ commit ∈ pool.calls[index]?.bind KnobCall.commits,
        SwitchesOn pool.shared.cfg commit.1 commit.2))

instance (control : Control) (move : ControlMove) : Decidable (move.Raises control) :=
  match move with
  | .knobs own => inferInstanceAs (Decidable (Commits SwitchesOn control.knobs own))
  | .lists (.files own) => inferInstanceAs (Decidable (CallSpec.Avoids _ control.lists.files own))
  | .lists (.procs own) => inferInstanceAs (Decidable (CallSpec.Avoids _ control.lists.procs own))
  | .lists (.syscalls own) =>
      inferInstanceAs (Decidable (CallSpec.Avoids _ control.lists.syscalls own))

instance (pool : HookPool) (move : MeteredMove ControlMove HookCall) :
    Decidable (HookMove (fun control move => move.Raises control) pool move) :=
  match move with
  | .environment action => inferInstanceAs (Decidable (action.Raises pool.shared.1))
  | .call _ => isTrue trivial

end Decidability

theorem le_commit_off {policy : PolicyState} {knob : Knob} {value : Int}
    (off : SwitchesOff policy.cfg knob value) :
    { policy with cfg := policy.cfg.commit knob value } ≤ policy := by
  cases knob with
  | features =>
      exact ⟨le_refl _, off, le_refl _, le_refl _, le_refl _, le_refl _, List.Subset.refl _,
        List.Subset.refl _, List.Subset.refl _⟩
  | _ =>
      have clear : (value != 0) = false := by simpa [SwitchesOff] using off
      constructor <;> simp [AegisConfig.commit, clear]

/-- A step of a handler commits its value, or leaves the configuration alone. -/
theorem knobProgram_step_cfg {pool next : KnobPool} {move : Move KnobCall Unit}
    (stepped : knobProgram.machine.step pool move = some next) :
    next.shared.cfg = pool.shared.cfg ∨
      ∃ index choice knob value, move = .advance index choice ∧
        pool.calls[index]? = some (.loaded knob value) ∧
        next.shared.cfg = pool.shared.cfg.commit knob value := by
  rcases Program.machine_step_cases stepped with
    ⟨call, rfl, -, rfl⟩ | ⟨index, choice, call, shared, after, rfl, found, advanced, rfl⟩
  · exact Or.inl rfl
  · rcases knobProgram_advance_cases advanced with
      ⟨knob, write, result, -, rfl, -⟩ | ⟨knob, result, -, rfl, -⟩ | ⟨knob, -, rfl, -⟩ |
        ⟨knob, value, rfl, rfl, -⟩
    · exact Or.inl rfl
    · exact Or.inl rfl
    · exact Or.inl rfl
    · exact Or.inr ⟨index, choice, knob, value, rfl, found, rfl⟩

/-- The counters have no part in the order. -/
theorem Control.policy_le_policy (control : Control) (stats other : AegisStats) :
    control.policy stats ≤ control.policy other := by
  have same : AtMost (control.policy stats) (control.policy stats) :=
    le_refl (control.policy stats)
  exact { same with }

section Directions

variable {control next : Control} {move : ControlMove}
variable (stepped : controlMachine.step control move = some next) (stats : AegisStats)

include stepped

theorem Control.policy_le_of_raises (raises : move.Raises control) :
    control.policy stats ≤ next.policy stats := by
  have same : AtMost (control.policy stats) (control.policy stats) :=
    le_refl (control.policy stats)
  cases move with
  | knobs own =>
      obtain ⟨knobs, moved, rfl⟩ := Option.map_eq_some_iff.mp stepped
      rcases knobProgram_step_cfg moved with
        unchanged | ⟨index, choice, knob, value, rfl, found, set⟩
      · rw [Control.policy, Control.policy, unchanged]
      · have on : SwitchesOn (control.policy stats).cfg knob value :=
          raises (knob, value) (by simp [found, KnobCall.commits])
        show control.policy stats ≤ { control.policy stats with cfg := knobs.shared.cfg }
        rw [set]
        exact le_commit on
  | lists own =>
      obtain ⟨lists, moved, rfl⟩ := Option.map_eq_some_iff.mp stepped
      rcases listsMachine_step_cases moved with
        ⟨own, files, rfl, movedOwn, rfl⟩ | ⟨own, procs, rfl, movedOwn, rfl⟩ |
          ⟨own, syscalls, rfl, movedOwn, rfl⟩
      · have kept := CallSpec.entries_subset_of_no_removal movedOwn raises
        exact { same with files := List.map_subset _ kept }
      · have kept := CallSpec.entries_subset_of_no_removal movedOwn raises
        exact { same with procs := List.map_subset _ kept }
      · have kept := CallSpec.entries_subset_of_no_removal movedOwn raises
        exact { same with syscalls := List.map_subset _ kept }

theorem Control.le_policy_of_lowers (lowers : move.Lowers control) :
    next.policy stats ≤ control.policy stats := by
  have same : AtMost (control.policy stats) (control.policy stats) :=
    le_refl (control.policy stats)
  cases move with
  | knobs own =>
      obtain ⟨knobs, moved, rfl⟩ := Option.map_eq_some_iff.mp stepped
      rcases knobProgram_step_cfg moved with
        unchanged | ⟨index, choice, knob, value, rfl, found, set⟩
      · rw [Control.policy, Control.policy, unchanged]
      · have off : SwitchesOff (control.policy stats).cfg knob value :=
          lowers (knob, value) (by simp [found, KnobCall.commits])
        show { control.policy stats with cfg := knobs.shared.cfg } ≤ control.policy stats
        rw [set]
        exact le_commit_off off
  | lists own =>
      obtain ⟨lists, moved, rfl⟩ := Option.map_eq_some_iff.mp stepped
      rcases listsMachine_step_cases moved with
        ⟨own, files, rfl, movedOwn, rfl⟩ | ⟨own, procs, rfl, movedOwn, rfl⟩ |
          ⟨own, syscalls, rfl, movedOwn, rfl⟩
      · have kept := CallSpec.entries_subset_of_no_insertion movedOwn lowers
        exact { same with files := List.map_subset _ kept }
      · have kept := CallSpec.entries_subset_of_no_insertion movedOwn lowers
        exact { same with procs := List.map_subset _ kept }
      · have kept := CallSpec.entries_subset_of_no_insertion movedOwn lowers
        exact { same with syscalls := List.map_subset _ kept }

end Directions

/-- What every permitted control step keeps, with the hook steps in between,
holds throughout the run. -/
theorem throughout_of_control (relation : PolicyState → Prop)
    {condition : Control → ControlMove → Prop}
    (blind : ∀ control stats other, relation (Control.policy control stats) →
      relation (control.policy other))
    (keeps : ∀ {control next : Control} {move : ControlMove} (stats : AegisStats),
      controlMachine.step control move = some next → condition control move →
      relation (control.policy stats) → relation (next.policy stats))
    {pool : HookPool} {moves : List (MeteredMove ControlMove HookCall)}
    (meets : hooksMachine.Meets (HookMove condition) pool moves)
    (holds : relation (HookPool.policy pool)) :
    hooksMachine.Throughout (fun pool => relation (HookPool.policy pool)) pool moves := by
  induction moves generalizing pool with
  | nil => exact holds
  | cons move rest inductionHypothesis =>
      refine ⟨holds, fun next stepped => inductionHypothesis (meets.2 next stepped) ?_⟩
      cases move with
      | environment action =>
          obtain ⟨control, moved, rfl⟩ := Option.map_eq_some_iff.mp stepped
          exact keeps pool.shared.2 moved meets.1 holds
      | call own =>
          have unchanged := hooksMachine_call_control stepped
          unfold HookPool.policy
          rw [unchanged]
          exact blind _ _ _ holds

/-- A run that only raises stays above its start. -/
theorem throughout_of_raises {pool : HookPool} {moves : List (MeteredMove ControlMove HookCall)}
    (meets : hooksMachine.Meets (HookMove fun control move => move.Raises control) pool moves) :
    hooksMachine.Throughout (fun later => HookPool.policy pool ≤ HookPool.policy later) pool
      moves :=
  throughout_of_control (fun policy => HookPool.policy pool ≤ policy)
    (fun control stats other order => order.trans (control.policy_le_policy stats other))
    (fun stats stepped raises order =>
      order.trans (Control.policy_le_of_raises stepped stats raises))
    meets (le_refl _)

theorem throughout_of_lowers {pool : HookPool} {moves : List (MeteredMove ControlMove HookCall)}
    (meets : hooksMachine.Meets (HookMove fun control move => move.Lowers control) pool moves) :
    hooksMachine.Throughout (fun later => HookPool.policy later ≤ HookPool.policy pool) pool
      moves :=
  throughout_of_control (fun policy => policy ≤ HookPool.policy pool)
    (fun control stats other order => (control.policy_le_policy other stats).trans order)
    (fun stats stepped lowers order =>
      (Control.le_policy_of_lowers stepped stats lowers).trans order)
    meets (le_refl _)

/-! ### Verdicts -/

/-- A handler restricts all tracing while a `kexec_load` is judged. -/
def racingHandler : List (MeteredMove ControlMove HookCall) :=
  [.call (.spawn (.called (⟨shell, true, true⟩, .kernelLoadData .loadingKexecImage))),
    .environment (.knobs (.spawn (.called .ptraceRestrictAll true (.stored 1)))),
    .environment (.knobs (.advance 0 ()))] ++
  List.replicate 5 (.call (.advance 0 ())) ++
  List.replicate 2 (.environment (.knobs (.advance 0 ()))) ++
  List.replicate 6 (.call (.advance 0 ()))

/-- The state after boot, with all memory available. -/
def racingStart : HookPool := .boot (fun _ => true) fun _ => true

theorem racingHandler_raises :
    hooksMachine.Meets (HookMove fun control move => move.Raises control) racingStart
      racingHandler := by
  decide +kernel

/-- Whatever runs concurrently, a hook call denies what a policy denies that is
at most as strict as every policy during the call, and allows what a policy
allows that is at least as strict as all of them. -/
theorem hookVerdict_between (procAlloc : Fin 3 → Bool) (syscallAlloc : Fin 5 → Bool)
    (early final : HookPool) (moves : List (MeteredMove ControlMove HookCall)) (index : Nat)
    (env : HookEnv) (request : HookRequest) (reply : HookReply) (bumps : List Counter)
    (reached : hooksMachine.Reachable (.boot procAlloc syscallAlloc) early)
    (ran : hooksMachine.run early moves = some final) (called : early.calls.length ≤ index)
    (returned : final.calls[index]? = some (.returned (env, request) reply bumps)) :
    (∀ floor : PolicyState, floor.files.Counted →
      hooksMachine.Throughout (fun pool => floor ≤ HookPool.policy pool) early moves →
      (runHook floor env request).ret ≠ 0 → reply.ret ≠ 0) ∧
    (∀ ceiling : PolicyState, ceiling.files.Counted →
      hooksMachine.Throughout (fun pool => HookPool.policy pool ≤ ceiling) early moves →
      (runHook ceiling env request).ret = 0 → reply.ret = 0) := by
  have counted := counted_of_reachable reached
  constructor
  · intro floor floorCounted throughout denied
    exact reply_denied_of_floor counted ran called returned floorCounted throughout denied
  · intro ceiling ceilingCounted throughout allowed
    exact reply_allowed_of_ceiling counted ran called returned ceilingCounted throughout allowed

theorem hookVerdict_between_handler :
    ∃ final reply bumps, hooksMachine.run racingStart racingHandler = some final ∧
      final.calls[0]? = some (.returned (⟨shell, true, true⟩, .kernelLoadData .loadingKexecImage)
        reply bumps) ∧
      reply.ret ≠ 0 := by
  refine ⟨_, _, _, rfl, rfl, ?_⟩
  exact (hookVerdict_between (fun _ => true) (fun _ => true) racingStart _ racingHandler 0 _ _ _ _
    ⟨[], rfl⟩ rfl (Nat.zero_le _) rfl).1 (HookPool.policy racingStart) rfl
      (throughout_of_raises racingHandler_raises) (by decide +kernel)

/-- While other callers only add entries and switch on, in any interleaving, a
hook call denies what the policy at its start denies. While they only remove
entries and switch off, it allows what that policy allows. -/
theorem hookVerdict_kept_in_races (procAlloc : Fin 3 → Bool) (syscallAlloc : Fin 5 → Bool)
    (early final : HookPool) (moves : List (MeteredMove ControlMove HookCall)) (index : Nat)
    (env : HookEnv) (request : HookRequest) (reply : HookReply) (bumps : List Counter)
    (reached : hooksMachine.Reachable (.boot procAlloc syscallAlloc) early)
    (ran : hooksMachine.run early moves = some final) (called : early.calls.length ≤ index)
    (returned : final.calls[index]? = some (.returned (env, request) reply bumps)) :
    (hooksMachine.Meets (HookMove fun control move => move.Raises control) early moves →
      (runHook (HookPool.policy early) env request).ret ≠ 0 → reply.ret ≠ 0) ∧
    (hooksMachine.Meets (HookMove fun control move => move.Lowers control) early moves →
      (runHook (HookPool.policy early) env request).ret = 0 → reply.ret = 0) := by
  have counted := counted_of_reachable reached
  constructor
  · intro meets denied
    exact reply_denied_of_floor counted ran called returned counted (throughout_of_raises meets)
      denied
  · intro meets allowed
    exact reply_allowed_of_ceiling counted ran called returned counted (throughout_of_lowers meets)
      allowed

theorem hookVerdict_kept_in_races_handler :
    ∃ final reply bumps, hooksMachine.run racingStart racingHandler = some final ∧
      final.calls[0]? = some (.returned (⟨shell, true, true⟩, .kernelLoadData .loadingKexecImage)
        reply bumps) ∧
      reply.ret ≠ 0 := by
  refine ⟨_, _, _, rfl, rfl, ?_⟩
  exact (hookVerdict_kept_in_races (fun _ => true) (fun _ => true) racingStart _ racingHandler 0 _ _
    _ _ ⟨[], rfl⟩ rfl (Nat.zero_le _) rfl).1 racingHandler_raises (by decide +kernel)

end Aegis.Concurrent
