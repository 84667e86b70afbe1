import Aegis.Control.Commands

/-!
Owns what a control write reports to its caller: whether it either returns its
length after one change of its own list, or an error after no change at all.

Does not own: what the change means to the hooks.
-/

namespace Aegis.Control

open Aegis.Foundation
open Aegis.Kernel
open Aegis.Policy

/-! ### The list operations settle -/

theorem aegisProtectedFileAdd_settles (shash : Shash) (env : FileAddEnv) (path : Option CString)
    (files : FileList) :
    Settles OneAppended files (aegisProtectedFileAdd shash env path files) := by
  cases path with
  | none => exact settles_fail _ _
  | some path => exact listAdd_settles _ _ _

theorem aegisProtectedFileDel_settles (path : Option CString) (files : FileList) :
    Settles OneRemoved files (aegisProtectedFileDel path files) := by
  cases path with
  | none => exact settles_fail _ _
  | some path => exact listDel_settles _ _

theorem aegisProtectProcessAdd_settles (kmalloc : Bool) (comm : Option CString) (pid : Int)
    (procs : ProcList) :
    Settles OneAppended procs (aegisProtectProcessAdd kmalloc comm pid procs) := by
  cases comm with
  | none => exact settles_fail _ _
  | some comm => exact listAdd_settles _ _ _

theorem aegisProtectProcessDel_settles (comm : Option CString) (pid : Int) (procs : ProcList) :
    Settles OneRemoved procs (aegisProtectProcessDel comm pid procs) := by
  cases comm with
  | none => exact settles_fail _ _
  | some comm => exact listDel_settles _ _

theorem aegisSyscallBlockAdd_settles (kmalloc : Bool) (nr : Int) (syscalls : SyscallList) :
    Settles OneAppended syscalls (aegisSyscallBlockAdd kmalloc nr syscalls) := by
  unfold aegisSyscallBlockAdd
  by_cases negative : nr < 0
  · rw [if_pos negative]
    exact settles_fail _ _
  · rw [if_neg negative]
    exact listAdd_settles _ _ _

/-! ### One change of the policy -/

/-- Exactly the endpoint's own list changed, by exactly one entry. -/
def ChangesOwnList (old new : PolicyState) : Endpoint → Prop
  | .protectedFilesAdd => ∃ files, OneAppended old.files files ∧ new = { old with files := files }
  | .protectedFilesDel => ∃ files, OneRemoved old.files files ∧ new = { old with files := files }
  | .protectedProcsAdd => ∃ procs, OneAppended old.procs procs ∧ new = { old with procs := procs }
  | .protectedProcsDel => ∃ procs, OneRemoved old.procs procs ∧ new = { old with procs := procs }
  | .blockedSyscallsAdd =>
      ∃ syscalls, OneAppended old.syscalls syscalls ∧ new = { old with syscalls := syscalls }
  | .blockedSyscallsDel =>
      ∃ syscalls, OneRemoved old.syscalls syscalls ∧ new = { old with syscalls := syscalls }

/-- The write did its one change and returned its length, or returned an error
and changed nothing. -/
def AllOrNothing (endpoint : Endpoint) (len : Nat) (old : PolicyState)
    (outcome : ControlOutcome) : Prop :=
  (outcome.ret = len ∧ ChangesOwnList old outcome.policy endpoint) ∨
    ∃ error : Errno, outcome.ret = error.ret ∧ outcome.policy = old

/-- A settled list operation makes an all-or-nothing write. -/
private theorem allOrNothing_of_settles {Entry : Type}
    {change : Registry Entry → Registry Entry → Prop} {registry : Registry Entry}
    {op : ListOp Entry} (settles : Settles change registry op) {endpoint : Endpoint} {len : Nat}
    {policy : PolicyState}
    (store : Registry Entry → PolicyState) (stored : store registry = policy)
    (changes : change registry op.list → ChangesOwnList policy (store op.list) endpoint) :
    AllOrNothing endpoint len policy ⟨writeResult len op.ret, store op.list, op.log⟩ := by
  rcases settles with ⟨success, changed⟩ | ⟨error, failed, same⟩
  · refine Or.inl ⟨?_, changes changed⟩
    simp [writeResult, success]
  · refine Or.inr ⟨error, ?_, ?_⟩
    · simp [writeResult, failed]
    · simp [same, stored]

/-- A write returns its length only after a list operation that returned zero. -/
theorem ret_eq_zero_of_settles {Entry : Type} {change : Registry Entry → Registry Entry → Prop}
    {registry : Registry Entry} {op : ListOp Entry} (settles : Settles change registry op)
    {len : Nat} (returned : writeResult len op.ret = len) : op.ret = 0 := by
  rcases settles with ⟨success, -⟩ | ⟨error, failed, -⟩
  · exact success
  · have negative := error.ret_neg
    rw [failed, writeResult, if_neg error.ret_ne_zero] at returned
    omega

theorem Command.perform_allOrNothing (shash : Shash) (env : ControlEnv) (len : Nat)
    (policy : PolicyState) (command : Command) :
    AllOrNothing command.endpoint len policy (command.perform shash env len policy) := by
  cases command with
  | addFile path _ =>
      exact allOrNothing_of_settles (aegisProtectedFileAdd_settles shash env.fileAdd _ _)
        (fun files => { policy with files := files }) rfl fun changed => ⟨_, changed, rfl⟩
  | delFile path _ =>
      exact allOrNothing_of_settles (aegisProtectedFileDel_settles _ policy.files)
        (fun files => { policy with files := files }) rfl fun changed => ⟨_, changed, rfl⟩
  | addProc comm pid =>
      exact allOrNothing_of_settles (aegisProtectProcessAdd_settles env.kmallocEntry _ pid _)
        (fun procs => { policy with procs := procs }) rfl fun changed => ⟨_, changed, rfl⟩
  | delProc comm pid =>
      exact allOrNothing_of_settles (aegisProtectProcessDel_settles _ pid policy.procs)
        (fun procs => { policy with procs := procs }) rfl fun changed => ⟨_, changed, rfl⟩
  | addSyscall nr =>
      exact allOrNothing_of_settles (aegisSyscallBlockAdd_settles env.kmallocEntry nr.val _)
        (fun syscalls => { policy with syscalls := syscalls }) rfl
        fun changed => ⟨_, changed, rfl⟩
  | delSyscall nr =>
      exact allOrNothing_of_settles
        (listDel_settles (syscallHit nr.val) (.blockedSyscallRemoved nr.val))
        (fun syscalls => { policy with syscalls := syscalls }) rfl
        fun changed => ⟨_, changed, rfl⟩

/-! ### Blank writes -/

/-- A write that reaches the string helper with newlines only. -/
def BlankWrite (env : ControlEnv) (endpoint : Endpoint) (ubuf : List UInt8) : Prop :=
  env.capable = true ∧ endpoint.accepts ubuf.length = true ∧
    (endpoint.allocates = true → env.kmallocBuf = true) ∧ env.copyFault = false ∧
    ∀ byte ∈ copiedBytes ubuf endpoint.bufLen, isNewline byte = true

theorem blankWrite_iff {env : ControlEnv} {endpoint : Endpoint} {ubuf : List UInt8} :
    BlankWrite env endpoint ubuf ↔
      (Delivered env endpoint ∧ endpoint.accepts ubuf.length = true) ∧
        ∀ byte ∈ copiedBytes ubuf endpoint.bufLen, isNewline byte = true := by
  constructor
  · rintro ⟨capable, accepts, buffer, copied, newlines⟩
    exact ⟨⟨⟨capable, buffer, copied⟩, accepts⟩, newlines⟩
  · rintro ⟨⟨⟨capable, buffer, copied⟩, accepts⟩, newlines⟩
    exact ⟨capable, accepts, buffer, copied, newlines⟩

/-- Every refusal is an error, except that a blank write is refused with zero. -/
theorem refusal_cases (env : ControlEnv) (endpoint : Endpoint) (ubuf : List UInt8) :
    (∃ error : Errno, refusal env endpoint ubuf = some error.ret ∧
      ¬ BlankWrite env endpoint ubuf ∧ (env.capable = false → error = .eperm)) ∨
    (refusal env endpoint ubuf = some 0 ∧ BlankWrite env endpoint ubuf) ∨
    (refusal env endpoint ubuf = none ∧ ¬ BlankWrite env endpoint ubuf ∧
      env.capable = true) := by
  rw [blankWrite_iff]
  by_cases reaches : Delivered env endpoint ∧ endpoint.accepts ubuf.length = true
  · have capable := reaches.1.capable
    rw [refusal_of_delivered reaches.1 reaches.2]
    by_cases nul : 0 ∈ copiedBytes ubuf endpoint.bufLen
    · -- A NUL among the bytes is no newline.
      have mixed : ¬ ∀ byte ∈ copiedBytes ubuf endpoint.bufLen, isNewline byte = true :=
        fun all => absurd (all 0 nul) (by decide)
      rw [if_pos nul]
      exact Or.inl ⟨.einval, rfl, fun blank => mixed blank.2, by simp [capable]⟩
    · rw [if_neg nul, ← lineOf_length_eq_zero_iff nul]
      by_cases blank : (lineOf ubuf endpoint.bufLen).length = 0
      · rw [if_pos blank]
        exact Or.inr (Or.inl ⟨rfl, reaches, blank⟩)
      · rw [if_neg blank]
        exact Or.inr (Or.inr ⟨rfl, fun isBlank => blank isBlank.2, capable⟩)
  · obtain ⟨error, refused, uncapable⟩ := refusal_of_not_delivered reaches
    exact Or.inl ⟨error, refused, fun blank => reaches blank.1, uncapable⟩

theorem BlankWrite.length_pos {env : ControlEnv} {endpoint : Endpoint} {ubuf : List UInt8}
    (blank : BlankWrite env endpoint ubuf) : 0 < ubuf.length := by
  have accepted := blank.2.1
  simp only [Endpoint.accepts, Bool.and_eq_true, decide_eq_true_eq] at accepted
  exact accepted.1

/-- A write that returns its length has performed its command. -/
theorem exists_command_of_ret_eq_length {shash : Shash} {env : ControlEnv} {endpoint : Endpoint}
    {ubuf : List UInt8} {policy : PolicyState}
    (returned : (aectlWrite shash env endpoint ubuf policy).ret = ubuf.length) :
    refusal env endpoint ubuf = none ∧ ∃ command, Reads ubuf endpoint command ∧
      aectlWrite shash env endpoint ubuf policy =
        command.perform shash env ubuf.length policy := by
  rw [aectlWrite_eq] at returned ⊢
  unfold parseWrite at returned ⊢
  rcases refusal_cases env endpoint ubuf with
    ⟨error, refused, -, -⟩ | ⟨refused, blank⟩ | ⟨accepted, -, -⟩
  · have negative := error.ret_neg
    simp only [refused, ControlOutcome.refuse] at returned
    omega
  · have positive := blank.length_pos
    simp only [refused, ControlOutcome.refuse] at returned
    omega
  · refine ⟨accepted, ?_⟩
    simp only [accepted] at returned ⊢
    cases parsed : endpoint.command ubuf with
    | none =>
        have negative := Errno.einval.ret_neg
        simp only [parsed, ControlOutcome.refuse] at returned
        omega
    | some command => exact ⟨command, Endpoint.command_eq_some_iff.mp parsed, rfl⟩

/-- A control write is all or nothing, and only an administrator's write is
ever anything but `-EPERM`, exactly when the write is not blank. A blank write
returns zero. -/
theorem aectlWrite_allOrNothing_iff (shash : Shash) (env : ControlEnv) (endpoint : Endpoint)
    (ubuf : List UInt8) (policy : PolicyState) :
    (AllOrNothing endpoint ubuf.length policy (aectlWrite shash env endpoint ubuf policy) ∧
      (env.capable = false →
        (aectlWrite shash env endpoint ubuf policy).ret = Errno.eperm.ret)) ↔
      ¬ BlankWrite env endpoint ubuf := by
  rw [aectlWrite_eq]
  unfold parseWrite
  rcases refusal_cases env endpoint ubuf with
    ⟨error, refused, notBlank, uncapable⟩ | ⟨refused, blank⟩ | ⟨accepted, notBlank, capable⟩
  · simp only [refused]
    refine iff_of_true ⟨Or.inr ⟨error, rfl, rfl⟩, fun lacking => ?_⟩ notBlank
    rw [uncapable lacking]
    rfl
  · simp only [refused]
    refine iff_of_false (fun both => ?_) (not_not_intro blank)
    rcases both.1 with ⟨returned, -⟩ | ⟨error, returned, -⟩
    · have zero : (0 : Int) = ubuf.length := returned
      have positive := blank.length_pos
      omega
    · exact error.ret_ne_zero returned.symm
  · simp only [accepted]
    refine iff_of_true ⟨?_, fun lacking => by simp [capable] at lacking⟩ notBlank
    cases parsed : endpoint.command ubuf with
    | none => exact Or.inr ⟨.einval, rfl, rfl⟩
    | some command =>
        have settled := command.perform_allOrNothing shash env ubuf.length policy
        rw [(Endpoint.command_eq_some_iff.mp parsed).endpoint_eq] at settled
        exact settled

/-- Writing a single newline to `protected_files_add` returns zero, which is
neither the length of the write nor an error. -/
theorem aectlWrite_newline_returns_zero :
    (aectlWrite sha256Shash administrator .protectedFilesAdd [10]
      (boot (fun _ => true) (fun _ => true))).ret = 0 ∧
    ¬ AllOrNothing .protectedFilesAdd 1 (boot (fun _ => true) (fun _ => true))
      (aectlWrite sha256Shash administrator .protectedFilesAdd [10]
        (boot (fun _ => true) (fun _ => true))) := by
  have zero : (aectlWrite sha256Shash administrator .protectedFilesAdd [10]
      (boot (fun _ => true) (fun _ => true))).ret = 0 := by decide
  refine ⟨zero, ?_⟩
  rintro (⟨returned, -⟩ | ⟨error, returned, -⟩)
  · rw [zero] at returned
    omega
  · exact error.ret_ne_zero (returned.symm.trans zero)

end Aegis.Control
