import Aegis.Control.Endpoints

/-!
Owns the control interface in two halves: `parseWrite` reads the command that a
write asks for, or the value with which the write is refused, and
`Command.perform` applies it to the policy. `aectlWrite_eq` says that the six
handlers are the two halves in sequence.

Does not own: the handlers themselves, or the lists.
-/

namespace Aegis.Control

open Aegis.Foundation
open Aegis.Kernel
open Aegis.Policy

abbrev SyscallKey := { nr : Int // 0 ≤ nr }

/-- One change of policy, with an argument that fits its list. -/
inductive Command where
  | addFile (path : PathKey) (nonempty : 0 < path.val.length)
  | delFile (path : PathKey) (nonempty : 0 < path.val.length)
  | addProc (comm : CommKey) (pid : Int)
  | delProc (comm : CommKey) (pid : Int)
  | addSyscall (nr : SyscallKey)
  | delSyscall (nr : SyscallKey)
deriving DecidableEq

def Command.endpoint : Command → Endpoint
  | .addFile _ _ => .protectedFilesAdd
  | .delFile _ _ => .protectedFilesDel
  | .addProc _ _ => .protectedProcsAdd
  | .delProc _ _ => .protectedProcsDel
  | .addSyscall _ => .blockedSyscallsAdd
  | .delSyscall _ => .blockedSyscallsDel

/-! ### Reading a write -/

def Endpoint.bufLen : Endpoint → Nat
  | .protectedFilesAdd => aegisPathLen
  | .protectedFilesDel => aegisPathLen
  | .protectedProcsAdd => aegisPathLen
  | .protectedProcsDel => aegisPathLen
  | .blockedSyscallsAdd => syscallBufLen
  | .blockedSyscallsDel => syscallBufLen

/-- The file endpoints read into an allocated buffer, the others into one on
the stack. -/
def Endpoint.allocates : Endpoint → Bool
  | .protectedFilesAdd => true
  | .protectedFilesDel => true
  | _ => false

/-- The file endpoints accept one byte more than their buffer holds as text. -/
def Endpoint.accepts (endpoint : Endpoint) (len : Nat) : Bool :=
  0 < len && if endpoint.allocates then len ≤ endpoint.bufLen else len < endpoint.bufLen

def pathOf (ubuf : List UInt8) : PathKey :=
  ⟨lineOf ubuf aegisPathLen, lineOf_length_lt ubuf (by decide)⟩

def scanProc (ubuf : List UInt8) : WordInt := sscanfWordInt 15 (lineOf ubuf aegisPathLen) 0

def commOf (ubuf : List UInt8) : CommKey :=
  ⟨(scanProc ubuf).word, Nat.lt_succ_of_le (sscanfWordInt_word_length_le 15 _ 0)⟩

def syscallOf (ubuf : List UInt8) : Option SyscallKey :=
  (kstrtoint (lineOf ubuf syscallBufLen).bytes).bind fun nr =>
    if nonneg : 0 ≤ nr then some ⟨nr, nonneg⟩ else none

/-- The command of a line that is not blank, `none` where its argument is
malformed. -/
def Endpoint.command (ubuf : List UInt8) : Endpoint → Option Command
  | .protectedFilesAdd =>
      if nonempty : 0 < (pathOf ubuf).val.length then some (.addFile (pathOf ubuf) nonempty)
      else none
  | .protectedFilesDel =>
      if nonempty : 0 < (pathOf ubuf).val.length then some (.delFile (pathOf ubuf) nonempty)
      else none
  | .protectedProcsAdd =>
      if (scanProc ubuf).conversions < 1 then none
      else some (.addProc (commOf ubuf) (scanProc ubuf).number)
  | .protectedProcsDel =>
      if (scanProc ubuf).conversions < 1 then none
      else some (.delProc (commOf ubuf) (scanProc ubuf).number)
  | .blockedSyscallsAdd => (syscallOf ubuf).map .addSyscall
  | .blockedSyscallsDel => (syscallOf ubuf).map .delSyscall

/-- What each endpoint can read from the bytes. -/
inductive Reads (ubuf : List UInt8) : Endpoint → Command → Prop where
  | addFile (nonempty : 0 < (pathOf ubuf).val.length) :
      Reads ubuf .protectedFilesAdd (.addFile (pathOf ubuf) nonempty)
  | delFile (nonempty : 0 < (pathOf ubuf).val.length) :
      Reads ubuf .protectedFilesDel (.delFile (pathOf ubuf) nonempty)
  | addProc (converted : ¬ (scanProc ubuf).conversions < 1) :
      Reads ubuf .protectedProcsAdd (.addProc (commOf ubuf) (scanProc ubuf).number)
  | delProc (converted : ¬ (scanProc ubuf).conversions < 1) :
      Reads ubuf .protectedProcsDel (.delProc (commOf ubuf) (scanProc ubuf).number)
  | addSyscall {nr : SyscallKey} (isNumber : syscallOf ubuf = some nr) :
      Reads ubuf .blockedSyscallsAdd (.addSyscall nr)
  | delSyscall {nr : SyscallKey} (isNumber : syscallOf ubuf = some nr) :
      Reads ubuf .blockedSyscallsDel (.delSyscall nr)

theorem Reads.endpoint_eq {ubuf : List UInt8} {endpoint : Endpoint} {command : Command}
    (reads : Reads ubuf endpoint command) : command.endpoint = endpoint := by
  cases reads <;> rfl

theorem Endpoint.command_eq_some_iff {endpoint : Endpoint} {ubuf : List UInt8}
    {command : Command} :
    endpoint.command ubuf = some command ↔ Reads ubuf endpoint command := by
  constructor
  · intro parsed
    cases endpoint with
    | protectedFilesAdd =>
        obtain ⟨nonempty, ⟨⟩⟩ := Option.dite_none_right_eq_some.mp parsed
        exact .addFile nonempty
    | protectedFilesDel =>
        obtain ⟨nonempty, ⟨⟩⟩ := Option.dite_none_right_eq_some.mp parsed
        exact .delFile nonempty
    | protectedProcsAdd =>
        obtain ⟨converted, ⟨⟩⟩ := Option.ite_none_left_eq_some.mp parsed
        exact .addProc converted
    | protectedProcsDel =>
        obtain ⟨converted, ⟨⟩⟩ := Option.ite_none_left_eq_some.mp parsed
        exact .delProc converted
    | blockedSyscallsAdd =>
        obtain ⟨nr, isNumber, rfl⟩ := Option.map_eq_some_iff.mp parsed
        exact .addSyscall isNumber
    | blockedSyscallsDel =>
        obtain ⟨nr, isNumber, rfl⟩ := Option.map_eq_some_iff.mp parsed
        exact .delSyscall isNumber
  · intro reads
    cases reads with
    | addFile nonempty => exact dif_pos nonempty
    | delFile nonempty => exact dif_pos nonempty
    | addProc converted => exact if_neg converted
    | delProc converted => exact if_neg converted
    | addSyscall isNumber => rw [Endpoint.command, isNumber, Option.map_some]
    | delSyscall isNumber => rw [Endpoint.command, isNumber, Option.map_some]

/-- The value with which a write is refused before its line is parsed. A blank
line is refused with zero. -/
def refusal (env : ControlEnv) (endpoint : Endpoint) (ubuf : List UInt8) : Option Int :=
  if !env.capable then some Errno.eperm.ret
  else if !endpoint.accepts ubuf.length then some Errno.einval.ret
  else if endpoint.allocates && !env.kmallocBuf then some Errno.enomem.ret
  else if env.copyFault then some Errno.efault.ret
  else if 0 ∈ copiedBytes ubuf endpoint.bufLen then some Errno.einval.ret
  else if (lineOf ubuf endpoint.bufLen).length = 0 then some 0
  else none

def parseWrite (env : ControlEnv) (endpoint : Endpoint) (ubuf : List UInt8) :
    Except Int Command :=
  match refusal env endpoint ubuf with
  | some ret => .error ret
  | none =>
      match endpoint.command ubuf with
      | none => .error Errno.einval.ret
      | some command => .ok command

/-- A write becomes the command that its endpoint reads, if it is not refused. -/
theorem parseWrite_eq_ok_iff {env : ControlEnv} {endpoint : Endpoint} {ubuf : List UInt8}
    {command : Command} :
    parseWrite env endpoint ubuf = .ok command ↔
      refusal env endpoint ubuf = none ∧ Reads ubuf endpoint command := by
  rw [← Endpoint.command_eq_some_iff]
  unfold parseWrite
  cases refusal env endpoint ubuf with
  | some ret => simp
  | none => cases endpoint.command ubuf <;> simp

/-! ### Performing a command -/

def Command.perform (shash : Shash) (env : ControlEnv) (len : Nat) (policy : PolicyState) :
    Command → ControlOutcome
  | .addFile path _ =>
      let result := aegisProtectedFileAdd shash env.fileAdd (some path.val) policy.files
      ⟨writeResult len result.ret, { policy with files := result.list }, result.log⟩
  | .delFile path _ =>
      let result := aegisProtectedFileDel (some path.val) policy.files
      ⟨writeResult len result.ret, { policy with files := result.list }, result.log⟩
  | .addProc comm pid =>
      let result := aegisProtectProcessAdd env.kmallocEntry (some comm.val) pid policy.procs
      ⟨writeResult len result.ret, { policy with procs := result.list }, result.log⟩
  | .delProc comm pid =>
      let result := aegisProtectProcessDel (some comm.val) pid policy.procs
      ⟨writeResult len result.ret, { policy with procs := result.list }, result.log⟩
  | .addSyscall nr =>
      let result := aegisSyscallBlockAdd env.kmallocEntry nr.val policy.syscalls
      ⟨writeResult len result.ret, { policy with syscalls := result.list }, result.log⟩
  | .delSyscall nr =>
      let result := aegisSyscallBlockDel nr.val policy.syscalls
      ⟨writeResult len result.ret, { policy with syscalls := result.list }, result.log⟩

section Handlers

variable (env : ControlEnv) (ubuf : List UInt8) (policy : PolicyState)

/-- The handlers refuse by the sign of what the string helper returns. -/
theorem refusal_eq (endpoint : Endpoint) :
    refusal env endpoint ubuf =
      if !env.capable then some Errno.eperm.ret
      else if !endpoint.accepts ubuf.length then some Errno.einval.ret
      else if endpoint.allocates && !env.kmallocBuf then some Errno.enomem.ret
      else if (aectlGetString env.copyFault ubuf endpoint.bufLen).1 ≤ 0 then
        some (aectlGetString env.copyFault ubuf endpoint.bufLen).1
      else none := by
  have fault := Int.le_of_lt Errno.efault.ret_neg
  have invalid := Int.le_of_lt Errno.einval.ret_neg
  unfold refusal
  rw [aectlGetString_eq]
  cases env.copyFault with
  | true => simp [fault]
  | false =>
      by_cases nul : 0 ∈ copiedBytes ubuf endpoint.bufLen
      · simp [nul, invalid]
      · by_cases blank : (lineOf ubuf endpoint.bufLen).length = 0
        · simp [nul, blank]
        · simp [nul, blank]

theorem aectlGetString_line {copyFault : Bool} {max : Nat}
    (positive : 0 < (aectlGetString copyFault ubuf max).1) :
    (aectlGetString copyFault ubuf max).2 = lineOf ubuf max := by
  have fault := Errno.efault.ret_neg
  have invalid := Errno.einval.ret_neg
  rw [aectlGetString_eq] at positive ⊢
  split_ifs at positive ⊢
  · omega
  · omega
  · rfl

theorem aectlWriteOp_eq (endpoint : Endpoint) (allocates : endpoint.allocates = true)
    (op : CString → ListOp AegisProtectedFile) :
    aectlWriteOp env ubuf policy op =
      match refusal env endpoint ubuf with
      | some ret => .refuse policy ret
      | none =>
          let result := op (lineOf ubuf aegisPathLen)
          ⟨writeResult ubuf.length result.ret, { policy with files := result.list },
            result.log⟩ := by
  have buffer : endpoint.bufLen = aegisPathLen := by
    cases endpoint <;> first | rfl | cases allocates
  have lengths : (decide (ubuf.length = 0) || decide (aegisPathLen < ubuf.length)) =
      !endpoint.accepts ubuf.length := by
    rw [Bool.eq_iff_iff]
    simp [Endpoint.accepts, allocates, buffer]
  simp only [aectlWriteOp, aectlAuthorized, lengths, refusal_eq, allocates, buffer,
    Bool.true_and]
  by_cases refused : (aectlGetString env.copyFault ubuf aegisPathLen).1 ≤ 0
  · cases env.capable <;> cases endpoint.accepts ubuf.length <;> cases env.kmallocBuf <;>
      simp [refused]
  · rw [aectlGetString_line ubuf (by omega)]
    cases env.capable <;> cases endpoint.accepts ubuf.length <;> cases env.kmallocBuf <;>
      simp [refused]

/-- The length check of the handlers with a buffer on the stack. -/
private theorem accepts_of_stack {endpoint : Endpoint} {size : Nat}
    (onStack : endpoint.allocates = false) (buffer : endpoint.bufLen = size) :
    (decide (ubuf.length = 0) || decide (size ≤ ubuf.length)) =
      !endpoint.accepts ubuf.length := by
  rw [Bool.eq_iff_iff]
  simp [Endpoint.accepts, onStack, buffer]

theorem aectlProcsWrite_eq (endpoint : Endpoint) (onStack : endpoint.allocates = false)
    (buffer : endpoint.bufLen = aegisPathLen)
    (op : CString → Int → ListOp AegisProtectedProc) :
    aectlProcsWrite env ubuf policy op =
      match refusal env endpoint ubuf with
      | some ret => .refuse policy ret
      | none =>
          if (scanProc ubuf).conversions < 1 then .refuse policy Errno.einval.ret
          else
            let result := op (scanProc ubuf).word (scanProc ubuf).number
            ⟨writeResult ubuf.length result.ret, { policy with procs := result.list },
              result.log⟩ := by
  simp only [aectlProcsWrite, aectlAuthorized, accepts_of_stack ubuf onStack buffer, refusal_eq,
    onStack, buffer, Bool.false_and]
  by_cases refused : (aectlGetString env.copyFault ubuf aegisPathLen).1 ≤ 0
  · cases env.capable <;> cases endpoint.accepts ubuf.length <;> simp [refused]
  · rw [aectlGetString_line ubuf (by omega)]
    cases env.capable <;> cases endpoint.accepts ubuf.length <;> simp [refused, scanProc]

theorem aectlSyscallsWrite_eq (endpoint : Endpoint) (onStack : endpoint.allocates = false)
    (buffer : endpoint.bufLen = syscallBufLen) (op : Int → ListOp AegisBlockedSyscall) :
    aectlSyscallsWrite env ubuf policy op =
      match refusal env endpoint ubuf with
      | some ret => .refuse policy ret
      | none =>
          match syscallOf ubuf with
          | none => .refuse policy Errno.einval.ret
          | some nr =>
              let result := op nr.val
              ⟨writeResult ubuf.length result.ret, { policy with syscalls := result.list },
                result.log⟩ := by
  simp only [aectlSyscallsWrite, aectlAuthorized, accepts_of_stack ubuf onStack buffer,
    refusal_eq, onStack, buffer, Bool.false_and]
  by_cases refused : (aectlGetString env.copyFault ubuf syscallBufLen).1 ≤ 0
  · cases env.capable <;> cases endpoint.accepts ubuf.length <;> simp [refused]
  · rw [aectlGetString_line ubuf (by omega)]
    unfold syscallOf
    cases kstrtoint (lineOf ubuf syscallBufLen).bytes with
    | none => cases env.capable <;> cases endpoint.accepts ubuf.length <;> simp [refused]
    | some nr =>
        by_cases negative : nr < 0
        · have rejected : ¬ 0 ≤ nr := by omega
          cases env.capable <;> cases endpoint.accepts ubuf.length <;>
            simp [refused, negative, rejected]
        · have kept : 0 ≤ nr := by omega
          cases env.capable <;> cases endpoint.accepts ubuf.length <;>
            simp [refused, negative, kept]

end Handlers

/-- The write reaches the string helper: its caller may change policy, and the
buffer and the copy succeed. -/
structure Delivered (env : ControlEnv) (endpoint : Endpoint) : Prop where
  capable : env.capable = true
  buffer : endpoint.allocates = true → env.kmallocBuf = true
  copied : env.copyFault = false

section Refusal

variable {env : ControlEnv} {endpoint : Endpoint} {ubuf : List UInt8}

/-- A delivered write of an accepted length is judged by its bytes. -/
theorem refusal_of_delivered (delivered : Delivered env endpoint)
    (accepts : endpoint.accepts ubuf.length = true) :
    refusal env endpoint ubuf =
      if 0 ∈ copiedBytes ubuf endpoint.bufLen then some Errno.einval.ret
      else if (lineOf ubuf endpoint.bufLen).length = 0 then some 0 else none := by
  have buffer : (endpoint.allocates && !env.kmallocBuf) = false := by
    cases allocates : endpoint.allocates with
    | false => rfl
    | true => simp [delivered.buffer allocates]
  simp [refusal, delivered.capable, delivered.copied, accepts, buffer]

/-- Any other write is answered with an error. -/
theorem refusal_of_not_delivered
    (short : ¬ (Delivered env endpoint ∧ endpoint.accepts ubuf.length = true)) :
    ∃ error : Errno, refusal env endpoint ubuf = some error.ret ∧
      (env.capable = false → error = .eperm) := by
  unfold refusal
  split_ifs with capable length buffer fault
  · exact ⟨.eperm, rfl, fun _ => rfl⟩
  · exact ⟨.einval, rfl, fun lacking => by simp [lacking] at capable⟩
  · exact ⟨.enomem, rfl, fun lacking => by simp [lacking] at capable⟩
  · exact ⟨.efault, rfl, fun lacking => by simp [lacking] at capable⟩
  all_goals
    refine absurd ⟨⟨by simpa using capable, fun allocates => ?_, by simpa using fault⟩,
      by simpa using length⟩ short
    simpa [allocates] using buffer

theorem refusal_eq_none_iff :
    refusal env endpoint ubuf = none ↔
      Delivered env endpoint ∧ endpoint.accepts ubuf.length = true ∧
        0 ∉ copiedBytes ubuf endpoint.bufLen ∧ (lineOf ubuf endpoint.bufLen).length ≠ 0 := by
  by_cases reaches : Delivered env endpoint ∧ endpoint.accepts ubuf.length = true
  · rw [refusal_of_delivered reaches.1 reaches.2]
    by_cases nul : 0 ∈ copiedBytes ubuf endpoint.bufLen
    · simp [nul]
    · by_cases blank : (lineOf ubuf endpoint.bufLen).length = 0
      · simp [nul, blank]
      · simp [reaches, nul, blank]
  · obtain ⟨error, refused, -⟩ := refusal_of_not_delivered reaches
    rw [refused]
    exact iff_of_false (by simp) fun accepted => reaches ⟨accepted.1, accepted.2.1⟩

end Refusal

/-- A line that is not refused is not blank. -/
theorem pathOf_length_pos {env : ControlEnv} {endpoint : Endpoint} {ubuf : List UInt8}
    (buffer : endpoint.bufLen = aegisPathLen) (accepted : refusal env endpoint ubuf = none) :
    0 < (pathOf ubuf).val.length := by
  obtain ⟨-, -, -, blank⟩ := refusal_eq_none_iff.mp accepted
  rw [buffer] at blank
  exact Nat.pos_of_ne_zero blank

/-- Each handler parses its write and performs the command. -/
theorem aectlWrite_eq (shash : Shash) (env : ControlEnv) (endpoint : Endpoint)
    (ubuf : List UInt8) (policy : PolicyState) :
    aectlWrite shash env endpoint ubuf policy =
      match parseWrite env endpoint ubuf with
      | .error ret => .refuse policy ret
      | .ok command => command.perform shash env ubuf.length policy := by
  cases endpoint with
  | protectedFilesAdd =>
      simp only [aectlWrite, aectlFilesAddWrite,
        aectlWriteOp_eq env ubuf policy .protectedFilesAdd rfl, parseWrite, Endpoint.command]
      cases refused : refusal env .protectedFilesAdd ubuf with
      | some ret => rfl
      | none =>
          have nonempty := pathOf_length_pos rfl refused
          simp only [dif_pos nonempty]
          rfl
  | protectedFilesDel =>
      simp only [aectlWrite, aectlFilesDelWrite,
        aectlWriteOp_eq env ubuf policy .protectedFilesDel rfl, parseWrite, Endpoint.command]
      cases refused : refusal env .protectedFilesDel ubuf with
      | some ret => rfl
      | none =>
          have nonempty := pathOf_length_pos rfl refused
          simp only [dif_pos nonempty]
          rfl
  | protectedProcsAdd =>
      simp only [aectlWrite, aectlProcsAddWrite,
        aectlProcsWrite_eq env ubuf policy .protectedProcsAdd rfl rfl,
        parseWrite, Endpoint.command]
      cases refusal env .protectedProcsAdd ubuf with
      | some ret => rfl
      | none => by_cases short : (scanProc ubuf).conversions < 1 <;> simp only [short] <;> rfl
  | protectedProcsDel =>
      simp only [aectlWrite, aectlProcsDelWrite,
        aectlProcsWrite_eq env ubuf policy .protectedProcsDel rfl rfl,
        parseWrite, Endpoint.command]
      cases refusal env .protectedProcsDel ubuf with
      | some ret => rfl
      | none => by_cases short : (scanProc ubuf).conversions < 1 <;> simp only [short] <;> rfl
  | blockedSyscallsAdd =>
      simp only [aectlWrite, aectlSyscallsAddWrite,
        aectlSyscallsWrite_eq env ubuf policy .blockedSyscallsAdd rfl rfl,
        parseWrite, Endpoint.command]
      cases refusal env .blockedSyscallsAdd ubuf <;> cases syscallOf ubuf <;> rfl
  | blockedSyscallsDel =>
      simp only [aectlWrite, aectlSyscallsDelWrite,
        aectlSyscallsWrite_eq env ubuf policy .blockedSyscallsDel rfl rfl,
        parseWrite, Endpoint.command]
      cases refusal env .blockedSyscallsDel ubuf <;> cases syscallOf ubuf <;> rfl

theorem aectlWrite_of_reads {env : ControlEnv} {endpoint : Endpoint} {ubuf : List UInt8}
    {command : Command} (accepted : refusal env endpoint ubuf = none)
    (reads : Reads ubuf endpoint command) (shash : Shash) (policy : PolicyState) :
    aectlWrite shash env endpoint ubuf policy = command.perform shash env ubuf.length policy := by
  rw [aectlWrite_eq, parseWrite_eq_ok_iff.mpr ⟨accepted, reads⟩]

section Unchanged

variable (shash : Shash) (env : ControlEnv) (endpoint : Endpoint) (ubuf : List UInt8)
variable (policy : PolicyState)

/-- Control writes leave the configuration alone, and the counters. -/
theorem aectlWrite_cfg : (aectlWrite shash env endpoint ubuf policy).policy.cfg = policy.cfg := by
  rw [aectlWrite_eq]
  cases parseWrite env endpoint ubuf with
  | error ret => rfl
  | ok command => cases command <;> rfl

theorem aectlWrite_stats :
    (aectlWrite shash env endpoint ubuf policy).policy.stats = policy.stats := by
  rw [aectlWrite_eq]
  cases parseWrite env endpoint ubuf with
  | error ret => rfl
  | ok command => cases command <;> rfl

end Unchanged

end Aegis.Control
