import Aegis.Control.Grammar
import Aegis.Refinement.Ledger

/-!
Owns the line that stands for a key, and its agreement with the control
endpoints: the path of a file, the row of a process in its listing, the number
of a system call. Every key that a run can list has a line that both endpoints
of its list read as that key.

The row of the empty process name would be read as the name `0`, so that name
has a line of its own.

Does not own: runs of writes, or the other rows of the listings.
-/

namespace Aegis.Refinement

open Aegis.Foundation
open Aegis.Kernel
open Aegis.Policy
open Aegis.Control

namespace PolicyKey

/-- Where the key is added to its list or deleted from it. -/
def endpoint (adds : Bool) : PolicyKey → Endpoint
  | .file _ => if adds then .protectedFilesAdd else .protectedFilesDel
  | .proc _ _ => if adds then .protectedProcsAdd else .protectedProcsDel
  | .syscall _ => if adds then .blockedSyscallsAdd else .blockedSyscallsDel

/-- The bytes that name the key in a write. -/
def line : PolicyKey → List UInt8
  | .file path => path.val.bytes
  | .proc comm pid =>
      if comm.val.bytes = [] then [32] else procRow comm.val.bytes (decimal pid)
  | .syscall nr => decimal nr

end PolicyKey

/-! ### Keys with a line -/

/-- A path that is left of some line. -/
structure WritablePath (path : PathKey) : Prop where
  nonempty : path.val.bytes ≠ []
  ends : ∀ byte ∈ path.val.bytes.getLast?, isNewline byte = false

/-- A name without blanks and an `int`; the empty name is written without a
number. -/
structure WritableProc (comm : CommKey) (pid : Int) : Prop where
  solid : ∀ byte ∈ comm.val.bytes, isSpace byte = false
  low : -2147483648 ≤ pid
  high : pid < 2147483648
  blank : comm.val.bytes = [] → pid = 0

structure WritableSyscall (nr : Int) : Prop where
  nonneg : 0 ≤ nr
  high : nr < 2147483648

def PolicyKey.Writable : PolicyKey → Prop
  | .file path => WritablePath path
  | .proc comm pid => WritableProc comm pid
  | .syscall nr => WritableSyscall nr

/-- Bytes that reach the parser of their endpoint as they are. -/
structure Verbatim (line : List UInt8) (max : Nat) : Prop where
  nonempty : line ≠ []
  fits : line.length < max
  noNul : 0 ∉ line
  ends : ∀ byte ∈ line.getLast?, isNewline byte = false

theorem isNewline_of_solid {byte : UInt8} (solid : isSpace byte = false) :
    isNewline byte = false := by
  rw [← Bool.not_eq_true]
  intro newline
  rcases (by simpa [isNewline] using newline : byte = 10 ∨ byte = 13) with rfl | rfl
  · exact absurd solid (by decide)
  · exact absurd solid (by decide)

section Verbatim

variable {line : List UInt8} {max : Nat}

theorem Verbatim.lineOf_bytes (verbatim : Verbatim line max) :
    (lineOf line max).bytes = line := by
  have copied := copiedBytes_eq_of_lt verbatim.fits
  rw [Control.lineOf_bytes (by rw [copied]; exact verbatim.noNul), copied, stripNewlines,
    List.rdropWhile_eq_self_iff]
  intro nonempty newline
  have last := verbatim.ends _ (List.getLast?_eq_getLast_of_ne_nil nonempty)
  rw [last] at newline
  cases newline

theorem Verbatim.accepted {env : ControlEnv} {endpoint : Endpoint}
    (verbatim : Verbatim line endpoint.bufLen) (delivered : Delivered env endpoint) :
    refusal env endpoint line = none := by
  apply refusal_eq_none_iff.mpr
  have positive : 0 < line.length := List.length_pos_iff.mpr verbatim.nonempty
  have fits := verbatim.fits
  refine ⟨delivered, ?_, ?_, ?_⟩
  · have small : line.length ≤ endpoint.bufLen := Nat.le_of_lt fits
    simp [Endpoint.accepts, positive, fits, small]
  · rw [copiedBytes_eq_of_lt fits]
    exact verbatim.noNul
  · rw [CString.length, verbatim.lineOf_bytes]
    exact Nat.ne_of_gt positive

end Verbatim

/-! ### Lines of writable keys -/

section ProcRow

variable {comm : CommKey} {pid : Int}

theorem decimalInt_decimal (low : -2147483648 ≤ pid) (high : pid < 2147483648) :
    DecimalInt (decimal pid) pid := by
  have digits : Digits (decimalNat pid.natAbs) :=
    ⟨decimalNat_ne_nil _, decimalNat_allDigits _⟩
  by_cases negative : pid < 0
  · have value : -((digitsValue (decimalNat pid.natAbs) : Nat) : Int) = pid := by
      rw [digitsValue_decimalNat]
      omega
    have read := DecimalInt.negative digits (by rw [digitsValue_decimalNat]; omega)
    rw [value] at read
    rwa [decimal, if_pos negative]
  · have value : ((digitsValue (decimalNat pid.natAbs) : Nat) : Int) = pid := by
      rw [digitsValue_decimalNat]
      omega
    have read := DecimalInt.unsigned digits (by rw [digitsValue_decimalNat]; omega)
    rw [value] at read
    rwa [decimal, if_neg negative]

/-- The row of a listing is in the format of the endpoints. -/
theorem procFormat_procRow (writable : WritableProc comm pid) (named : comm.val.bytes ≠ []) :
    ProcFormat (procRow comm.val.bytes (decimal pid)) comm.val pid := by
  have blanks : ∀ count, Blanks (List.replicate count 32) := by
    intro count byte member
    rw [List.eq_of_mem_replicate member]
    decide
  have between : Blanks (List.replicate (20 - comm.val.bytes.length) 32 ++
      32 :: List.replicate (8 - (decimal pid).length) 32) := by
    intro byte member
    rcases List.mem_append.mp member with before | after
    · exact blanks _ byte before
    · rcases List.mem_cons.mp after with rfl | padding
      · decide
      · exact blanks _ byte padding
  have name : NameWord comm.val :=
    ⟨named, Nat.le_of_lt_succ comm.property, writable.solid⟩
  have none : Blanks [] := fun byte member => absurd member List.not_mem_nil
  have format := ProcFormat.commPid none name between (by simp)
    (decimalInt_decimal writable.low writable.high) none
  simpa [procRow, padRight, padLeft] using format

theorem verbatim_procRow (writable : WritableProc comm pid) :
    Verbatim (procRow comm.val.bytes (decimal pid)) aegisPathLen where
  nonempty := by simp [procRow]
  fits := by
    have short : comm.val.bytes.length < 16 := comm.property
    have number := decimal_length_le writable.low writable.high
    simp only [procRow, List.length_append, List.length_cons, padRight_length, padLeft_length,
      aegisPathLen]
    omega
  noNul := by
    have noBlank : (0 : UInt8) ≠ 32 := by decide
    rw [procRow, List.mem_append, List.mem_cons, not_or, not_or]
    exact ⟨not_mem_padRight noBlank comm.val.noNul, noBlank,
      not_mem_padLeft noBlank (not_mem_decimal (by decide))⟩
  ends := by
    intro byte last
    have number : decimal pid ≠ [] := by
      unfold decimal
      split
      · simp
      · exact decimalNat_ne_nil _
    have same : (procRow comm.val.bytes (decimal pid)).getLast? = (decimal pid).getLast? := by
      rw [procRow, padLeft, List.getLast?_append_cons, ← List.cons_append,
        List.getLast?_append_of_ne_nil _ number]
    rw [same] at last
    exact isNewline_of_solid (decimal_solid (List.mem_of_getLast? last))

/-- The row of a named process is read as its name and number. -/
theorem scanProc_procRow (writable : WritableProc comm pid) (named : comm.val.bytes ≠ []) :
    (scanProc (procRow comm.val.bytes (decimal pid))).word = comm.val ∧
      (scanProc (procRow comm.val.bytes (decimal pid))).number = pid := by
  have format := procFormat_procRow writable named
  rw [← (verbatim_procRow writable).lineOf_bytes] at format
  exact format.sscanfWordInt_eq

end ProcRow

theorem verbatim_path {path : PathKey} (writable : WritablePath path) :
    Verbatim path.val.bytes aegisPathLen :=
  ⟨writable.nonempty, path.property, path.val.noNul, writable.ends⟩

theorem verbatim_number {nr : Int} (writable : WritableSyscall nr) :
    Verbatim (decimal nr) syscallBufLen where
  nonempty := by
    unfold decimal
    split
    · simp
    · exact decimalNat_ne_nil _
  fits := by
    have nonneg := writable.nonneg
    have length := decimal_length_le (by omega) writable.high
    show (decimal nr).length < 16
    omega
  noNul := (decimalString nr).noNul
  ends byte last := isNewline_of_solid (decimal_solid (List.mem_of_getLast? last))

theorem verbatim_blank : Verbatim [32] aegisPathLen where
  nonempty := List.cons_ne_nil _ _
  fits := by
    show 1 < 256
    omega
  noNul := by simp
  ends byte last := by
    obtain rfl : 32 = byte := Option.some.inj last
    rfl

/-- What the process endpoints read from the line of a process. -/
theorem scanProc_line {comm : CommKey} {pid : Int} (writable : WritableProc comm pid) :
    Verbatim (PolicyKey.proc comm pid).line aegisPathLen ∧
      commOf (PolicyKey.proc comm pid).line = comm ∧
      (scanProc (PolicyKey.proc comm pid).line).number = pid := by
  by_cases blank : comm.val.bytes = []
  · simp only [PolicyKey.line, blank, if_true]
    have word : (commOf [32]).val.bytes = [] := by decide +kernel
    refine ⟨verbatim_blank, Subtype.ext (CString.ext (word.trans blank.symm)), ?_⟩
    rw [writable.blank blank]
    decide +kernel
  · obtain ⟨word, number⟩ := scanProc_procRow writable blank
    simp only [PolicyKey.line, blank, if_false]
    exact ⟨verbatim_procRow writable, Subtype.ext word, number⟩

/-- The row of the empty name would be read as the name `0`. -/
example : (commOf (procRow [] (decimal 0))).val.bytes = decimal 0 := by decide +kernel

theorem syscallOf_line {nr : Int} (writable : WritableSyscall nr) :
    syscallOf (PolicyKey.syscall nr).line = some ⟨nr, writable.nonneg⟩ := by
  have line : (lineOf (decimal nr) syscallBufLen).bytes = decimal nr :=
    (verbatim_number writable).lineOf_bytes
  have nonneg := writable.nonneg
  rw [PolicyKey.line, syscallOf, line, kstrtoint_decimal nonneg writable.high]
  simp [nonneg]

/-- Both endpoints of the key's list read its line as the key. -/
theorem PolicyKey.parse_line {key : PolicyKey} {env : ControlEnv} (writable : key.Writable)
    (adds : Bool) (delivered : Delivered env (key.endpoint adds)) :
    ∃ command, parseWrite env (key.endpoint adds) key.line = .ok command ∧
      commandKey command = key ∧ commandAdds command = adds := by
  cases key with
  | file path =>
      have verbatim := verbatim_path writable
      have same : pathOf path.val.bytes = path :=
        Subtype.ext (CString.ext verbatim.lineOf_bytes)
      cases adds with
      | true =>
          have accepted : refusal env .protectedFilesAdd path.val.bytes = none :=
            verbatim.accepted delivered
          exact ⟨_, parseWrite_eq_ok_iff.mpr ⟨accepted, .addFile (pathOf_length_pos rfl accepted)⟩,
            congrArg PolicyKey.file same, rfl⟩
      | false =>
          have accepted : refusal env .protectedFilesDel path.val.bytes = none :=
            verbatim.accepted delivered
          exact ⟨_, parseWrite_eq_ok_iff.mpr ⟨accepted, .delFile (pathOf_length_pos rfl accepted)⟩,
            congrArg PolicyKey.file same, rfl⟩
  | proc comm pid =>
      obtain ⟨verbatim, name, number⟩ := scanProc_line writable
      have converted : ¬ (scanProc (PolicyKey.proc comm pid).line).conversions < 1 := by
        have present : (lineOf (PolicyKey.proc comm pid).line aegisPathLen).bytes ≠ [] := by
          rw [verbatim.lineOf_bytes]
          exact verbatim.nonempty
        exact Nat.not_lt.mpr (sscanfWordInt_conversions_pos 15 present 0)
      have same : PolicyKey.proc (commOf (PolicyKey.proc comm pid).line)
          (scanProc (PolicyKey.proc comm pid).line).number = .proc comm pid := by
        rw [name, number]
      cases adds with
      | true =>
          exact ⟨_, parseWrite_eq_ok_iff.mpr ⟨verbatim.accepted delivered, .addProc converted⟩,
            same, rfl⟩
      | false =>
          exact ⟨_, parseWrite_eq_ok_iff.mpr ⟨verbatim.accepted delivered, .delProc converted⟩,
            same, rfl⟩
  | syscall nr =>
      have verbatim := verbatim_number writable
      have number := syscallOf_line writable
      cases adds with
      | true =>
          exact ⟨_, parseWrite_eq_ok_iff.mpr ⟨verbatim.accepted delivered, .addSyscall number⟩,
            rfl, rfl⟩
      | false =>
          exact ⟨_, parseWrite_eq_ok_iff.mpr ⟨verbatim.accepted delivered, .delSyscall number⟩,
            rfl, rfl⟩

/-! ### Listed keys -/

/-- Whatever an endpoint reads is a key with a line. -/
theorem writable_of_parse {env : ControlEnv} {endpoint : Endpoint} {ubuf : List UInt8}
    {command : Command} (parsed : parseWrite env endpoint ubuf = .ok command) :
    (commandKey command).Writable := by
  obtain ⟨accepted, reads⟩ := parseWrite_eq_ok_iff.mp parsed
  obtain ⟨-, -, noNul, -⟩ := refusal_eq_none_iff.mp accepted
  have path : endpoint.bufLen = aegisPathLen → 0 < (pathOf ubuf).val.length →
      WritablePath (pathOf ubuf) := by
    intro buffer nonempty
    rw [buffer] at noNul
    have present : (pathOf ubuf).val.bytes ≠ [] := List.length_pos_iff.mp nonempty
    have stripped : (pathOf ubuf).val.bytes = stripNewlines (copiedBytes ubuf aegisPathLen) :=
      lineOf_bytes noNul
    rw [stripped] at present
    refine ⟨by rw [stripped]; exact present, fun byte last => ?_⟩
    rw [stripped, List.getLast?_eq_getLast_of_ne_nil present] at last
    rw [← Option.some.inj last, ← Bool.not_eq_true]
    exact List.rdropWhile_last_not isNewline _ present
  have proc : WritableProc (commOf ubuf) (scanProc ubuf).number := by
    have range := sscanfWordInt_number_range 15 (lineOf ubuf aegisPathLen)
      (show -2147483648 ≤ (0 : Int) ∧ (0 : Int) < 2147483648 by decide)
    exact ⟨sscanfWordInt_word_solid 15 _ 0, range.1, range.2,
      sscanfWordInt_number_of_blank (by decide)⟩
  have syscall : ∀ nr : SyscallKey, syscallOf ubuf = some nr → WritableSyscall nr.val := by
    intro nr isNumber
    obtain ⟨value, converted, kept⟩ := Option.bind_eq_some_iff.mp isNumber
    obtain ⟨nonneg, ⟨⟩⟩ := Option.dite_none_right_eq_some.mp kept
    exact ⟨nonneg, (kstrtoint_range converted).2⟩
  cases reads with
  | addFile nonempty => exact path rfl nonempty
  | delFile nonempty => exact path rfl nonempty
  | addProc converted => exact proc
  | delProc converted => exact proc
  | addSyscall isNumber => exact syscall _ isNumber
  | delSyscall isNumber => exact syscall _ isNumber

/-- No key is listed twice, and every listed key has a line. -/
structure Expressible (policy : PolicyState) : Prop where
  distinct : DistinctKeys policy
  writable : ∀ key : PolicyKey, key.Listed policy → key.Writable

theorem expressible_boot (procAlloc : Fin 3 → Bool) (syscallAlloc : Fin 5 → Bool) :
    Expressible (Policy.boot procAlloc syscallAlloc) where
  distinct := distinctKeys_boot procAlloc syscallAlloc
  writable key listed := by
    cases key with
    | file path => exact absurd listed List.not_mem_nil
    | proc comm pid =>
        have sound : SoundList aegisMaxProtectedProcs
            (fun entry => WritableProc entry.key.1 entry.key.2)
            (aegisProcessInit procAlloc).list := by
          apply aegisProtectProcessAdd_sound _
            (⟨by decide +kernel, by decide, by decide, by decide +kernel⟩)
          apply aegisProtectProcessAdd_sound _
            (⟨by decide +kernel, by decide, by decide, by decide +kernel⟩)
          apply aegisProtectProcessAdd_sound _
            (⟨by decide +kernel, by decide, by decide, by decide +kernel⟩)
          exact soundList_empty _ _
        obtain ⟨entry, member, same⟩ := List.mem_map.mp listed
        have writable := sound.good entry member
        rw [same] at writable
        exact writable
    | syscall nr =>
        obtain ⟨entry, member, rfl⟩ := List.mem_map.mp listed
        have plain := (wellFormed_boot (fun _ => True) procAlloc syscallAlloc).syscalls.good entry
          member
        exact ⟨plain.1, plain.2⟩

theorem Expressible.step {state : KernelState} (expressible : Expressible state.policy)
    (shash : Shash) (operation : Operation) :
    Expressible ((kernel shash).step state operation).1.policy := by
  refine ⟨expressible.distinct.step shash operation, fun key listed => ?_⟩
  cases operation with
  | write env endpoint ubuf =>
      have written : key.Listed (aectlWrite shash env endpoint ubuf state.policy).policy := listed
      rw [aectlWrite_eq] at written
      cases parsed : parseWrite env endpoint ubuf with
      | error ret =>
          rw [parsed] at written
          exact expressible.writable key written
      | ok command =>
          rw [parsed] at written
          rcases (expressible.distinct.listed_perform shash env ubuf.length command key).mp
            written with ⟨-, rfl, -⟩ | ⟨-, before⟩
          · exact writable_of_parse parsed
          · exact expressible.writable key before
  | sysctl knob result => exact expressible.writable key (by cases key <;> exact listed)
  | hook env request => exact expressible.writable key (by cases key <;> exact listed)

theorem expressible_of_reachable {shash : Shash} {policy : PolicyState}
    (reached : Reachable shash policy) : Expressible policy := by
  obtain ⟨procAlloc, syscallAlloc, operations, each, rfl⟩ := reached
  exact Transducer.run_of_forall (fun state : KernelState => Expressible state.policy)
    (fun _ operation _ expressible => expressible.step shash operation)
    (expressible_boot procAlloc syscallAlloc) each

end Aegis.Refinement
