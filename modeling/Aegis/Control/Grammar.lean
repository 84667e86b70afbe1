import Aegis.Control.Outcomes

/-!
Owns the documented format of the process endpoints, a name or a name and a
process id, and its comparison with what the handlers hand to the process
list.

Does not own: the conversions of `sscanf`, or what the list does with the pair.
-/

namespace Aegis.Control

open Aegis.Foundation
open Aegis.Kernel
open Aegis.Policy

/-! ### The format -/

def Blanks (bytes : List UInt8) : Prop := ∀ byte ∈ bytes, isSpace byte = true

structure NameWord (comm : CString) : Prop where
  nonempty : comm.bytes ≠ []
  fits : comm.length ≤ 15
  solid : ∀ byte ∈ comm.bytes, isSpace byte = false

structure Digits (digits : List UInt8) : Prop where
  nonempty : digits ≠ []
  allDigits : ∀ byte ∈ digits, isDigit byte = true

/-- A decimal integer that an `int` holds. -/
inductive DecimalInt : List UInt8 → Int → Prop where
  | unsigned {digits : List UInt8} (isNumber : Digits digits)
      (inRange : digitsValue digits < 2147483648) : DecimalInt digits (digitsValue digits)
  | negative {digits : List UInt8} (isNumber : Digits digits)
      (inRange : digitsValue digits ≤ 2147483648) :
      DecimalInt (45 :: digits) (-(digitsValue digits : Int))

/-- The comment of the handlers: `"comm"` (name-based) or `"comm pid"` (single
PID), up to blanks around the words. -/
inductive ProcFormat : List UInt8 → CString → Int → Prop where
  | comm {before after : List UInt8} {comm : CString} (leading : Blanks before)
      (name : NameWord comm) (trailing : Blanks after) :
      ProcFormat (before ++ (comm.bytes ++ after)) comm 0
  | commPid {before between number after : List UInt8} {comm : CString} {pid : Int}
      (leading : Blanks before) (name : NameWord comm) (separated : Blanks between)
      (separator : between ≠ []) (isInt : DecimalInt number pid) (trailing : Blanks after) :
      ProcFormat (before ++ (comm.bytes ++ (between ++ (number ++ after)))) comm pid

theorem Blanks.head {bytes : List UInt8} (blanks : Blanks bytes) :
    ∀ byte ∈ bytes.head?, isSpace byte = true :=
  fun byte first => blanks byte (List.mem_of_mem_head? first)

theorem Blanks.head_not_digit {bytes : List UInt8} (blanks : Blanks bytes) :
    ∀ byte ∈ bytes.head?, isDigit byte = false := by
  intro byte first
  have blank := blanks.head byte first
  rw [← Bool.not_eq_true]
  intro digit
  simp [isSpace_of_isDigit digit] at blank

/-- `%d` reads a decimal integer that an `int` holds. -/
theorem DecimalInt.scanInt_eq {number blanks rest : List UInt8} {pid : Int}
    (isInt : DecimalInt number pid) (leading : Blanks blanks)
    (ends : ∀ byte ∈ rest.head?, isDigit byte = false) :
    scanInt (blanks ++ (number ++ rest)) = some pid := by
  cases isInt with
  | unsigned isNumber inRange =>
      rw [scanInt_digits leading isNumber.nonempty isNumber.allDigits ends,
        toInt32_of_range (by omega) (by omega)]
  | negative isNumber inRange =>
      rw [scanInt_minus_digits leading isNumber.nonempty isNumber.allDigits ends,
        toInt32_of_range (by omega) (by omega)]

/-- A line in the format is read as the pair it stands for. -/
theorem ProcFormat.sscanfWordInt_eq {line comm : CString} {pid : Int}
    (format : ProcFormat line.bytes comm pid) :
    (sscanfWordInt 15 line 0).word = comm ∧ (sscanfWordInt 15 line 0).number = pid := by
  obtain ⟨bytes, noNul⟩ := line
  cases format with
  | comm leading name trailing =>
      have scanned := scanWord_append leading name.nonempty name.fits name.solid trailing.head
      have present := name.nonempty
      simp [sscanfWordInt, scanned, scanInt_blanks trailing, present]
  | @commPid before between number after _ _ leading name separated separator isInt trailing =>
      have ends : ∀ byte ∈ (between ++ (number ++ after)).head?, isSpace byte = true := by
        rw [List.head?_append_of_ne_nil between separator]
        exact separated.head
      have scanned := scanWord_append leading name.nonempty name.fits name.solid ends
      have read := isInt.scanInt_eq separated trailing.head_not_digit
      have present := name.nonempty
      simp [sscanfWordInt, scanned, read, present]

theorem ProcFormat.line_ne_nil {line : List UInt8} {comm : CString} {pid : Int}
    (format : ProcFormat line comm pid) : line ≠ [] := by
  cases format with
  | comm leading name trailing => simp [name.nonempty]
  | commPid leading name separated separator isInt trailing => simp [name.nonempty]

/-! ### The handlers -/

/-- Whatever the list and its operation, the handler passes the pair to it. The
operation is the addition in the one handler and the removal in the other. -/
def Hands (env : ControlEnv) (ubuf : List UInt8) (comm : CString) (pid : Int) : Prop :=
  ∀ policy op, aectlProcsWrite env ubuf policy op =
    ⟨writeResult ubuf.length (op comm pid).ret, { policy with procs := (op comm pid).list },
      (op comm pid).log⟩

/-- The handler returns an error without calling the list operation. -/
def Rejects (env : ControlEnv) (ubuf : List UInt8) : Prop :=
  ∃ error : Errno, ∀ policy op, aectlProcsWrite env ubuf policy op = .refuse policy error.ret

/-- The handler passes a pair on only for a line that stands for it, and rejects
a line that stands for none. A line that stands for a pair and fits in the
buffer is accepted. -/
structure AcceptsFormat (env : ControlEnv) (ubuf : List UInt8) : Prop where
  handed : ∀ comm pid, Hands env ubuf comm pid → ProcFormat (stripNewlines ubuf) comm pid
  rejected : (∀ comm pid, ¬ ProcFormat (stripNewlines ubuf) comm pid) → Rejects env ubuf
  accepted : ∀ comm pid, ProcFormat (stripNewlines ubuf) comm pid →
    Delivered env .protectedProcsAdd → ubuf.length < aegisPathLen → 0 ∉ ubuf →
      Hands env ubuf comm pid

/-- The bytes of the write reach the string helper and contain no NUL. -/
structure ReachesScan (env : ControlEnv) (ubuf : List UInt8) : Prop where
  delivered : Delivered env .protectedProcsAdd
  nonempty : 0 < ubuf.length
  fits : ubuf.length < aegisPathLen
  noNul : 0 ∉ ubuf

section Handlers

variable {env : ControlEnv} {ubuf : List UInt8}

theorem Hands.ret_eq {comm : CString} {pid : Int} (hands : Hands env ubuf comm pid)
    (policy : PolicyState) (op : CString → Int → ListOp AegisProtectedProc) :
    (aectlProcsWrite env ubuf policy op).ret = writeResult ubuf.length (op comm pid).ret := by
  rw [hands policy op]

/-- A pair that is handed on is the only one. -/
theorem Hands.unique {comm other : CString} {pid number : Int} (hands : Hands env ubuf comm pid)
    (also : Hands env ubuf other number) : comm = other ∧ pid = number := by
  -- An operation that succeeds for one pair only tells the pairs apart.
  let policy := boot (fun _ => true) (fun _ => true)
  let op := fun (name : CString) (wanted : Int) => (⟨if name = comm ∧ wanted = pid then 0 else -1,
    policy.procs, []⟩ : ListOp AegisProtectedProc)
  have returned := (hands.ret_eq policy op).symm.trans (also.ret_eq policy op)
  by_contra different
  have differs : ¬ (other = comm ∧ number = pid) := fun same =>
    different ⟨same.1.symm, same.2.symm⟩
  simp only [op, writeResult, and_self, if_true, differs, if_false] at returned
  omega

theorem Rejects.not_hands (rejects : Rejects env ubuf) (comm : CString) (pid : Int) :
    ¬ Hands env ubuf comm pid := by
  intro hands
  obtain ⟨error, refused⟩ := rejects
  let policy := boot (fun _ => true) (fun _ => true)
  have returned := hands.ret_eq policy fun _ _ => ⟨0, policy.procs, []⟩
  have negative := error.ret_neg
  simp only [refused, ControlOutcome.refuse, writeResult, if_true] at returned
  omega

theorem copiedBytes_eq_of_lt {max : Nat} (fits : ubuf.length < max) :
    copiedBytes ubuf max = ubuf :=
  List.take_of_length_le (Nat.le_sub_one_of_lt fits)

theorem ReachesScan.lineOf_bytes (reaches : ReachesScan env ubuf) :
    (lineOf ubuf aegisPathLen).bytes = stripNewlines ubuf := by
  have copied := copiedBytes_eq_of_lt reaches.fits
  rw [Control.lineOf_bytes (by rw [copied]; exact reaches.noNul), copied]

theorem accepts_protectedProcsAdd_iff {len : Nat} :
    Endpoint.protectedProcsAdd.accepts len = true ↔ 0 < len ∧ len < aegisPathLen := by
  rw [Endpoint.accepts, Bool.and_eq_true, decide_eq_true_eq]
  exact and_congr_right' decide_eq_true_iff

/-- A write that does not reach the scanner is rejected. -/
theorem rejects_of_not_reachesScan (short : ¬ ReachesScan env ubuf) : Rejects env ubuf := by
  have written := fun policy op => aectlProcsWrite_eq env ubuf policy .protectedProcsAdd rfl rfl op
  rcases refusal_cases env .protectedProcsAdd ubuf with
    ⟨error, refused, -, -⟩ | ⟨-, blank⟩ | ⟨accepted, -, -⟩
  · exact ⟨error, fun policy op => by rw [written, refused]⟩
  · obtain ⟨capable, accepts, buffer, copied, newlines⟩ := blank
    have bounds := accepts_protectedProcsAdd_iff.mp accepts
    refine absurd ⟨⟨capable, buffer, copied⟩, bounds.1, bounds.2, ?_⟩ short
    intro nul
    have newline := newlines 0 (by rwa [Endpoint.bufLen, copiedBytes_eq_of_lt bounds.2])
    exact absurd newline (by decide)
  · obtain ⟨delivered, accepts, nul, -⟩ := refusal_eq_none_iff.mp accepted
    have bounds := accepts_protectedProcsAdd_iff.mp accepts
    rw [Endpoint.bufLen, copiedBytes_eq_of_lt bounds.2] at nul
    exact absurd ⟨delivered, bounds.1, bounds.2, nul⟩ short

/-- A write that reaches the scanner hands on what it reads, unless nothing is
left of its line. -/
theorem ReachesScan.hands_or_blank (reaches : ReachesScan env ubuf) :
    Hands env ubuf (scanProc ubuf).word (scanProc ubuf).number ∨
      stripNewlines ubuf = [] ∧ ∀ policy op, aectlProcsWrite env ubuf policy op =
        .refuse policy 0 := by
  have written := fun policy op => aectlProcsWrite_eq env ubuf policy .protectedProcsAdd rfl rfl op
  have line := reaches.lineOf_bytes
  have copied := copiedBytes_eq_of_lt reaches.fits
  have accepts := accepts_protectedProcsAdd_iff.mpr ⟨reaches.nonempty, reaches.fits⟩
  by_cases blank : (lineOf ubuf aegisPathLen).bytes = []
  · refine Or.inr ⟨line ▸ blank, fun policy op => ?_⟩
    have refused : refusal env .protectedProcsAdd ubuf = some 0 := by
      simp [refusal, reaches.delivered.capable, accepts, reaches.delivered.copied,
        Endpoint.allocates, Endpoint.bufLen, copied, reaches.noNul, CString.length, blank]
    rw [written, refused]
  · refine Or.inl fun policy op => ?_
    have accepted : refusal env .protectedProcsAdd ubuf = none := by
      apply refusal_eq_none_iff.mpr
      refine ⟨reaches.delivered, accepts, ?_, ?_⟩
      · rw [Endpoint.bufLen, copied]
        exact reaches.noNul
      · rwa [CString.length, Ne, List.length_eq_zero_iff]
    have converted := sscanfWordInt_conversions_pos 15 blank 0
    rw [written, accepted]
    simp only [scanProc, Nat.not_lt.mpr converted, if_false]

/-- An endpoint that keeps to the format lets no other line reach the scanner. -/
theorem AcceptsFormat.exists_format (accepts : AcceptsFormat env ubuf)
    (reaches : ReachesScan env ubuf) : ∃ comm pid, ProcFormat (stripNewlines ubuf) comm pid := by
  by_contra none
  push Not at none
  rcases reaches.hands_or_blank with hands | ⟨-, blank⟩
  · exact none _ _ (accepts.handed _ _ hands)
  · obtain ⟨error, refused⟩ := accepts.rejected none
    let policy := boot (fun _ => true) (fun _ => true)
    have both := (refused policy fun _ _ => .fail .einval policy.procs).symm.trans
      (blank policy fun _ _ => .fail .einval policy.procs)
    exact error.ret_ne_zero (congrArg ControlOutcome.ret both)

/-- A line in the format is accepted as the pair it stands for. -/
theorem ReachesScan.hands_of_format (reaches : ReachesScan env ubuf) {comm : CString} {pid : Int}
    (format : ProcFormat (stripNewlines ubuf) comm pid) : Hands env ubuf comm pid := by
  rcases reaches.hands_or_blank with hands | ⟨empty, -⟩
  · rw [← reaches.lineOf_bytes] at format
    obtain ⟨word, value⟩ := format.sscanfWordInt_eq
    rwa [scanProc, word, value] at hands
  · exact absurd empty format.line_ne_nil

end Handlers

/-- The process endpoints keep to their format exactly on the writes that do
not reach the scanner and those whose line is in the format. Every other line
is acted on, or answered with zero when it is blank. -/
theorem acceptsFormat_iff (env : ControlEnv) (ubuf : List UInt8) :
    AcceptsFormat env ubuf ↔
      (ReachesScan env ubuf → ∃ comm pid, ProcFormat (stripNewlines ubuf) comm pid) := by
  by_cases reaches : ReachesScan env ubuf
  · simp only [reaches, forall_const]
    refine ⟨fun accepts => accepts.exists_format reaches, ?_⟩
    rintro ⟨comm, pid, format⟩
    refine ⟨?_, fun none => absurd format (none comm pid), fun name number isFormat _ _ _ =>
      reaches.hands_of_format isFormat⟩
    intro name number handed
    obtain ⟨rfl, rfl⟩ := (reaches.hands_of_format format).unique handed
    exact format
  · simp only [reaches, false_implies, iff_true]
    have rejects := rejects_of_not_reachesScan reaches
    refine ⟨fun comm pid hands => absurd hands (rejects.not_hands comm pid), fun _ => rejects, ?_⟩
    intro comm pid format delivered fits noNul
    apply absurd _ reaches
    refine ⟨delivered, List.length_pos_iff.mpr ?_, fits, noNul⟩
    rintro rfl
    exact format.line_ne_nil rfl

/-- A line without blanks stands for its own name. -/
theorem ProcFormat.length_le_of_solid {line : List UInt8} {comm : CString} {pid : Int}
    (format : ProcFormat line comm pid) (solid : ∀ byte ∈ line, isSpace byte = false) :
    line.length ≤ 15 := by
  have noBlanks : ∀ blanks, Blanks blanks → (∀ byte ∈ blanks, byte ∈ line) → blanks = [] := by
    intro blanks areBlank inside
    apply List.eq_nil_iff_forall_not_mem.mpr
    intro byte member
    have blank := areBlank byte member
    simp [solid byte (inside byte member)] at blank
  cases format with
  | @comm before after _ leading name trailing =>
      have noBefore := noBlanks before leading (by simp +contextual)
      have noAfter := noBlanks after trailing (by simp +contextual)
      have fits := name.fits
      simpa [noBefore, noAfter, CString.length] using fits
  | @commPid before between number after _ _ leading name separated separator isInt trailing =>
      exact absurd (noBlanks between separated (by simp +contextual)) separator

/-- A name of 17 bytes is accepted: its first 15 bytes become the name and the
rest the process id. -/
theorem aectlProcsWrite_splits_name :
    let line := CString.ascii "abcdefghijklmno42"
    let outcome := aectlWrite sha256Shash administrator .protectedProcsAdd line
      (boot (fun _ => true) (fun _ => true))
    outcome.ret = line.length ∧
      outcome.policy.procs = (boot (fun _ => true) (fun _ => true)).procs.linkTail
        (procEntry (.lit "abcdefghijklmno") 42) ∧
      ¬ AcceptsFormat administrator line := by
  refine ⟨by decide +kernel, by decide +kernel, fun accepts => ?_⟩
  have reaches : ReachesScan administrator (CString.ascii "abcdefghijklmno42") :=
    ⟨⟨rfl, fun _ => rfl, rfl⟩, by decide, by decide, by decide +kernel⟩
  obtain ⟨comm, pid, format⟩ := accepts.exists_format reaches
  exact absurd (format.length_le_of_solid (by decide +kernel)) (by decide +kernel)

end Aegis.Control
