import Aegis.Policy.Messages

/-!
Owns reading a message back from its text. Task names end at an opening
bracket, so a message whose task names hold none is determined by its text; all
other names may hold anything.

Does not own: the tag and the lines of the kernel's log.
-/

namespace Aegis.Policy

open Aegis.Foundation
open Aegis.Kernel
open CString (ascii)

namespace LogRecord

/-- The tasks that a record names. -/
def tasks : LogRecord → List TaskName
  | .ptraceRestricted current child => [current, child]
  | .ptraceProtected current child => [current, child]
  | .tracemeRestricted current parent => [current, parent]
  | .fileWriteBlocked current _ => [current]
  | .fileAccess current _ _ => [current]
  | .moduleLoadBlocked current _ => [current]
  | .firmwareLoadBlocked current => [current]
  | .moduleLoadDataBlocked current => [current]
  | _ => []

end LogRecord

def Message.tasks : Message → List TaskName
  | .logged record => record.tasks
  | _ => []

/-- No task name holds an opening bracket. -/
def Message.Readable (message : Message) : Prop :=
  ∀ task ∈ message.tasks, 91 ∉ task.comm.bytes

theorem not_mem_hexNat (value : Nat) : 120 ∉ hexNat value := by
  intro member
  rcases mem_hexNat member with digit | letter
  · exact absurd digit (by decide)
  · exact absurd letter.2 (by decide)

/-- Neither a bracket nor a sign of equality is part of a number. -/
theorem not_mem_decimal_of_high {byte : UInt8} (high : 57 < byte.toNat) (value : Int) :
    byte ∉ decimal value := by
  intro member
  rcases mem_decimal member with rfl | digit
  · exact absurd high (by decide)
  · have range := isDigit_range digit
    omega

section Tasks

variable {lead closing ending : List UInt8} {first second child other : TaskName}
variable {rest others : List (List UInt8 × List UInt8)}
variable (firstFree : 91 ∉ first.comm.bytes) (secondFree : 91 ∉ second.comm.bytes)
variable (closes : closing.head? = some 93)

include firstFree secondFree closes

/-- The name and the number of a task are read up to their brackets. -/
theorem template_task_inj
    (same : template lead
        ((first.comm.bytes, ascii "[") :: (decimal first.pid, closing) :: rest) =
      template lead ((second.comm.bytes, ascii "[") :: (decimal second.pid, closing) :: others)) :
    first = second ∧ template closing rest = template closing others := by
  obtain ⟨comms, later⟩ := template_cons_inj (by decide) firstFree secondFree same
  obtain ⟨pids, remaining⟩ := template_cons_inj closes
    (not_mem_decimal_of_high (by decide) _) (not_mem_decimal_of_high (by decide) _) later
  obtain ⟨comm, pid⟩ := first
  obtain ⟨otherComm, otherPid⟩ := second
  obtain rfl : comm = otherComm := CString.ext comms
  obtain rfl : pid = otherPid := decimal_injective pids
  exact ⟨rfl, remaining⟩

theorem template_tasks_inj (childFree : 91 ∉ child.comm.bytes) (otherFree : 91 ∉ other.comm.bytes)
    (ends : ending.head? = some 93)
    (same : template lead
        [(first.comm.bytes, ascii "["), (decimal first.pid, closing),
          (child.comm.bytes, ascii "["), (decimal child.pid, ending)] =
      template lead
        [(second.comm.bytes, ascii "["), (decimal second.pid, closing),
          (other.comm.bytes, ascii "["), (decimal other.pid, ending)]) :
    first = second ∧ child = other := by
  obtain ⟨rfl, later⟩ := template_task_inj firstFree secondFree closes same
  exact ⟨rfl, (template_task_inj childFree otherFree ends later).1⟩

end Tasks

section Injective

variable {numbers : LoadNumbers} {first second : LogRecord} {message other : Message}

/-- A record is read back from a text of a known format. -/
theorem LogRecord.eq_of_format_eq (firstFree : ∀ task ∈ first.tasks, 91 ∉ task.comm.bytes)
    (secondFree : ∀ task ∈ second.tasks, 91 ∉ task.comm.bytes)
    (sameFormat : first.format = second.format)
    (same : (Message.logged first).text numbers = (Message.logged second).text numbers) :
    first = second := by
  have noEquals : ∀ value : Int, 61 ∉ decimal value := not_mem_decimal_of_high (by decide)
  cases first with
  | ptraceRestricted current child =>
      cases second with
      | ptraceRestricted otherCurrent otherChild =>
          obtain ⟨rfl, rfl⟩ := template_tasks_inj (firstFree _ (by simp [tasks]))
            (secondFree _ (by simp [tasks])) (by decide) (firstFree _ (by simp [tasks]))
            (secondFree _ (by simp [tasks])) (by decide) same
          rfl
      | _ => cases sameFormat
  | ptraceProtected current child =>
      cases second with
      | ptraceProtected otherCurrent otherChild =>
          obtain ⟨rfl, rfl⟩ := template_tasks_inj (firstFree _ (by simp [tasks]))
            (secondFree _ (by simp [tasks])) (by decide) (firstFree _ (by simp [tasks]))
            (secondFree _ (by simp [tasks])) (by decide) same
          rfl
      | _ => cases sameFormat
  | tracemeRestricted current parent =>
      cases second with
      | tracemeRestricted otherCurrent otherParent =>
          obtain ⟨rfl, rfl⟩ := template_tasks_inj (firstFree _ (by simp [tasks]))
            (secondFree _ (by simp [tasks])) (by decide) (firstFree _ (by simp [tasks]))
            (secondFree _ (by simp [tasks])) (by decide) same
          rfl
      | _ => cases sameFormat
  | fileWriteBlocked current path =>
      cases second with
      | fileWriteBlocked otherCurrent otherPath =>
          obtain ⟨rfl, later⟩ := template_task_inj (firstFree _ (by simp [tasks]))
            (secondFree _ (by simp [tasks])) (by decide) same
          obtain rfl : path = otherPath := CString.ext (template_singleton_inj later)
          rfl
      | _ => cases sameFormat
  | fileAccess current path mask =>
      cases second with
      | fileAccess otherCurrent otherPath otherMask =>
          obtain ⟨rfl, later⟩ := template_task_inj (firstFree _ (by simp [tasks]))
            (secondFree _ (by simp [tasks])) (by decide) same
          obtain ⟨paths, masks⟩ := template_pair_inj (by decide) (not_mem_hexNat _)
            (not_mem_hexNat _) later
          obtain rfl : path = otherPath := CString.ext paths
          obtain rfl : mask = otherMask := BitVec.eq_of_toNat_eq (hexNat_injective masks)
          rfl
      | _ => cases sameFormat
  | readFileSyscallBlocked nr id =>
      cases second with
      | readFileSyscallBlocked otherNr otherId =>
          have noBlank : ∀ value : Int, 32 ∉ decimal value := fun _ => not_mem_decimal (by decide)
          obtain ⟨nrs, later⟩ := template_cons_inj (by decide) (noBlank _) (noBlank _) same
          obtain rfl : nr = otherNr := decimal_injective nrs
          have ids := decimal_injective (template_singleton_inj later)
          obtain rfl : id = otherId := numbers.read_injective (Int.ofNat.inj ids)
          rfl
      | _ => cases sameFormat
  | loadDataSyscallBlocked id =>
      cases second with
      | loadDataSyscallBlocked otherId =>
          have ids := decimal_injective (template_singleton_inj same)
          obtain rfl : id = otherId := numbers.load_injective (Int.ofNat.inj ids)
          rfl
      | _ => cases sameFormat
  | moduleLoadBlocked current path =>
      cases second with
      | moduleLoadBlocked otherCurrent otherPath =>
          obtain ⟨rfl, later⟩ := template_task_inj (firstFree _ (by simp [tasks]))
            (secondFree _ (by simp [tasks])) (by decide) same
          obtain rfl : path = otherPath := CString.ext (template_singleton_inj later)
          rfl
      | _ => cases sameFormat
  | firmwareLoadBlocked current =>
      cases second with
      | firmwareLoadBlocked otherCurrent =>
          obtain ⟨rfl, -⟩ := template_task_inj (firstFree _ (by simp [tasks]))
            (secondFree _ (by simp [tasks])) (by decide) same
          rfl
      | _ => cases sameFormat
  | moduleLoadDataBlocked current =>
      cases second with
      | moduleLoadDataBlocked otherCurrent =>
          obtain ⟨rfl, -⟩ := template_task_inj (firstFree _ (by simp [tasks]))
            (secondFree _ (by simp [tasks])) (by decide) same
          rfl
      | _ => cases sameFormat
  | protectedFileAdded path hashValid =>
      cases second with
      | protectedFileAdded otherPath otherValid =>
          obtain rfl : hashValid = otherValid := LogFormat.protectedFileAdded.inj sameFormat
          obtain rfl : path = otherPath := CString.ext (template_singleton_inj same)
          rfl
      | _ => cases sameFormat
  | protectedFileRemoved path =>
      cases second with
      | protectedFileRemoved otherPath =>
          obtain rfl : path = otherPath := CString.ext (template_singleton_inj same)
          rfl
      | _ => cases sameFormat
  | protectedProcessAdded comm pid =>
      cases second with
      | protectedProcessAdded otherComm otherPid =>
          obtain ⟨comms, pids⟩ := template_pair_inj (by decide) (noEquals _) (noEquals _) same
          obtain rfl : comm = otherComm := CString.ext comms
          obtain rfl : pid = otherPid := decimal_injective pids
          rfl
      | _ => cases sameFormat
  | protectedProcessRemoved comm pid =>
      cases second with
      | protectedProcessRemoved otherComm otherPid =>
          obtain ⟨comms, pids⟩ := template_pair_inj (by decide) (noEquals _) (noEquals _) same
          obtain rfl : comm = otherComm := CString.ext comms
          obtain rfl : pid = otherPid := decimal_injective pids
          rfl
      | _ => cases sameFormat
  | blockedSyscallAdded nr =>
      cases second with
      | blockedSyscallAdded otherNr =>
          obtain rfl : nr = otherNr := decimal_injective (template_singleton_inj same)
          rfl
      | _ => cases sameFormat
  | blockedSyscallRemoved nr =>
      cases second with
      | blockedSyscallRemoved otherNr =>
          obtain rfl : nr = otherNr := decimal_injective (template_singleton_inj same)
          rfl
      | _ => cases sameFormat
  | aegisSwitched on =>
      cases second with
      | aegisSwitched otherOn =>
          obtain rfl : on = otherOn := LogFormat.aegisSwitched.inj sameFormat
          rfl
      | _ => cases sameFormat
  | featuresUpdated features =>
      cases second with
      | featuresUpdated otherFeatures =>
          obtain rfl : features = otherFeatures := hexWord_injective (template_singleton_inj same)
          rfl
      | _ => cases sameFormat
  | toggled toggle on =>
      cases second with
      | toggled otherToggle otherOn =>
          obtain ⟨rfl, rfl⟩ := LogFormat.toggled.inj sameFormat
          rfl
      | _ => cases sameFormat

theorem Message.eq_of_format_eq (readable : message.Readable) (otherReadable : other.Readable)
    (sameFormat : message.format = other.format)
    (same : message.text numbers = other.text numbers) : message = other := by
  cases message with
  | startup text =>
      cases other with
      | startup otherText => rw [LogFormat.startup.inj sameFormat]
      | logged record => cases record <;> cases sameFormat
      | _ => cases sameFormat
  | failure text error =>
      cases other with
      | failure otherText otherError =>
          obtain rfl : text = otherText := LogFormat.failure.inj sameFormat
          have errors := decimal_injective (template_singleton_inj same)
          rw [Errno.ret_injective errors]
      | logged record => cases record <;> cases sameFormat
      | _ => cases sameFormat
  | features value =>
      cases other with
      | features otherValue => rw [hexWord_injective (template_singleton_inj same)]
      | logged record => cases record <;> cases sameFormat
      | _ => cases sameFormat
  | logged record =>
      cases other with
      | logged otherRecord =>
          rw [LogRecord.eq_of_format_eq readable otherReadable sameFormat same]
      | _ => cases record <;> cases sameFormat

/-! ### Telling the formats apart -/

/-- The formats that their leads do not tell apart. -/
def LogFormat.twins : List (LogFormat × LogFormat) :=
  [(.ptraceRestricted, .ptraceProtected), (.ptraceProtected, .ptraceRestricted),
    (.protectedFileAdded true, .protectedFileAdded false),
    (.protectedFileAdded false, .protectedFileAdded true),
    (.readFileSyscallBlocked, .loadDataSyscallBlocked)]

theorem LogFormat.eq_or_twins_of_leads : ∀ first ∈ LogFormat.all, ∀ second ∈ LogFormat.all,
    first.lead.isPrefixOf second.lead = true →
      first = second ∨ (first, second) ∈ LogFormat.twins := by
  decide +kernel

theorem Message.lead_isPrefix (numbers : LoadNumbers) (message : Message) :
    message.format.lead <+: message.text numbers := by
  unfold Message.text
  cases ((message.arguments numbers).map LogArgument.text).zip message.format.literals with
  | nil => exact List.prefix_rfl
  | cons part rest => exact List.prefix_append _ _

/-- The text after the second task tells the two denials of a trace apart. -/
theorem ptrace_messages_differ {current child other target : TaskName}
    (currentFree : 91 ∉ current.comm.bytes) (childFree : 91 ∉ child.comm.bytes)
    (otherFree : 91 ∉ other.comm.bytes) (targetFree : 91 ∉ target.comm.bytes) :
    (Message.logged (.ptraceRestricted current child)).text numbers ≠
      (Message.logged (.ptraceProtected other target)).text numbers := by
  intro same
  have split : ascii "] -> " = 93 :: ascii " -> " ∧
      ascii "] -> PROTECTED " = 93 :: (ascii " -> " ++ ascii "PROTECTED ") ∧
      ascii "] (all ptrace restricted)" = 93 :: ascii " (all ptrace restricted)" ∧
      ascii "[" = [91] ∧ ascii "]" = [93] := by decide +kernel
  have texts : ascii "ptrace BLOCKED: " ++ (current.comm.bytes ++ (ascii "[" ++
        (decimal current.pid ++ (ascii "] -> " ++ (child.comm.bytes ++ (ascii "[" ++
          (decimal child.pid ++ ascii "] (all ptrace restricted)"))))))) =
      ascii "ptrace BLOCKED: " ++ (other.comm.bytes ++ (ascii "[" ++
        (decimal other.pid ++ (ascii "] -> PROTECTED " ++ (target.comm.bytes ++ (ascii "[" ++
          (decimal target.pid ++ ascii "]"))))))) := same
  have fields : current.comm.bytes ++ 91 :: (decimal current.pid ++ 93 :: (ascii " -> " ++
        (child.comm.bytes ++ 91 :: (decimal child.pid ++ 93 ::
          ascii " (all ptrace restricted)")))) =
      other.comm.bytes ++ 91 :: (decimal other.pid ++ 93 :: (ascii " -> " ++
        ((ascii "PROTECTED " ++ target.comm.bytes) ++ 91 :: (decimal target.pid ++ [93])))) := by
    simpa only [split, List.cons_append, List.nil_append, List.append_assoc] using
      List.append_cancel_left texts
  have noBracket : ∀ value : Int, 93 ∉ decimal value := not_mem_decimal_of_high (by decide)
  have wordFree : 91 ∉ ascii "PROTECTED " ++ target.comm.bytes := by
    rw [List.mem_append, not_or]
    exact ⟨by decide, targetFree⟩
  obtain ⟨-, afterComm⟩ := append_delimiter_inj currentFree otherFree fields
  obtain ⟨-, afterPid⟩ := append_delimiter_inj (noBracket _) (noBracket _) afterComm
  obtain ⟨-, afterChild⟩ :=
    append_delimiter_inj childFree wordFree (List.append_cancel_left afterPid)
  obtain ⟨-, rest⟩ := append_delimiter_inj (noBracket _) (noBracket _) afterChild
  exact absurd rest (by decide)

theorem hash_messages_differ {path other : CString} :
    (Message.logged (.protectedFileAdded path true)).text numbers ≠
      (Message.logged (.protectedFileAdded other false)).text numbers := by
  intro same
  have fields : (path.bytes ++ ascii " (hash") ++ 61 :: ascii "valid)" =
      (other.bytes ++ ascii " (hash") ++ 61 :: ascii "pending)" := by
    rw [List.append_assoc, List.append_assoc]
    exact List.append_cancel_left same
  obtain ⟨-, words⟩ := delimiter_append_inj (by decide) (by decide) fields
  exact absurd words (by decide)

/-- A number does not start like the word that stands in its place. -/
theorem syscall_messages_differ {nr : Int} {id : KernelReadFileId} {other : KernelLoadDataId} :
    (Message.logged (.readFileSyscallBlocked nr id)).text numbers ≠
      (Message.logged (.loadDataSyscallBlocked other)).text numbers := by
  intro same
  have split : ascii "BLOCKED syscall via kernel_load_data (id=" =
      ascii "BLOCKED syscall " ++ 118 :: ascii "ia kernel_load_data (id=" := by decide +kernel
  have texts : ascii "BLOCKED syscall " ++ (decimal nr ++ (ascii " via kernel_read_file (id=" ++
        (decimal (numbers.read id) ++ ascii ")"))) =
      ascii "BLOCKED syscall via kernel_load_data (id=" ++
        (decimal (numbers.load other) ++ ascii ")") := same
  rw [split, List.append_assoc] at texts
  have fields := List.append_cancel_left texts
  cases digits : decimal nr with
  | nil =>
      rw [digits] at fields
      exact absurd (List.cons.inj fields).1 (by decide)
  | cons byte rest =>
      rw [digits] at fields
      obtain ⟨rfl, -⟩ := List.cons.inj fields
      rcases mem_decimal (digits ▸ List.mem_cons_self : 118 ∈ decimal nr) with sign | digit
      · exact absurd sign (by decide)
      · exact absurd digit (by decide)

theorem LogRecord.texts_differ_of_twins (firstFree : ∀ task ∈ first.tasks, 91 ∉ task.comm.bytes)
    (secondFree : ∀ task ∈ second.tasks, 91 ∉ task.comm.bytes)
    (twins : (first.format, second.format) ∈ LogFormat.twins) :
    (Message.logged first).text numbers ≠ (Message.logged second).text numbers := by
  intro same
  simp only [LogFormat.twins, List.mem_cons, Prod.mk.injEq, List.not_mem_nil, or_false] at twins
  rcases twins with ⟨isFirst, isSecond⟩ | ⟨isFirst, isSecond⟩ | ⟨isFirst, isSecond⟩ |
    ⟨isFirst, isSecond⟩ | ⟨isFirst, isSecond⟩
  · cases first with
    | ptraceRestricted current child =>
        cases second with
        | ptraceProtected other target =>
            exact ptrace_messages_differ (firstFree _ (by simp [tasks]))
              (firstFree _ (by simp [tasks])) (secondFree _ (by simp [tasks]))
              (secondFree _ (by simp [tasks])) same
        | _ => cases isSecond
    | _ => cases isFirst
  · cases first with
    | ptraceProtected other target =>
        cases second with
        | ptraceRestricted current child =>
            exact ptrace_messages_differ (secondFree _ (by simp [tasks]))
              (secondFree _ (by simp [tasks])) (firstFree _ (by simp [tasks]))
              (firstFree _ (by simp [tasks])) same.symm
        | _ => cases isSecond
    | _ => cases isFirst
  · cases first with
    | protectedFileAdded path hashValid =>
        cases second with
        | protectedFileAdded other otherValid =>
            cases isFirst
            cases isSecond
            exact hash_messages_differ same
        | _ => cases isSecond
    | _ => cases isFirst
  · cases first with
    | protectedFileAdded path hashValid =>
        cases second with
        | protectedFileAdded other otherValid =>
            cases isFirst
            cases isSecond
            exact hash_messages_differ same.symm
        | _ => cases isSecond
    | _ => cases isFirst
  · cases first with
    | readFileSyscallBlocked nr id =>
        cases second with
        | loadDataSyscallBlocked other => exact syscall_messages_differ same
        | _ => cases isSecond
    | _ => cases isFirst

theorem Message.texts_differ_of_twins (readable : message.Readable)
    (otherReadable : other.Readable)
    (twins : (message.format, other.format) ∈ LogFormat.twins) :
    message.text numbers ≠ other.text numbers := by
  cases message with
  | logged record =>
      cases other with
      | logged otherRecord =>
          exact LogRecord.texts_differ_of_twins readable otherReadable twins
      | _ => simp [Message.format, LogFormat.twins] at twins
  | _ => simp [Message.format, LogFormat.twins] at twins

theorem Message.format_eq_of_leads (readable : message.Readable)
    (otherReadable : other.Readable) (leads : message.format.lead <+: other.format.lead)
    (same : message.text numbers = other.text numbers) : message.format = other.format := by
  rcases LogFormat.eq_or_twins_of_leads _ message.format.mem_all _ other.format.mem_all
    (List.isPrefixOf_iff_prefix.mpr leads) with formats | twins
  · exact formats
  · exact absurd same (texts_differ_of_twins readable otherReadable twins)

/-- Equal texts are of one message. -/
theorem Message.text_injective (readable : message.Readable) (otherReadable : other.Readable)
    (same : message.text numbers = other.text numbers) : message = other := by
  have lead := message.lead_isPrefix numbers
  have otherLead := other.lead_isPrefix numbers
  rw [← same] at otherLead
  apply eq_of_format_eq readable otherReadable _ same
  rcases List.prefix_or_prefix_of_prefix lead otherLead with leads | leads
  · exact format_eq_of_leads readable otherReadable leads same
  · exact (format_eq_of_leads otherReadable readable leads same.symm).symm

end Injective

end Aegis.Policy
