import Aegis.Policy.Readback
import Aegis.Refinement.Journal
import Aegis.Tool.Audit
import Mathlib.Data.List.DropRight

/-!
Owns the way of a message from the module to the screen: the module logs it, the
kernel keeps it among the lines of others, each after a stamp of its own, and
`aegisctl audit` reads what is left of the log. As long as no logged name brings
a newline or the tag, and no other line holds the tag, the tool shows exactly
the last messages of the module. Without opening brackets in the names of tasks,
what it shows determines them.

The buffer of the kernel may have dropped any number of the oldest messages.

Does not own: messages that `printk` cuts, or lines that the reading cuts.
-/

namespace Aegis.Tool

open Aegis.Foundation
open Aegis.Kernel
open Aegis.Policy
open Aegis.Control
open Aegis.Refinement

/-! ### The kernel's log -/

/-- A line of the kernel's log: a message of the module after its stamp, or a
line of somebody else. -/
inductive LogLine where
  | own (stamp : List UInt8) (message : Message)
  | other (text : List UInt8)

def LogLine.text (numbers : LoadNumbers) : LogLine → List UInt8
  | .own stamp message => stamp ++ aegisLog (message.text numbers)
  | .other text => text

def LogLine.message? : LogLine → Option Message
  | .own _ message => some message
  | .other _ => none

/-- Neither the stamp nor a name in the message brings a newline or a tag, and
neither does a line of somebody else. A stamp ends with a blank or a bracket. -/
def LogLine.Tidy (numbers : LoadNumbers) : LogLine → Prop
  | .own stamp message => PlainPart stamp ∧ EndsOutside logTag stamp ∧ message.Plain numbers
  | .other text => PlainPart text

instance (numbers : LoadNumbers) : (line : LogLine) → Decidable (line.Tidy numbers)
  | .own _ _ => inferInstanceAs (Decidable (_ ∧ _ ∧ _))
  | .other text => inferInstanceAs (Decidable (PlainPart text))

/-- What `klogctl` returns, as a C string. -/
def kernelLog (numbers : LoadNumbers) (lines : List LogLine) : CString :=
  .ofMemory (unlines (lines.map (LogLine.text numbers)))

/-! ### What the tool shows -/

/-- The events of these messages. -/
def logged (numbers : LoadNumbers) (messages : List Message) : List (List UInt8) :=
  messages.map fun message => aegisLog (message.text numbers)

/-- The report of these events. -/
def reportOf (want : Nat) (events : List (List UInt8)) : AuditOutput :=
  if events = [] then .noEvents want
  else .events want (events.rtake want) (min want events.length) events.length

section Logged

variable {numbers : LoadNumbers} {messages : List Message}

@[simp] theorem logged_length : (logged numbers messages).length = messages.length :=
  List.length_map _

theorem logged_rtake (count : Nat) :
    (logged numbers messages).rtake count = logged numbers (messages.rtake count) := by
  simp [logged, List.rtake, List.map_drop]

end Logged

section Lines

variable {numbers : LoadNumbers} {line : LogLine} {lines : List LogLine}

theorem LogLine.Tidy.noNewline (tidy : line.Tidy numbers) : 10 ∉ line.text numbers := by
  cases line with
  | own stamp message =>
      have noNewline : 10 ∉ aegisLog (message.text numbers) := by
        rw [aegisLog, List.mem_append, not_or]
        exact ⟨by decide, tidy.2.2.part.noNewline⟩
      rw [LogLine.text, List.mem_append, not_or]
      exact ⟨tidy.1.noNewline, noNewline⟩
  | other text => exact PlainPart.noNewline tidy

theorem LogLine.Tidy.noNul (tidy : line.Tidy numbers) : 0 ∉ line.text numbers := by
  cases line with
  | own stamp message =>
      have noNul : 0 ∉ aegisLog (message.text numbers) := by
        rw [aegisLog, List.mem_append, not_or]
        exact ⟨by decide, tidy.2.2.part.noNul⟩
      rw [LogLine.text, List.mem_append, not_or]
      exact ⟨tidy.1.noNul, noNul⟩
  | other text => exact PlainPart.noNul tidy

/-- The tool finds the message of an own line and nothing in another one. -/
theorem LogLine.Tidy.strstr (tidy : line.Tidy numbers) :
    Foundation.strstr auditTag (line.text numbers) =
      line.message?.map fun message => aegisLog (message.text numbers) := by
  cases line with
  | own stamp message =>
      rw [LogLine.text]
      exact (strstr_append_of_last (by decide) tidy.2.1 tidy.1.untagged _).trans
        (strstr_aegisLog _)
  | other text => exact (occurrences_eq_zero_iff (by decide) text).mp (PlainPart.untagged tidy)

theorem LogLine.Tidy.occurrences_le (tidy : line.Tidy numbers) :
    occurrences auditTag (line.text numbers) ≤ 1 := by
  cases line with
  | own stamp message =>
      have stamped : occurrences logTag (stamp ++ aegisLog (message.text numbers)) =
          occurrences logTag stamp + occurrences logTag (aegisLog (message.text numbers)) :=
        occurrences_append_of_last (by decide) tidy.2.1 _
      rw [tidy.1.untagged, occurrences_aegisLog, tidy.2.2.part.untagged] at stamped
      exact Nat.le_of_eq stamped
  | other text =>
      have none : occurrences auditTag text = 0 := PlainPart.untagged tidy
      exact none.trans_le (Nat.zero_le 1)

variable (tidy : ∀ line ∈ lines, line.Tidy numbers)

include tidy

theorem kernelLog_bytes :
    (kernelLog numbers lines).bytes = unlines (lines.map (LogLine.text numbers)) := by
  apply List.takeWhile_eq_self_iff.mpr
  intro byte member
  obtain ⟨text, inTexts, inLine⟩ := List.mem_flatMap.mp member
  obtain ⟨line, inLines, rfl⟩ := List.mem_map.mp inTexts
  rcases List.mem_append.mp inLine with inText | ending
  · have nonzero : byte ≠ 0 := fun zero => (tidy line inLines).noNul (zero ▸ inText)
    simpa using nonzero
  · obtain rfl : byte = 10 := by simpa using ending
    decide

theorem splitOn_kernelLog :
    (kernelLog numbers lines).bytes.splitOn 10 = lines.map (LogLine.text numbers) ++ [[]] := by
  rw [kernelLog_bytes tidy, splitOn_unlines]
  intro text member
  obtain ⟨line, inLines, rfl⟩ := List.mem_map.mp member
  exact (tidy line inLines).noNewline

/-- The events of the log are the module's messages. -/
theorem eventsOf_kernelLog :
    eventsOf (kernelLog numbers lines).bytes =
      logged numbers (lines.filterMap LogLine.message?) := by
  have nothing : [([] : List UInt8)].filterMap (strstr auditTag) = [] := by decide
  rw [eventsOf, logged, splitOn_kernelLog tidy, List.filterMap_append, nothing, List.append_nil,
    List.filterMap_map, List.map_filterMap]
  exact List.filterMap_congr fun line member => (tidy line member).strstr

theorem countMatches_kernelLog :
    countMatches auditTag (kernelLog numbers lines).bytes =
      (eventsOf (kernelLog numbers lines).bytes).length := by
  rw [countMatches_eq_length_iff, splitOn_kernelLog tidy]
  intro text member
  rcases List.mem_append.mp member with inTexts | last
  · obtain ⟨line, inLines, rfl⟩ := List.mem_map.mp inTexts
    exact (tidy line inLines).occurrences_le
  · rw [List.mem_singleton.mp last]
    decide

theorem runAudit_kernelLog {want : Nat} (positive : 1 ≤ want) (small : want < 2147483648) :
    runAudit ⟨true, .ok (kernelLog numbers lines)⟩ [argv0, .lit "audit", decimalString want] =
      some (reportOf want (logged numbers (lines.filterMap LogLine.message?))) := by
  have number : atoi (decimalString want).bytes = want := atoi_decimal small
  rw [runAudit_eq number positive, countMatches_kernelLog tidy, ← eventsOf_kernelLog tidy]
  unfold reportOf
  by_cases none : eventsOf (kernelLog numbers lines).bytes = []
  · simp [none]
  · have some : (eventsOf (kernelLog numbers lines).bytes).length ≠ 0 := by simpa using none
    simp only [none, some, if_false, List.rtake, List.length_drop, Option.some.injEq,
      AuditOutput.events.injEq, true_and, and_true]
    omega

end Lines

/-- After every run from every boot, `aegisctl audit N` shows the last `N` of
the messages that are left, in their order, and counts them right. -/
theorem audit_shows_last_messages (shash : Shash) (numbers : LoadNumbers) (uptime : Uptime)
    (lines : List LogLine) (lost want : Nat) (tidy : ∀ line ∈ lines, line.Tidy numbers)
    (kept : lines.filterMap LogLine.message? = (uptime.messages shash).drop lost)
    (positive : 1 ≤ want) (small : want < 2147483648) :
    runAudit ⟨true, .ok (kernelLog numbers lines)⟩ [argv0, .lit "audit", decimalString want] =
      some (reportOf want (logged numbers ((uptime.messages shash).drop lost))) := by
  rw [runAudit_kernelLog tidy positive small, kept]

/-- Numbers in the order of the constructors. -/
def orderedNumbers : LoadNumbers where
  read
    | .readingModule => 0
    | .readingFirmware => 1
    | .readingKexecImage => 2
    | .readingKexecInitramfs => 3
    | .other id => id + 4
  load
    | .loadingModule => 0
    | .loadingFirmware => 1
    | .loadingKexecImage => 2
    | .other id => id + 3
  read_injective first second same := by cases first <;> cases second <;> simp_all
  load_injective first second same := by cases first <;> cases second <;> simp_all

/-- Somebody tries to trace the server after tracing was restricted. -/
def tracedUptime (tracer : TaskName) : Uptime where
  env := ⟨fun _ => true, fun _ => true, true⟩
  early := []
  securityfs := .created
  operations := [.sysctl .ptraceRestrictAll (.stored 1),
    .hook ⟨⟨tracer, tracer⟩, true, true⟩
      (.ptraceAccessCheck ⟨⟨.lit "sshd", 5⟩, ⟨.lit "sshd", 5⟩⟩ 0)]

def tracedLines (tracer : TaskName) : List LogLine :=
  [.own (CString.ascii "[ 1.0] ") (.startup .securityfsCreated),
    .other (CString.ascii "[ 1.1] usb 1-1: new device"),
    .own (CString.ascii "[ 1.2] ") (.logged (.toggled .ptraceRestrictAll true)),
    .own (CString.ascii "[ 1.3] ") (.logged (.ptraceRestricted tracer ⟨.lit "sshd", 5⟩))]

theorem audit_shows_last_messages_gdb :
    runAudit ⟨true, .ok (kernelLog orderedNumbers (tracedLines ⟨.lit "gdb", 7⟩))⟩
        [argv0, .lit "audit", decimalString 2] =
      some (reportOf 2 (logged orderedNumbers
        (((tracedUptime ⟨.lit "gdb", 7⟩).messages sha256Shash).drop 24))) :=
  audit_shows_last_messages sha256Shash orderedNumbers (tracedUptime ⟨.lit "gdb", 7⟩)
    (tracedLines ⟨.lit "gdb", 7⟩) 24 2 (by decide +kernel) (by decide +kernel) (by decide)
    (by decide)

/-! ### What the output determines -/

theorem reportOf_eq_iff {want : Nat} {events others : List (List UInt8)} :
    reportOf want events = reportOf want others ↔
      events.length = others.length ∧ events.rtake want = others.rtake want := by
  unfold reportOf
  by_cases none : events = []
  · subst none
    by_cases alsoNone : others = []
    · simp [alsoNone]
    · simp [alsoNone, List.rtake, eq_comm]
  · by_cases otherNone : others = []
    · simp [none, otherNone]
    · simp only [none, otherNone, if_false, AuditOutput.events.injEq, true_and]
      exact ⟨fun same => ⟨same.2.2, same.1⟩, fun same => ⟨same.2, by rw [same.1], same.1⟩⟩

theorem logged_injective {numbers : LoadNumbers} {messages others : List Message}
    (readable : ∀ message ∈ messages, message.Readable)
    (otherReadable : ∀ message ∈ others, message.Readable)
    (same : logged numbers messages = logged numbers others) : messages = others := by
  induction messages generalizing others with
  | nil => exact (List.map_eq_nil_iff.mp same.symm).symm
  | cons message rest inductionHypothesis =>
      cases others with
      | nil => cases same
      | cons other more =>
          obtain ⟨heads, tails⟩ := List.cons.inj same
          have here := List.forall_mem_cons.mp readable
          have there := List.forall_mem_cons.mp otherReadable
          rw [Message.text_injective here.1 there.1 (List.append_cancel_left heads),
            inductionHypothesis here.2 there.2 tails]

/-- Two runs leave the same output behind exactly when equally many messages are
left of them and the last `N` agree, argument by argument. -/
theorem audit_outputs_eq_iff (shash : Shash) (numbers : LoadNumbers) (first second : Uptime)
    (firstLines secondLines : List LogLine) (firstLost secondLost want : Nat)
    (firstTidy : ∀ line ∈ firstLines, line.Tidy numbers)
    (secondTidy : ∀ line ∈ secondLines, line.Tidy numbers)
    (firstKept : firstLines.filterMap LogLine.message? = (first.messages shash).drop firstLost)
    (secondKept : secondLines.filterMap LogLine.message? =
      (second.messages shash).drop secondLost)
    (firstFree : ∀ message ∈ (first.messages shash).drop firstLost, ∀ task ∈ message.tasks,
      91 ∉ task.comm.bytes)
    (secondFree : ∀ message ∈ (second.messages shash).drop secondLost, ∀ task ∈ message.tasks,
      91 ∉ task.comm.bytes)
    (positive : 1 ≤ want) (small : want < 2147483648) :
    runAudit ⟨true, .ok (kernelLog numbers firstLines)⟩
          [argv0, .lit "audit", decimalString want] =
        runAudit ⟨true, .ok (kernelLog numbers secondLines)⟩
          [argv0, .lit "audit", decimalString want] ↔
      ((first.messages shash).drop firstLost).length =
          ((second.messages shash).drop secondLost).length ∧
        ((first.messages shash).drop firstLost).rtake want =
          ((second.messages shash).drop secondLost).rtake want := by
  rw [runAudit_kernelLog firstTidy positive small, runAudit_kernelLog secondTidy positive small,
    firstKept, secondKept, Option.some.injEq, reportOf_eq_iff, logged_length, logged_length,
    logged_rtake, logged_rtake]
  refine and_congr_right fun _ => ⟨fun same => ?_, fun same => by rw [same]⟩
  exact logged_injective (fun message member => firstFree message (List.mem_of_mem_drop member))
    (fun message member => secondFree message (List.mem_of_mem_drop member)) same

theorem audit_outputs_eq_iff_tracers :
    runAudit ⟨true, .ok (kernelLog orderedNumbers (tracedLines ⟨.lit "gdb", 7⟩))⟩
        [argv0, .lit "audit", decimalString 2] ≠
      runAudit ⟨true, .ok (kernelLog orderedNumbers (tracedLines ⟨.lit "gdb", 8⟩))⟩
        [argv0, .lit "audit", decimalString 2] := by
  have outputs := audit_outputs_eq_iff sha256Shash orderedNumbers
    (tracedUptime ⟨.lit "gdb", 7⟩) (tracedUptime ⟨.lit "gdb", 8⟩) (tracedLines ⟨.lit "gdb", 7⟩)
    (tracedLines ⟨.lit "gdb", 8⟩) 24 24 2 (by decide +kernel) (by decide +kernel)
    (by decide +kernel) (by decide +kernel) (by decide +kernel) (by decide +kernel) (by decide)
    (by decide)
  exact fun same => absurd (outputs.mp same) (by decide +kernel)

end Aegis.Tool
