import Aegis.Foundation.Format
import Aegis.Foundation.Search
import Aegis.Tool.Aegisctl

/-!
Owns `aegisctl audit`: the number of wanted events, the count of all events in
the kernel log, and the lines that are printed.

The log is what `klogctl` left in the buffer, as text before the terminating
NUL. Its size keeps every count within an `int`.

Does not own: what the module logs.
-/

namespace Aegis.Tool

open Aegis.Foundation
open Aegis.Kernel
open CString (ascii)

/-! ### The command -/

/-- `isspace` of the C library. -/
def isSpaceC (byte : UInt8) : Bool := (9 ≤ byte && byte ≤ 13) || byte == 32

/-- `atoi`: the value saturates as a `long` and is then cut to an `int`. -/
def atoi (text : List UInt8) : Int :=
  let start := text.dropWhile isSpaceC
  let negative := start.head? == some 45
  let body := if negative || start.head? == some 43 then start.tail else start
  let magnitude : Int := digitsValue (body.takeWhile isDigit)
  toInt32 (max (-9223372036854775808) (min 9223372036854775807
    (if negative then -magnitude else magnitude)))

/-- The outcome of `malloc`, and the log or the error of `klogctl`. -/
structure AuditEnv where
  malloc : Bool
  klogctl : Except Errno CString

/-- What `cmd_audit` prints. -/
inductive AuditOutput where
  | usage
  | outOfMemory
  | cannotRead (error : Errno)
  | noEvents (want : Int)
  | events (want : Int) (lines : List (List UInt8)) (shown total : Nat)
deriving DecidableEq

def auditTag : List UInt8 := ascii "aegis:"

/-- The second loop: the text from the first tag on of each line that has one,
without the first `skip` such lines. -/
def printTagged (skip : Nat) : Nat → List (List UInt8) → List (List UInt8)
  | _, [] => []
  | idx, line :: rest =>
      match strstr auditTag line with
      | none => printTagged skip idx rest
      | some tag =>
          if idx < skip then printTagged skip (idx + 1) rest
          else tag :: printTagged skip (idx + 1) rest

def cmdAudit (env : AuditEnv) (argument : Option CString) : AuditOutput :=
  let want := match argument with
    | none => 20
    | some text => atoi text.bytes
  if argument.isSome && want ≤ 0 then .usage
  else if !env.malloc then .outOfMemory
  else
    match env.klogctl with
    | .error error => .cannotRead error
    | .ok buf =>
        let total := countMatches auditTag buf.bytes
        if total = 0 then .noEvents want
        else
          let skip := if (total : Int) > want then ((total : Int) - want).toNat else 0
          let printed := printTagged skip 0 (strtok 10 buf.bytes)
          .events want printed printed.length total

/-- A run of the tool that shows the log. -/
def runAudit (env : AuditEnv) (argv : List CString) : Option AuditOutput :=
  match (main argv).2 with
  | .audit argument => some (cmdAudit env argument)
  | _ => none

/-! ### The events -/

/-- The events of a log, each from its first tag on. -/
def eventsOf (log : List UInt8) : List (List UInt8) :=
  (log.splitOn 10).filterMap (strstr auditTag)

/-- The last `count` elements. -/
def lastOf (count : Nat) (lines : List (List UInt8)) : List (List UInt8) :=
  lines.drop (lines.length - count)

/-- The output that the command is for. -/
def auditReport (want : Nat) (log : List UInt8) : AuditOutput :=
  let events := eventsOf log
  let shown := min want events.length
  if events = [] then .noEvents want
  else .events want (lastOf shown events) shown events.length

theorem printTagged_eq (skip idx : Nat) (lines : List (List UInt8)) :
    printTagged skip idx lines = (lines.filterMap (strstr auditTag)).drop (skip - idx) := by
  induction lines generalizing idx with
  | nil => simp [printTagged]
  | cons line rest inductionHypothesis =>
      rw [printTagged, List.filterMap_cons]
      cases strstr auditTag line with
      | none => exact inductionHypothesis idx
      | some tag =>
          by_cases early : idx < skip
          · have next : skip - idx = (skip - (idx + 1)) + 1 := by omega
            simp only [early, if_true, inductionHypothesis, next, List.drop_succ_cons]
          · have done : skip - idx = 0 ∧ skip - (idx + 1) = 0 := by omega
            simp only [early, if_false, inductionHypothesis, done, List.drop_zero]

/-- Empty lines hold no event. -/
theorem filterMap_strtok (log : List UInt8) :
    (strtok 10 log).filterMap (strstr auditTag) = eventsOf log := by
  rw [strtok, eventsOf, List.filterMap_filter]
  apply List.filterMap_congr
  intro line _
  cases line with
  | nil => rfl
  | cons byte rest => rfl

theorem eventsOf_length (log : List UInt8) :
    (eventsOf log).length =
      ((log.splitOn 10).filter fun line => occurrences auditTag line ≠ 0).length := by
  rw [eventsOf, List.length_filterMap_eq_countP, ← List.countP_eq_length_filter]
  apply List.countP_congr
  intro line _
  have none : occurrences auditTag line = 0 ↔ strstr auditTag line = none :=
    occurrences_eq_zero_iff (by decide) line
  rw [decide_eq_true_iff, Ne, none, Option.isSome_iff_ne_none]

theorem countMatches_eq_sum (log : List UInt8) :
    countMatches auditTag log = ((log.splitOn 10).map (occurrences auditTag)).sum := by
  rw [countMatches_eq_occurrences (by decide)]
  exact occurrences_eq_sum (by decide) (by decide) log

/-- The first loop counts the events exactly when no line has two tags. -/
theorem countMatches_eq_length_iff (log : List UInt8) :
    countMatches auditTag log = (eventsOf log).length ↔
      ∀ line ∈ log.splitOn 10, occurrences auditTag line ≤ 1 := by
  rw [countMatches_eq_sum, eventsOf_length]
  exact sum_eq_length_filter_iff

theorem eventsOf_length_le (log : List UInt8) :
    (eventsOf log).length ≤ countMatches auditTag log := by
  rw [countMatches_eq_sum, eventsOf_length]
  exact length_filter_le_sum _

/-- What a run with a positive number prints, in terms of the events. -/
theorem runAudit_eq {argument log : CString} {want : Nat} (number : atoi argument.bytes = want)
    (positive : 1 ≤ want) :
    runAudit ⟨true, .ok log⟩ [argv0, .lit "audit", argument] = some
      (if countMatches auditTag log.bytes = 0 then .noEvents want
      else
        let printed := (eventsOf log.bytes).drop (countMatches auditTag log.bytes - want)
        .events want printed printed.length (countMatches auditTag log.bytes)) := by
  have dispatched : (main [argv0, .lit "audit", argument]).2 = .audit (some argument) := rfl
  have wanted : ¬ (want : Int) ≤ 0 := by omega
  have skip : (if (countMatches auditTag log.bytes : Int) > want then
      ((countMatches auditTag log.bytes : Int) - want).toNat else 0) =
        countMatches auditTag log.bytes - want := by
    split <;> omega
  simp only [runAudit, dispatched, cmdAudit, number, Option.isSome_some, Bool.true_and, wanted,
    decide_false, Bool.false_eq_true, if_false, Bool.not_true, skip, printTagged_eq,
    filterMap_strtok, Nat.sub_zero]

/-- `aegisctl audit N` shows the last `N` events and counts them right, exactly
when no line of the log has the tag twice. -/
theorem runAudit_eq_report_iff (argument log : CString) (want : Nat)
    (number : atoi argument.bytes = want) (positive : 1 ≤ want) :
    runAudit ⟨true, .ok log⟩ [argv0, .lit "audit", argument] = some (auditReport want log.bytes) ↔
      ∀ line ∈ log.bytes.splitOn 10, occurrences auditTag line ≤ 1 := by
  rw [← countMatches_eq_length_iff, runAudit_eq number positive, Option.some.injEq, auditReport]
  have atLeast := eventsOf_length_le log.bytes
  by_cases none : eventsOf log.bytes = []
  · simp only [none, if_true, List.length_nil]
    by_cases zero : countMatches auditTag log.bytes = 0
    · simp [zero]
    · simp [zero]
  · have some : (eventsOf log.bytes).length ≠ 0 := by simpa using none
    have counted : countMatches auditTag log.bytes ≠ 0 := by omega
    simp only [none, counted, if_false, AuditOutput.events.injEq, true_and]
    constructor
    · exact fun same => same.2.2
    · intro same
      have start : (eventsOf log.bytes).length - want =
          (eventsOf log.bytes).length - min want (eventsOf log.bytes).length := by omega
      rw [same, start, lastOf, List.length_drop]
      exact ⟨rfl, by omega, rfl⟩

/-! ### A line with two tags -/

/-- Decimal digits are read back by `atoi`. -/
theorem atoi_decimal {want : Nat} (small : want < 2147483648) : atoi (decimal want) = want := by
  have unsigned : decimal want = decimalNat want := by
    rw [decimal, if_neg (by omega), Int.natAbs_natCast]
  have digits := decimalNat_allDigits want
  have whole : (decimalNat want).takeWhile isDigit = decimalNat want :=
    List.takeWhile_eq_self_iff.mpr digits
  cases shape : decimalNat want with
  | nil => exact absurd shape (decimalNat_ne_nil want)
  | cons first rest =>
      have isFirst : isDigit first = true := digits first (by simp [shape])
      have noSign : first ≠ 45 ∧ first ≠ 43 := by
        constructor <;> rintro rfl <;> exact absurd isFirst (by decide)
      have noBlank : isSpaceC first = false := by
        have solid := isSpace_of_isDigit isFirst
        simp only [isSpace, isSpaceC, Bool.or_eq_false_iff] at solid ⊢
        exact solid.1
      have value := digitsValue_decimalNat want
      rw [shape] at whole value
      simp only [atoi, unsigned, shape, List.dropWhile_cons, noBlank, Bool.false_eq_true, if_false,
        List.head?_cons, Option.some_beq_some, beq_eq_false_iff_ne.mpr noSign.1,
        beq_eq_false_iff_ne.mpr noSign.2, Bool.or_false, whole, value]
      rw [toInt32_of_range (by omega) (by omega)]
      omega

theorem runAudit_two_events :
    let log : CString := .lit "[1] aegis: one\n[2] other\n[3] aegis: two\n"
    runAudit ⟨true, .ok log⟩ [argv0, .lit "audit", decimalString 1] =
      some (.events 1 [ascii "aegis: two"] 1 2) := by
  have number : atoi (decimal (1 : Nat)) = (1 : Nat) := atoi_decimal (by decide)
  rw [Nat.cast_one] at number
  have report := (runAudit_eq_report_iff (decimalString 1)
    (.lit "[1] aegis: one\n[2] other\n[3] aegis: two\n") 1 number (by decide)).mpr
      (by decide +kernel)
  apply report.trans
  decide +kernel

/-- An event of a process whose name contains the tag. -/
def taggedName : CString := .lit "aegis: ptrace BLOCKED: aegis:x[9] -> PROTECTED sshd[7]\n"

/-- A process whose name contains the tag hides the event that reports it: one
event is counted as two, and none is shown. -/
theorem runAudit_hides_event :
    eventsOf taggedName.bytes = [taggedName.bytes.dropLast] ∧
      runAudit ⟨true, .ok taggedName⟩ [argv0, .lit "audit", .lit "1"] =
        some (.events 1 [] 0 2) ∧
      runAudit ⟨true, .ok taggedName⟩ [argv0, .lit "audit", .lit "1"] ≠
        some (auditReport 1 taggedName.bytes) := by
  have number : atoi (CString.lit "1").bytes = (1 : Nat) := by decide +kernel
  have printed := @runAudit_eq _ taggedName _ number (by decide)
  rw [countMatches_eq_occurrences (by decide)] at printed
  rw [printed]
  decide +kernel

end Aegis.Tool
