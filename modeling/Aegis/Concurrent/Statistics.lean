import Aegis.Concurrent.Counters
import Aegis.Foundation.Format
import Aegis.Foundation.Template

/-!
Owns the statistics file: `aegis_stats_show` reads the five counters one after
another, and before each read any steps of hooks, handlers and list calls can
come. No lock keeps the five values together.

Every value lies between those at the start and at the end of the read, and the
violations on a page exceed its total at most by the denials that are still to
be counted there. The text of a page determines its values.

Does not own: the buffer of the sequence file.
-/

namespace Aegis.Concurrent

open Aegis.Foundation
open Aegis.Kernel
open Aegis.Policy
open CString (ascii)

/-- `atomic64_read`, as the signed number that `%lld` prints. -/
def readCounter (pool : HookPool) (counter : Counter) : Int :=
  (pool.shared.2.read counter).toInt

structure StatsPage where
  ptraceBlocked : Int
  fileViolations : Int
  syscallViolations : Int
  moduleViolations : Int
  totalEvents : Int
deriving DecidableEq

namespace StatsPage

def value (page : StatsPage) : Counter → Int
  | .violation .ptraceBlocked => page.ptraceBlocked
  | .violation .fileViolations => page.fileViolations
  | .violation .syscallViolations => page.syscallViolations
  | .violation .moduleViolations => page.moduleViolations
  | .totalEvents => page.totalEvents

/-- The sum of the four violation counters on the page. -/
def violations (page : StatsPage) : Int :=
  page.ptraceBlocked + page.fileViolations + page.syscallViolations + page.moduleViolations

/-- The text that the page is printed as. -/
def text (page : StatsPage) : List UInt8 :=
  template
    (ascii "AEGIS Event Statistics:\n=======================\n  Ptrace blocked:       ")
    [(decimal page.ptraceBlocked, ascii "\n  File violations:      "),
      (decimal page.fileViolations, ascii "\n  Syscall violations:   "),
      (decimal page.syscallViolations, ascii "\n  Module violations:    "),
      (decimal page.moduleViolations, ascii "\n  Total events:         "),
      (decimal page.totalEvents, ascii "\n\n")]

end StatsPage

/-- `aegis_stats_show`, with the moves that come before the read of each
counter. -/
def aegisStatsShow (meanwhile : Counter → List SystemMove) (pool : HookPool) :
    Option (StatsPage × HookPool) := do
  let pool ← hooksMachine.run pool (meanwhile (.violation .ptraceBlocked))
  let ptraceBlocked := readCounter pool (.violation .ptraceBlocked)
  let pool ← hooksMachine.run pool (meanwhile (.violation .fileViolations))
  let fileViolations := readCounter pool (.violation .fileViolations)
  let pool ← hooksMachine.run pool (meanwhile (.violation .syscallViolations))
  let syscallViolations := readCounter pool (.violation .syscallViolations)
  let pool ← hooksMachine.run pool (meanwhile (.violation .moduleViolations))
  let moduleViolations := readCounter pool (.violation .moduleViolations)
  let pool ← hooksMachine.run pool (meanwhile .totalEvents)
  let totalEvents := readCounter pool .totalEvents
  some (⟨ptraceBlocked, fileViolations, syscallViolations, moduleViolations, totalEvents⟩, pool)

section Moments

variable {meanwhile : Counter → List SystemMove} {pool after : HookPool} {page : StatsPage}

/-- Every value of a page is read at some moment of the call, and the total at
its end. -/
theorem aegisStatsShow_moments (shown : aegisStatsShow meanwhile pool = some (page, after)) :
    (∀ counter, ∃ moment, hooksMachine.Reachable pool moment ∧
      hooksMachine.Reachable moment after ∧ page.value counter = readCounter moment counter) ∧
      page.totalEvents = readCounter after .totalEvents := by
  simp only [aegisStatsShow, Option.bind_eq_bind, Option.bind_eq_some_iff, Option.some.injEq,
    Prod.mk.injEq] at shown
  obtain ⟨first, ranFirst, second, ranSecond, third, ranThird, fourth, ranFourth, last, ranLast,
    rfl, rfl⟩ := shown
  have toFirst := (Machine.Reachable.refl hooksMachine pool).run ranFirst
  have toSecond := toFirst.run ranSecond
  have toThird := toSecond.run ranThird
  have toFourth := toThird.run ranFourth
  have fromFourth := (Machine.Reachable.refl hooksMachine fourth).run ranLast
  have fromThird := ((Machine.Reachable.refl hooksMachine third).run ranFourth).run ranLast
  have fromSecond :=
    (((Machine.Reachable.refl hooksMachine second).run ranThird).run ranFourth).run ranLast
  have fromFirst := ((((Machine.Reachable.refl hooksMachine first).run ranSecond).run
    ranThird).run ranFourth).run ranLast
  refine ⟨fun counter => ?_, rfl⟩
  cases counter with
  | violation kind =>
      cases kind with
      | ptraceBlocked => exact ⟨first, toFirst, fromFirst, rfl⟩
      | fileViolations => exact ⟨second, toSecond, fromSecond, rfl⟩
      | syscallViolations => exact ⟨third, toThird, fromThird, rfl⟩
      | moduleViolations => exact ⟨fourth, toFourth, fromFourth, rfl⟩
  | totalEvents => exact ⟨last, toFourth.run ranLast, .refl _ last, rfl⟩

/-- A page prints at most twenty bytes for each value. -/
theorem StatsPage.text_length_le (shown : aegisStatsShow meanwhile pool = some (page, after)) :
    page.text.length ≤ 400 := by
  have short : ∀ counter, (decimal (page.value counter)).length ≤ 20 := by
    intro counter
    obtain ⟨moment, -, -, read⟩ := (aegisStatsShow_moments shown).1 counter
    have low := BitVec.le_toInt (moment.shared.2.read counter)
    have high := BitVec.toInt_lt (x := moment.shared.2.read counter)
    rw [read, readCounter]
    apply decimal_length_le_of_natAbs (by decide)
    omega
  have ptrace := short (.violation .ptraceBlocked)
  have file := short (.violation .fileViolations)
  have syscall := short (.violation .syscallViolations)
  have loading := short (.violation .moduleViolations)
  have total := short .totalEvents
  simp only [StatsPage.value] at ptrace file syscall loading total
  simp only [StatsPage.text, template_cons, template_nil, List.length_append]
  have literals : (ascii
        "AEGIS Event Statistics:\n=======================\n  Ptrace blocked:       ").length +
      (ascii "\n  File violations:      ").length + (ascii "\n  Syscall violations:   ").length +
      (ascii "\n  Module violations:    ").length + (ascii "\n  Total events:         ").length +
      (ascii "\n\n").length ≤ 300 := by decide +kernel
  omega

theorem onward_of_shown (shown : aegisStatsShow meanwhile pool = some (page, after)) :
    Onward pool.calls after.calls := by
  obtain ⟨moment, toMoment, fromMoment, -⟩ := (aegisStatsShow_moments shown).1 .totalEvents
  exact (onward_of_reachable toMoment).trans (onward_of_reachable fromMoment)

end Moments

/-! ### The text of a page -/

theorem StatsPage.text_injective : Function.Injective StatsPage.text := by
  have free : ∀ value : Int, 10 ∉ decimal value := fun _ => not_mem_decimal (by decide)
  intro first second same
  obtain ⟨ptrace, afterPtrace⟩ := template_cons_inj (by decide) (free _) (free _) same
  obtain ⟨file, afterFile⟩ := template_cons_inj (by decide) (free _) (free _) afterPtrace
  obtain ⟨syscall, afterSyscall⟩ := template_cons_inj (by decide) (free _) (free _) afterFile
  obtain ⟨loading, afterLoading⟩ := template_cons_inj (by decide) (free _) (free _) afterSyscall
  have total := template_singleton_inj afterLoading
  cases first
  cases second
  simp only [StatsPage.mk.injEq]
  exact ⟨decimal_injective ptrace, decimal_injective file, decimal_injective syscall,
    decimal_injective loading, decimal_injective total⟩

theorem StatsPage.text_noNul (page : StatsPage) : 0 ∉ page.text := by
  have free : ∀ value : Int, 0 ∉ decimal value := fun _ => not_mem_decimal (by decide)
  simp only [StatsPage.text, template_cons, template_nil, List.mem_append, not_or]
  exact ⟨by decide, free _, by decide, free _, by decide, free _, by decide, free _, by decide,
    free _, by decide⟩

theorem StatsPage.text_ne_nil (page : StatsPage) : page.text ≠ [] := by
  have lead : ascii
      "AEGIS Event Statistics:\n=======================\n  Ptrace blocked:       " ≠ [] := by
    decide
  exact fun empty => lead (List.append_eq_nil_iff.mp empty).1

/-! ### Consistency of a page -/

section Readings

variable {procAlloc : Fin 3 → Bool} {syscallAlloc : Fin 5 → Bool} {pool later : HookPool}
variable (reached : hooksMachine.Reachable (HookPool.boot procAlloc syscallAlloc) pool)

include reached

theorem readCounter_eq_tally {counter : Counter}
    (few : tally counter pool.calls < 9223372036854775808) :
    readCounter pool counter = tally counter pool.calls :=
  toInt_read_eq_tally (tallied_hooks reached) few

/-- What is read later is no less, until 2^63 bumps. -/
theorem readCounter_le (goesOn : hooksMachine.Reachable pool later) {counter : Counter}
    (few : tally counter later.calls < 9223372036854775808) :
    readCounter pool counter ≤ readCounter later counter := by
  have grown := (onward_of_reachable goesOn).tally_le counter
  obtain ⟨moves, ran⟩ := goesOn
  rw [readCounter_eq_tally reached (by omega), readCounter_eq_tally (reached.run ran) few]
  omega

variable {meanwhile : Counter → List SystemMove} {page : StatsPage}

theorem reachable_of_shown (shown : aegisStatsShow meanwhile pool = some (page, later)) :
    hooksMachine.Reachable (HookPool.boot procAlloc syscallAlloc) later := by
  obtain ⟨moment, ⟨before, ranBefore⟩, ⟨rest, ranRest⟩, -⟩ :=
    (aegisStatsShow_moments shown).1 .totalEvents
  exact (reached.run ranBefore).run ranRest

/-- A value on a page lies between those at the start and at the end. -/
theorem StatsPage.value_between (shown : aegisStatsShow meanwhile pool = some (page, later))
    {counter : Counter} (few : tally counter later.calls < 9223372036854775808) :
    readCounter pool counter ≤ page.value counter ∧
      page.value counter ≤ readCounter later counter := by
  obtain ⟨moment, toMoment, fromMoment, read⟩ := (aegisStatsShow_moments shown).1 counter
  have fewAtMoment := ((onward_of_reachable fromMoment).tally_le counter).trans_lt few
  rw [read]
  refine ⟨readCounter_le reached toMoment fewAtMoment, ?_⟩
  obtain ⟨moves, ran⟩ := toMoment
  exact readCounter_le (reached.run ran) fromMoment few

end Readings

/-- What a page shows of the counters before and after it was read. -/
structure Consistent (pool : HookPool) (page : StatsPage) (after : HookPool) : Prop where
  between : ∀ counter,
    readCounter pool counter ≤ page.value counter ∧ page.value counter ≤ readCounter after counter
  violations_le : page.violations ≤ page.totalEvents + after.calls.countP HookCall.pending

/-- Whatever runs before and between the five reads: as long as no counter was
bumped 2^63 times, the page is consistent. -/
theorem statsPage_consistent (procAlloc : Fin 3 → Bool) (syscallAlloc : Fin 5 → Bool)
    (meanwhile : Counter → List SystemMove) (pool after : HookPool) (page : StatsPage)
    (reached : hooksMachine.Reachable (HookPool.boot procAlloc syscallAlloc) pool)
    (shown : aegisStatsShow meanwhile pool = some (page, after))
    (few : ∀ counter, tally counter after.calls < 9223372036854775808) :
    Consistent pool page after := by
  have ends := reachable_of_shown reached shown
  have between := fun counter => StatsPage.value_between reached shown (few counter)
  refine ⟨between, ?_⟩
  -- At the last read, the earlier values are no more than the counters, and these balance.
  have balance := tally_balance fun _ member => (tallied_hooks ends).shaped_of_mem member
  have value := fun counter => readCounter_eq_tally ends (few counter)
  have ptrace := (between (.violation .ptraceBlocked)).2
  have file := (between (.violation .fileViolations)).2
  have syscall := (between (.violation .syscallViolations)).2
  have loading := (between (.violation .moduleViolations)).2
  rw [value] at ptrace file syscall loading
  rw [(aegisStatsShow_moments shown).2, value]
  unfold violationTally at balance
  simp only [StatsPage.violations, StatsPage.value] at ptrace file syscall loading ⊢
  omega

/-- Before the third read, a module load is denied that is not yet part of the
total. -/
def pendingDenial : Counter → List SystemMove
  | .violation .syscallViolations =>
      .call (.spawn (.called (⟨shell, true, true⟩,
        .kernelReadFile (some passwd) .readingModule))) ::
          List.replicate 7 (.call (.advance 0 ()))
  | _ => []

theorem statsPage_consistent_pendingDenial :
    ∃ page after,
      aegisStatsShow pendingDenial (HookPool.boot (fun _ => true) fun _ => true) =
        some (page, after) ∧
      page.violations = 1 ∧ page.totalEvents = 0 ∧
      Consistent (HookPool.boot (fun _ => true) fun _ => true) page after := by
  refine ⟨_, _, rfl, by decide +kernel, by decide +kernel, ?_⟩
  refine statsPage_consistent (fun _ => true) (fun _ => true) pendingDenial _ _ _ (.refl _ _) rfl ?_
  intro counter
  cases counter with
  | violation kind => cases kind <;> decide +kernel
  | totalEvents => decide +kernel

/-! ### What a page leaves out -/

/-- A call that bumps nothing logs nothing. -/
def Unlogged (_known : List (Answer PolicyView)) (bumps : List Counter)
    (result : Option HookReply) : Prop :=
  bumps = [] → ∀ reply ∈ result, reply.log = []

section Unlogged

variable {known : List (Answer PolicyView)} {yes no : HookCode}

@[simp] theorem unlogged_none (bumps : List Counter) : Unlogged known bumps none := by
  simp [Unlogged]

@[simp] theorem unlogged_ret (reply : HookReply) :
    Code.Asserts Unlogged known [] (.ret reply : HookCode) ↔ reply.log = [] := by
  simp [Code.Asserts, Unlogged]

@[simp] theorem unlogged_allow : HookCode.allow.Asserts Unlogged known [] :=
  (unlogged_ret _).mpr rfl

theorem unlogged_of_bumped (code : HookCode) {done : List Counter} (bumped : done ≠ []) :
    code.Asserts Unlogged known done := by
  induction code generalizing known done with
  | ret reply => exact ⟨unlogged_none done, fun none => absurd none bumped⟩
  | ask question yes no yesHypothesis noHypothesis =>
      exact ⟨unlogged_none done, yesHypothesis bumped, noHypothesis bumped⟩
  | bump counter next inductionHypothesis =>
      exact ⟨unlogged_none done, inductionHypothesis (by simp)⟩

@[simp] theorem unlogged_denyThen (kind : Violation) (next : HookCode) :
    (HookCode.denyThen kind next).Asserts Unlogged known [] :=
  ⟨unlogged_none [], unlogged_of_bumped (.bump .totalEvents next) (by simp)⟩

@[simp] theorem unlogged_deny (kind : Violation) (error : Errno) (log : List LogRecord) :
    (HookCode.deny kind error log).Asserts Unlogged known [] := unlogged_denyThen kind _

@[simp] theorem unlogged_event (log : List LogRecord) :
    (HookCode.event log).Asserts Unlogged known [] :=
  ⟨unlogged_none [], unlogged_of_bumped (.ret ⟨0, log⟩) (by simp)⟩

@[simp] theorem unlogged_ask (question : PolicyView → Bool) :
    Code.Asserts Unlogged known [] (.ask question yes no) ↔
      yes.Asserts Unlogged (known ++ [⟨question, true⟩]) [] ∧
        no.Asserts Unlogged (known ++ [⟨question, false⟩]) [] := by
  simp [Code.Asserts]

@[simp] theorem unlogged_ite (condition : Prop) [Decidable condition] :
    (if condition then yes else no).Asserts Unlogged known [] ↔
      (condition → yes.Asserts Unlogged known []) ∧
        (¬ condition → no.Asserts Unlogged known []) := by
  split <;> simp_all

end Unlogged

theorem hookCode_unlogged (env : HookEnv) (request : HookRequest) :
    (hookCode env request).Asserts Unlogged [] [] := by
  cases request with
  | taskAlloc => exact unlogged_allow
  | taskFree => simp [hookCode, HookCode.aegisTaskFree, HookCode.whenEnabled]
  | ptraceAccessCheck child mode =>
      simp [hookCode, HookCode.aegisPtraceAccessCheck, HookCode.whenProcessProtected,
        HookCode.whenFeature, HookCode.whenEnabled]
  | ptraceTraceme parent =>
      simp [hookCode, HookCode.aegisPtraceTraceme, HookCode.whenFeature, HookCode.whenEnabled]
  | filePermission file mask =>
      simp [hookCode, HookCode.aegisFilePermission, HookCode.whenFileProtected,
        HookCode.whenFeature, HookCode.whenEnabled]
  | fileOpen file =>
      simp [hookCode, HookCode.aegisFileOpen, HookCode.aegisFilePermission,
        HookCode.whenFileProtected, HookCode.whenFeature, HookCode.whenEnabled]
  | kernelReadFile file id =>
      cases file <;>
        simp [hookCode, HookCode.aegisKernelReadFile, HookCode.whenSyscallBlocked,
          HookCode.whenModulesDenied, HookCode.whenFeature, HookCode.whenEnabled]
  | kernelLoadData id =>
      simp [hookCode, HookCode.aegisKernelLoadData, HookCode.whenSyscallBlocked,
        HookCode.whenModulesDenied, HookCode.whenFeature, HookCode.whenEnabled]
  | bprmCheckSecurity =>
      simp [hookCode, HookCode.aegisBprmCheckSecurity, HookCode.whenFeature, HookCode.whenEnabled]
  | socketCreate => simp [hookCode, HookCode.aegisSocketCreate, HookCode.whenEnabled]
  | inodePermission => exact unlogged_allow

/-- A call that has returned without bumping a counter has logged nothing. -/
theorem unlogged_returned {procAlloc : Fin 3 → Bool} {syscallAlloc : Fin 5 → Bool}
    {pool : HookPool} {index : Nat} {env : HookEnv} {request : HookRequest} {reply : HookReply}
    {bumps : List Counter}
    (reached : hooksMachine.Reachable (HookPool.boot procAlloc syscallAlloc) pool)
    (found : pool.calls[index]? = some (.returned (env, request) reply bumps))
    (silent : bumps = []) : reply.log = [] := by
  obtain ⟨moves, ran⟩ := reached
  have asserts : ∀ arg, (hookBody arg).Asserts Unlogged [] [] := fun arg =>
    hookCode_unlogged arg.1 arg.2
  have tallied : Tallied statsMeter (fun _ => Unlogged) aegisStats
      (Answered (HookPool.boot procAlloc syscallAlloc) moves) pool := tallied_run asserts ran
  obtain ⟨known, -, unlogged⟩ := tallied.shaped index _ found
  exact unlogged silent reply rfl

end Aegis.Concurrent
