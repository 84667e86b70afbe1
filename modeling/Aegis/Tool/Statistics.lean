import Aegis.Concurrent.Statistics
import Aegis.Tool.Listing

/-!
Owns `aegisctl stats`: it prints the whole page that the module shows. Two runs
of it that print the same enclose a time in which no counter moved, and in which
no hook call that began and returned has logged anything.

Does not own: calls that a page catches halfway.
-/

namespace Aegis.Tool

open Aegis.Foundation
open Aegis.Kernel
open Aegis.Policy
open Aegis.Concurrent

/-- What a run of the tool prints of the statistics. -/
def printedStats (page : StatsPage) (argv : List CString) : Option PrintedFile :=
  match (main argv).2 with
  | .printFile file => if file = "stats" then some (printFile file (.ok page.text)) else none
  | _ => none

section Pages

variable {meanwhile : Counter → List SystemMove} {pool after : HookPool} {page : StatsPage}

/-- A page fits in the buffer of the tool. -/
theorem printedStats_eq (shown : aegisStatsShow meanwhile pool = some (page, after)) :
    printedStats page [argv0, .lit "stats"] = some (.text page.text) := by
  have runs : printedStats page [argv0, .lit "stats"] =
      some (printFile "stats" (.ok page.text)) := rfl
  have fits : page.text.length ≤ maxBuf - 1 :=
    (StatsPage.text_length_le shown).trans (by decide)
  rw [runs, (printFile_eq_text_iff page.text_ne_nil page.text_noNul).mpr fits]

end Pages

/-- If two runs of `aegisctl stats` print the same, no counter moved from the end
of the first to the start of the second, and no hook call that began and
returned in between logged anything. -/
theorem equal_stats_enclose_silence (procAlloc : Fin 3 → Bool) (syscallAlloc : Fin 5 → Bool)
    (firstMeanwhile secondMeanwhile : Counter → List SystemMove) (moves : List SystemMove)
    (pool first second last : HookPool) (firstPage secondPage : StatsPage)
    (reached : hooksMachine.Reachable (HookPool.boot procAlloc syscallAlloc) pool)
    (firstShown : aegisStatsShow firstMeanwhile pool = some (firstPage, first))
    (ran : hooksMachine.run first moves = some second)
    (secondShown : aegisStatsShow secondMeanwhile second = some (secondPage, last))
    (few : ∀ counter, tally counter last.calls < 9223372036854775808)
    (same : printedStats firstPage [argv0, .lit "stats"] =
      printedStats secondPage [argv0, .lit "stats"]) :
    second.shared.2 = first.shared.2 ∧
      ∀ (index : Nat) (env : HookEnv) (request : HookRequest) (reply : HookReply)
        (bumps : List Counter), first.calls.length ≤ index →
        second.calls[index]? = some (.returned (env, request) reply bumps) → reply.log = [] := by
  rw [printedStats_eq firstShown, printedStats_eq secondShown, Option.some.injEq,
    PrintedFile.text.injEq] at same
  obtain rfl : firstPage = secondPage := StatsPage.text_injective same
  have firstReached := reachable_of_shown reached firstShown
  have secondReached := firstReached.run ran
  have goesOn : Onward first.calls second.calls := onward_of_reachable ⟨moves, ran⟩
  have ends : Onward second.calls last.calls := onward_of_shown secondShown
  -- The page lies above the counters of its end and below those of the other's start.
  have tallies : ∀ counter, tally counter second.calls = tally counter first.calls := by
    intro counter
    have grown := goesOn.tally_le counter
    have grownToLast := ends.tally_le counter
    have fewAtLast := few counter
    have below : firstPage.value counter ≤ readCounter first counter :=
      (StatsPage.value_between reached firstShown (by omega)).2
    have above := (StatsPage.value_between secondReached secondShown (few counter)).1
    rw [readCounter_eq_tally firstReached (by omega)] at below
    rw [readCounter_eq_tally secondReached (by omega)] at above
    omega
  constructor
  · apply AegisStats.ext_read
    intro counter
    rw [read_eq_tally (tallied_hooks secondReached), read_eq_tally (tallied_hooks firstReached),
      tallies counter]
  · intro index env request reply bumps new found
    have silent : bumps = [] := goesOn.bumped_eq_nil tallies new found
    exact unlogged_returned secondReached found silent

def moduleLoad : HookEnv × HookRequest :=
  (⟨shell, true, true⟩, .kernelReadFile (some passwd) .readingModule)

/-- A module load is denied while the first page is read: it is counted as a
violation before the third read and as an event before the last. -/
def duringFirst : Counter → List SystemMove
  | .violation .ptraceBlocked =>
      .call (.spawn (.called moduleLoad)) :: List.replicate 6 (.call (.advance 0 ()))
  | .violation .syscallViolations => [.call (.advance 0 ())]
  | .totalEvents => List.replicate 2 (.call (.advance 0 ()))
  | _ => []

/-- A write to a file is allowed while nobody reads a page. -/
def writeBetween : List SystemMove :=
  .call (.spawn (.called (⟨shell, true, true⟩, .filePermission passwd mayWrite))) ::
    List.replicate 5 (.call (.advance 1 ()))

/-- Another module load is counted as a violation after the third read of the
second page, and not yet as an event. -/
def duringSecond : Counter → List SystemMove
  | .violation .moduleViolations =>
      .call (.spawn (.called moduleLoad)) :: List.replicate 7 (.call (.advance 2 ()))
  | _ => []

theorem equal_stats_enclose_silence_writeBetween :
    ∃ firstPage secondPage first second last,
      aegisStatsShow duringFirst (HookPool.boot (fun _ => true) fun _ => true) =
        some (firstPage, first) ∧
      hooksMachine.run first writeBetween = some second ∧
      aegisStatsShow duringSecond second = some (secondPage, last) ∧
      firstPage = ⟨0, 0, 1, 0, 1⟩ ∧ secondPage = firstPage ∧
      last.shared.2.syscallViolations = second.shared.2.syscallViolations + 1 ∧
      second.calls[1]? = some (.returned (⟨shell, true, true⟩, .filePermission passwd mayWrite)
        ⟨0, []⟩ []) ∧
      second.shared.2 = first.shared.2 := by
  refine ⟨_, _, _, _, _, rfl, rfl, rfl, by decide +kernel, by decide +kernel, by decide +kernel,
    rfl, ?_⟩
  have silence := equal_stats_enclose_silence (fun _ => true) (fun _ => true) duringFirst
    duringSecond writeBetween (HookPool.boot (fun _ => true) fun _ => true) _ _ _ _ _
    (.refl _ _) rfl rfl rfl (fun counter => by
      cases counter with
      | violation kind => cases kind <;> decide +kernel
      | totalEvents => decide +kernel) (by decide +kernel)
  exact silence.1

end Aegis.Tool
