import Aegis.Concurrent.Knobs
import Aegis.Concurrent.Lists
import Aegis.Policy.HookCode

/-!
Owns the counters under concurrent hook calls. Each read of the configuration,
each read of a list under its lock and each `atomic64_inc` is one step; handlers
of the sysctl files and calls on the lists take their own steps in between.

A hook that runs alone does what the sequential one does. After every run,
`total_events` and the denials still to be counted there balance the violation
counters and the events that are no denials; what a call was answered on its way
shows which event it is, or why it is none.

Does not own: what a single call reads and bumps, or the log.
-/

namespace Aegis.Concurrent

open Aegis.Foundation
open Aegis.Kernel
open Aegis.Policy

/-! ### Hooks, handlers and list calls together -/

/-- What the hooks read, with all calls that change it. -/
structure Control where
  knobs : KnobPool
  lists : ListPools

inductive ControlMove where
  | knobs (move : Move KnobCall Unit)
  | lists (move : ListMove)

def controlMachine : Machine Control ControlMove where
  step control
    | .knobs move =>
        (knobProgram.machine.step control.knobs move).map fun next => { control with knobs := next }
    | .lists move =>
        (listsMachine.step control.lists move).map fun next => { control with lists := next }

def Control.boot (procAlloc : Fin 3 → Bool) (syscallAlloc : Fin 5 → Bool) : Control where
  knobs := Pool.start KnobState.boot
  lists := ListPools.boot procAlloc syscallAlloc

def Control.view (control : Control) : PolicyView where
  cfg := control.knobs.shared.cfg
  files := control.lists.files.shared
  procs := control.lists.procs.shared
  syscalls := control.lists.syscalls.shared

/-- The counters of `aegis_cfg`, each an `atomic64_t`. -/
def statsMeter : Meter 64 AegisStats Counter where
  read := AegisStats.read
  inc := AegisStats.inc
  read_inc := AegisStats.read_inc

abbrev HookCall := MeteredCall (HookEnv × HookRequest) PolicyView Counter HookReply

abbrev HookPool := Pool (Control × AegisStats) HookCall

def hookBody (arg : HookEnv × HookRequest) : HookCode := hookCode arg.1 arg.2

abbrev SystemMove := MeteredMove ControlMove HookCall

def hookProgram : Program (Control × AegisStats) HookCall Unit :=
  meteredProgram statsMeter Control.view hookBody

/-- All interleavings of hook calls, sysctl handlers and list calls. -/
def hooksMachine : Machine HookPool SystemMove :=
  meteredMachine statsMeter Control.view hookBody controlMachine

/-- What the policy answered to a hook call in the course of a run. -/
abbrev Answered (start : HookPool) (moves : List SystemMove) (index : Nat) :
    Answer PolicyView → Prop :=
  Given statsMeter Control.view hookBody controlMachine start moves index

def HookPool.boot (procAlloc : Fin 3 → Bool) (syscallAlloc : Fin 5 → Bool) : HookPool :=
  Pool.start (Control.boot procAlloc syscallAlloc, aegisStats)

/-- The policy that the hooks read, with the counters. -/
def Control.policy (control : Control) (stats : AegisStats) : PolicyState where
  cfg := control.knobs.shared.cfg
  stats := stats
  files := control.lists.files.shared
  procs := control.lists.procs.shared
  syscalls := control.lists.syscalls.shared

/-- A hook that runs alone has the outcome of the sequential hook. -/
theorem runHook_alone (control : Control) (stats : AegisStats) (env : HookEnv)
    (request : HookRequest) :
    let outcome := runHook (control.policy stats) env request
    ∃ bumps, hookProgram.RunsAlone (control, stats) (.called (env, request))
      (control, outcome.stats) (.returned (env, request) ⟨outcome.ret, outcome.log⟩ bumps) := by
  intro outcome
  have code : outcome = HookCode.outcome (control.policy stats) (hookCode env request) :=
    (hookCode_outcome _ env request).symm
  rw [code]
  exact ⟨_, meteredProgram_alone statsMeter Control.view hookBody control stats (env, request)⟩

/-! ### Pending denials and other events -/

namespace HookCall

/-- The call has bumped a violation counter. -/
def countsViolation (call : HookCall) : Bool :=
  call.bumped.any fun counter => counter != .totalEvents

/-- The call has bumped a violation counter and not yet `total_events`. -/
def pending (call : HookCall) : Bool :=
  call.countsViolation && !call.bumped.contains .totalEvents

/-- The call has bumped `total_events` for what is no violation. -/
def countsEvent (call : HookCall) : Bool :=
  !call.countsViolation && call.bumped.contains .totalEvents

end HookCall

/-- The bumps of the four violation counters. -/
def violationTally (calls : List HookCall) : Nat :=
  tally (.violation .ptraceBlocked) calls + tally (.violation .fileViolations) calls +
    tally (.violation .syscallViolations) calls + tally (.violation .moduleViolations) calls

abbrev hookBumps (arg : HookEnv × HookRequest) :
    List (Answer PolicyView) → List Counter → Option HookReply → Prop :=
  HookBumps arg.1 arg.2

section Shaped

variable {call : HookCall} {given : Answer PolicyView → Prop}

/-- What a call has bumped: nothing, a violation, a whole denial, or an event. -/
theorem HookCall.bumped_cases (shaped : call.Shaped hookBumps given) :
    call.bumped = [] ∨ (∃ kind, call.bumped = [.violation kind]) ∨
      (∃ kind, call.bumped = [.violation kind, .totalEvents]) ∨
      (call.bumped = [.totalEvents] ∧ ∃ reply, CountedEvent call.arg.1 given call.arg.2 reply ∧
        ∀ shown ∈ call.result, shown = reply) := by
  obtain ⟨known, each, bumps⟩ := shaped.exists_known
  generalize call.bumped = bumped, call.result = result at bumps
  cases bumps with
  | started => exact Or.inl rfl
  | silent reply uncounted => exact Or.inl rfl
  | pending kind => exact Or.inr (Or.inl ⟨kind, rfl⟩)
  | denied kind result => exact Or.inr (Or.inr (Or.inl ⟨kind, rfl⟩))
  | counted event shown =>
      exact Or.inr (Or.inr (Or.inr ⟨rfl, _, event.mono each, shown⟩))

/-- A returned call that has bumped nothing was kept from it. -/
theorem HookCall.uncounted (shaped : call.Shaped hookBumps given)
    (returned : call.isReturned = true) (nothing : call.bumped = []) :
    Uncounted call.arg.1 given call.arg.2 := by
  cases call with
  | called arg => cases returned
  | running arg code bumped => cases returned
  | returned arg result bumped =>
      obtain ⟨known, each, bumps⟩ := shaped
      obtain rfl : bumped = [] := nothing
      cases bumps with
      | silent reply uncounted => exact uncounted.mono each

end Shaped

/-- The balance of one call. -/
theorem HookCall.balance {call : HookCall} {given : Answer PolicyView → Prop}
    (shaped : call.Shaped hookBumps given) :
    call.bumped.count .totalEvents + (if call.pending then 1 else 0) =
      call.bumped.count (.violation .ptraceBlocked) +
        call.bumped.count (.violation .fileViolations) +
        call.bumped.count (.violation .syscallViolations) +
        call.bumped.count (.violation .moduleViolations) + (if call.countsEvent then 1 else 0) := by
  rcases HookCall.bumped_cases shaped with same | ⟨kind, same⟩ | ⟨kind, same⟩ | ⟨same, -⟩
  · simp only [HookCall.pending, HookCall.countsEvent, HookCall.countsViolation, same]
    rfl
  · simp only [HookCall.pending, HookCall.countsEvent, HookCall.countsViolation, same]
    cases kind <;> rfl
  · simp only [HookCall.pending, HookCall.countsEvent, HookCall.countsViolation, same]
    cases kind <;> rfl
  · simp only [HookCall.pending, HookCall.countsEvent, HookCall.countsViolation, same]
    rfl

theorem tally_cons (counter : Counter) (call : HookCall) (calls : List HookCall) :
    tally counter (call :: calls) = call.bumped.count counter + tally counter calls :=
  tally_perm_cons (List.Perm.refl _)

/-- The balance of all calls. -/
theorem tally_balance {calls : List HookCall}
    (shaped : ∀ call ∈ calls, call.Shaped hookBumps fun _ => True) :
    tally .totalEvents calls + calls.countP HookCall.pending =
      violationTally calls + calls.countP HookCall.countsEvent := by
  induction calls with
  | nil => rfl
  | cons call calls inductionHypothesis =>
      have own := HookCall.balance (shaped call List.mem_cons_self)
      have others := inductionHypothesis fun other member =>
        shaped other (List.mem_cons_of_mem _ member)
      unfold violationTally at others ⊢
      simp only [tally_cons, List.countP_cons]
      omega

/-! ### Conservation -/

/-- The sum of the four violation counters. -/
def violations (stats : AegisStats) : BitVec 64 :=
  stats.ptraceBlocked + stats.fileViolations + stats.syscallViolations + stats.moduleViolations

/-- What holds of the counters after a run. -/
structure Conserved (start : HookPool) (moves : List SystemMove) (pool : HookPool) : Prop where
  balance : pool.shared.2.totalEvents + BitVec.ofNat 64 (pool.calls.countP HookCall.pending) =
    violations pool.shared.2 + BitVec.ofNat 64 (pool.calls.countP HookCall.countsEvent)
  /-- The events that are no denials are tasks freed while enabled, audited execs
  and logged accesses to listed files, each by what the call was answered. -/
  events : ∀ (index : Nat) (call : HookCall), pool.calls[index]? = some call →
    call.countsEvent = true → call.bumped = [.totalEvents] ∧
      ∃ reply, CountedEvent call.arg.1 (Answered start moves index) call.arg.2 reply ∧
        ∀ shown ∈ call.result, shown = reply
  /-- A call that has returned without counting anything was answered so. -/
  silent : ∀ (index : Nat) (call : HookCall), pool.calls[index]? = some call →
    call.isReturned = true → call.bumped = [] →
      Uncounted call.arg.1 (Answered start moves index) call.arg.2
  /-- With no call in flight and fewer than 2^63 events, the total is no less
  than the sum of the violation counters, as signed numbers. -/
  quiet : (∀ call ∈ pool.calls, call.isReturned = true) →
    tally .totalEvents pool.calls < 9223372036854775808 →
    pool.shared.2.ptraceBlocked.toInt + pool.shared.2.fileViolations.toInt +
      pool.shared.2.syscallViolations.toInt + pool.shared.2.moduleViolations.toInt ≤
        pool.shared.2.totalEvents.toInt

section Runs

variable {procAlloc : Fin 3 → Bool} {syscallAlloc : Fin 5 → Bool} {pool : HookPool}

theorem tallied_hooksMachine {moves : List SystemMove}
    (ran : hooksMachine.run (HookPool.boot procAlloc syscallAlloc) moves = some pool) :
    Tallied statsMeter hookBumps aegisStats
      (Answered (HookPool.boot procAlloc syscallAlloc) moves) pool := by
  have asserts : ∀ arg, (hookBody arg).Asserts (hookBumps arg) [] [] := fun arg =>
    hookCode_asserts arg.1 arg.2
  exact tallied_run asserts ran

theorem tallied_hooks
    (reached : hooksMachine.Reachable (HookPool.boot procAlloc syscallAlloc) pool) :
    Tallied statsMeter hookBumps aegisStats (fun _ _ => True) pool := by
  obtain ⟨moves, ran⟩ := reached
  exact (tallied_hooksMachine ran).mono fun _ _ _ => trivial

end Runs

section Readings

variable {pool : HookPool} {given : Nat → Answer PolicyView → Prop}
variable (tallied : Tallied statsMeter hookBumps aegisStats given pool)

include tallied

theorem read_eq_tally (counter : Counter) :
    pool.shared.2.read counter = BitVec.ofNat 64 (tally counter pool.calls) := by
  have zero : aegisStats.read counter = 0#64 := by
    rcases counter with kind | _
    · cases kind <;> rfl
    · rfl
  have value := tallied.read counter
  change pool.shared.2.read counter = aegisStats.read counter + _ at value
  rw [value, zero, BitVec.zero_add]

theorem toInt_read_eq_tally {counter : Counter}
    (few : tally counter pool.calls < 9223372036854775808) :
    (pool.shared.2.read counter).toInt = tally counter pool.calls := by
  rw [read_eq_tally tallied counter, BitVec.toInt_eq_toNat_of_lt]
  · rw [BitVec.toNat_ofNat, Nat.mod_eq_of_lt (by omega)]
  · rw [BitVec.toNat_ofNat, Nat.mod_eq_of_lt (by omega)]
    omega

end Readings

/-- A returned call has counted its denial in full. -/
theorem HookCall.not_pending_of_isReturned {call : HookCall} {given : Answer PolicyView → Prop}
    (shaped : call.Shaped hookBumps given) (returned : call.isReturned = true) :
    call.pending = false := by
  cases call with
  | called arg => cases returned
  | running arg code bumped => cases returned
  | returned arg reply bumped =>
      obtain ⟨known, -, bumps⟩ := shaped
      cases bumps with
      | silent reply uncounted => rfl
      | denied kind result => cases kind <;> rfl
      | counted event shown => rfl

theorem conserved_of_tallied {start pool : HookPool} {moves : List SystemMove}
    (tallied : Tallied statsMeter hookBumps aegisStats (Answered start moves) pool) :
    Conserved start moves pool where
  balance := by
    have balanced := congrArg (BitVec.ofNat 64)
      (tally_balance fun _ member => tallied.shaped_of_mem member)
    simp only [violationTally, BitVec.ofNat_add, ← read_eq_tally tallied] at balanced
    exact balanced
  events index call found counts := by
    rcases HookCall.bumped_cases (tallied.shaped index call found) with
      same | ⟨kind, same⟩ | ⟨kind, same⟩ | event
    · simp [HookCall.countsEvent, same] at counts
    · simp [HookCall.countsEvent, same] at counts
    · simp [HookCall.countsEvent, HookCall.countsViolation, same] at counts
    · exact event
  silent index call found := HookCall.uncounted (tallied.shaped index call found)
  quiet returned few := by
    have settled : pool.calls.countP HookCall.pending = 0 := by
      rw [List.countP_eq_zero]
      intro call member
      rw [HookCall.not_pending_of_isReturned (tallied.shaped_of_mem member) (returned call member)]
      exact Bool.false_ne_true
    have balanced := tally_balance fun _ member => tallied.shaped_of_mem member
    unfold violationTally at balanced
    have fewOf : ∀ kind, tally (.violation kind) pool.calls < 9223372036854775808 := by
      intro kind
      cases kind <;> omega
    have ptrace := toInt_read_eq_tally tallied (fewOf .ptraceBlocked)
    have file := toInt_read_eq_tally tallied (fewOf .fileViolations)
    have syscall := toInt_read_eq_tally tallied (fewOf .syscallViolations)
    have loading := toInt_read_eq_tally tallied (fewOf .moduleViolations)
    have total := toInt_read_eq_tally tallied few
    simp only [AegisStats.read] at ptrace file syscall loading total
    omega

/-- After every run from boot, whatever was interleaved. -/
theorem counters_conserved (procAlloc : Fin 3 → Bool) (syscallAlloc : Fin 5 → Bool)
    (moves : List SystemMove) (pool : HookPool)
    (ran : hooksMachine.run (HookPool.boot procAlloc syscallAlloc) moves = some pool) :
    Conserved (HookPool.boot procAlloc syscallAlloc) moves pool :=
  conserved_of_tallied (tallied_hooksMachine ran)

/-- A denied module load stops before `total_events`, after a task was freed and
while a handler switches the module off. -/
def racingDenial : List SystemMove :=
  [.call (.spawn (.called (⟨shell, true, true⟩, .kernelReadFile (some passwd) .readingModule))),
    .call (.spawn (.called (⟨shell, true, true⟩, .taskFree))),
    .environment (.knobs (.spawn (.called .enabled true (.stored 0))))] ++
  List.replicate 4 (.call (.advance 1 ())) ++ List.replicate 6 (.call (.advance 0 ())) ++
  List.replicate 3 (.environment (.knobs (.advance 0 ()))) ++ [.call (.advance 0 ())]

theorem counters_conserved_racingDenial :
    ∃ pool, hooksMachine.run (HookPool.boot (fun _ => true) fun _ => true) racingDenial =
        some pool ∧
      pool.calls.countP HookCall.pending = 1 ∧ pool.calls.countP HookCall.countsEvent = 1 ∧
      Conserved (HookPool.boot (fun _ => true) fun _ => true) racingDenial pool := by
  refine ⟨_, rfl, by decide +kernel, by decide +kernel, ?_⟩
  exact counters_conserved (fun _ => true) (fun _ => true) racingDenial _ rfl

end Aegis.Concurrent
