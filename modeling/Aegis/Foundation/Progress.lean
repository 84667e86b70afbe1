import Mathlib.Algebra.BigOperators.Group.List.Basic
import Mathlib.Algebra.Ring.Nat
import Aegis.Foundation.Lock

/-!
Owns completion of a pool of calls under one lock. If each step uses up some of
the steps a call has left, a schedule of steps is bounded. If a call that has
not returned can move whenever the lock is free, and the holder of the lock can
always move, then a pool in which nothing can move has only returned calls.
Together: every schedule can be continued to one after which all calls have
returned, and none can be continued forever.

Does not own: fairness between calls, or calls that keep arriving.
-/

namespace Aegis.Foundation

universe u v w

variable {Shared : Type u} {Call : Type v} {Choice : Type w}

/-- Steps of calls that are already in the pool, with what is decided at each. -/
def advances (schedule : List (Nat × Choice)) : List (Move Call Choice) :=
  schedule.map fun step => .advance step.1 step.2

namespace Pool

/-- The steps that all calls together have left. -/
def left (left : Call → Nat) (pool : Pool Shared Call) : Nat := (pool.calls.map left).sum

theorem left_set (measure : Call → Nat) {pool : Pool Shared Call} {index : Nat} {call : Call}
    (found : pool.calls[index]? = some call) (next : Shared) (after : Call) :
    left measure ⟨next, pool.calls.set index after⟩ + measure call =
      left measure pool + measure after := by
  obtain ⟨rest, before, later⟩ := exists_rest found
  have old := (before.map measure).sum_eq
  have new := ((later after).map measure).sum_eq
  simp only [List.map_cons, List.sum_cons] at old new
  simp only [left]
  omega

/-- Only the calls that have not returned have steps left. -/
theorem left_le {measure : Call → Nat} {returned : Call → Bool} {bound : Nat}
    (each : ∀ call, measure call ≤ if returned call then 0 else bound)
    (pool : Pool Shared Call) :
    pool.left measure ≤ bound * pool.calls.countP fun call => !returned call := by
  unfold left
  induction pool.calls with
  | nil => exact Nat.le_refl _
  | cons call rest inductionHypothesis =>
      have here := each call
      rw [List.map_cons, List.sum_cons, List.countP_cons]
      cases done : returned call with
      | true =>
          simp only [done, if_true, Nat.le_zero] at here
          simpa [done, here] using inductionHypothesis
      | false =>
          simp only [done, Bool.false_eq_true, if_false] at here
          simp only [Bool.not_false, if_true, Nat.mul_add_one]
          omega

end Pool

namespace Program

variable {program : Program Shared Call Choice} {measure : Call → Nat}
variable {pool final : Pool Shared Call} {schedule : List (Nat × Choice)}

variable (program measure) in
/-- Every step of a call leaves it fewer steps. -/
def UsesUp : Prop :=
  ∀ {index shared call choice next after},
    program.advance index shared call choice = some (next, after) → measure after < measure call

theorem UsesUp.step (usesUp : program.UsesUp measure) {index : Nat} {choice : Choice}
    {next : Pool Shared Call}
    (stepped : program.machine.step pool (.advance index choice) = some next) :
    next.left measure < pool.left measure := by
  rcases machine_step_cases stepped with
    ⟨call, move, -, -⟩ | ⟨moved, chosen, call, shared, after, move, found, advanced, rfl⟩
  · cases move
  · have exchanged := Pool.left_set measure found shared after
    have fewer := usesUp advanced
    omega

/-- A schedule is no longer than what the calls have left. -/
theorem UsesUp.run (usesUp : program.UsesUp measure)
    (ran : program.machine.run pool (advances schedule) = some final) :
    schedule.length + final.left measure ≤ pool.left measure := by
  induction schedule generalizing pool with
  | nil =>
      obtain rfl := Option.some.inj ran
      simp
  | cons step rest inductionHypothesis =>
      obtain ⟨next, stepped, later⟩ := program.machine.run_cons_eq_some.mp ran
      have fewer := usesUp.step stepped
      have bounded := inductionHypothesis later
      simp only [List.length_cons]
      omega

/-- A call takes no more steps of a schedule than it has left. -/
theorem UsesUp.run_at (usesUp : program.UsesUp measure) {index : Nat} {call : Call}
    (found : pool.calls[index]? = some call)
    (ran : program.machine.run pool (advances schedule) = some final) :
    (schedule.map Prod.fst).count index ≤ measure call := by
  induction schedule generalizing pool call with
  | nil => exact Nat.zero_le _
  | cons step rest inductionHypothesis =>
      obtain ⟨next, stepped, later⟩ := program.machine.run_cons_eq_some.mp ran
      rcases machine_step_cases stepped with
        ⟨spawned, move, -, -⟩ | ⟨moved, choice, present, shared, after, move, here, advanced, rfl⟩
      · cases move
      · obtain ⟨rfl, rfl⟩ := Move.advance.inj move
        rw [List.map_cons, List.count_cons]
        by_cases same : step.1 = index
        · -- The step is one of its own.
          subst same
          obtain rfl := Option.some.inj (here.symm.trans found)
          have fewer := usesUp advanced
          have moved := List.getElem?_set_self (a := after) (List.getElem?_eq_some_iff.mp here).1
          have bounded := inductionHypothesis moved later
          simp only [beq_self_eq_true, if_true]
          omega
        · have bounded := inductionHypothesis ((List.getElem?_set_ne same).trans found) later
          simpa [same] using bounded

end Program

namespace LockView

variable {view : LockView Shared Call} {program : Program Shared Call Choice}
variable {returned : Call → Bool} {measure : Call → Nat} {pool : Pool Shared Call}

variable (view program returned) in
/-- No call waits for anything but the lock, and its holder for nothing. -/
structure Live : Prop where
  free : ∀ (index) {shared call}, view.lock shared = none → returned call = false →
    ∃ choice, (program.advance index shared call choice).isSome
  held : ∀ (index shared) {call}, view.holds call = true →
    ∃ choice, (program.advance index shared call choice).isSome

theorem Live.enabled (live : view.Live program returned) (exclusive : view.Exclusive pool)
    {call : Call} (member : call ∈ pool.calls) (unreturned : returned call = false) :
    ∃ index choice next, program.machine.step pool (.advance index choice) = some next := by
  have enabled : ∀ {index present choice}, pool.calls[index]? = some present →
      (program.advance index pool.shared present choice).isSome →
      ∃ next, program.machine.step pool (.advance index choice) = some next := by
    intro index present choice found advances
    obtain ⟨result, advanced⟩ := Option.isSome_iff_exists.mp advances
    exact ⟨⟨result.1, pool.calls.set index result.2⟩, by simp [Program.machine, found, advanced]⟩
  cases locked : view.lock pool.shared with
  | none =>
      obtain ⟨index, found⟩ := List.getElem?_of_mem member
      obtain ⟨choice, advances⟩ := live.free index locked unreturned
      exact ⟨index, choice, enabled found advances⟩
  | some holder =>
      -- The call may have to wait, but the holder can move.
      have found := List.getElem?_eq_getElem (exclusive.holder locked)
      have holds := (exclusive.holds_iff found).mpr locked
      obtain ⟨choice, advances⟩ := live.held holder pool.shared holds
      exact ⟨holder, choice, enabled found advances⟩

/-- Some schedule takes every call to its return. -/
theorem Live.completes (live : view.Live program returned) (obeys : view.Obeys program)
    (usesUp : program.UsesUp measure) (exclusive : view.Exclusive pool) :
    ∃ schedule final, program.machine.run pool (advances schedule) = some final ∧
      ∀ call ∈ final.calls, returned call = true := by
  induction size : pool.left measure using Nat.strong_induction_on generalizing pool with
  | _ size inductionHypothesis =>
      by_cases done : ∀ call ∈ pool.calls, returned call = true
      · exact ⟨[], pool, rfl, done⟩
      · obtain ⟨call, member, unreturned⟩ : ∃ call ∈ pool.calls, returned call = false := by
          simpa using done
        obtain ⟨index, choice, next, stepped⟩ := live.enabled exclusive member unreturned
        obtain ⟨schedule, final, ran, complete⟩ := inductionHypothesis (next.left measure)
          (size ▸ usesUp.step stepped) (obeys.keeps_exclusive trivial exclusive stepped) rfl
        exact ⟨(index, choice) :: schedule, final,
          program.machine.run_cons_eq_some.mpr ⟨next, stepped, ran⟩, complete⟩

end LockView

end Aegis.Foundation
