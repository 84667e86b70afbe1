import Aegis.Foundation.Pool

/-!
Owns mutual exclusion in a pool of calls. A program obeys a lock when a step
leaves the lock and the moving call's hold of it alone, takes the free lock, or
releases it from the call that holds it. Then in every run the holder recorded
in the shared state is the one call that is inside a locked section.

Does not own: what a lock protects, fairness, or nested locks.
-/

namespace Aegis.Foundation

universe u v w

/-- Where a shared state records the holder of a lock, and which local states
are inside a locked section. -/
structure LockView (Shared : Type u) (Call : Type v) where
  lock : Shared → Option Nat
  holds : Call → Bool

namespace LockView

variable {Shared : Type u} {Call : Type v} {Choice : Type w}
variable (view : LockView Shared Call)

structure Obeys (program : Program Shared Call Choice) : Prop where
  entry : ∀ call, program.entry call = true → view.holds call = false
  advance : ∀ {index shared call choice next after},
    program.advance index shared call choice = some (next, after) →
      (view.lock next = view.lock shared ∧ view.holds after = view.holds call) ∨
      (view.lock shared = none ∧ view.lock next = some index ∧ view.holds call = false ∧
        view.holds after = true) ∨
      (view.lock next = none ∧ view.holds call = true ∧ view.holds after = false)

/-- Exactly the recorded holder is inside a locked section. -/
structure Exclusive (pool : Pool Shared Call) : Prop where
  holds_iff : ∀ {index call}, pool.calls[index]? = some call →
    (view.holds call = true ↔ view.lock pool.shared = some index)
  holder : ∀ {index}, view.lock pool.shared = some index → index < pool.calls.length

variable {view}

theorem exclusive_start {shared : Shared} (free : view.lock shared = none) :
    view.Exclusive (Pool.start shared : Pool Shared Call) where
  holds_iff found := by simp [Pool.start] at found
  holder locked := by simp [Pool.start, free] at locked

theorem Obeys.keeps_exclusive {program : Program Shared Call Choice}
    (obeys : view.Obeys program) : program.machine.Keeps view.Exclusive := by
  intro pool move next _ exclusive stepped
  rcases Program.machine_step_cases stepped with
    ⟨call, rfl, enters, rfl⟩ | ⟨index, choice, call, shared, after, rfl, found, advanced, rfl⟩
  · refine ⟨fun {other present} lookup => ?_, fun {other} locked => ?_⟩
    · rcases Pool.getElem?_concat_cases lookup with ⟨rfl, rfl⟩ | earlier
      · -- The new call holds nothing, and its index is beyond any holder's.
        refine iff_of_false (by simp [obeys.entry present enters]) fun locked => ?_
        exact Nat.lt_irrefl _ (exclusive.holder locked)
      · exact exclusive.holds_iff earlier
    · have below := exclusive.holder locked
      simp only [List.length_append, List.length_singleton]
      omega
  · have inside : index < pool.calls.length := (List.getElem?_eq_some_iff.mp found).1
    have mover := exclusive.holds_iff found
    rcases obeys.advance advanced with
      ⟨sameLock, sameHold⟩ | ⟨free, taken, outside, within⟩ | ⟨released, within, outside⟩
    · refine ⟨fun {other present} lookup => ?_, fun {other} locked => ?_⟩
      · rcases Pool.getElem?_set_cases lookup with ⟨rfl, rfl⟩ | ⟨-, earlier⟩
        · rw [sameHold, sameLock]
          exact mover
        · rw [sameLock]
          exact exclusive.holds_iff earlier
      · rw [List.length_set]
        exact exclusive.holder (sameLock ▸ locked)
    · refine ⟨fun {other present} lookup => ?_, fun {other} locked => ?_⟩
      · rcases Pool.getElem?_set_cases lookup with ⟨rfl, rfl⟩ | ⟨different, earlier⟩
        · exact iff_of_true within taken
        · -- Nobody held the free lock.
          have idle := exclusive.holds_iff earlier
          rw [free] at idle
          refine iff_of_false (fun holds => by simpa using idle.mp holds) fun locked => ?_
          exact different (Option.some.inj (locked.symm.trans taken))
      · rw [List.length_set]
        rw [Option.some.inj (locked.symm.trans taken)]
        exact inside
    · refine ⟨fun {other present} lookup => ?_, fun {other} locked => ?_⟩
      · rcases Pool.getElem?_set_cases lookup with ⟨rfl, rfl⟩ | ⟨different, earlier⟩
        · exact iff_of_false (by simp [outside]) (by simp [released])
        · have idle := exclusive.holds_iff earlier
          rw [mover.mp within] at idle
          refine iff_of_false (fun holds => ?_) (by simp [released])
          exact different (Option.some.inj (idle.mp holds)).symm
      · rw [released] at locked
        cases locked

/-- Two calls inside a locked section are one call. -/
theorem Exclusive.unique {pool : Pool Shared Call} (exclusive : view.Exclusive pool)
    {left right : Nat} {leftCall rightCall : Call} (leftFound : pool.calls[left]? = some leftCall)
    (rightFound : pool.calls[right]? = some rightCall) (leftHolds : view.holds leftCall = true)
    (rightHolds : view.holds rightCall = true) : left = right := by
  have leftLock := (exclusive.holds_iff leftFound).mp leftHolds
  have rightLock := (exclusive.holds_iff rightFound).mp rightHolds
  exact Option.some.inj (leftLock.symm.trans rightLock)

end LockView

end Aegis.Foundation
