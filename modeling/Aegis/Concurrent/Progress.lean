import Aegis.Foundation.Progress
import Aegis.Concurrent.FastPath

/-!
Owns completion of the calls on the protected file list: no interleaving of
adds, dels and hooks deadlocks, and every call returns within a number of its
own steps. Once all calls have returned the lock is free and the count is the
length of the list.

Does not own: the time a call spins for the lock, or what the calls return.
-/

namespace Aegis.Concurrent

open Aegis.Foundation
open Aegis.Kernel
open Aegis.Policy

def FileTask.returned : FileTask → Bool
  | .addReturned _ _ => true
  | .delReturned _ _ => true
  | .hookReturned _ _ _ _ => true
  | _ => false

/-- The most steps that a call still takes. -/
def FileTask.left : FileTask → Nat
  | .add _ => 6
  | .addAdmitted _ => 5
  | .addFilled _ _ => 4
  | .addHolding _ _ => 3
  | .addLinked _ _ => 2
  | .addCounted _ _ => 1
  | .addReturned _ _ => 0
  | .del _ => 4
  | .delHolding _ => 3
  | .delUnlinked _ => 2
  | .delCounted _ => 1
  | .delMissed _ => 1
  | .delReturned _ _ => 0
  | .hook _ _ => 4
  | .hookActive _ _ => 3
  | .hookCounted _ _ => 2
  | .hookNamed _ _ => 1
  | .hookReturned _ _ _ _ => 0

theorem FileTask.left_le (call : FileTask) : call.left ≤ if call.returned then 0 else 6 := by
  cases call <;> simp [FileTask.left, FileTask.returned]

theorem filesProgram_usesUp : filesProgram.UsesUp FileTask.left := by
  intro index files call choice next after advanced
  cases FileTask.advance_step advanced <;> simp [FileTask.left]

theorem filesLock_live : filesLock.Live filesProgram FileTask.returned where
  free index files call free unreturned := by
    have unlocked : files.lock = none := free
    refine ⟨supplied, ?_⟩
    cases call with
    | add path => cases path <;> simp [filesProgram, FileTask.advance, unlocked]
    | del path => cases path <;> simp [filesProgram, FileTask.advance, unlocked]
    | addReturned path result => cases unreturned
    | delReturned path result => cases unreturned
    | hookReturned file mask ret exit => cases unreturned
    | delHolding path =>
        simp only [filesProgram, FileTask.advance]
        split <;> rfl
    | hook file mask =>
        simp only [filesProgram, FileTask.advance]
        split <;> rfl
    | hookActive file mask =>
        simp only [filesProgram, FileTask.advance]
        split <;> rfl
    | _ => simp [filesProgram, FileTask.advance, supplied, unlocked]
  held index files call holds := by
    refine ⟨supplied, ?_⟩
    cases call with
    | delHolding path =>
        simp only [filesProgram, FileTask.advance]
        split <;> rfl
    | addHolding path file => rfl
    | addLinked path file => rfl
    | addCounted path file => rfl
    | delUnlinked path => rfl
    | delCounted path => rfl
    | delMissed path => rfl
    | _ => cases holds

theorem FileTask.outside_of_returned {call : FileTask} (returned : call.returned = true) :
    filesLock.holds call = false := by
  cases call <;> first | rfl | cases returned

/-- When all calls have returned nobody holds the lock. -/
theorem Accounted.settled_of_returned {pool : FilesPool} (accounted : Accounted pool)
    (returned : ∀ call ∈ pool.calls, call.returned = true) :
    pool.shared.lock = none ∧ pool.shared.count = pool.shared.entries.length := by
  have free : pool.shared.lock = none := by
    cases locked : pool.shared.lock with
    | none => rfl
    | some holder =>
        have found := List.getElem?_eq_getElem (accounted.exclusive.holder locked)
        have holds := (accounted.exclusive.holds_iff found).mpr locked
        have outside := FileTask.outside_of_returned (returned _ (List.mem_of_getElem? found))
        exact absurd (holds.symm.trans outside) Bool.noConfusion
  exact ⟨free, accounted.free free⟩

/-- From every reachable state, a schedule of the calls made so far takes at
most six steps of each call that has not returned, and no others; where no call
can move all calls have returned, the lock is free and the count is the length
of the list; and some schedule leads there. -/
theorem fileCalls_complete (pool : FilesPool)
    (reached : filesProgram.machine.Reachable FilesPool.boot pool) :
    (∀ (schedule : List (Nat × StepChoice)) (final : FilesPool),
      filesProgram.machine.run pool (advances schedule) = some final →
        (∀ index call, pool.calls[index]? = some call →
          (schedule.map Prod.fst).count index ≤ if call.returned then 0 else 6) ∧
        schedule.length ≤ 6 * pool.calls.countP fun call => !call.returned) ∧
    ((∀ index choice, filesProgram.machine.step pool (.advance index choice) = none) →
      (∀ call ∈ pool.calls, call.returned = true) ∧ pool.shared.lock = none ∧
        pool.shared.count = pool.shared.entries.length) ∧
    (∃ (schedule : List (Nat × StepChoice)) (final : FilesPool),
      filesProgram.machine.run pool (advances schedule) = some final ∧
        (∀ call ∈ final.calls, call.returned = true) ∧ final.shared.lock = none ∧
        final.shared.count = final.shared.entries.length) := by
  have accounted := keeps_accounted.reachable accounted_boot reached
  refine ⟨fun schedule final ran => ?_, fun stuck => ?_, ?_⟩
  · refine ⟨fun index call found => ?_, ?_⟩
    · exact (filesProgram_usesUp.run_at found ran).trans call.left_le
    · have bounded := filesProgram_usesUp.run ran
      have small := Pool.left_le FileTask.left_le pool
      omega
  · have done : ∀ call ∈ pool.calls, call.returned = true := by
      intro call member
      by_contra unreturned
      obtain ⟨index, choice, next, stepped⟩ :=
        filesLock_live.enabled accounted.exclusive member (by simpa using unreturned)
      rw [stuck index choice] at stepped
      cases stepped
    exact ⟨done, accounted.settled_of_returned done⟩
  · obtain ⟨schedule, final, ran, done⟩ :=
      filesLock_live.completes filesLock_obeys filesProgram_usesUp accounted.exclusive
    have after := keeps_accounted.run accounted ran
    exact ⟨schedule, final, ran, done, after.settled_of_returned done⟩

/-- An add that has taken the lock, and a hook that waits for it. -/
def shadowContended : List (Move FileTask StepChoice) :=
  [.spawn (.add (some shadowKey)), .advance 0 supplied, .advance 0 supplied, .advance 0 supplied,
    .advance 0 supplied, .advance 0 supplied, .spawn (.hook ⟨shadowKey.val, fmodeWrite⟩ mayWrite),
    .advance 1 supplied, .advance 1 supplied, .advance 1 supplied]

theorem fileCalls_complete_contended :
    ∃ pool, filesProgram.machine.run FilesPool.boot shadowContended = some pool ∧
      filesProgram.machine.step pool (.advance 1 supplied) = none ∧
      (∀ schedule final, filesProgram.machine.run pool (advances schedule) = some final →
        schedule.length ≤ 12) ∧
      ∃ schedule final, filesProgram.machine.run pool (advances schedule) = some final ∧
        (∀ call ∈ final.calls, call.returned = true) ∧ final.shared.lock = none ∧
        final.shared.count = final.shared.entries.length := by
  refine ⟨_, rfl, rfl, fun schedule final ran => ?_,
    (fileCalls_complete _ ⟨shadowContended, rfl⟩).2.2⟩
  exact ((fileCalls_complete _ ⟨shadowContended, rfl⟩).1 schedule final ran).2

end Aegis.Concurrent
