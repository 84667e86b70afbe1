import Aegis.Concurrent.Lists
import Aegis.Foundation.Nodes

/-!
Owns the memory of the three policy lists under concurrent adds, dels and exits,
where `aegis_file_exit`, `aegis_process_exit` and `aegis_audit_exit` free all
entries of their list under its lock. The default entries come in by ordinary
calls, so the lists start empty.

No entry is lost or freed twice. Only an entry whose add is still under way can
outlive an exit.

Does not own: the log line of an add, which reads its entry after the lock.
-/

namespace Aegis.Concurrent

open Aegis.Foundation
open Aegis.Policy

/-- What holds of the memory of a list. -/
structure KeepsMemory {Arg Key Payload Entry : Type} (spec : CallSpec Arg Key Payload Entry)
    (pool : NodePool Arg Key Entry) : Prop where
  /-- What is allocated is linked, or held by an add that will link it. -/
  owned : pool.shared.memory.entries.Perm
    (pool.shared.linked ++ pool.calls.filterMap ListCall.held)
  distinct : (pool.shared.memory.entries.map Prod.fst).Nodup
  counted : pool.shared.count = pool.shared.linked.length
  /-- No call stops at an entry that is freed already. -/
  advances : ∀ (index : Nat) (call : NodeCall Arg Key Entry) (payload : Option Payload),
    pool.calls[index]? = some call → call.isReturned = false →
      ∃ next, spec.nodeMachine.step pool (.call (.advance index payload)) = some next
  exits : ∃ next, spec.nodeMachine.step pool .exit = some next ∧
    next.shared.memory.entries.Perm (pool.calls.filterMap ListCall.held)
  quiet : (∀ call ∈ pool.calls, call.isReturned = true) →
    pool.shared.memory.entries.Perm pool.shared.linked
  /-- Without the memory, this is the list with its calls. -/
  refines : spec.registryMachine.Reachable (Pool.start Registry.empty) (CallSpec.forgetPool pool)

theorem keepsMemory_of_reachable {Arg Key Payload Entry : Type}
    {spec : CallSpec Arg Key Payload Entry} {pool : NodePool Arg Key Entry}
    (reached : spec.nodeMachine.Reachable (Pool.start Nodes.empty) pool) :
    KeepsMemory spec pool := by
  have accounted : CallSpec.Accounted pool :=
    Machine.Keeps.reachable CallSpec.keeps_accounted CallSpec.accounted_start reached
  obtain ⟨moves, ran⟩ := reached
  exact
    { owned := accounted.owned
      distinct := accounted.valid.distinct
      counted := accounted.counted
      advances := fun _ _ payload found running => accounted.advances found running payload
      exits := accounted.exits
      quiet := accounted.owned_of_returned
      refines := ⟨moves.map CallSpec.forgetMove, CallSpec.forget_run ran⟩ }

/-- In every interleaving of adds, dels and exits, each of the three lists keeps
its memory. -/
theorem lists_keep_memory
    (files : NodePool (Option PathKey) PathKey AegisProtectedFile)
    (procs : NodePool (Option CommKey × Int) (CommKey × Int) AegisProtectedProc)
    (syscalls : NodePool Int Int AegisBlockedSyscall)
    (filesReached : fileSpec.nodeMachine.Reachable (Pool.start Nodes.empty) files)
    (procsReached : procSpec.nodeMachine.Reachable (Pool.start Nodes.empty) procs)
    (syscallsReached : syscallSpec.nodeMachine.Reachable (Pool.start Nodes.empty) syscalls) :
    KeepsMemory fileSpec files ∧ KeepsMemory procSpec procs ∧ KeepsMemory syscallSpec syscalls :=
  ⟨keepsMemory_of_reachable filesReached, keepsMemory_of_reachable procsReached,
    keepsMemory_of_reachable syscallsReached⟩

/-- An exit comes after one add has linked its entry and before another does. -/
def exitBetween : List (NodeMove Int Int Unit AegisBlockedSyscall) :=
  [.call (.spawn (.add 175)), .call (.spawn (.add 176))] ++
    List.replicate 3 (.call (.advance 0 (some ()))) ++
    List.replicate 2 (.call (.advance 1 (some ()))) ++ [.exit]

theorem lists_keep_memory_exitBetween :
    ∃ syscalls, syscallSpec.nodeMachine.run (Pool.start Nodes.empty) exitBetween = some syscalls ∧
      syscalls.shared.linked = [] ∧ syscalls.shared.memory.entries = [(1, ⟨176⟩)] ∧
      KeepsMemory syscallSpec syscalls := by
  refine ⟨_, rfl, rfl, rfl, ?_⟩
  have kept := lists_keep_memory (Pool.start Nodes.empty) (Pool.start Nodes.empty) _
    (.refl _ _) (.refl _ _) ⟨exitBetween, rfl⟩
  exact kept.2.2

end Aegis.Concurrent
