import Mathlib.Algebra.Order.Group.Multiset
import Aegis.Foundation.CheckInsert

/-!
Owns the history of a registry under concurrent adds and removals: which calls
contributed a key or took one away, and in which order a run linked its
entries. The listed keys are the initial keys with exactly these contributions,
and the listed entries stand in the order in which they were linked.

Does not own: any concrete list, or the order of removals.
-/

namespace Aegis.Foundation

universe u

namespace CallSpec

variable {Arg Key Payload Entry : Type u} (spec : CallSpec Arg Key Payload Entry)

/-- The key that a call has added. A call that returned an error added none. -/
def addedKey : ListCall Arg Key Entry → Option Key
  | .addReturned arg .added => spec.addKey arg
  | _ => none

/-- The key that a call has taken away. -/
def removedKey : ListCall Arg Key Entry → Option Key
  | .delReturned arg .removed => spec.delKey arg
  | _ => none

def listedKeys (registry : Registry Entry) : Multiset Key :=
  (registry.entries.map spec.key : List Key)

def addedKeys (pool : CallPool Arg Key Entry) : Multiset Key :=
  (pool.calls.filterMap spec.addedKey : List Key)

def removedKeys (pool : CallPool Arg Key Entry) : Multiset Key :=
  (pool.calls.filterMap spec.removedKey : List Key)

/-- The entry that a step links. -/
def linkedBy (pool : CallPool Arg Key Entry) :
    Move (ListCall Arg Key Entry) (Option Payload) → Option Entry
  | .spawn _ => none
  | .advance index _ =>
      match pool.calls[index]? with
      | some (.filled _ entry) => some entry
      | _ => none

/-- The entries that a run links, in the order of the steps that link them. -/
def insertions (pool : CallPool Arg Key Entry) :
    List (Move (ListCall Arg Key Entry) (Option Payload)) → List Entry
  | [] => []
  | move :: rest =>
      match spec.program.machine.step pool move with
      | none => []
      | some next => (linkedBy pool move).toList ++ insertions next rest

/-- An add that has passed its check carries the key of its argument. -/
def Keyed : ListCall Arg Key Entry → Prop
  | .admitted arg key => spec.addKey arg = some key
  | .filled arg entry => spec.addKey arg = some (spec.key entry)
  | _ => True

variable {spec}

/-! ### One step -/

section Step

variable {pool next : CallPool Arg Key Entry}
variable {move : Move (ListCall Arg Key Entry) (Option Payload)}

theorem addedKey_of_ne {arg : Arg} {result : AddResult} (failed : result ≠ .added) :
    spec.addedKey (.addReturned arg result) = none := by
  cases result <;> first | rfl | exact absurd rfl failed

theorem removedKey_of_ne {arg : Arg} {result : DelResult} (failed : result ≠ .removed) :
    spec.removedKey (.delReturned arg result) = none := by
  cases result <;> first | rfl | exact absurd rfl failed

theorem keeps_keyed :
    spec.program.machine.Keeps fun pool =>
      ∀ (index : Nat) call, pool.calls[index]? = some call → spec.Keyed call := by
  refine Program.keepsUnder_of_own (fun _ _ call => spec.Keyed call) ?_ ?_
  · intro _ _ call enters
    cases call with
    | admitted arg key => cases enters
    | filled arg entry => cases enters
    | _ => trivial
  · intro pool index choice call shared after _ _ keyed advanced
    refine ⟨?_, fun _ _ _ _ unchanged => unchanged⟩
    rcases advance_cases advanced with
      ⟨arg, result, rfl, -, rfl, rfl⟩ | ⟨arg, key, rfl, wanted, -, -, rfl, rfl⟩ |
        ⟨arg, key, rfl, rfl, ended⟩ | ⟨arg, entry, rfl, rfl, rfl⟩ |
        ⟨arg, result, rfl, -, rfl, rfl⟩ | ⟨arg, key, rfl, -, -, rfl, rfl⟩
    · trivial
    · exact wanted
    · rcases ended with rfl | ⟨entry, rfl, rfl⟩
      · trivial
      · exact keyed
    · trivial
    · trivial
    · trivial

theorem listedKeys_linkTail (registry : Registry Entry) (entry : Entry) :
    spec.listedKeys (registry.linkTail entry) = spec.listedKeys registry + {spec.key entry} := by
  rw [listedKeys, Registry.linkTail_entries, List.map_append, ← Multiset.coe_add]
  rfl

theorem listedKeys_unlinkFirst {registry : Registry Entry} {key : Key}
    (present : registry.listed (spec.hit key) = true) :
    spec.listedKeys registry = spec.listedKeys (registry.unlinkFirst (spec.hit key)) + {key} := by
  obtain ⟨before, entry, rest, split, hits, -, erased⟩ := Registry.exists_unlinkFirst present
  have isKey : spec.key entry = key := (spec.hitsKey key entry).mp hits
  rw [listedKeys, listedKeys, erased, split, List.map_append, List.map_append, List.map_cons, isKey,
    ← Multiset.coe_add, ← Multiset.coe_add, ← Multiset.cons_coe, Multiset.add_cons,
    ← Multiset.singleton_add, add_comm]

/-- The contributions after a step of one call, in terms of the others'. -/
theorem exists_contributions_rest (spec : CallSpec Arg Key Payload Entry) {index : Nat}
    {call : ListCall Arg Key Entry} (found : pool.calls[index]? = some call) :
    ∃ added removed : Multiset Key,
      spec.addedKeys pool = ((spec.addedKey call).toList : List Key) + added ∧
      spec.removedKeys pool = ((spec.removedKey call).toList : List Key) + removed ∧
      ∀ registry after,
        spec.addedKeys ⟨registry, pool.calls.set index after⟩ =
          ((spec.addedKey after).toList : List Key) + added ∧
        spec.removedKeys ⟨registry, pool.calls.set index after⟩ =
          ((spec.removedKey after).toList : List Key) + removed := by
  obtain ⟨added, addedBefore, addedAfter⟩ := Pool.exists_filterMap_rest spec.addedKey found
  obtain ⟨removed, removedBefore, removedAfter⟩ := Pool.exists_filterMap_rest spec.removedKey found
  refine ⟨added, removed, ?_, ?_, fun registry after => ⟨?_, ?_⟩⟩
  · exact Multiset.coe_eq_coe.mpr addedBefore
  · exact Multiset.coe_eq_coe.mpr removedBefore
  · exact Multiset.coe_eq_coe.mpr (addedAfter after)
  · exact Multiset.coe_eq_coe.mpr (removedAfter after)

/-- What a step adds to the history: the key and the entry it links, and the
key it takes away. -/
theorem step_history
    (keyed : ∀ (index : Nat) call, pool.calls[index]? = some call → spec.Keyed call)
    (stepped : spec.program.machine.step pool move = some next) :
    spec.addedKeys next =
        spec.addedKeys pool + ((linkedBy pool move).toList.map spec.key : List Key) ∧
      spec.listedKeys next.shared + spec.removedKeys next =
        spec.listedKeys pool.shared + spec.removedKeys pool +
          ((linkedBy pool move).toList.map spec.key : List Key) ∧
      next.shared.entries.Sublist (pool.shared.entries ++ (linkedBy pool move).toList) := by
  rcases Program.machine_step_cases stepped with
    ⟨call, rfl, enters, rfl⟩ | ⟨index, choice, call, shared, after, rfl, found, advanced, rfl⟩
  · have silent : spec.addedKey call = none ∧ spec.removedKey call = none := by
      cases call with
      | addReturned arg result => cases enters
      | delReturned arg result => cases enters
      | _ => exact ⟨rfl, rfl⟩
    simp [addedKeys, removedKeys, linkedBy, silent]
  · obtain ⟨added, removed, addedBefore, removedBefore, later⟩ :=
      exists_contributions_rest spec found
    obtain ⟨addedAfter, removedAfter⟩ := later shared after
    rw [addedAfter, removedAfter, addedBefore, removedBefore]
    rcases advance_cases advanced with
      ⟨arg, result, rfl, failed, rfl, rfl⟩ | ⟨arg, key, rfl, -, -, -, rfl, rfl⟩ |
        ⟨arg, key, rfl, rfl, ended⟩ | ⟨arg, entry, rfl, rfl, rfl⟩ |
        ⟨arg, result, rfl, failed, rfl, rfl⟩ | ⟨arg, key, rfl, wanted, present, rfl, rfl⟩
    · rw [addedKey_of_ne failed]
      simp [linkedBy, found, addedKey, removedKey]
    · simp [linkedBy, found, addedKey, removedKey]
    · rcases ended with rfl | ⟨entry, -, rfl⟩
      · simp [linkedBy, found, addedKey, removedKey]
      · simp [linkedBy, found, addedKey, removedKey]
    · -- The key moves from the call to the list.
      have wanted : spec.addKey arg = some (spec.key entry) := keyed index _ found
      have links : linkedBy pool (.advance index choice) = some entry := by
        simp [linkedBy, found]
      rw [links, listedKeys_linkTail]
      refine ⟨?_, ?_, List.Sublist.refl _⟩
      · simp [addedKey, wanted, add_comm]
      · simp [removedKey, add_right_comm]
    · rw [removedKey_of_ne failed]
      simp [linkedBy, found, addedKey, removedKey]
    · -- The key moves from the list to the call.
      have links : linkedBy pool (.advance index choice) = none := by
        simp [linkedBy, found]
      rw [links, listedKeys_unlinkFirst present]
      refine ⟨by simp [addedKey], ?_, ?_⟩
      · simp only [removedKey, wanted, Option.toList_some, Multiset.coe_singleton,
          Option.toList_none, List.map_nil, Multiset.coe_nil, zero_add, add_zero, add_assoc]
      · simpa using List.eraseP_sublist

/-- The step of a call changes the registry only if the call returns success
with it. -/
theorem returned_of_shared_ne {index : Nat} {choice : Option Payload}
    (stepped : spec.program.machine.step pool (.advance index choice) = some next)
    (changed : next.shared ≠ pool.shared) :
    ∃ arg : Arg, next.calls[index]? = some (.addReturned arg .added) ∨
      next.calls[index]? = some (.delReturned arg .removed) := by
  rcases Program.machine_step_cases stepped with
    ⟨call, spawned, -, -⟩ | ⟨moved, _, call, shared, after, advance, found, advanced, rfl⟩
  · cases spawned
  · cases advance
    have stored : (pool.calls.set index after)[index]? = some after := by
      rw [List.getElem?_set_self', found]
      rfl
    rcases advance_cases advanced with
      ⟨arg, result, -, -, rfl, -⟩ | ⟨arg, key, -, -, -, -, rfl, -⟩ | ⟨arg, key, -, rfl, -⟩ |
        ⟨arg, entry, -, -, rfl⟩ | ⟨arg, result, -, -, rfl, -⟩ | ⟨arg, key, -, -, -, -, rfl⟩
    · exact absurd rfl changed
    · exact absurd rfl changed
    · exact absurd rfl changed
    · exact ⟨arg, Or.inl stored⟩
    · exact absurd rfl changed
    · exact ⟨arg, Or.inr stored⟩

end Step

/-! ### Whole runs -/

/-- The history of a run from `start`: the listed keys are the initial ones with
those of the successful adds and without those of the successful removals, and
the listed entries stand in the order in which the run linked them. -/
structure UpdatesKept (spec : CallSpec Arg Key Payload Entry) (start : Registry Entry)
    (moves : List (Move (ListCall Arg Key Entry) (Option Payload)))
    (final : CallPool Arg Key Entry) : Prop where
  keys : spec.listedKeys final.shared + spec.removedKeys final =
    spec.listedKeys start + spec.addedKeys final
  order : final.shared.entries.Sublist
    (start.entries ++ spec.insertions (Pool.start start) moves)
  inserted : ((spec.insertions (Pool.start start) moves).map spec.key : List Key) =
    spec.addedKeys final
  counted : final.shared.Counted
  silent : ∀ index choice next,
    spec.program.machine.step final (.advance index choice) = some next →
    next.shared ≠ final.shared →
    ∃ arg : Arg, next.calls[index]? = some (.addReturned arg .added) ∨
      next.calls[index]? = some (.delReturned arg .removed)

theorem run_history {pool final : CallPool Arg Key Entry}
    {moves : List (Move (ListCall Arg Key Entry) (Option Payload))}
    (keyed : ∀ (index : Nat) call, pool.calls[index]? = some call → spec.Keyed call)
    (ran : spec.program.machine.run pool moves = some final) :
    spec.addedKeys final =
        spec.addedKeys pool + ((spec.insertions pool moves).map spec.key : List Key) ∧
      spec.listedKeys final.shared + spec.removedKeys final =
        spec.listedKeys pool.shared + spec.removedKeys pool +
          ((spec.insertions pool moves).map spec.key : List Key) ∧
      final.shared.entries.Sublist (pool.shared.entries ++ spec.insertions pool moves) := by
  induction moves generalizing pool with
  | nil =>
      obtain rfl := Option.some.inj ran
      simp [insertions]
  | cons move rest inductionHypothesis =>
      obtain ⟨next, stepped, later⟩ := Machine.run_cons_eq_some _ |>.mp ran
      obtain ⟨added, listed, order⟩ := step_history keyed stepped
      obtain ⟨addedLater, listedLater, orderLater⟩ :=
        inductionHypothesis (keeps_keyed trivial keyed stepped) later
      have split : spec.insertions pool (move :: rest) =
          (linkedBy pool move).toList ++ spec.insertions next rest := by
        simp [insertions, stepped]
      rw [split, List.map_append, ← Multiset.coe_add]
      refine ⟨?_, ?_, ?_⟩
      · rw [addedLater, added, add_assoc]
      · rw [listedLater, listed, add_assoc]
      · rw [← List.append_assoc]
        exact orderLater.trans (order.append_right _)

theorem updatesKept {start : Registry Entry} (counted : start.Counted)
    {moves : List (Move (ListCall Arg Key Entry) (Option Payload))}
    {final : CallPool Arg Key Entry}
    (ran : spec.program.machine.run (Pool.start start) moves = some final) :
    spec.UpdatesKept start moves final := by
  have keyed : ∀ (index : Nat) call,
      (Pool.start start : CallPool Arg Key Entry).calls[index]? = some call → spec.Keyed call := by
    intro index call found
    simp [Pool.start] at found
  obtain ⟨added, listed, order⟩ := run_history keyed ran
  have nothing : spec.addedKeys (Pool.start start) = 0 ∧ spec.removedKeys (Pool.start start) = 0 :=
    ⟨rfl, rfl⟩
  rw [nothing.1, zero_add] at added
  rw [nothing.2, add_zero] at listed
  exact
    { keys := by
        rw [listed, added]
        rfl
      order := order
      inserted := added.symm
      counted := keeps_counted.run counted ran
      silent := fun index choice next stepped changed => returned_of_shared_ne stepped changed }

end CallSpec

end Aegis.Foundation
