import Mathlib.Data.List.Nodup
import Aegis.Foundation.CheckInsert

/-!
Owns how far adds that check first and insert later can fill a bounded
registry. Each add in flight may have been admitted by a check that saw the
last free place, so with at most `k` of them the length stays below the limit
plus `k`, and some schedule gets there: fill all places but one, let `k` adds
check, then let all of them insert.

Does not own: any concrete list, or a limit on the number of callers.
-/

namespace Aegis.Foundation

universe u

namespace CallSpec

variable {Arg Key Payload Entry : Type u} (spec : CallSpec Arg Key Payload Entry)

/-- The number of adds that have passed their check and not yet linked. -/
def addsInFlight (pool : CallPool Arg Key Entry) : Nat := (spec.inFlightKeys pool).length

/-- An add that was called and has not returned. -/
def addOpen : ListCall Arg Key Entry → Bool
  | .add _ => true
  | .admitted _ _ => true
  | .filled _ _ => true
  | .addReturned _ _ => false
  | .del _ => false
  | .delReturned _ _ => false

/-- The number of adds that were called and have not returned. -/
def openAdds (pool : CallPool Arg Key Entry) : Nat := pool.calls.countP addOpen

theorem addsInFlight_le_openAdds (pool : CallPool Arg Key Entry) :
    spec.addsInFlight pool ≤ openAdds pool := by
  unfold addsInFlight inFlightKeys openAdds
  rw [List.length_filterMap_eq_countP]
  apply List.countP_mono_left
  intro call _ inFlight
  cases call <;> first | rfl | simp at inFlight

/-! ### The bound -/

/-- The length and the adds in flight together stay below the limit plus `k`. -/
def Overfill (k : Nat) (pool : CallPool Arg Key Entry) : Prop :=
  pool.shared.Counted ∧
    pool.shared.entries.length + spec.addsInFlight pool ≤ spec.max - 1 + k

variable {spec}

theorem overfill_step {k : Nat} {pool next : CallPool Arg Key Entry}
    {move : Move (ListCall Arg Key Entry) (Option Payload)} (few : spec.addsInFlight next ≤ k)
    (overfill : spec.Overfill k pool) (stepped : spec.program.machine.step pool move = some next) :
    spec.Overfill k next := by
  have counted : next.shared.Counted := keeps_counted trivial overfill.1 stepped
  refine ⟨counted, ?_⟩
  obtain ⟨stored, bound⟩ := overfill
  rcases Program.machine_step_cases stepped with
    ⟨call, rfl, enters, rfl⟩ | ⟨index, choice, call, shared, after, rfl, found, advanced, rfl⟩
  · have idle := spec.inFlightKey_of_isEntry enters
    simpa [addsInFlight, inFlightKeys, idle] using bound
  · obtain ⟨rest, before, later⟩ := exists_inFlight_rest spec found
    have lengthBefore : spec.addsInFlight pool =
        (spec.inFlightKey call).toList.length + rest.length := by
      rw [addsInFlight, before.length_eq, List.length_append]
    have lengthAfter : spec.addsInFlight ⟨shared, pool.calls.set index after⟩ =
        (spec.inFlightKey after).toList.length + rest.length := by
      rw [addsInFlight, (later shared after).length_eq, List.length_append]
    rw [lengthAfter] at few ⊢
    rw [lengthBefore] at bound
    rcases advance_cases advanced with
      ⟨arg, result, rfl, -, rfl, rfl⟩ | ⟨arg, key, rfl, -, room, -, rfl, rfl⟩ |
        ⟨arg, key, rfl, rfl, ended⟩ | ⟨arg, entry, rfl, rfl, rfl⟩ |
        ⟨arg, result, rfl, -, rfl, rfl⟩ | ⟨arg, key, rfl, -, -, rfl, rfl⟩
    · simpa using bound
    · -- The check saw a free place, whatever is in flight.
      unfold Registry.Counted at stored
      simp only [inFlightKey_admitted, Option.toList_some, List.length_singleton] at few ⊢
      omega
    · rcases ended with rfl | ⟨entry, -, rfl⟩
      · simp only [inFlightKey_admitted, inFlightKey_addReturned, Option.toList_some,
          Option.toList_none, List.length_singleton, List.length_nil] at bound ⊢
        omega
      · simpa using bound
    · simp only [inFlightKey_filled, inFlightKey_addReturned, Option.toList_some,
        Option.toList_none, Registry.linkTail_entries, List.length_append, List.length_singleton,
        List.length_nil] at bound ⊢
      omega
    · simpa using bound
    · have shorter := (List.eraseP_sublist (p := spec.hit key) (l := pool.shared.entries)).length_le
      simp only [inFlightKey_del, inFlightKey_delReturned, Option.toList_none, List.length_nil,
        Registry.unlinkFirst_entries] at bound ⊢
      omega

theorem length_le_of_addsInFlight_le {k : Nat} {start : Registry Entry}
    {final : CallPool Arg Key Entry} (counted : start.Counted)
    (room : start.entries.length ≤ spec.max - 1)
    (reached : spec.program.machine.ReachableWithin (fun pool => spec.addsInFlight pool ≤ k)
      (Pool.start start) final) :
    final.shared.entries.length ≤ spec.max - 1 + k := by
  have initially : spec.Overfill k (Pool.start start) :=
    ⟨counted, by simp [Pool.start, addsInFlight, inFlightKeys]; omega⟩
  have bound := reached.invariant
    (fun pool move next few overfill stepped => overfill_step few overfill stepped) initially
  exact Nat.le_trans (Nat.le_add_right _ _) bound.2

/-! ### Schedules that attain it -/

section Schedules

variable {k : Nat} {registry : Registry Entry} {calls : List (ListCall Arg Key Entry)}
variable {arg : Arg} {key : Key}

/-- The states with at most `k` open adds. -/
abbrev FewOpen (k : Nat) (pool : CallPool Arg Key Entry) : Prop := openAdds pool ≤ k

theorem openAdds_concat (call : ListCall Arg Key Entry) :
    openAdds ⟨registry, calls ++ [call]⟩ =
      openAdds ⟨registry, calls⟩ + (if addOpen call then 1 else 0) := by
  simp [openAdds, List.countP_append, List.countP_singleton]

/-- An add whose key is not listed gets as far as filling its entry. -/
theorem reach_filled (payload : Payload) (keyed : spec.addKey arg = some key)
    (room : registry.count < spec.max) (absent : registry.listed (spec.hit key) = false)
    (few : openAdds ⟨registry, calls⟩ + 1 ≤ k) :
    spec.program.machine.ReachableWithin (FewOpen k) ⟨registry, calls⟩
      ⟨registry, calls ++ [.filled arg (spec.make key payload)]⟩ := by
  have within : ∀ call, FewOpen k ⟨registry, calls ++ [call]⟩ := by
    intro call
    rw [FewOpen, openAdds_concat]
    split <;> omega
  have admitted : registry.admission spec.max (spec.hit key) = .admitted :=
    Registry.admission_eq_admitted.mpr ⟨room, absent⟩
  have checked : spec.program.advance calls.length registry (.add arg) none =
      some (registry, .admitted arg key) := by
    simp [program, checkSection, keyed, admitted]
  have filled : spec.program.advance calls.length registry (.admitted arg key) (some payload) =
      some (registry, .filled arg (spec.make key payload)) := rfl
  refine .step (Nat.le_of_succ_le few) _ (Program.machine_step_spawn (.add arg) rfl _ _) ?_
  refine .step (within _) _ (Program.machine_step_between checked) ?_
  refine .step (within _) _ (Program.machine_step_between filled) ?_
  exact .refl (within _)

theorem reach_replicate_filled (payload : Payload) (keyed : spec.addKey arg = some key)
    (room : registry.count < spec.max) (absent : registry.listed (spec.hit key) = false)
    (more : Nat) (few : openAdds ⟨registry, calls⟩ + more ≤ k) :
    spec.program.machine.ReachableWithin (FewOpen k) ⟨registry, calls⟩
      ⟨registry, calls ++ List.replicate more (.filled arg (spec.make key payload))⟩ := by
  induction more generalizing calls with
  | zero =>
      rw [List.replicate_zero, List.append_nil]
      exact .refl few
  | succ more inductionHypothesis =>
      have opened : openAdds ⟨registry, calls ++ [.filled arg (spec.make key payload)]⟩ =
          openAdds ⟨registry, calls⟩ + 1 := by
        rw [openAdds_concat]
        rfl
      have later : spec.program.machine.ReachableWithin (FewOpen k)
          ⟨registry, calls ++ [.filled arg (spec.make key payload)]⟩
          ⟨registry, (calls ++ [.filled arg (spec.make key payload)]) ++
            List.replicate more (.filled arg (spec.make key payload))⟩ :=
        inductionHypothesis (by omega)
      rw [List.append_assoc, List.singleton_append, ← List.replicate_succ] at later
      exact (reach_filled payload keyed room absent (by omega)).trans later

/-- Entries that are filled are linked without any further check. -/
theorem reach_linked (entry : Entry) (more : Nat)
    (few : FewOpen k ⟨registry, calls ++ List.replicate more (.filled arg entry)⟩) :
    ∃ final, spec.program.machine.ReachableWithin (FewOpen k)
        ⟨registry, calls ++ List.replicate more (.filled arg entry)⟩ final ∧
      final.shared.entries.length = registry.entries.length + more := by
  induction more generalizing registry calls with
  | zero => exact ⟨_, .refl few, rfl⟩
  | succ more inductionHypothesis =>
      have linked : spec.program.advance calls.length registry (.filled arg entry) none =
          some (registry.linkTail entry, .addReturned arg .added) := rfl
      have closed : FewOpen k ⟨registry.linkTail entry,
          (calls ++ [.addReturned arg .added]) ++ List.replicate more (.filled arg entry)⟩ := by
        simp only [FewOpen, openAdds, List.replicate_succ, List.countP_append, List.countP_cons,
          List.countP_nil, addOpen] at few ⊢
        simp only [if_true, Bool.false_eq_true, if_false] at few ⊢
        omega
      obtain ⟨final, reached, length⟩ := inductionHypothesis closed
      rw [List.append_assoc, List.singleton_append] at reached
      rw [List.replicate_succ] at few ⊢
      refine ⟨final, .step few _ (Program.machine_step_between linked) reached, ?_⟩
      rw [length, Registry.linkTail_entries, List.length_append, List.length_singleton]
      omega

/-- One add after the other lists all of the given keys. -/
theorem reach_listed (payload : Payload) (argOf : Key → Arg) {keys : List Key}
    (counted : registry.Counted)
    (keyed : ∀ key ∈ keys, spec.addKey (argOf key) = some key)
    (fresh : (registry.entries.map spec.key ++ keys).Nodup)
    (room : registry.entries.length + keys.length ≤ spec.max)
    (idle : openAdds ⟨registry, calls⟩ = 0) (positive : 1 ≤ k) :
    ∃ final, spec.program.machine.ReachableWithin (FewOpen k) ⟨registry, calls⟩ final ∧
      final.shared.Counted ∧
      final.shared.entries.map spec.key = registry.entries.map spec.key ++ keys ∧
      openAdds final = 0 := by
  induction keys generalizing registry calls with
  | nil => exact ⟨_, .refl (by unfold FewOpen; omega), counted, by simp, idle⟩
  | cons key keys inductionHypothesis =>
      have wanted : spec.addKey (argOf key) = some key := keyed key (by simp)
      have absent : registry.listed (spec.hit key) = false := by
        rw [← Bool.not_eq_true, Registry.listed_iff_mem_keys (spec.hitsKey key)]
        intro member
        exact List.disjoint_of_nodup_append fresh member (by simp)
      have below : registry.count < spec.max := by
        rw [List.length_cons] at room
        unfold Registry.Counted at counted
        omega
      have filled : spec.program.machine.ReachableWithin (FewOpen k) ⟨registry, calls⟩
          ⟨registry, calls ++ [.filled (argOf key) (spec.make key payload)]⟩ :=
        reach_filled payload wanted below absent (by omega)
      have linked : spec.program.machine.step
          ⟨registry, calls ++ [.filled (argOf key) (spec.make key payload)]⟩
            (.advance calls.length none) =
          some ⟨registry.linkTail (spec.make key payload),
            calls ++ [.addReturned (argOf key) .added]⟩ :=
        Program.machine_step_between rfl
      have keysAfter : (registry.linkTail (spec.make key payload)).entries.map spec.key =
          registry.entries.map spec.key ++ [key] := by
        simp [spec.key_make]
      have idleAfter : openAdds ⟨registry.linkTail (spec.make key payload),
          calls ++ [.addReturned (argOf key) .added]⟩ = 0 := by
        rw [openAdds_concat]
        exact idle
      have roomAfter : (registry.linkTail (spec.make key payload)).entries.length + keys.length ≤
          spec.max := by
        rw [List.length_cons] at room
        rw [Registry.linkTail_entries, List.length_append, List.length_singleton]
        omega
      obtain ⟨final, reached, countedFinal, keysFinal, idleFinal⟩ :=
        inductionHypothesis (counted.linkTail _) (fun other later => keyed other (by simp [later]))
          (by rw [keysAfter, List.append_assoc]; exact fresh)
          roomAfter idleAfter
      have busy : FewOpen k ⟨registry, calls ++ [.filled (argOf key) (spec.make key payload)]⟩ := by
        rw [FewOpen, openAdds_concat, idle]
        exact positive
      refine ⟨final, filled.trans (.step busy _ linked reached), countedFinal, ?_, idleFinal⟩
      rw [keysFinal, keysAfter, List.append_assoc, List.singleton_append]

/-- With `k` adds open at a time, the registry gets `k` entries past its last
free place but one. All of them may have one key. -/
theorem exists_reach_overfilled (payload : Payload) (argOf : Key → Arg) {keys : List Key}
    (counted : registry.Counted)
    (keyed : ∀ key ∈ keys, spec.addKey (argOf key) = some key)
    (fresh : (registry.entries.map spec.key ++ keys).Nodup)
    (room : registry.entries.length + keys.length = spec.max) (free : keys ≠ [])
    (positive : 1 ≤ k) :
    ∃ final, spec.program.machine.ReachableWithin (FewOpen k) (Pool.start registry) final ∧
      final.shared.entries.length = spec.max - 1 + k := by
  -- The last key is left for the adds that overlap.
  obtain ⟨earlier, last, rfl⟩ : ∃ earlier last, keys = earlier ++ [last] :=
    ⟨keys.dropLast, keys.getLast free, (List.dropLast_append_getLast free).symm⟩
  rw [← List.append_assoc] at fresh
  simp only [List.length_append, List.length_singleton] at room
  obtain ⟨full, listed, countedFull, keysFull, idle⟩ := reach_listed payload argOf counted
    (fun key member => keyed key (by simp [member])) fresh.of_append_left
    (by omega) (show openAdds (Pool.start registry) = 0 from rfl) positive
  have length : full.shared.entries.length + 1 = spec.max := by
    have lengths := congrArg List.length keysFull
    simp only [List.length_map, List.length_append] at lengths
    omega
  have absent : full.shared.listed (spec.hit last) = false := by
    rw [← Bool.not_eq_true, Registry.listed_iff_mem_keys (spec.hitsKey last), keysFull]
    intro member
    exact List.disjoint_of_nodup_append fresh member (by simp)
  have below : full.shared.count < spec.max := by
    unfold Registry.Counted at countedFull
    omega
  have filled : spec.program.machine.ReachableWithin (FewOpen k) full
      ⟨full.shared,
        full.calls ++ List.replicate k (.filled (argOf last) (spec.make last payload))⟩ :=
    reach_replicate_filled payload (keyed last (by simp)) below absent k
      (Nat.le_of_eq (by rw [show openAdds ⟨full.shared, full.calls⟩ = 0 from idle, Nat.zero_add]))
  obtain ⟨final, linked, lengthFinal⟩ := reach_linked _ k filled.holds
  refine ⟨final, (listed.trans filled).trans linked, ?_⟩
  omega

end Schedules

/-! ### Exact capacity -/

/-- With `flight` counting the adds in flight, the length never exceeds the
limit less one plus the most adds in flight, and it gets there. -/
structure ExactCapacity (spec : CallSpec Arg Key Payload Entry)
    (flight : CallPool Arg Key Entry → Nat) (start : Registry Entry) : Prop where
  bounded : ∀ k, 1 ≤ k → ∀ final,
    spec.program.machine.ReachableWithin (fun pool => flight pool ≤ k) (Pool.start start) final →
    final.shared.entries.length ≤ spec.max - 1 + k
  attained : ∀ k, 1 ≤ k → ∃ final,
    spec.program.machine.ReachableWithin (fun pool => flight pool ≤ k) (Pool.start start) final ∧
    final.shared.entries.length = spec.max - 1 + k

/-- It makes no difference whether an add is in flight from its call to its
return or only from its check to its insertion. -/
theorem exactCapacity (payload : Payload) (argOf : Key → Arg) (keys : List Key)
    {start : Registry Entry} (counted : start.Counted) (room : start.entries.length < spec.max)
    (many : spec.max ≤ keys.length) (keyed : ∀ key ∈ keys, spec.addKey (argOf key) = some key)
    (fresh : (start.entries.map spec.key ++ keys).Nodup) :
    spec.ExactCapacity spec.addsInFlight start ∧ spec.ExactCapacity openAdds start := by
  have bounded : ∀ k, 1 ≤ k → ∀ final,
      spec.program.machine.ReachableWithin (fun pool => spec.addsInFlight pool ≤ k)
        (Pool.start start) final → final.shared.entries.length ≤ spec.max - 1 + k := by
    intro k _ final reached
    exact length_le_of_addsInFlight_le counted (by omega) reached
  have attained : ∀ k, 1 ≤ k → ∃ final,
      spec.program.machine.ReachableWithin (fun pool => openAdds pool ≤ k)
        (Pool.start start) final ∧ final.shared.entries.length = spec.max - 1 + k := by
    intro k positive
    have length : start.entries.length +
        (keys.take (spec.max - start.entries.length)).length = spec.max := by
      rw [List.length_take]
      omega
    have free : keys.take (spec.max - start.entries.length) ≠ [] := by
      intro empty
      rw [empty, List.length_nil] at length
      omega
    exact exists_reach_overfilled payload argOf counted
      (fun key member => keyed key (List.mem_of_mem_take member))
      (fresh.sublist ((List.take_sublist _ _).append_left _)) length free positive
  have narrower : ∀ k (pool : CallPool Arg Key Entry), openAdds pool ≤ k →
      spec.addsInFlight pool ≤ k :=
    fun k pool few => Nat.le_trans (spec.addsInFlight_le_openAdds pool) few
  constructor
  · refine ⟨bounded, fun k positive => ?_⟩
    obtain ⟨final, reached, length⟩ := attained k positive
    exact ⟨final, reached.mono (narrower k), length⟩
  · exact ⟨fun k positive final reached => bounded k positive final (reached.mono (narrower k)),
      attained⟩

end CallSpec

end Aegis.Foundation
