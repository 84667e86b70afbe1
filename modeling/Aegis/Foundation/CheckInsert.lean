import Aegis.Foundation.Pool
import Aegis.Foundation.Registry

/-!
Owns the concurrent use of a bounded registry by callers that check first and
insert later. An `add` call takes the lock to check capacity and duplicates,
releases it, allocates and fills its entry, and takes the lock again to link
it. A `del` call does all its work under the lock. Each section under the lock
is one step.

The lemmas say what one step can do to the registry (`advance_cases`), that
the stored length stays right in every interleaving, and under which condition
on the check steps the keys stay distinct.

Does not own: entry layouts, error codes, or steps inside a locked section.
-/

namespace Aegis.Foundation

universe u

/-- The list-specific part of the calls. A call argument that yields no key is
refused before the lock is taken; `Payload` is what the allocation and the
filling of an entry bring in besides its key. -/
structure CallSpec (Arg Key Payload Entry : Type u) where
  max : Nat
  addKey : Arg → Option Key
  delKey : Arg → Option Key
  key : Entry → Key
  hit : Key → Entry → Bool
  make : Key → Payload → Entry
  hitsKey : ∀ wanted, Registry.HitsKey key (hit wanted) wanted
  key_make : ∀ wanted payload, key (make wanted payload) = wanted

inductive AddResult where
  | invalid
  | full
  | duplicate
  | noMemory
  | added
deriving DecidableEq, Repr

inductive DelResult where
  | invalid
  | absent
  | removed
deriving DecidableEq, Repr

/-- Where a call stands; an `add` keeps the entry it has filled. -/
inductive ListCall (Arg Key Entry : Type u) where
  | add (arg : Arg)
  | admitted (arg : Arg) (key : Key)
  | filled (arg : Arg) (entry : Entry)
  | addReturned (arg : Arg) (result : AddResult)
  | del (arg : Arg)
  | delReturned (arg : Arg) (result : DelResult)
deriving DecidableEq, Repr

namespace ListCall

def isEntry {Arg Key Entry : Type u} : ListCall Arg Key Entry → Bool
  | .add _ => true
  | .del _ => true
  | _ => false

end ListCall

namespace CallSpec

variable {Arg Key Payload Entry : Type u} (spec : CallSpec Arg Key Payload Entry)

/-- The locked check of an `add`, which has no entry yet to keep. -/
def checkSection {Held : Type u} (registry : Registry Entry) (arg : Arg) :
    ListCall Arg Key Held :=
  match spec.addKey arg with
  | none => .addReturned arg .invalid
  | some key =>
      match registry.admission spec.max (spec.hit key) with
      | .full => .addReturned arg .full
      | .duplicate => .addReturned arg .duplicate
      | .admitted => .admitted arg key

/-- The allocation of an `add`; `none` is an allocation failure. -/
def allocate (arg : Arg) (key : Key) : Option Payload → ListCall Arg Key Entry
  | none => .addReturned arg .noMemory
  | some payload => .filled arg (spec.make key payload)

/-- The locked section of a `del`. -/
def removeSection (registry : Registry Entry) (arg : Arg) :
    Registry Entry × ListCall Arg Key Entry :=
  match spec.delKey arg with
  | none => (registry, .delReturned arg .invalid)
  | some key =>
      if registry.listed (spec.hit key) then
        (registry.unlinkFirst (spec.hit key), .delReturned arg .removed)
      else (registry, .delReturned arg .absent)

def program : Program (Registry Entry) (ListCall Arg Key Entry) (Option Payload) where
  entry := ListCall.isEntry
  advance _ registry call payload :=
    match call with
    | .add arg => some (registry, spec.checkSection registry arg)
    | .admitted arg key => some (registry, spec.allocate arg key payload)
    | .filled arg entry => some (registry.linkTail entry, .addReturned arg .added)
    | .del arg => some (spec.removeSection registry arg)
    | .addReturned _ _ => none
    | .delReturned _ _ => none

/-- The key of an `add` that has passed its check and not yet linked. -/
def inFlightKey : ListCall Arg Key Entry → Option Key
  | .admitted _ key => some key
  | .filled _ entry => some (spec.key entry)
  | _ => none

@[simp] theorem inFlightKey_add (arg : Arg) : spec.inFlightKey (.add arg) = none := rfl

@[simp] theorem inFlightKey_admitted (arg : Arg) (key : Key) :
    spec.inFlightKey (.admitted arg key) = some key := rfl

@[simp] theorem inFlightKey_filled (arg : Arg) (entry : Entry) :
    spec.inFlightKey (.filled arg entry) = some (spec.key entry) := rfl

@[simp] theorem inFlightKey_addReturned (arg : Arg) (result : AddResult) :
    spec.inFlightKey (.addReturned arg result) = none := rfl

@[simp] theorem inFlightKey_del (arg : Arg) : spec.inFlightKey (.del arg) = none := rfl

@[simp] theorem inFlightKey_delReturned (arg : Arg) (result : DelResult) :
    spec.inFlightKey (.delReturned arg result) = none := rfl

theorem inFlightKey_of_isEntry {call : ListCall Arg Key Entry} (enters : call.isEntry = true) :
    spec.inFlightKey call = none := by
  cases call with
  | admitted arg key => cases enters
  | filled arg entry => cases enters
  | _ => rfl

abbrev CallPool (Arg Key Entry : Type u) := Pool (Registry Entry) (ListCall Arg Key Entry)

variable {spec}

/-- What one step of a call can do to the registry and to the call. -/
theorem advance_cases {index : Nat} {registry next : Registry Entry}
    {call after : ListCall Arg Key Entry} {payload : Option Payload}
    (advanced : spec.program.advance index registry call payload = some (next, after)) :
    (∃ arg result, call = .add arg ∧ result ≠ .added ∧ next = registry ∧
      after = .addReturned arg result) ∨
    (∃ arg key, call = .add arg ∧ spec.addKey arg = some key ∧ registry.count < spec.max ∧
      registry.listed (spec.hit key) = false ∧ next = registry ∧ after = .admitted arg key) ∨
    (∃ arg key, call = .admitted arg key ∧ next = registry ∧
      (after = .addReturned arg .noMemory ∨
        ∃ entry, spec.key entry = key ∧ after = .filled arg entry)) ∨
    (∃ arg entry, call = .filled arg entry ∧ next = registry.linkTail entry ∧
      after = .addReturned arg .added) ∨
    (∃ arg result, call = .del arg ∧ result ≠ .removed ∧ next = registry ∧
      after = .delReturned arg result) ∨
    (∃ arg key, call = .del arg ∧ spec.delKey arg = some key ∧
      registry.listed (spec.hit key) = true ∧ next = registry.unlinkFirst (spec.hit key) ∧
      after = .delReturned arg .removed) := by
  cases call with
  | add arg =>
      obtain ⟨rfl, rfl⟩ := Prod.mk.inj (Option.some.inj advanced)
      cases found : spec.addKey arg with
      | none => exact Or.inl ⟨arg, .invalid, rfl, by simp, rfl, by simp [checkSection, found]⟩
      | some key =>
          cases answer : registry.admission spec.max (spec.hit key) with
          | full =>
              exact Or.inl ⟨arg, .full, rfl, by simp, rfl, by simp [checkSection, found, answer]⟩
          | duplicate =>
              exact Or.inl ⟨arg, .duplicate, rfl, by simp, rfl, by
                simp [checkSection, found, answer]⟩
          | admitted =>
              obtain ⟨room, absent⟩ := Registry.admission_eq_admitted.mp answer
              exact Or.inr (Or.inl ⟨arg, key, rfl, found, room, absent, rfl, by
                simp [checkSection, found, answer]⟩)
  | admitted arg key =>
      obtain ⟨rfl, rfl⟩ := Prod.mk.inj (Option.some.inj advanced)
      refine Or.inr (Or.inr (Or.inl ⟨arg, key, rfl, rfl, ?_⟩))
      cases payload with
      | none => exact Or.inl rfl
      | some payload => exact Or.inr ⟨_, spec.key_make key payload, rfl⟩
  | filled arg entry =>
      obtain ⟨rfl, rfl⟩ := Prod.mk.inj (Option.some.inj advanced)
      exact Or.inr (Or.inr (Or.inr (Or.inl ⟨arg, entry, rfl, rfl, rfl⟩)))
  | addReturned arg result => simp [program] at advanced
  | delReturned arg result => simp [program] at advanced
  | del arg =>
      have section_eq : spec.removeSection registry arg = (next, after) :=
        Option.some.inj advanced
      unfold removeSection at section_eq
      cases found : spec.delKey arg with
      | none =>
          obtain ⟨rfl, rfl⟩ := Prod.mk.inj (by simpa [found] using section_eq)
          exact Or.inr (Or.inr (Or.inr (Or.inr (Or.inl ⟨arg, .invalid, rfl, by simp, rfl, rfl⟩))))
      | some key =>
          by_cases present : registry.listed (spec.hit key) = true
          · obtain ⟨rfl, rfl⟩ := Prod.mk.inj (by simpa [found, present] using section_eq)
            exact Or.inr (Or.inr (Or.inr (Or.inr (Or.inr
              ⟨arg, key, rfl, found, present, rfl, rfl⟩))))
          · obtain ⟨rfl, rfl⟩ := Prod.mk.inj (by simpa [found, present] using section_eq)
            exact Or.inr (Or.inr (Or.inr (Or.inr (Or.inl ⟨arg, .absent, rfl, by simp, rfl, rfl⟩))))

/-! ### The stored length -/

theorem keeps_counted :
    spec.program.machine.Keeps fun pool => pool.shared.Counted := by
  intro pool move next _ counted stepped
  rcases Program.machine_step_cases stepped with
    ⟨call, rfl, -, rfl⟩ | ⟨index, choice, call, shared, after, rfl, -, advanced, rfl⟩
  · exact counted
  · rcases advance_cases advanced with
      ⟨arg, result, -, -, rfl, -⟩ | ⟨arg, key, -, -, -, -, rfl, -⟩ | ⟨arg, key, -, rfl, -⟩ |
        ⟨arg, entry, -, rfl, -⟩ | ⟨arg, result, -, -, rfl, -⟩ |
        ⟨arg, key, -, -, present, rfl, -⟩
    · exact counted
    · exact counted
    · exact counted
    · exact counted.linkTail entry
    · exact counted
    · exact counted.unlinkFirst present

/-! ### Distinct keys -/

section Distinct

variable (spec)

/-- Keys of the adds that have passed their check and not yet linked. -/
def inFlightKeys (pool : CallPool Arg Key Entry) : List Key :=
  pool.calls.filterMap spec.inFlightKey

/-- Listed keys and keys in flight are pairwise different. -/
def Distinct (pool : CallPool Arg Key Entry) : Prop :=
  (pool.shared.entries.map spec.key ++ spec.inFlightKeys pool).Nodup

/-- The key that the next step of a call would check. -/
def checkedKey (pool : CallPool Arg Key Entry) (index : Nat) : Option Key :=
  match pool.calls[index]? with
  | some (.add arg) => spec.addKey arg
  | _ => none

/-- A check step is taken only while no other add of its key is in flight. -/
def SoleAdder (pool : CallPool Arg Key Entry) :
    Move (ListCall Arg Key Entry) (Option Payload) → Prop
  | .spawn _ => True
  | .advance index _ => ∀ key ∈ spec.checkedKey pool index, key ∉ spec.inFlightKeys pool

instance [DecidableEq Key] (pool : CallPool Arg Key Entry)
    (move : Move (ListCall Arg Key Entry) (Option Payload)) :
    Decidable (spec.SoleAdder pool move) :=
  match move with
  | .spawn _ => isTrue trivial
  | .advance index _ =>
      inferInstanceAs (Decidable (∀ key ∈ spec.checkedKey pool index, key ∉ spec.inFlightKeys pool))

variable {spec}

/-- A step exchanges the moving call's own key in flight. -/
theorem exists_inFlight_rest (spec : CallSpec Arg Key Payload Entry)
    {pool : CallPool Arg Key Entry} {index : Nat}
    {call : ListCall Arg Key Entry} (found : pool.calls[index]? = some call) :
    ∃ rest : List Key,
      (spec.inFlightKeys pool).Perm ((spec.inFlightKey call).toList ++ rest) ∧
      ∀ registry after, (spec.inFlightKeys ⟨registry, pool.calls.set index after⟩).Perm
        ((spec.inFlightKey after).toList ++ rest) := by
  obtain ⟨rest, before, later⟩ := Pool.exists_filterMap_rest spec.inFlightKey found
  exact ⟨rest, before, fun _ => later⟩

theorem keepsUnder_distinct : spec.program.machine.KeepsUnder spec.SoleAdder spec.Distinct := by
  intro pool move next guarded distinct stepped
  rcases Program.machine_step_cases stepped with
    ⟨call, rfl, enters, rfl⟩ | ⟨index, choice, call, shared, after, rfl, found, advanced, rfl⟩
  · -- A new call is not in flight yet.
    have idle := spec.inFlightKey_of_isEntry enters
    simpa [Distinct, inFlightKeys, idle] using distinct
  · obtain ⟨rest, before, later⟩ := exists_inFlight_rest spec found
    unfold Distinct at distinct ⊢
    rw [(before.append_left _).nodup_iff] at distinct
    rw [((later shared after).append_left _).nodup_iff]
    rcases advance_cases advanced with
      ⟨arg, result, rfl, -, rfl, rfl⟩ | ⟨arg, key, rfl, keyed, -, absent, rfl, rfl⟩ |
        ⟨arg, key, rfl, rfl, ended⟩ | ⟨arg, entry, rfl, rfl, rfl⟩ |
        ⟨arg, result, rfl, -, rfl, rfl⟩ | ⟨arg, key, rfl, -, -, rfl, rfl⟩
    · simpa using distinct
    · -- The check passed, so the key is not listed; the guard keeps it out of flight.
      have unlisted : key ∉ pool.shared.entries.map spec.key := by
        rw [← Registry.listed_iff_mem_keys (spec.hitsKey key), absent]
        simp
      have sole : key ∉ rest := by
        have free := guarded key (by simp [checkedKey, found, keyed])
        rw [before.mem_iff] at free
        simpa using free
      have middle : (key :: (pool.shared.entries.map spec.key ++ rest)).Nodup := by
        refine List.nodup_cons.mpr ⟨?_, by simpa using distinct⟩
        simp only [List.mem_append]
        exact not_or.mpr ⟨unlisted, sole⟩
      simpa using List.nodup_middle.mpr middle
    · rcases ended with rfl | ⟨entry, sameKey, rfl⟩
      · have shorter : (pool.shared.entries.map spec.key ++ rest).Sublist
            (pool.shared.entries.map spec.key ++ key :: rest) :=
          (List.sublist_cons_self key rest).append_left _
        exact distinct.sublist shorter
      · simpa [sameKey] using distinct
    · -- The linked key moves from the keys in flight to the listed keys.
      simpa [List.append_assoc] using distinct
    · simpa using distinct
    · have shorter : ((pool.shared.entries.eraseP (spec.hit key)).map spec.key).Sublist
          (pool.shared.entries.map spec.key) := List.eraseP_sublist.map spec.key
      have kept := distinct.sublist (shorter.append_right _)
      simpa using kept

theorem distinct_start {registry : Registry Entry}
    (distinct : (registry.entries.map spec.key).Nodup) : spec.Distinct (Pool.start registry) := by
  simpa [Distinct, inFlightKeys, Pool.start] using distinct

/-- The step in which a `del` succeeds leaves its key unlisted, if the keys were
distinct before it. -/
theorem not_mem_keys_of_removed {pool next : CallPool Arg Key Entry} {index : Nat}
    {payload : Option Payload} {arg : Arg} {key : Key}
    (distinct : (pool.shared.entries.map spec.key).Nodup)
    (stepped : spec.program.machine.step pool (.advance index payload) = some next)
    (deleting : pool.calls[index]? = some (.del arg)) (keyed : spec.delKey arg = some key)
    (removed : next.calls[index]? = some (.delReturned arg .removed)) :
    key ∉ next.shared.entries.map spec.key := by
  rcases Program.machine_step_cases stepped with
    ⟨call, move, -, -⟩ | ⟨moved, choice, call, shared, after, move, found, advanced, rfl⟩
  · cases move
  · cases move
    obtain rfl := Option.some.inj (found.symm.trans deleting)
    have returned : after = .delReturned arg .removed := by
      rcases Pool.getElem?_set_cases removed with ⟨-, same⟩ | ⟨different, -⟩
      · exact same.symm
      · exact absurd rfl different
    rcases advance_cases advanced with
      ⟨_, _, call, -⟩ | ⟨_, _, call, -⟩ | ⟨_, _, call, -⟩ | ⟨_, _, call, -⟩ |
        ⟨_, result, call, failed, -, ended⟩ | ⟨_, found, call, foundKey, present, unlinked, -⟩
    · cases call
    · cases call
    · cases call
    · cases call
    · rw [returned] at ended
      cases ended
      exact absurd rfl failed
    · cases call
      obtain rfl := Option.some.inj (foundKey.symm.trans keyed)
      show found ∉ shared.entries.map spec.key
      rw [unlinked]
      exact Registry.not_mem_keys_unlinkFirst (spec.hitsKey found) distinct present

end Distinct

/-! ### Steps in one direction -/

section Directions

/-- The next step of the call is the section of a `del`. -/
def removesNext : ListCall Arg Key Entry → Bool
  | .del _ => true
  | _ => false

/-- The next step of the call is the insertion of an `add`. -/
def insertsNext : ListCall Arg Key Entry → Bool
  | .filled _ _ => true
  | _ => false

/-- The call that takes the step, if any, is not one of these. -/
def Avoids (avoided : ListCall Arg Key Entry → Bool) (pool : CallPool Arg Key Entry) :
    Move (ListCall Arg Key Entry) (Option Payload) → Prop
  | .spawn _ => True
  | .advance index _ => ∀ call ∈ pool.calls[index]?, avoided call = false

instance (avoided : ListCall Arg Key Entry → Bool) (pool : CallPool Arg Key Entry)
    (move : Move (ListCall Arg Key Entry) (Option Payload)) :
    Decidable (Avoids avoided pool move) :=
  match move with
  | .spawn _ => isTrue trivial
  | .advance index _ =>
      inferInstanceAs (Decidable (∀ call ∈ pool.calls[index]?, avoided call = false))

variable {pool next : CallPool Arg Key Entry}
variable {move : Move (ListCall Arg Key Entry) (Option Payload)}

theorem entries_subset_of_no_removal (stepped : spec.program.machine.step pool move = some next)
    (keeps : Avoids removesNext pool move) : pool.shared.entries ⊆ next.shared.entries := by
  rcases Program.machine_step_cases stepped with
    ⟨call, rfl, -, rfl⟩ | ⟨index, choice, call, shared, after, rfl, found, advanced, rfl⟩
  · exact List.Subset.refl _
  · rcases advance_cases advanced with
      ⟨arg, result, -, -, rfl, -⟩ | ⟨arg, key, -, -, -, -, rfl, -⟩ | ⟨arg, key, -, rfl, -⟩ |
        ⟨arg, entry, -, rfl, -⟩ | ⟨arg, result, -, -, rfl, -⟩ | ⟨arg, key, rfl, -, -, -, -⟩
    · exact List.Subset.refl _
    · exact List.Subset.refl _
    · exact List.Subset.refl _
    · exact List.subset_append_left _ _
    · exact List.Subset.refl _
    · exact absurd (keeps _ found) Bool.noConfusion

theorem entries_subset_of_no_insertion (stepped : spec.program.machine.step pool move = some next)
    (keeps : Avoids insertsNext pool move) : next.shared.entries ⊆ pool.shared.entries := by
  rcases Program.machine_step_cases stepped with
    ⟨call, rfl, -, rfl⟩ | ⟨index, choice, call, shared, after, rfl, found, advanced, rfl⟩
  · exact List.Subset.refl _
  · rcases advance_cases advanced with
      ⟨arg, result, -, -, rfl, -⟩ | ⟨arg, key, -, -, -, -, rfl, -⟩ | ⟨arg, key, -, rfl, -⟩ |
        ⟨arg, entry, rfl, -, -⟩ | ⟨arg, result, -, -, rfl, -⟩ | ⟨arg, key, -, -, -, rfl, -⟩
    · exact List.Subset.refl _
    · exact List.Subset.refl _
    · exact List.Subset.refl _
    · exact absurd (keeps _ found) Bool.noConfusion
    · exact List.Subset.refl _
    · exact List.eraseP_subset

end Directions

end CallSpec

end Aegis.Foundation
