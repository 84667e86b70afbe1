import Mathlib.Data.List.Nodup

/-!
Owns a store of labelled objects that are known by handles. A handle is never
given out twice, and removing a handle that is not in the store is an error.

`Handles.Beyond base owned` says that the store holds the objects of `base` and
after them those of `owned`; creating and removing are described by what they
do to `owned`.

Does not own: what the labels mean, or when an object may be removed.
-/

namespace Aegis.Foundation

universe u

structure Handles (Label : Type u) where
  entries : List (Nat × Label)
  next : Nat

namespace Handles

variable {Label : Type u}

def create (handles : Handles Label) (label : Label) : Handles Label :=
  ⟨handles.entries ++ [(handles.next, label)], handles.next + 1⟩

/-- The other objects stay as they are. -/
def remove (handles : Handles Label) (handle : Nat) : Option (Handles Label) :=
  if handle ∈ handles.entries.map Prod.fst then
    some ⟨handles.entries.filter fun entry => entry.1 ≠ handle, handles.next⟩
  else none

/-- Handles in use are distinct, and new ones are larger. -/
structure Valid (handles : Handles Label) : Prop where
  distinct : (handles.entries.map Prod.fst).Nodup
  below : ∀ entry ∈ handles.entries, entry.1 < handles.next

structure Beyond (base owned : List (Nat × Label)) (handles : Handles Label) : Prop where
  valid : handles.Valid
  entries : handles.entries = base ++ owned

variable {base owned : List (Nat × Label)} {handles : Handles Label}

theorem Beyond.next_not_mem (beyond : Beyond base owned handles) :
    handles.next ∉ handles.entries.map Prod.fst := by
  intro member
  obtain ⟨entry, inStore, same⟩ := List.mem_map.mp member
  have below := beyond.valid.below entry inStore
  omega

theorem Beyond.create (beyond : Beyond base owned handles) (label : Label) :
    Beyond base (owned ++ [(handles.next, label)]) (handles.create label) where
  valid :=
    { distinct := by
        rw [Handles.create, List.map_append, List.map_singleton, List.nodup_append]
        refine ⟨beyond.valid.distinct, List.nodup_singleton _, ?_⟩
        intro handle member other isNew same
        rw [List.mem_singleton.mp isNew] at same
        rw [same] at member
        exact beyond.next_not_mem member
      below := by
        intro entry member
        rcases List.mem_append.mp member with old | new
        · exact Nat.lt_succ_of_lt (beyond.valid.below entry old)
        · rw [List.mem_singleton.mp new]
          exact Nat.lt_succ_self _ }
  entries := by
    rw [Handles.create, beyond.entries, List.append_assoc]

/-- An owned handle can be removed, and the base is not touched. -/
theorem Beyond.remove (beyond : Beyond base owned handles) {handle : Nat}
    (isOwned : handle ∈ owned.map Prod.fst) :
    ∃ after, handles.remove handle = some after ∧
      Beyond base (owned.filter fun entry => entry.1 ≠ handle) after := by
  have present : handle ∈ handles.entries.map Prod.fst := by
    rw [beyond.entries, List.map_append, List.mem_append]
    exact Or.inr isOwned
  refine ⟨_, if_pos present, ⟨?_, ?_⟩, ?_⟩
  · exact beyond.valid.distinct.sublist (List.filter_sublist.map Prod.fst)
  · exact fun entry member => beyond.valid.below entry (List.mem_filter.mp member).1
  · have distinct := beyond.valid.distinct
    rw [beyond.entries, List.map_append] at distinct
    have untouched : base.filter (fun entry => entry.1 ≠ handle) = base := by
      apply List.filter_eq_self.mpr
      intro entry inBase
      have apart := List.disjoint_of_nodup_append distinct (List.mem_map_of_mem inBase)
      simp only [decide_eq_true_eq]
      rintro rfl
      exact apart isOwned
    show handles.entries.filter _ = _
    rw [beyond.entries, List.filter_append, untouched]

end Handles

end Aegis.Foundation
