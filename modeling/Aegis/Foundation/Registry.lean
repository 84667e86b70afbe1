import Mathlib.Data.Finset.Card
import Mathlib.Data.List.Dedup

/-!
Owns bounded registries: a linked list of entries with its length stored in a
separate counter, a capacity and duplicate check before an insertion at the
tail, and removal of the first entry that a comparison hits.

The abstract registry is a finite set of keys. `Represents` relates the two,
and the lemmas below it say what each operation does to the set.

Does not own: entry layouts, keys, error codes, or locking.
-/

namespace Aegis.Foundation

universe u v

structure Registry (Entry : Type u) where
  entries : List Entry
  count : Int
deriving DecidableEq, Repr

/-- Answer of the check that precedes an insertion. -/
inductive Admission where
  | full
  | duplicate
  | admitted
deriving DecidableEq, Repr

namespace Registry

variable {Entry : Type u} {Key : Type v}

def empty : Registry Entry := ⟨[], 0⟩

/-- Some entry is hit. The loop stops at the first one. -/
def listed (hit : Entry → Bool) (registry : Registry Entry) : Bool :=
  registry.entries.any hit

def admission (max : Nat) (hit : Entry → Bool) (registry : Registry Entry) : Admission :=
  if (max : Int) ≤ registry.count then .full
  else if registry.listed hit then .duplicate
  else .admitted

def linkTail (registry : Registry Entry) (entry : Entry) : Registry Entry :=
  ⟨registry.entries ++ [entry], registry.count + 1⟩

/-- Unlink the first entry that is hit. -/
def unlinkFirst (hit : Entry → Bool) (registry : Registry Entry) : Registry Entry :=
  ⟨registry.entries.eraseP hit, registry.count - 1⟩

@[simp] theorem linkTail_entries (registry : Registry Entry) (entry : Entry) :
    (registry.linkTail entry).entries = registry.entries ++ [entry] := rfl

@[simp] theorem linkTail_count (registry : Registry Entry) (entry : Entry) :
    (registry.linkTail entry).count = registry.count + 1 := rfl

@[simp] theorem unlinkFirst_entries (hit : Entry → Bool) (registry : Registry Entry) :
    (registry.unlinkFirst hit).entries = registry.entries.eraseP hit := rfl

@[simp] theorem unlinkFirst_count (hit : Entry → Bool) (registry : Registry Entry) :
    (registry.unlinkFirst hit).count = registry.count - 1 := rfl

theorem listed_iff {hit : Entry → Bool} {registry : Registry Entry} :
    registry.listed hit = true ↔ ∃ entry ∈ registry.entries, hit entry = true := by
  simp [listed]

theorem admission_eq_admitted {max : Nat} {hit : Entry → Bool} {registry : Registry Entry} :
    registry.admission max hit = .admitted ↔
      registry.count < max ∧ registry.listed hit = false := by
  unfold admission
  by_cases full : (max : Int) ≤ registry.count
  · simp [full]
  · have below : registry.count < max := by omega
    cases present : registry.listed hit <;> simp [full, below]

/-- Removal splits the list at the first hit. -/
theorem exists_unlinkFirst {hit : Entry → Bool} {registry : Registry Entry}
    (present : registry.listed hit = true) :
    ∃ before entry after, registry.entries = before ++ entry :: after ∧ hit entry = true ∧
      (∀ earlier ∈ before, hit earlier = false) ∧
      (registry.unlinkFirst hit).entries = before ++ after := by
  obtain ⟨entry, member, hits⟩ := listed_iff.mp present
  obtain ⟨first, before, after, none, isHit, split, erased⟩ :=
    List.exists_of_eraseP member hits
  refine ⟨before, first, after, split, isHit, fun earlier inBefore => ?_, erased⟩
  simpa using none earlier inBefore

/-- Removal undoes an insertion of a new entry. -/
theorem unlinkFirst_linkTail {hit : Entry → Bool} {registry : Registry Entry} {entry : Entry}
    (absent : registry.listed hit = false) (hits : hit entry = true) :
    (registry.linkTail entry).unlinkFirst hit = registry := by
  have misses : ∀ earlier ∈ registry.entries, ¬ hit earlier = true := by
    simpa [listed] using absent
  cases registry with
  | mk entries count =>
      simp only [unlinkFirst, linkTail, List.eraseP_append_right _ misses,
        List.eraseP_cons_of_pos hits, List.append_nil, Int.add_sub_cancel]

/-! ### The stored length -/

/-- The counter is the length of the list. -/
def Counted (registry : Registry Entry) : Prop :=
  registry.count = registry.entries.length

instance (registry : Registry Entry) : Decidable registry.Counted :=
  inferInstanceAs (Decidable (_ = _))

theorem counted_empty : Counted (empty : Registry Entry) := rfl

theorem Counted.linkTail {registry : Registry Entry} (counted : registry.Counted)
    (entry : Entry) : (registry.linkTail entry).Counted := by
  unfold Counted at *
  simp [counted]

theorem Counted.unlinkFirst {registry : Registry Entry} {hit : Entry → Bool}
    (counted : registry.Counted) (present : registry.listed hit = true) :
    (registry.unlinkFirst hit).Counted := by
  obtain ⟨before, entry, after, split, -, -, erased⟩ := exists_unlinkFirst present
  unfold Counted at *
  rw [unlinkFirst_count, erased, counted, split]
  simp only [List.length_append, List.length_cons]
  omega

theorem Counted.count_ne_zero {registry : Registry Entry} (counted : registry.Counted)
    {entry : Entry} (member : entry ∈ registry.entries) : registry.count ≠ 0 := by
  have positive := List.length_pos_of_mem member
  unfold Counted at counted
  omega

/-! ### The abstract registry -/

/-- The comparison hits exactly the entries of one key. -/
def HitsKey (key : Entry → Key) (hit : Entry → Bool) (wanted : Key) : Prop :=
  ∀ entry, hit entry = true ↔ key entry = wanted

theorem listed_iff_mem_keys {key : Entry → Key} {hit : Entry → Bool} {wanted : Key}
    (exact : HitsKey key hit wanted) (registry : Registry Entry) :
    registry.listed hit = true ↔ wanted ∈ registry.entries.map key := by
  rw [listed_iff, List.mem_map]
  simp only [exact _]

/-- A query that looks at keys only is kept by any registry with more keys. -/
theorem listed_mono (key : Entry → Key) {query : Entry → Bool} {registry larger : Registry Entry}
    (onKeys : ∀ first second, key first = key second → query first = query second)
    (included : registry.entries.map key ⊆ larger.entries.map key)
    (present : registry.listed query = true) : larger.listed query = true := by
  obtain ⟨entry, member, hits⟩ := listed_iff.mp present
  obtain ⟨other, inLarger, sameKey⟩ := List.mem_map.mp (included (List.mem_map_of_mem member))
  exact listed_iff.mpr ⟨other, inLarger, (onKeys other entry sameKey).trans hits⟩

/-- With distinct keys, removal leaves no entry of the removed key. -/
theorem not_mem_keys_unlinkFirst {key : Entry → Key} {hit : Entry → Bool} {wanted : Key}
    (exact : HitsKey key hit wanted) {registry : Registry Entry}
    (distinct : (registry.entries.map key).Nodup) (present : registry.listed hit = true) :
    wanted ∉ (registry.unlinkFirst hit).entries.map key := by
  obtain ⟨before, entry, after, split, hits, -, erased⟩ := exists_unlinkFirst present
  rw [split, List.map_append, List.map_cons, (exact entry).mp hits] at distinct
  rw [erased, List.map_append]
  exact (List.nodup_cons.mp (List.nodup_middle.mp distinct)).1

variable [DecidableEq Key]

/-- A registry whose entries have distinct keys, whose counter is right and
whose keys are the set. -/
structure Represents (key : Entry → Key) (max : Nat) (registry : Registry Entry)
    (keys : Finset Key) : Prop where
  distinct : (registry.entries.map key).Nodup
  counted : registry.Counted
  bounded : registry.entries.length ≤ max
  members : (registry.entries.map key).toFinset = keys

/-- The answer the set gives to an insertion. -/
def admissionOf (max : Nat) (keys : Finset Key) (wanted : Key) : Admission :=
  if max ≤ keys.card then .full
  else if wanted ∈ keys then .duplicate
  else .admitted

variable {key : Entry → Key} {max : Nat} {registry : Registry Entry} {keys : Finset Key}

theorem represents_empty (key : Entry → Key) (max : Nat) :
    Represents key max (empty : Registry Entry) ∅ where
  distinct := List.nodup_nil
  counted := counted_empty
  bounded := Nat.zero_le max
  members := rfl

namespace Represents

theorem card_eq_length (represents : Represents key max registry keys) :
    keys.card = registry.entries.length := by
  rw [← represents.members, List.toFinset_card_of_nodup represents.distinct, List.length_map]

theorem count_eq_card (represents : Represents key max registry keys) :
    registry.count = keys.card := by
  rw [represents.card_eq_length]
  exact represents.counted

theorem mem_iff (represents : Represents key max registry keys) {wanted : Key} :
    wanted ∈ keys ↔ wanted ∈ registry.entries.map key := by
  rw [← represents.members, List.mem_toFinset]

/-- A query that looks at keys only is a query of the set. -/
theorem any_iff (represents : Represents key max registry keys) {query : Entry → Bool}
    (property : Key → Prop) (onKeys : ∀ entry, query entry = true ↔ property (key entry)) :
    registry.listed query = true ↔ ∃ wanted ∈ keys, property wanted := by
  simp only [listed, List.any_eq_true, represents.mem_iff, List.mem_map, onKeys]
  constructor
  · rintro ⟨entry, member, holds⟩
    exact ⟨key entry, ⟨entry, member, rfl⟩, holds⟩
  · rintro ⟨wanted, ⟨entry, member, rfl⟩, holds⟩
    exact ⟨entry, member, holds⟩

theorem listed_iff (represents : Represents key max registry keys) {hit : Entry → Bool}
    {wanted : Key} (exact : HitsKey key hit wanted) :
    registry.listed hit = true ↔ wanted ∈ keys := by
  rw [represents.mem_iff, listed_iff_mem_keys exact]

theorem admission_eq (represents : Represents key max registry keys) {hit : Entry → Bool}
    {wanted : Key} (exact : HitsKey key hit wanted) :
    registry.admission max hit = admissionOf max keys wanted := by
  unfold admission admissionOf
  rw [represents.count_eq_card]
  by_cases full : max ≤ keys.card
  · simp [full]
  · have present := represents.listed_iff exact
    by_cases member : wanted ∈ keys
    · simp [full, member, present.mpr member]
    · have absent : registry.listed hit = false := by
        rw [← Bool.not_eq_true, present]
        exact member
      simp [full, member, absent]

theorem linkTail (represents : Represents key max registry keys) {entry : Entry}
    (room : keys.card < max) (fresh : key entry ∉ keys) :
    Represents key max (registry.linkTail entry) (insert (key entry) keys) where
  distinct := by
    rw [linkTail_entries, List.map_append, List.nodup_append]
    refine ⟨represents.distinct, by simp, ?_⟩
    rintro other member wanted single rfl
    obtain rfl : other = key entry := by simpa using single
    exact fresh (represents.mem_iff.mpr member)
  counted := represents.counted.linkTail entry
  bounded := by
    rw [represents.card_eq_length] at room
    rw [linkTail_entries, List.length_append, List.length_singleton]
    omega
  members := by
    rw [linkTail_entries, List.map_append, List.toFinset_append, represents.members,
      Finset.union_comm]
    rfl

theorem unlinkFirst (represents : Represents key max registry keys) {hit : Entry → Bool}
    {wanted : Key} (exact : HitsKey key hit wanted) (present : wanted ∈ keys) :
    Represents key max (registry.unlinkFirst hit) (keys.erase wanted) := by
  have isListed := (represents.listed_iff exact).mpr present
  obtain ⟨before, entry, after, split, hits, -, erased⟩ := exists_unlinkFirst isListed
  have isKey : key entry = wanted := (exact entry).mp hits
  have distinct := represents.distinct
  rw [split, List.map_append, List.map_cons, isKey] at distinct
  -- `wanted` occurs once, at the removed entry.
  have middle := List.nodup_middle.mp distinct
  rw [← List.map_append] at middle
  have members := represents.members
  refine ⟨?_, represents.counted.unlinkFirst isListed, ?_, ?_⟩
  · rw [erased]
    exact (List.nodup_cons.mp middle).2
  · have shorter := represents.bounded
    rw [split] at shorter
    rw [erased]
    simp only [List.length_append, List.length_cons] at *
    omega
  · rw [erased, ← members, split]
    ext other
    have absent := (List.nodup_cons.mp middle).1
    simp only [List.mem_toFinset, List.map_append, List.map_cons, isKey, Finset.mem_erase,
      List.mem_append, List.mem_cons] at absent ⊢
    constructor
    · intro kept
      exact ⟨fun same => absent (same ▸ kept), kept.imp_right Or.inr⟩
    · rintro ⟨different, inBefore | same | inAfter⟩
      · exact Or.inl inBefore
      · exact absurd same different
      · exact Or.inr inAfter

end Represents

end Registry

end Aegis.Foundation
