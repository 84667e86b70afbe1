import Aegis.Concurrent.FastPath

/-!
Owns the memory of the protected file list: which entries are allocated, which
of them are linked, and which entries each step of a call reads. Each section
under the lock is one step; the log line of an add is a step of its own, after
the lock has been released.

An entry is named by the call that allocated it, so memory that the allocator
hands out again is a different entry. In every run in which no del frees an
entry whose add has yet to log it, every step reads live entries only.

Does not own: the steps inside a section, or the text of the listing.
-/

namespace Aegis.Concurrent

open Aegis.Foundation
open Aegis.Kernel
open Aegis.Policy

/-! ### Memory -/

/-- `live` is what `kmalloc` has given out and `kfree` has not taken back;
`linked` is the list, in order. -/
structure FileHeap where
  live : List OwnedFile
  linked : List Nat
  count : Int

namespace FileHeap

def boot : FileHeap := ⟨[], [], 0⟩

def liveIds (heap : FileHeap) : List Nat := heap.live.map OwnedFile.owner

/-- The fields of an entry, if it is live. -/
def entry (heap : FileHeap) (id : Nat) : Option AegisProtectedFile :=
  (heap.live.find? fun owned => owned.owner == id).map OwnedFile.file

def registry (heap : FileHeap) : FileList := ⟨heap.linked.filterMap heap.entry, heap.count⟩

def hits (heap : FileHeap) (path : CString) (id : Nat) : Bool :=
  (heap.entry id).any (filePathHit path)

/-- The entries read by a loop over the list that stops at the first match. -/
def walked (heap : FileHeap) (path : CString) : List Nat :=
  heap.linked.take (heap.linked.findIdx (heap.hits path) + 1)

def allocate (heap : FileHeap) (id : Nat) (file : AegisProtectedFile) : FileHeap :=
  { heap with live := heap.live ++ [⟨id, file⟩] }

def link (heap : FileHeap) (id : Nat) : FileHeap :=
  { heap with linked := heap.linked ++ [id], count := heap.count + 1 }

/-- Unlink and free the entry that the loop of a del stopped at. -/
def release (heap : FileHeap) (path : CString) (id : Nat) : FileHeap where
  live := heap.live.filter fun owned => owned.owner != id
  linked := heap.linked.eraseP (heap.hits path)
  count := heap.count - 1

theorem liveIds_allocate (heap : FileHeap) (id : Nat) (file : AegisProtectedFile) :
    (heap.allocate id file).liveIds = heap.liveIds ++ [id] := by
  simp [liveIds, allocate]

theorem mem_liveIds_release {heap : FileHeap} {path : CString} {id other : Nat} :
    other ∈ (heap.release path id).liveIds ↔ other ∈ heap.liveIds ∧ other ≠ id := by
  simp only [liveIds, release, List.mem_map, List.mem_filter, bne_iff_ne]
  constructor
  · rintro ⟨owned, ⟨member, different⟩, rfl⟩
    exact ⟨⟨owned, member, rfl⟩, different⟩
  · rintro ⟨⟨owned, member, rfl⟩, different⟩
    exact ⟨owned, ⟨member, different⟩, rfl⟩

/-- A release splits the list at the first match. -/
theorem exists_release {heap : FileHeap} {path : CString} {id : Nat}
    (target : heap.linked.find? (heap.hits path) = some id) :
    ∃ earlier later, heap.linked = earlier ++ id :: later ∧
      (∀ other ∈ earlier, heap.hits path other = false) ∧
      (heap.release path id).linked = earlier ++ later := by
  obtain ⟨hit, earlier, later, split, missed⟩ := List.find?_eq_some_iff_append.mp target
  have skipped : ∀ other ∈ earlier, heap.hits path other = false := by
    intro other member
    simpa using missed other member
  refine ⟨earlier, later, split, skipped, ?_⟩
  show heap.linked.eraseP (heap.hits path) = earlier ++ later
  rw [split, List.eraseP_append_right _ (by simpa using skipped), List.eraseP_cons_of_pos hit]

/-- The released entry is the only one that leaves the list. -/
theorem mem_linked_release {heap : FileHeap} {path : CString} {id other : Nat}
    (distinct : heap.linked.Nodup) (target : heap.linked.find? (heap.hits path) = some id)
    (member : other ∈ (heap.release path id).linked) : other ∈ heap.linked ∧ other ≠ id := by
  obtain ⟨earlier, later, split, -, rest⟩ := exists_release target
  rw [rest] at member
  rw [split] at distinct ⊢
  have apart : id ∉ earlier ++ later := (List.nodup_middle.mp distinct).notMem
  refine ⟨?_, fun same => apart (same ▸ member)⟩
  simp only [List.mem_append, List.mem_cons] at member ⊢
  tauto

theorem entry_allocate_self {heap : FileHeap} {id : Nat} (fresh : id ∉ heap.liveIds)
    (file : AegisProtectedFile) : (heap.allocate id file).entry id = some file := by
  have missed : heap.live.find? (fun owned => owned.owner == id) = none := by
    rw [List.find?_eq_none]
    intro owned member same
    exact fresh (List.mem_map.mpr ⟨owned, member, beq_iff_eq.mp same⟩)
  simp [entry, allocate, List.find?_append, missed]

theorem entry_allocate_other {heap : FileHeap} {id other : Nat} (different : other ≠ id)
    (file : AegisProtectedFile) : (heap.allocate id file).entry other = heap.entry other := by
  have missed : (id == other) = false := by simpa using Ne.symm different
  simp [entry, allocate, List.find?_append, missed]

theorem entry_release_other {heap : FileHeap} {path : CString} {id other : Nat}
    (different : other ≠ id) : (heap.release path id).entry other = heap.entry other := by
  unfold entry release
  rw [List.find?_filter]
  congr 2
  funext owned
  by_cases same : owned.owner = other
  · simp [same, different]
  · simp [same]

theorem listed_registry (heap : FileHeap) (path : CString) :
    heap.registry.listed (filePathHit path) = (heap.linked.find? (heap.hits path)).isSome := by
  rw [Bool.eq_iff_iff, List.find?_isSome]
  simp only [Registry.listed, registry, List.any_eq_true, List.mem_filterMap, hits,
    Option.any_eq_true]
  constructor
  · rintro ⟨file, ⟨id, member, found⟩, hit⟩
    exact ⟨id, member, file, found, hit⟩
  · rintro ⟨id, member, file, found, hit⟩
    exact ⟨file, ⟨id, member, found⟩, hit⟩

/-- Linking a fresh entry appends it to the list that callers see. -/
theorem registry_link {heap : FileHeap} {id : Nat} (fresh : id ∉ heap.liveIds)
    (live : ∀ other ∈ heap.linked, other ∈ heap.liveIds) (file : AegisProtectedFile) :
    ((heap.allocate id file).link id).registry = heap.registry.linkTail file := by
  have same : heap.linked.filterMap (heap.allocate id file).entry =
      heap.linked.filterMap heap.entry := by
    apply List.filterMap_congr
    intro other member
    have different : other ≠ id := fun equal => fresh (equal ▸ live other member)
    exact entry_allocate_other different file
  have new : [id].filterMap (heap.allocate id file).entry = [file] :=
    List.filterMap_cons_some (entry_allocate_self fresh file)
  show Registry.mk ((heap.linked ++ [id]).filterMap (heap.allocate id file).entry) _ = _
  rw [List.filterMap_append, same, new]
  rfl

/-- Releasing the first match unlinks the first match of the list. -/
theorem registry_release {heap : FileHeap} {path : CString} {id : Nat}
    (distinct : heap.linked.Nodup) (target : heap.linked.find? (heap.hits path) = some id) :
    (heap.release path id).registry = heap.registry.unlinkFirst (filePathHit path) := by
  obtain ⟨earlier, later, split, missed, rest⟩ := exists_release target
  have hit : heap.hits path id = true := List.find?_some target
  obtain ⟨file, found, matched⟩ := (Option.any_eq_true _ _).mp hit
  have same : (earlier ++ later).filterMap (heap.release path id).entry =
      (earlier ++ later).filterMap heap.entry := by
    apply List.filterMap_congr
    intro other member
    exact entry_release_other (mem_linked_release distinct target (rest ▸ member)).2
  have skipped : ∀ other ∈ earlier.filterMap heap.entry, ¬ filePathHit path other = true := by
    intro other member hits
    obtain ⟨id, earlierId, lookup⟩ := List.mem_filterMap.mp member
    have unhit := missed id earlierId
    simp [FileHeap.hits, lookup, hits] at unhit
  unfold registry
  rw [rest, same, split]
  simp only [Registry.unlinkFirst, List.filterMap_append, List.filterMap_cons_some found]
  rw [List.eraseP_append_right _ skipped, List.eraseP_cons_of_pos matched]
  rfl

end FileHeap

/-! ### Steps -/

inductive HeapCall where
  | add (path : Option PathKey)
  | addAdmitted (path : PathKey)
  | addFilled (path : PathKey)
  | addLinked (path : PathKey)
  | addFailed (path : Option PathKey) (result : AddResult)
  | addLogged (path : PathKey) (record : Option LogRecord)
  | del (path : Option PathKey)
  | delReturned (path : Option PathKey) (result : DelResult)
  | query (path : Option CString)
  | queryReturned (path : Option CString) (answer : Bool)
  | listing
  | listed (count : Int) (rows : List AegisProtectedFile)

/-- The check of an add, under the lock. -/
def heapCheck (heap : FileHeap) (path : PathKey) : HeapCall :=
  match heap.registry.admission aegisMaxProtectedFiles (filePathHit path.val) with
  | .full => .addFailed (some path) .full
  | .duplicate => .addFailed (some path) .duplicate
  | .admitted => .addAdmitted path

def HeapCall.advance (index : Nat) (heap : FileHeap) (choice : StepChoice) :
    HeapCall → Option (FileHeap × HeapCall)
  | .add none => some (heap, .addFailed none .invalid)
  | .add (some path) => some (heap, heapCheck heap path)
  | .addAdmitted path =>
      match choice.payload with
      | none => some (heap, .addFailed (some path) .noMemory)
      | some hash => some (heap.allocate index (fileEntry path.val hash), .addFilled path)
  | .addFilled path => some (heap.link index, .addLinked path)
  | .addLinked path =>
      -- The log line reads `hash_valid` through the pointer that the add kept.
      some (heap, .addLogged path ((heap.entry index).map fun file =>
        .protectedFileAdded path.val file.hashValid))
  | .addFailed _ _ => none
  | .addLogged _ _ => none
  | .del none => some (heap, .delReturned none .invalid)
  | .del (some path) =>
      match heap.linked.find? (heap.hits path.val) with
      | none => some (heap, .delReturned (some path) .absent)
      | some id => some (heap.release path.val id, .delReturned (some path) .removed)
  | .delReturned _ _ => none
  | .query path =>
      some (heap, .queryReturned path (aegisIsFileProtected choice.cfg heap.registry path))
  | .queryReturned _ _ => none
  | .listing => some (heap, .listed heap.count heap.registry.entries)
  | .listed _ _ => none

/-- The entry that the next step of a call frees. -/
def HeapCall.frees (heap : FileHeap) : HeapCall → Option Nat
  | .del (some path) => heap.linked.find? (heap.hits path.val)
  | _ => none

/-- The entries whose fields the next step of a call reads. -/
def HeapCall.reads (index : Nat) (heap : FileHeap) (choice : StepChoice) : HeapCall → List Nat
  | .add (some path) =>
      if aegisMaxProtectedFiles ≤ heap.count then [] else heap.walked path.val
  | .addLinked _ => [index]
  | .del (some path) => heap.walked path.val
  | .query (some path) =>
      if choice.cfg.featureCheck featureFileIntegrity then heap.walked path else []
  | .listing => heap.linked
  | _ => []

def heapProgram : Program FileHeap HeapCall StepChoice where
  entry
    | .add _ => true
    | .del _ => true
    | .query _ => true
    | .listing => true
    | _ => false
  advance index heap call choice := call.advance index heap choice

abbrev HeapPool := Pool FileHeap HeapCall

def HeapPool.boot : HeapPool := Pool.start FileHeap.boot

/-! ### Calls that run alone -/

section Alone

variable {heap : FileHeap} (live : ∀ id ∈ heap.linked, id ∈ heap.liveIds)
  (distinct : heap.linked.Nodup)

/-- The value a finished add or del returns. -/
def HeapCall.ret : HeapCall → Option Int
  | .addFailed _ result => some (AddResult.ret result)
  | .addLogged _ _ => some 0
  | .delReturned _ result => some (DelResult.ret result)
  | _ => none

include live in
/-- Some uninterrupted run of an add does what the sequential function does. -/
theorem heapAdd_alone (fresh : 0 ∉ heap.liveIds) (shash : Shash) (env : FileAddEnv)
    (path : Option PathKey) :
    ∃ (after : FileHeap) (last : HeapCall),
      heapProgram.RunsAlone heap (.add path) after last ∧
        after.registry =
          (aegisProtectedFileAdd shash env (path.map Subtype.val) heap.registry).list ∧
        last.ret =
          some (aegisProtectedFileAdd shash env (path.map Subtype.val) heap.registry).ret := by
  let idle : StepChoice := ⟨none, aegisCfg, true, true⟩
  cases path with
  | none => exact ⟨heap, _, .step idle rfl (.refl _ _), rfl, rfl⟩
  | some path =>
      have checked : heapProgram.advance 0 heap (.add (some path)) idle =
          some (heap, heapCheck heap path) := rfl
      simp only [Option.map_some, aegisProtectedFileAdd, listAdd]
      unfold heapCheck at checked
      cases answer : heap.registry.admission aegisMaxProtectedFiles (filePathHit path.val) with
      | full =>
          rw [answer] at checked
          exact ⟨heap, _, .step idle checked (.refl _ _), rfl, rfl⟩
      | duplicate =>
          rw [answer] at checked
          exact ⟨heap, _, .step idle checked (.refl _ _), rfl, rfl⟩
      | admitted =>
          rw [answer] at checked
          cases memory : env.kmalloc with
          | none => exact ⟨heap, _, .step idle checked (.step idle rfl (.refl _ _)), rfl, rfl⟩
          | some junk =>
              let hashed : StepChoice :=
                { idle with payload := initialHash shash env path.val junk }
              exact ⟨_, _, .step idle checked <| .step hashed rfl <| .step idle rfl <|
                .step idle rfl <| .refl _ _, FileHeap.registry_link fresh live _, rfl⟩

include distinct in
theorem heapDel_alone (path : Option PathKey) :
    ∃ (after : FileHeap) (last : HeapCall),
      heapProgram.RunsAlone heap (.del path) after last ∧
        after.registry = (aegisProtectedFileDel (path.map Subtype.val) heap.registry).list ∧
        last.ret = some (aegisProtectedFileDel (path.map Subtype.val) heap.registry).ret := by
  let idle : StepChoice := ⟨none, aegisCfg, true, true⟩
  cases path with
  | none => exact ⟨heap, _, .step idle rfl (.refl _ _), rfl, rfl⟩
  | some path =>
      simp only [Option.map_some, aegisProtectedFileDel, listDel, FileHeap.listed_registry]
      cases target : heap.linked.find? (heap.hits path.val) with
      | none =>
          refine ⟨heap, .delReturned (some path) .absent, .step idle ?_ (.refl _ _), rfl, rfl⟩
          simp [heapProgram, HeapCall.advance, target]
      | some id =>
          refine ⟨heap.release path.val id, .delReturned (some path) .removed,
            .step idle ?_ (.refl _ _), FileHeap.registry_release distinct target, rfl⟩
          simp [heapProgram, HeapCall.advance, target]

end Alone

/-! ### Live entries -/

/-- Every linked entry is live, is linked once, and belongs to an earlier call. -/
structure HeapSound (calls : Nat) (heap : FileHeap) : Prop where
  live : ∀ id ∈ heap.linked, id ∈ heap.liveIds
  distinct : heap.linked.Nodup
  below : ∀ id ∈ heap.linked, id < calls

/-- What a call knows of the entry it allocates: nobody has linked it before
the call does, and it is live until the call has logged it. -/
def HeapCall.owns (index : Nat) (heap : FileHeap) : HeapCall → Prop
  | .add _ => index ∉ heap.linked
  | .addAdmitted _ => index ∉ heap.linked
  | .addFilled _ => index ∉ heap.linked ∧ index ∈ heap.liveIds
  | .addLinked _ => index ∈ heap.liveIds
  | _ => True

def HeapCall.finished : HeapCall → Bool
  | .addFailed _ _ => true
  | .addLogged _ _ => true
  | .delReturned _ _ => true
  | .queryReturned _ _ => true
  | .listed _ _ => true
  | _ => false

/-- The steps by what they do to the memory. -/
inductive HeapStep (index : Nat) (heap : FileHeap) : HeapCall → FileHeap → HeapCall → Prop
  | finish {call after} (finished : after.finished = true) : HeapStep index heap call heap after
  | checked {path} : HeapStep index heap (.add (some path)) heap (.addAdmitted path)
  | fill {path file} :
      HeapStep index heap (.addAdmitted path) (heap.allocate index file) (.addFilled path)
  | link {path} : HeapStep index heap (.addFilled path) (heap.link index) (.addLinked path)
  | release {path id} (target : HeapCall.frees heap (.del (some path)) = some id) :
      HeapStep index heap (.del (some path)) (heap.release path.val id)
        (.delReturned (some path) .removed)

theorem HeapCall.advance_step {index : Nat} {heap next : FileHeap} {choice : StepChoice}
    {call after : HeapCall} (advanced : call.advance index heap choice = some (next, after)) :
    HeapStep index heap call next after := by
  cases call with
  | add path =>
      cases path with
      | none =>
          obtain ⟨rfl, rfl⟩ := Prod.mk.inj (Option.some.inj advanced)
          exact .finish rfl
      | some path =>
          obtain ⟨rfl, rfl⟩ := Prod.mk.inj (Option.some.inj advanced)
          unfold heapCheck
          split
          · exact .finish rfl
          · exact .finish rfl
          · exact .checked
  | addAdmitted path =>
      simp only [HeapCall.advance] at advanced
      split at advanced
      · obtain ⟨rfl, rfl⟩ := Prod.mk.inj (Option.some.inj advanced)
        exact .finish rfl
      · obtain ⟨rfl, rfl⟩ := Prod.mk.inj (Option.some.inj advanced)
        exact .fill
  | addFilled path =>
      obtain ⟨rfl, rfl⟩ := Prod.mk.inj (Option.some.inj advanced)
      exact .link
  | addLinked path =>
      obtain ⟨rfl, rfl⟩ := Prod.mk.inj (Option.some.inj advanced)
      exact .finish rfl
  | del path =>
      cases path with
      | none =>
          obtain ⟨rfl, rfl⟩ := Prod.mk.inj (Option.some.inj advanced)
          exact .finish rfl
      | some path =>
          simp only [HeapCall.advance] at advanced
          split at advanced
          next missed =>
            obtain ⟨rfl, rfl⟩ := Prod.mk.inj (Option.some.inj advanced)
            exact .finish rfl
          next id target =>
            obtain ⟨rfl, rfl⟩ := Prod.mk.inj (Option.some.inj advanced)
            exact .release target
  | query path =>
      obtain ⟨rfl, rfl⟩ := Prod.mk.inj (Option.some.inj advanced)
      exact .finish rfl
  | listing =>
      obtain ⟨rfl, rfl⟩ := Prod.mk.inj (Option.some.inj advanced)
      exact .finish rfl
  | addFailed path result => cases advanced
  | addLogged path record => cases advanced
  | delReturned path result => cases advanced
  | queryReturned path answer => cases advanced
  | listed count rows => cases advanced

/-- The add has linked its entry and has yet to log it. -/
def HeapCall.unlogged : HeapCall → Bool
  | .addLinked _ => true
  | _ => false

/-- The move does not free an entry whose add has yet to log it. -/
def FreesLogged (pool : HeapPool) : Move HeapCall StepChoice → Prop
  | .spawn _ => True
  | .advance index _ =>
      ∀ call ∈ pool.calls[index]?, ∀ id ∈ call.frees pool.shared,
        ∀ adder ∈ pool.calls[id]?, adder.unlogged = false

instance decidableFreesLogged (pool : HeapPool) :
    ∀ move, Decidable (FreesLogged pool move)
  | .spawn _ => isTrue trivial
  | .advance index _ =>
      inferInstanceAs (Decidable (∀ call ∈ pool.calls[index]?, ∀ id ∈ call.frees pool.shared,
        ∀ adder ∈ pool.calls[id]?, adder.unlogged = false))

theorem HeapStep.sound {index calls : Nat} {heap next : FileHeap} {call after : HeapCall}
    (step : HeapStep index heap call next after) (sound : HeapSound calls heap)
    (inside : index < calls) (owns : call.owns index heap) : HeapSound calls next := by
  cases step with
  | finish finished => exact sound
  | checked => exact sound
  | fill =>
      refine ⟨fun id member => ?_, sound.distinct, sound.below⟩
      rw [FileHeap.liveIds_allocate]
      exact List.mem_append_left _ (sound.live id member)
  | link =>
      refine ⟨fun id member => ?_, ?_, fun id member => ?_⟩
      · rcases List.mem_append.mp member with earlier | new
        · exact sound.live id earlier
        · rw [List.mem_singleton.mp new]
          exact owns.2
      · exact List.nodup_append.mpr ⟨sound.distinct, List.nodup_singleton index, by
          rintro id earlier _ new rfl
          exact owns.1 (List.mem_singleton.mp new ▸ earlier)⟩
      · rcases List.mem_append.mp member with earlier | new
        · exact sound.below id earlier
        · exact List.mem_singleton.mp new ▸ inside
  | release target =>
      refine ⟨fun id member => ?_, ?_, fun id member => ?_⟩
      · obtain ⟨earlier, different⟩ := FileHeap.mem_linked_release sound.distinct target member
        exact FileHeap.mem_liveIds_release.mpr ⟨sound.live id earlier, different⟩
      · exact sound.distinct.sublist List.eraseP_sublist
      · exact sound.below id (FileHeap.mem_linked_release sound.distinct target member).1

theorem HeapCall.owns_of_finished {index : Nat} {heap : FileHeap} {call : HeapCall}
    (finished : call.finished = true) : call.owns index heap := by
  cases call <;> trivial

theorem HeapStep.owns {index : Nat} {heap next : FileHeap} {call after : HeapCall}
    (step : HeapStep index heap call next after) (owns : call.owns index heap) :
    after.owns index next := by
  cases step with
  | finish finished => exact HeapCall.owns_of_finished finished
  | checked => exact owns
  | fill =>
      refine ⟨owns, ?_⟩
      rw [FileHeap.liveIds_allocate]
      exact List.mem_append_right _ (List.mem_singleton.mpr rfl)
  | link => exact owns.2
  | release target => trivial

/-- A call's own knowledge survives when nobody links its entry, and nobody
frees it while it is unlinked or unlogged. -/
theorem HeapCall.owns_mono {index : Nat} {heap next : FileHeap} {call : HeapCall}
    (owns : call.owns index heap)
    (unlinked : index ∉ heap.linked → index ∉ next.linked)
    (live : (index ∉ heap.linked ∨ call.unlogged = true) → index ∈ heap.liveIds →
      index ∈ next.liveIds) :
    call.owns index next := by
  cases call with
  | add path => exact unlinked owns
  | addAdmitted path => exact unlinked owns
  | addFilled path => exact ⟨unlinked owns.1, live (Or.inl owns.1) owns.2⟩
  | addLinked path => exact live (Or.inr rfl) owns
  | _ => trivial

theorem HeapStep.owns_other {index calls other : Nat} {heap next : FileHeap}
    {call after bystander : HeapCall} (step : HeapStep index heap call next after)
    (sound : HeapSound calls heap) (different : other ≠ index)
    (waits : ∀ id, call.frees heap = some id → bystander.unlogged = true → other ≠ id)
    (owns : bystander.owns other heap) : bystander.owns other next := by
  cases step with
  | finish finished => exact owns
  | checked => exact owns
  | fill =>
      refine HeapCall.owns_mono owns id fun _ live => ?_
      rw [FileHeap.liveIds_allocate]
      exact List.mem_append_left _ live
  | link =>
      refine HeapCall.owns_mono owns (fun unlinked member => ?_) fun _ live => live
      rcases List.mem_append.mp member with earlier | new
      · exact unlinked earlier
      · exact different (List.mem_singleton.mp new)
  | @release path id target =>
      refine HeapCall.owns_mono owns (fun unlinked member => ?_) fun kept live => ?_
      · exact unlinked (FileHeap.mem_linked_release sound.distinct target member).1
      · refine FileHeap.mem_liveIds_release.mpr ⟨live, ?_⟩
        rcases kept with unlinked | unlogged
        · rintro rfl
          exact unlinked (List.mem_of_find?_eq_some target)
        · exact waits id target unlogged

theorem keepsUnder_heapSound :
    heapProgram.machine.KeepsUnder FreesLogged fun pool =>
      HeapSound pool.calls.length pool.shared ∧
        ∀ index call, pool.calls[index]? = some call → HeapCall.owns index pool.shared call := by
  apply Program.keepsUnder_of_calls HeapSound HeapCall.owns
  · intro count heap call sound enters
    refine ⟨⟨sound.live, sound.distinct, fun id member => ?_⟩, ?_⟩
    · exact Nat.lt_succ_of_lt (sound.below id member)
    · cases call with
      | add path => exact fun member => Nat.lt_irrefl count (sound.below count member)
      | _ => trivial
  · intro pool index choice call next after frees sound found owns advanced
    have step := HeapCall.advance_step advanced
    have inside := (List.getElem?_eq_some_iff.mp found).1
    refine ⟨step.sound sound inside owns, step.owns owns,
      fun other different bystander lookup before => step.owns_other sound different ?_ before⟩
    rintro id target unlogged rfl
    have logged : bystander.unlogged = false := frees call found other target bystander lookup
    simp [logged] at unlogged

/-- Every loop over the list stays on linked entries. -/
theorem HeapCall.reads_cases {index : Nat} {heap : FileHeap} {choice : StepChoice}
    {call : HeapCall} {id : Nat} (read : id ∈ call.reads index heap choice) :
    id ∈ heap.linked ∨ (id = index ∧ call.unlogged = true) := by
  cases call with
  | add path =>
      cases path with
      | none => cases read
      | some path =>
          simp only [HeapCall.reads] at read
          split at read
          · cases read
          · exact Or.inl (List.mem_of_mem_take read)
  | addLinked path => exact Or.inr ⟨List.mem_singleton.mp read, rfl⟩
  | del path =>
      cases path with
      | none => cases read
      | some path => exact Or.inl (List.mem_of_mem_take read)
  | query path =>
      cases path with
      | none => cases read
      | some path =>
          simp only [HeapCall.reads] at read
          split at read
          · exact Or.inl (List.mem_of_mem_take read)
          · cases read
  | listing => exact Or.inl read
  | _ => cases read

/-- In every run in which no del frees an entry before its add has logged it,
the next step of every call reads live entries only. -/
theorem heapProgram_reads_live (moves : List (Move HeapCall StepChoice)) (final : HeapPool)
    (ran : heapProgram.machine.run HeapPool.boot moves = some final)
    (frees : heapProgram.machine.Meets FreesLogged HeapPool.boot moves)
    (index : Nat) (call : HeapCall) (choice : StepChoice)
    (found : final.calls[index]? = some call) :
    ∀ id ∈ call.reads index final.shared choice, id ∈ final.shared.liveIds := by
  have start : HeapSound HeapPool.boot.calls.length HeapPool.boot.shared :=
    ⟨fun _ => List.not_mem_nil.elim, List.nodup_nil, fun _ => List.not_mem_nil.elim⟩
  obtain ⟨sound, owns⟩ := keepsUnder_heapSound.run frees
    ⟨start, fun index call lookup => by cases lookup⟩ ran
  intro id read
  rcases HeapCall.reads_cases read with linked | ⟨rfl, unlogged⟩
  · exact sound.live id linked
  · have kept := owns id call found
    cases call with
    | addLinked path => exact kept
    | _ => cases unlogged

/-- Two adds: the first has logged its entry, the second is between its insertion
and its log line. -/
def bothLinked : List (Move HeapCall StepChoice) :=
  [.spawn (.add (some shadowKey)), .spawn (.add (some passwdKey)), .advance 1 supplied,
    .advance 1 supplied] ++ List.replicate 4 (.advance 0 supplied) ++ [.advance 1 supplied]

def bothHeap : FileHeap :=
  ⟨[⟨1, fileEntry passwdKey.val (sha256 [], true)⟩, ⟨0, fileEntry shadowKey.val (sha256 [], true)⟩],
    [0, 1], 2⟩

def bothCalls : List HeapCall :=
  [.addLogged shadowKey (some (.protectedFileAdded shadowKey.val true)), .addLinked passwdKey]

/-- A del frees the first entry while the second add has yet to log its own. -/
theorem heapProgram_reads_live_bothLinked :
    ∃ final, heapProgram.machine.run HeapPool.boot
        (bothLinked ++ [.spawn (.del (some shadowKey)), .advance 2 supplied]) = some final ∧
      final.calls = bothCalls ++ [.delReturned (some shadowKey) .removed] ∧
      0 ∉ final.shared.liveIds ∧
      ∀ id ∈ HeapCall.reads 1 final.shared supplied (.addLinked passwdKey),
        id ∈ final.shared.liveIds := by
  have frees : heapProgram.machine.Meets FreesLogged HeapPool.boot
      (bothLinked ++ [.spawn (.del (some shadowKey)), .advance 2 supplied]) := by
    decide +kernel
  have linked : heapProgram.machine.run HeapPool.boot bothLinked = some ⟨bothHeap, bothCalls⟩ := rfl
  have target : HeapCall.frees bothHeap (.del (some shadowKey)) = some 0 := by decide +kernel
  have freed : heapProgram.machine.run ⟨bothHeap, bothCalls⟩
      [.spawn (.del (some shadowKey)), .advance 2 supplied] =
      some ⟨bothHeap.release shadowKey.val 0,
        bothCalls ++ [.delReturned (some shadowKey) .removed]⟩ := by
    simp only [HeapCall.frees] at target
    simp [Machine.run, Program.machine, heapProgram, HeapCall.advance, bothCalls, target]
  have ran := heapProgram.machine.run_append_eq_some.mpr ⟨_, linked, freed⟩
  refine ⟨_, ran, rfl, fun member => (FileHeap.mem_liveIds_release.mp member).2 rfl, ?_⟩
  exact heapProgram_reads_live _ _ ran frees 1 _ supplied rfl

/-- An add up to its insertion. -/
def shadowLinked : List (Move HeapCall StepChoice) :=
  .spawn (.add (some shadowKey)) :: List.replicate 3 (.advance 0 supplied)

/-- The memory with the one entry of that add. -/
def shadowHeap : FileHeap := ⟨[⟨0, fileEntry shadowKey.val (sha256 [], true)⟩], [0], 1⟩

/-- A del of the path runs between the insertion and the log line: the log line
then reads an entry that has been freed. -/
theorem addLog_reads_freed_entry :
    ∃ final, heapProgram.machine.run HeapPool.boot
        (shadowLinked ++ [.spawn (.del (some shadowKey)), .advance 1 supplied]) = some final ∧
      final.calls = [.addLinked shadowKey, .delReturned (some shadowKey) .removed] ∧
      0 ∈ HeapCall.reads 0 final.shared supplied (.addLinked shadowKey) ∧
      0 ∉ final.shared.liveIds := by
  have linked : heapProgram.machine.run HeapPool.boot shadowLinked =
      some ⟨shadowHeap, [.addLinked shadowKey]⟩ := rfl
  have target : HeapCall.frees shadowHeap (.del (some shadowKey)) = some 0 := by decide +kernel
  have freed : heapProgram.machine.run ⟨shadowHeap, [.addLinked shadowKey]⟩
      [.spawn (.del (some shadowKey)), .advance 1 supplied] =
      some ⟨shadowHeap.release shadowKey.val 0,
        [.addLinked shadowKey, .delReturned (some shadowKey) .removed]⟩ := by
    simp only [HeapCall.frees] at target
    simp [Machine.run, Program.machine, heapProgram, HeapCall.advance, target]
  refine ⟨_, heapProgram.machine.run_append_eq_some.mpr ⟨_, linked, freed⟩, rfl, ?_, ?_⟩
  · exact List.mem_singleton.mpr rfl
  · exact fun member => (FileHeap.mem_liveIds_release.mp member).2 rfl

end Aegis.Concurrent
