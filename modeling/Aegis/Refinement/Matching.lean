import Aegis.Refinement.Encodings

/-!
Owns which queries the entries of the lists match. A field of an entry is
compared as a whole, so an entry is matched by what its field holds of the
name it was made from, and by nothing longer or shorter. In a reachable policy
every entry was made from a name that fits in its field.

Does not own: what follows from a match.
-/

namespace Aegis.Refinement

open Aegis.Foundation
open Aegis.Kernel
open Aegis.Policy
open Aegis.Control
open CString (ascii)

/-! ### Where entries come from -/

def FromPath (entry : AegisProtectedFile) : Prop :=
  ∃ (path : PathKey) (hash : Digest × Bool), entry = fileEntry path.val hash

def FromComm (entry : AegisProtectedProc) : Prop :=
  ∃ (comm : CommKey) (pid : Int), entry = procEntry comm.val pid

abbrev SoundComms : ProcList → Prop := SoundList aegisMaxProtectedProcs FromComm

theorem soundComms_boot (procAlloc : Fin 3 → Bool) (syscallAlloc : Fin 5 → Bool) :
    SoundComms (Policy.boot procAlloc syscallAlloc).procs := by
  apply aegisProtectProcessAdd_sound _ ⟨⟨.lit "systemd", by decide⟩, 1, rfl⟩
  apply aegisProtectProcessAdd_sound _ ⟨⟨.lit "init", by decide⟩, 1, rfl⟩
  apply aegisProtectProcessAdd_sound _ ⟨⟨.lit "sshd", by decide⟩, 0, rfl⟩
  exact soundList_empty _ _

/-- The endpoint scans at most 15 bytes of a name. -/
theorem soundComms_step (shash : Shash) {state : KernelState} (operation : Operation)
    (sound : SoundComms state.policy.procs) :
    SoundComms ((kernel shash).step state operation).1.policy.procs := by
  cases operation with
  | write env endpoint ubuf =>
      show SoundComms (aectlWrite shash env endpoint ubuf state.policy).policy.procs
      rw [aectlWrite_eq]
      cases parseWrite env endpoint ubuf with
      | error ret => exact sound
      | ok command =>
          cases command with
          | addProc comm pid => exact aegisProtectProcessAdd_sound sound ⟨comm, pid, rfl⟩
          | delProc comm pid => exact listDel_sound sound _ _
          | _ => exact sound
  | sysctl knob result => exact sound
  | hook env request => exact sound

theorem soundComms_of_reachable {shash : Shash} {policy : PolicyState}
    (reached : Reachable shash policy) : SoundComms policy.procs := by
  obtain ⟨procAlloc, syscallAlloc, operations, each, rfl⟩ := reached
  exact Transducer.run_of_forall (fun state : KernelState => SoundComms state.policy.procs)
    (fun _ operation _ holds => soundComms_step shash operation holds) (soundComms_boot _ _) each

/-! ### Matching -/

/-- Every entry was made from a name that fits in its field, and is matched by
that name alone. -/
structure KeepsNames (policy : PolicyState) : Prop where
  files : ∀ entry ∈ policy.files.entries, ∃ key hash, key.length ≤ aegisPathLen - 1 ∧
    entry = fileEntry key hash ∧ ∀ query, filePathHit query entry = true ↔ query = key
  procs : ∀ entry ∈ policy.procs.entries, ∃ key pid, key.length ≤ aegisCommLen - 1 ∧
    entry = procEntry key pid ∧ ∀ query, procCommHit query entry = true ↔ query = key

theorem keepsNames_of_reachable {shash : Shash} {policy : PolicyState}
    (reached : Reachable shash policy) : KeepsNames policy where
  files := by
    have wellFormed : WellFormed FromPath policy :=
      wellFormed_of_paths (fun path hash => ⟨path, hash, rfl⟩) reached
    intro entry member
    obtain ⟨⟨path, fits⟩, hash, rfl⟩ := wellFormed.files.good entry member
    refine ⟨path, hash, Nat.le_sub_one_of_lt fits, rfl, fun query => ?_⟩
    rw [filePathHit_iff, fileEntry_path_text_of_fits fits]
    exact eq_comm
  procs := by
    intro entry member
    obtain ⟨⟨comm, fits⟩, pid, rfl⟩ := (soundComms_of_reachable reached).good entry member
    refine ⟨comm, pid, Nat.le_sub_one_of_lt fits, rfl, fun query => ?_⟩
    rw [procCommHit_iff, procEntry_comm_text_of_fits fits]
    exact eq_comm

/-- The comparisons of the two lists are equality with what the field holds,
never a prefix match, and the names of every reachable policy are held whole. -/
theorem fieldComparison_exact (shash : Shash) :
    (∀ hash, ComparesExactly aegisPathLen fun key => (fileEntry key hash).path.memory) ∧
      (∀ pid, ComparesExactly aegisCommLen fun key => (procEntry key pid).comm.memory) ∧
      ∀ policy, Reachable shash policy → KeepsNames policy := by
  refine ⟨fun hash => ?_, fun pid => ?_, fun policy reached => ?_⟩
  · exact CBuffer.filled_comparesExactly (by decide)
  · exact CBuffer.filled_comparesExactly (by decide)
  · exact keepsNames_of_reachable reached

/-- A name that continues the one in the list is not matched. -/
theorem fieldComparison_exact_sshd :
    KeepsNames (afterWriting .protectedFilesAdd [ascii "/etc/passwd"]) ∧
      strncmp (procEntry (.lit "sshd") 0).comm.memory (ascii "sshd-session" ++ [0])
        aegisCommLen ≠ 0 := by
  obtain ⟨-, comms, reachable⟩ := fieldComparison_exact sha256Shash
  refine ⟨reachable _ (afterWriting_reachableBy fun _ _ => trivial), fun equal => ?_⟩
  have same := ((comms 0).whole (.lit "sshd") (.lit "sshd-session") [] (by decide)).mp equal
  exact absurd same (by decide)

end Aegis.Refinement
