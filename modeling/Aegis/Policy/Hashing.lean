import Aegis.Policy.Files

/-!
Owns the digest of a protected file over every outcome of the calls that
compute it: however the reads split the content, the digest is that of the
whole content, and a call that fails anywhere leaves the entry without a valid
digest.

Does not own: the computation itself, or what changes the file later.
-/

namespace Aegis.Policy

open Aegis.Foundation
open Aegis.Kernel

/-! ### The calls that can fail -/

/-- A call of `aegis_compute_file_hash`. Reads are counted from zero, and an
update belongs to the read before it. -/
inductive HashCall where
  | allocShash
  | allocDesc
  | init
  | allocBuf
  | read (index : Nat)
  | update (index : Nat)
  | final
deriving DecidableEq

/-- The loop has not seen the end of the file before this read. -/
def Reached (reads : List ReadStep) (index : Nat) : Prop :=
  ∀ step ∈ reads.take index, ∃ chunk outcome, step = .bytes chunk outcome ∧ chunk ≠ []

def ReadFails (reads : List ReadStep) (index : Nat) : Prop :=
  Reached reads index ∧ ∃ error, reads[index]? = some (.failed error)

def UpdateFails (reads : List ReadStep) (index : Nat) : Prop :=
  Reached reads index ∧
    ∃ chunk error, reads[index]? = some (.bytes chunk (some error)) ∧ chunk ≠ []

def HashEnv.Fails (env : HashEnv) : HashCall → Prop
  | .allocShash => env.allocShash ≠ none
  | .allocDesc => env.allocDesc = false
  | .init => env.init ≠ none
  | .allocBuf => env.allocBuf = false
  | .read index => ReadFails env.reads index
  | .update index => UpdateFails env.reads index
  | .final => env.final ≠ none

/-- The bytes the loop reads before the end of the file. -/
def readContent : List ReadStep → List UInt8
  | [] => []
  | .failed _ :: _ => []
  | .bytes chunk _ :: rest => if chunk = [] then [] else chunk ++ readContent rest

/-! ### The loop -/

theorem reached_succ_iff {step : ReadStep} {rest : List ReadStep} {index : Nat} :
    Reached (step :: rest) (index + 1) ↔
      (∃ chunk outcome, step = .bytes chunk outcome ∧ chunk ≠ []) ∧ Reached rest index := by
  simp [Reached]

theorem readFails_succ_iff {step : ReadStep} {rest : List ReadStep} {index : Nat} :
    ReadFails (step :: rest) (index + 1) ↔
      (∃ chunk outcome, step = .bytes chunk outcome ∧ chunk ≠ []) ∧ ReadFails rest index := by
  rw [ReadFails, reached_succ_iff, and_assoc]
  rfl

theorem updateFails_succ_iff {step : ReadStep} {rest : List ReadStep} {index : Nat} :
    UpdateFails (step :: rest) (index + 1) ↔
      (∃ chunk outcome, step = .bytes chunk outcome ∧ chunk ≠ []) ∧ UpdateFails rest index := by
  rw [UpdateFails, reached_succ_iff, and_assoc]
  rfl

/-- A read or update that fails ends the loop with an error. -/
theorem hashChunks_ret_of_fails {shash : Shash} {desc : shash.Desc} {reads : List ReadStep}
    {index : Nat} (fails : ReadFails reads index ∨ UpdateFails reads index) :
    (hashChunks shash desc reads).1 ≠ 0 := by
  induction index generalizing desc reads with
  | zero =>
      rcases fails with ⟨-, error, here⟩ | ⟨-, chunk, error, here, nonempty⟩
      · rw [← List.head?_eq_getElem?, List.head?_eq_some_iff] at here
        obtain ⟨rest, rfl⟩ := here
        exact error.ret_ne_zero
      · rw [← List.head?_eq_getElem?, List.head?_eq_some_iff] at here
        obtain ⟨rest, rfl⟩ := here
        simp [hashChunks, nonempty]
  | succ index inductionHypothesis =>
      cases reads with
      | nil => rcases fails with ⟨-, error, here⟩ | ⟨-, chunk, error, here, -⟩ <;> simp at here
      | cons step rest =>
          rw [readFails_succ_iff, updateFails_succ_iff, ← and_or_left] at fails
          obtain ⟨⟨chunk, outcome, rfl, nonempty⟩, later⟩ := fails
          cases outcome with
          | some error => simp [hashChunks, nonempty]
          | none =>
              rw [hashChunks, if_neg nonempty]
              exact inductionHypothesis later

/-- A loop without failures absorbs the content. -/
theorem hashChunks_of_succeeds {shash : Shash} (desc : shash.Desc) {reads : List ReadStep}
    (succeeds : ∀ index, ¬ ReadFails reads index ∧ ¬ UpdateFails reads index) :
    hashChunks shash desc reads = (0, shash.update desc (readContent reads)) := by
  induction reads generalizing desc with
  | nil => rw [readContent, shash.update_nil, hashChunks]
  | cons step rest inductionHypothesis =>
      cases step with
      | failed error =>
          have first : ReadFails (.failed error :: rest) 0 := ⟨by simp [Reached], error, rfl⟩
          exact absurd first (succeeds 0).1
      | bytes chunk outcome =>
          by_cases ended : chunk = []
          · simp [hashChunks, readContent, ended, shash.update_nil]
          · have present : ∃ bytes result,
                ReadStep.bytes chunk outcome = .bytes bytes result ∧ bytes ≠ [] :=
              ⟨chunk, outcome, rfl, ended⟩
            cases outcome with
            | some error =>
                have first : UpdateFails (.bytes chunk (some error) :: rest) 0 :=
                  ⟨by simp [Reached], chunk, error, rfl, ended⟩
                exact absurd first (succeeds 0).2
            | none =>
                have later := inductionHypothesis (shash.update desc chunk) fun index =>
                  ⟨fun fails => (succeeds (index + 1)).1 (readFails_succ_iff.mpr ⟨present, fails⟩),
                    fun fails =>
                      (succeeds (index + 1)).2 (updateFails_succ_iff.mpr ⟨present, fails⟩)⟩
                simp only [hashChunks, readContent, if_neg ended]
                rw [later, shash.update_update]

/-! ### The whole computation -/

theorem aegisComputeFileHash_of_fails (shash : Shash) {env : HashEnv} {call : HashCall}
    (fails : env.Fails call) :
    (aegisComputeFileHash shash (some env) true).1 ≠ 0 := by
  simp only [aegisComputeFileHash]
  cases tfm : env.allocShash with
  | some error => exact error.ret_ne_zero
  | none =>
      cases desc : env.allocDesc with
      | false => exact Errno.ret_ne_zero _
      | true =>
          cases init : env.init with
          | some error => exact error.ret_ne_zero
          | none =>
              cases buf : env.allocBuf with
              | false => exact Errno.ret_ne_zero _
              | true =>
                  simp only [Bool.not_true, Bool.false_eq_true, if_false]
                  split
                  · assumption
                  · -- The loop has succeeded, so only the last call is left to fail.
                    rename_i finished
                    cases final : env.final with
                    | some error => exact error.ret_ne_zero
                    | none =>
                        cases call with
                        | read index =>
                            exact absurd (hashChunks_ret_of_fails (Or.inl fails)) finished
                        | update index =>
                            exact absurd (hashChunks_ret_of_fails (Or.inr fails)) finished
                        | _ => simp [HashEnv.Fails, tfm, desc, init, buf, final] at fails

theorem aegisComputeFileHash_of_succeeds (shash : Shash) {env : HashEnv}
    (succeeds : ∀ call, ¬ env.Fails call) :
    aegisComputeFileHash shash (some env) true =
      (0, some (shash.digest (readContent env.reads))) := by
  have tfm : env.allocShash = none := not_not.mp (succeeds .allocShash)
  have desc : env.allocDesc = true := Bool.not_eq_false _ ▸ succeeds .allocDesc
  have init : env.init = none := not_not.mp (succeeds .init)
  have buf : env.allocBuf = true := Bool.not_eq_false _ ▸ succeeds .allocBuf
  have final : env.final = none := not_not.mp (succeeds .final)
  have loop := hashChunks_of_succeeds shash.init fun index =>
    ⟨succeeds (.read index), succeeds (.update index)⟩
  simp only [aegisComputeFileHash, tfm, desc, init, buf, final, loop, shash.final_update]
  rfl

/-- A new entry has a valid digest exactly when the path resolves, the file
opens and no call fails; the digest is then that of the content. -/
theorem initialHash_valid_iff {shash : Shash} {env : FileAddEnv} {path : CString}
    {junk : Digest} :
    (initialHash shash env path junk).2 = true ↔
      ∃ inode, env.kernPath path = .ok inode ∧ env.dentryOpen inode = none ∧
        (∀ call, ¬ (env.hashEnv inode).Fails call) ∧
        initialHash shash env path junk =
          (shash.digest (readContent (env.hashEnv inode).reads), true) := by
  constructor
  · intro valid
    unfold initialHash at valid
    cases resolved : env.kernPath path with
    | error error => simp [resolved] at valid
    | ok inode =>
        cases opened : env.dentryOpen inode with
        | some error => simp [resolved, opened] at valid
        | none =>
            have succeeds : ∀ call, ¬ (env.hashEnv inode).Fails call := by
              intro call fails
              have failed := aegisComputeFileHash_of_fails shash fails
              simp only [resolved, opened] at valid
              split at valid
              next computed => simp [computed] at failed
              next => cases valid
            refine ⟨inode, rfl, opened, succeeds, ?_⟩
            simp only [initialHash, resolved, opened,
              aegisComputeFileHash_of_succeeds shash succeeds]
  · rintro ⟨inode, -, -, -, hashed⟩
    rw [hashed]

/-- The digest is SHA-256 of the content however the reads split it, a failed
call gives an error and an entry without a valid digest, and a valid digest is
that of everything the loop read. -/
theorem fileDigest_exact (shash : Shash) (isSha256 : shash.digest = sha256) :
    (∀ (content : List UInt8) (chunks : List (List UInt8)), chunks.flatten = content →
      (∀ chunk ∈ chunks, chunk ≠ [] ∧ chunk.length ≤ pageSize) →
        aegisComputeFileHash shash (some (.reading chunks)) true = (0, some (sha256 content))) ∧
    (∀ (env : FileAddEnv) (path : CString) (inode : Inode) (call : HashCall) (files : FileList),
      env.kernPath path = .ok inode → env.dentryOpen inode = none →
      (env.hashEnv inode).Fails call →
        (aegisComputeFileHash shash (some (env.hashEnv inode)) true).1 ≠ 0 ∧
        ((aegisProtectedFileAdd shash env (some path) files).ret = 0 →
          ∃ entry, (aegisProtectedFileAdd shash env (some path) files).list =
            files.linkTail entry ∧ entry.hashValid = false)) ∧
    ∀ (env : FileAddEnv) (path : CString) (junk : Digest),
      (initialHash shash env path junk).2 = true →
        ∃ inode, env.kernPath path = .ok inode ∧ (∀ call, ¬ (env.hashEnv inode).Fails call) ∧
          (initialHash shash env path junk).1 = sha256 (readContent (env.hashEnv inode).reads) := by
  refine ⟨?_, ?_, ?_⟩
  · rintro content chunks rfl bounded
    rw [aegisComputeFileHash_reading shash fun chunk member => (bounded chunk member).1, isSha256]
  · intro env path inode call files resolved opened fails
    refine ⟨aegisComputeFileHash_of_fails shash fails, fun added => ?_⟩
    obtain ⟨junk, -, linked⟩ := aegisProtectedFileAdd_list_of_ret_zero added
    refine ⟨_, linked, ?_⟩
    show (initialHash shash env path junk).2 = false
    rw [← Bool.not_eq_true, initialHash_valid_iff]
    rintro ⟨other, found, -, succeeds, -⟩
    obtain rfl : inode = other := Except.ok.inj (resolved.symm.trans found)
    exact succeeds call fails
  · intro env path junk valid
    obtain ⟨inode, resolved, -, succeeds, hashed⟩ := initialHash_valid_iff.mp valid
    exact ⟨inode, resolved, succeeds, by rw [hashed, isSha256]⟩

/-- A file of three bytes, read in two chunks, where the second update fails. -/
def brokenRead : FileAddEnv where
  kmalloc := some ⟨List.replicate 32 255, by decide⟩
  kernPath := fun _ => .ok 7
  dentryOpen := fun _ => none
  hashEnv := fun _ =>
    { HashEnv.reading [] with reads := [.bytes [97] none, .bytes [98, 99] (some .einval)] }

theorem fileDigest_exact_abc :
    sha256Shash.digest = sha256 ∧
      aegisComputeFileHash sha256Shash (some (.reading [[97], [98, 99]])) true =
        (0, some (sha256 [97, 98, 99])) ∧
      ∃ entry, (aegisProtectedFileAdd sha256Shash brokenRead (some (.lit "/abc")) .empty).list =
        Registry.empty.linkTail entry ∧ entry.hashValid = false := by
  have exact := fileDigest_exact sha256Shash rfl
  have fails : (brokenRead.hashEnv 7).Fails (.update 1) := by
    refine ⟨?_, [98, 99], .einval, rfl, by decide⟩
    rintro step member
    exact ⟨[97], none, by simpa [brokenRead] using member, by decide⟩
  exact ⟨rfl, exact.1 _ _ rfl (by decide),
    (exact.2.1 brokenRead (.lit "/abc") 7 (.update 1) .empty rfl rfl fails).2 rfl⟩

end Aegis.Policy
