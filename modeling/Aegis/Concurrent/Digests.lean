import Aegis.Kernel.FileSystem
import Aegis.Concurrent.Lifetimes

/-!
Owns the digest that an add records: the file is read chunk by chunk, the hash
is finalised, and the entry is linked later, while other callers write files
whenever `aegis_file_permission` lets them. A write is two steps, the hook and
the change of the content.

The digest of a new entry is that of the file's content at the moment of
linking in every run in which the file is not written between the first chunk
and the linking.

Does not own: opens and descriptors, renames, or unlisted ways to change a file.
-/

namespace Aegis.Concurrent

open Aegis.Foundation
open Aegis.Kernel
open Aegis.Policy

/-! ### Steps -/

/-- The policy and the contents of all files. -/
structure FileWorld where
  policy : PolicyState
  content : Contents

def FileWorld.withFiles (world : FileWorld) (files : FileList) : FileWorld :=
  { world with policy := { world.policy with files := files } }

def FileWorld.withContent (world : FileWorld) (inode : Inode) (bytes : List UInt8) : FileWorld :=
  { world with content := Function.update world.content inode bytes }

inductive DigestCall (shash : Shash) where
  | add (path : PathKey)
  | addAdmitted (path : PathKey)
  | addReading (path : PathKey) (inode : Inode) (junk : Digest) (desc : shash.Desc) (pos : Nat)
  | addFilled (path : PathKey) (file : AegisProtectedFile)
  | addReturned (path : PathKey) (result : AddResult)
  | del (path : PathKey)
  | delReturned (path : PathKey) (result : DelResult)
  | write (inode : Inode) (pos : Nat) (bytes : List UInt8)
  | writeAllowed (inode : Inode) (pos : Nat) (bytes : List UInt8)
  | writeReturned (inode : Inode) (ret : Int)

/-- What the environment decides: the memory of the new entry, whether the file
opens and the hash starts, how much a read gives, whether a read, an update or
the final step fails, and what a hook finds. -/
structure DigestChoice where
  kmalloc : Option Digest
  opened : Bool
  size : Nat
  fails : Bool
  env : HookEnv

section Steps

variable (fs : FileSystem) (shash : Shash)

/-- The entry is filled after the hash has been computed, or has failed. -/
def hashed (path : PathKey) (hash : Digest × Bool) : DigestCall shash :=
  .addFilled path (fileEntry path.val hash)

def DigestCall.advance (world : FileWorld) (choice : DigestChoice) :
    DigestCall shash → Option (FileWorld × DigestCall shash)
  | .add path =>
      match world.policy.files.admission aegisMaxProtectedFiles (filePathHit path.val) with
      | .full => some (world, .addReturned path .full)
      | .duplicate => some (world, .addReturned path .duplicate)
      | .admitted => some (world, .addAdmitted path)
  | .addAdmitted path =>
      match choice.kmalloc with
      | none => some (world, .addReturned path .noMemory)
      | some junk =>
          match fs.kernPath path.val with
          | .error _ => some (world, hashed shash path (junk, false))
          | .ok inode =>
              if choice.opened then some (world, .addReading path inode junk shash.init 0)
              else some (world, hashed shash path (junk, false))
  | .addReading path inode junk desc pos =>
      -- `kernel_read` gives at least one byte before the end of the file.
      if 0 < choice.size ∧ choice.size ≤ pageSize then
        let chunk := readAt (world.content inode) pos choice.size
        if choice.fails then some (world, hashed shash path (junk, false))
        else if chunk = [] then some (world, hashed shash path (shash.final desc, true))
        else
          some (world, .addReading path inode junk (shash.update desc chunk) (pos + chunk.length))
      else none
  | .addFilled path file =>
      some (world.withFiles (world.policy.files.linkTail file), .addReturned path .added)
  | .addReturned _ _ => none
  | .del path =>
      if world.policy.files.listed (filePathHit path.val) then
        some (world.withFiles (world.policy.files.unlinkFirst (filePathHit path.val)),
          .delReturned path .removed)
      else some (world, .delReturned path .absent)
  | .delReturned _ _ => none
  | .write inode pos bytes =>
      let outcome :=
        aegisFilePermission world.policy choice.env ⟨fs.dPath inode, fmodeWrite⟩ mayWrite
      some ({ world with policy := { world.policy with stats := outcome.stats } },
        if outcome.ret = 0 then .writeAllowed inode pos bytes else .writeReturned inode outcome.ret)
  | .writeAllowed inode pos bytes =>
      some (world.withContent inode (writeAt (world.content inode) pos bytes),
        .writeReturned inode bytes.length)
  | .writeReturned _ _ => none

def digestProgram : Program FileWorld (DigestCall shash) DigestChoice where
  entry
    | .add _ => true
    | .del _ => true
    | .write _ _ _ => true
    | _ => false
  advance _ world call choice := call.advance fs shash world choice

end Steps

abbrev DigestPool (shash : Shash) := Pool FileWorld (DigestCall shash)

/-! ### Calls that run alone -/

section Alone

variable (fs : FileSystem) {shash : Shash} {world : FileWorld} (path : PathKey) {inode : Inode}

/-- The reads may split the rest of the file in any way. -/
theorem reading_alone (junk : Digest) (env : HookEnv) {chunks : List (List UInt8)}
    (nonempty : ∀ chunk ∈ chunks, chunk ≠ []) (fits : ∀ chunk ∈ chunks, chunk.length ≤ pageSize)
    (desc : shash.Desc) (before : List UInt8)
    (whole : world.content inode = before ++ chunks.flatten) :
    (digestProgram fs shash).RunsAlone world (.addReading path inode junk desc before.length) world
      (hashed shash path (shash.final (shash.update desc chunks.flatten), true)) := by
  induction chunks generalizing desc before with
  | nil =>
      have ended : readAt (world.content inode) before.length 1 = [] := by
        simp [readAt, whole]
      rw [List.flatten_nil, shash.update_nil]
      refine .step ⟨none, true, 1, false, env⟩ ?_ (.refl _ _)
      simp [digestProgram, DigestCall.advance, ended, pageSize]
  | cons chunk rest inductionHypothesis =>
      have present : chunk ≠ [] := nonempty chunk (by simp)
      have read : readAt (world.content inode) before.length chunk.length = chunk := by
        simp [readAt, whole]
      have size : 0 < chunk.length ∧ chunk.length ≤ pageSize :=
        ⟨List.length_pos_of_ne_nil present, fits chunk (by simp)⟩
      have later := inductionHypothesis
        (fun other member => nonempty other (List.mem_cons_of_mem _ member))
        (fun other member => fits other (List.mem_cons_of_mem _ member))
        (shash.update desc chunk) (before ++ chunk) (by simp [whole])
      rw [List.length_append, shash.update_update] at later
      refine .step ⟨none, true, chunk.length, false, env⟩ ?_ later
      simp [digestProgram, DigestCall.advance, read, size, present]

/-- Some uninterrupted run of an add does what the sequential function does,
however the reads split the file. -/
theorem digestAdd_alone (env : HookEnv) (addEnv : FileAddEnv) {chunks : List (List UInt8)}
    (nonempty : ∀ chunk ∈ chunks, chunk ≠ []) (fits : ∀ chunk ∈ chunks, chunk.length ≤ pageSize)
    (whole : world.content inode = chunks.flatten) (resolved : fs.kernPath path.val = .ok inode)
    (lookup : addEnv.kernPath = fs.kernPath) (opens : addEnv.dentryOpen inode = none)
    (reads : addEnv.hashEnv inode = .reading chunks) :
    ∃ result, (digestProgram fs shash).RunsAlone world (.add path)
        (world.withFiles
          (aegisProtectedFileAdd shash addEnv (some path.val) world.policy.files).list)
        (.addReturned path result) ∧
      AddResult.ret result =
        (aegisProtectedFileAdd shash addEnv (some path.val) world.policy.files).ret := by
  let idle : DigestChoice := ⟨addEnv.kmalloc, true, 1, false, env⟩
  have checked : (digestProgram fs shash).advance 0 world (.add path) idle =
      match world.policy.files.admission aegisMaxProtectedFiles (filePathHit path.val) with
      | .full => some (world, .addReturned path .full)
      | .duplicate => some (world, .addReturned path .duplicate)
      | .admitted => some (world, .addAdmitted path) := rfl
  simp only [aegisProtectedFileAdd, listAdd]
  cases answer : world.policy.files.admission aegisMaxProtectedFiles (filePathHit path.val) with
  | full =>
      rw [answer] at checked
      exact ⟨.full, .step idle checked (.refl _ _), rfl⟩
  | duplicate =>
      rw [answer] at checked
      exact ⟨.duplicate, .step idle checked (.refl _ _), rfl⟩
  | admitted =>
      rw [answer] at checked
      cases memory : addEnv.kmalloc with
      | none =>
          have refused : (digestProgram fs shash).advance 0 world (.addAdmitted path) idle =
              some (world, .addReturned path .noMemory) := by
            simp [digestProgram, DigestCall.advance, idle, memory]
          exact ⟨.noMemory, .step idle checked (.step idle refused (.refl _ _)), rfl⟩
      | some junk =>
          have recorded : initialHash shash addEnv path.val junk =
              (shash.digest chunks.flatten, true) := by
            simp [initialHash, lookup, resolved, opens, reads,
              aegisComputeFileHash_reading shash nonempty]
          have loop := reading_alone fs path junk env nonempty fits shash.init [] whole
          rw [shash.final_update] at loop
          simp only [Option.map_some, recorded]
          refine ⟨.added, .step idle checked (.step idle ?_ (loop.trans (.step idle rfl
            (.refl _ _)))), rfl⟩
          simp [digestProgram, DigestCall.advance, idle, memory, resolved]

end Alone

/-! ### The recorded digest -/

section Recorded

variable {fs : FileSystem} {shash : Shash}

variable (fs) in
/-- What an add has absorbed is the beginning of the file, and a valid hash is
that of the whole file. -/
def DigestCall.sound (content : Contents) : DigestCall shash → Prop
  | .addReading path inode _ desc pos =>
      fs.kernPath path.val = .ok inode ∧
        desc = shash.update shash.init ((content inode).take pos)
  | .addFilled path file =>
      file.hashValid = true →
        ∃ inode, fs.kernPath path.val = .ok inode ∧ file.hash = shash.digest (content inode)
  | _ => True

theorem sound_hashed_invalid (content : Contents) (path : PathKey) (junk : Digest) :
    (hashed shash path (junk, false)).sound fs content := by
  intro valid
  cases valid

/-- The file whose content the next step of a call changes. -/
def DigestCall.writes : DigestCall shash → Option Inode
  | .writeAllowed inode _ _ => some inode
  | _ => none

/-- A read, an update or the end of the loop keeps what has been absorbed equal
to the beginning of the file. -/
theorem sound_read {world next : FileWorld} {choice : DigestChoice} {path : PathKey}
    {inode : Inode} {junk : Digest} {desc : shash.Desc} {pos : Nat} {after : DigestCall shash}
    (sound : (DigestCall.addReading path inode junk desc pos).sound fs world.content)
    (advanced : (DigestCall.addReading path inode junk desc pos).advance fs shash world choice =
      some (next, after)) :
    next = world ∧ after.sound fs world.content := by
  obtain ⟨resolved, absorbed⟩ := sound
  obtain ⟨⟨positive, -⟩, advanced⟩ := Option.ite_none_right_eq_some.mp advanced
  split at advanced
  · obtain ⟨rfl, rfl⟩ := Prod.mk.inj (Option.some.inj advanced)
    exact ⟨rfl, sound_hashed_invalid _ path junk⟩
  · split at advanced
    next ended =>
      obtain ⟨rfl, rfl⟩ := Prod.mk.inj (Option.some.inj advanced)
      refine ⟨rfl, fun _ => ⟨inode, resolved, ?_⟩⟩
      show shash.final desc = shash.digest (world.content inode)
      rw [absorbed, readAt_eq_nil positive ended]
      exact shash.final_update (world.content inode)
    next more =>
      obtain ⟨rfl, rfl⟩ := Prod.mk.inj (Option.some.inj advanced)
      refine ⟨rfl, resolved, ?_⟩
      rw [absorbed, shash.update_update, take_append_readAt]

/-- A step changes no file but the one it writes, and keeps its own part. -/
theorem DigestCall.advance_sound {world next : FileWorld} {choice : DigestChoice}
    {call after : DigestCall shash}
    (advanced : call.advance fs shash world choice = some (next, after))
    (sound : call.sound fs world.content) :
    after.sound fs next.content ∧
      (next.content = world.content ∨
        ∃ inode ∈ call.writes, ∃ bytes,
          next.content = Function.update world.content inode bytes) := by
  cases call with
  | add path =>
      simp only [DigestCall.advance] at advanced
      split at advanced
      all_goals
        obtain ⟨rfl, rfl⟩ := Prod.mk.inj (Option.some.inj advanced)
        exact ⟨trivial, Or.inl rfl⟩
  | addAdmitted path =>
      simp only [DigestCall.advance] at advanced
      split at advanced
      · obtain ⟨rfl, rfl⟩ := Prod.mk.inj (Option.some.inj advanced)
        exact ⟨trivial, Or.inl rfl⟩
      · split at advanced
        next error unresolved =>
          obtain ⟨rfl, rfl⟩ := Prod.mk.inj (Option.some.inj advanced)
          exact ⟨sound_hashed_invalid _ path _, Or.inl rfl⟩
        next inode resolved =>
          split at advanced
          · obtain ⟨rfl, rfl⟩ := Prod.mk.inj (Option.some.inj advanced)
            refine ⟨⟨resolved, ?_⟩, Or.inl rfl⟩
            rw [List.take_zero, shash.update_nil]
          · obtain ⟨rfl, rfl⟩ := Prod.mk.inj (Option.some.inj advanced)
            exact ⟨sound_hashed_invalid _ path _, Or.inl rfl⟩
  | addReading path inode junk desc pos =>
      obtain ⟨rfl, kept⟩ := sound_read sound advanced
      exact ⟨kept, Or.inl rfl⟩
  | addFilled path file =>
      obtain ⟨rfl, rfl⟩ := Prod.mk.inj (Option.some.inj advanced)
      exact ⟨trivial, Or.inl rfl⟩
  | del path =>
      simp only [DigestCall.advance] at advanced
      split at advanced
      all_goals
        obtain ⟨rfl, rfl⟩ := Prod.mk.inj (Option.some.inj advanced)
        exact ⟨trivial, Or.inl rfl⟩
  | write inode pos bytes =>
      obtain ⟨rfl, rfl⟩ := Prod.mk.inj (Option.some.inj advanced)
      refine ⟨?_, Or.inl rfl⟩
      split <;> trivial
  | writeAllowed inode pos bytes =>
      obtain ⟨rfl, rfl⟩ := Prod.mk.inj (Option.some.inj advanced)
      exact ⟨trivial, Or.inr ⟨inode, rfl, _, rfl⟩⟩
  | addReturned path result => cases advanced
  | delReturned path result => cases advanced
  | writeReturned inode ret => cases advanced

variable (fs) in
/-- The call is an add of the file that has read a first chunk and has not yet
linked its entry. -/
def DigestCall.hashing (inode : Inode) : DigestCall shash → Bool
  | .addReading _ target _ _ pos => target == inode && decide (0 < pos)
  | .addFilled path _ =>
      match fs.kernPath path.val with
      | .ok target => target == inode
      | .error _ => false
  | _ => false

variable (fs) in
/-- The move changes no file that an add is hashing. -/
def SparesHashed (pool : DigestPool shash) : Move (DigestCall shash) DigestChoice → Prop
  | .spawn _ => True
  | .advance index _ =>
      ∀ call ∈ pool.calls[index]?, ∀ inode ∈ call.writes,
        ∀ other ∈ pool.calls, other.hashing fs inode = false

instance decidableSparesHashed (pool : DigestPool shash) :
    ∀ move, Decidable (SparesHashed fs pool move)
  | .spawn _ => isTrue trivial
  | .advance index _ =>
      inferInstanceAs (Decidable (∀ call ∈ pool.calls[index]?, ∀ inode ∈ call.writes,
        ∀ other ∈ pool.calls, other.hashing fs inode = false))

theorem DigestCall.sound_update {content : Contents} {inode : Inode} {bytes : List UInt8}
    {call : DigestCall shash} (spared : call.hashing fs inode = false)
    (sound : call.sound fs content) : call.sound fs (Function.update content inode bytes) := by
  cases call with
  | addReading path target junk desc pos =>
      obtain ⟨resolved, absorbed⟩ := sound
      refine ⟨resolved, ?_⟩
      by_cases same : target = inode
      · -- Nothing has been read of a file that may be written.
        have unread : pos = 0 := by simpa [DigestCall.hashing, same] using spared
        simpa [unread] using absorbed
      · rw [Function.update_of_ne same]
        exact absorbed
  | addFilled path file =>
      intro valid
      obtain ⟨target, resolved, recorded⟩ := sound valid
      refine ⟨target, resolved, ?_⟩
      have different : target ≠ inode := by simpa [DigestCall.hashing, resolved] using spared
      rw [Function.update_of_ne different]
      exact recorded
  | _ => trivial

theorem keepsUnder_sound :
    (digestProgram fs shash).machine.KeepsUnder (SparesHashed fs) fun pool =>
      ∀ (index : Nat) (call : DigestCall shash), pool.calls[index]? = some call →
        call.sound fs pool.shared.content := by
  apply Program.keepsUnder_of_own fun _ (world : FileWorld) (call : DigestCall shash) =>
    call.sound fs world.content
  · intro count world call enters
    cases call <;> trivial
  · intro pool index choice call next after spares found sound advanced
    obtain ⟨kept, changed⟩ := DigestCall.advance_sound advanced sound
    refine ⟨kept, fun other _ bystander lookup before => ?_⟩
    rcases changed with same | ⟨inode, writes, bytes, changed⟩
    · rw [same]
      exact before
    · rw [changed]
      apply DigestCall.sound_update _ before
      exact spares call found inode writes bystander (List.mem_of_getElem? lookup)

/-- In every run in which no file is written while an add is between its first
chunk of the file and the linking of its entry, an entry that becomes visible
with a valid hash has the hash of the file's content at that moment. -/
theorem digestProgram_links_current_digest (start : FileWorld)
    (moves : List (Move (DigestCall shash) DigestChoice)) (final next : DigestPool shash)
    (ran : (digestProgram fs shash).machine.run (Pool.start start) moves = some final)
    (spares : (digestProgram fs shash).machine.Meets (SparesHashed fs) (Pool.start start) moves)
    (index : Nat) (path : PathKey) (file : AegisProtectedFile) (choice : DigestChoice)
    (filled : final.calls[index]? = some (.addFilled path file))
    (linked : (digestProgram fs shash).machine.step final (.advance index choice) = some next)
    (valid : file.hashValid = true) :
    file ∈ next.shared.policy.files.entries ∧
      ∃ inode, fs.kernPath path.val = .ok inode ∧
        file.hash = shash.digest (next.shared.content inode) := by
  have sound := keepsUnder_sound.run spares
    (fun index call found => by simp [Pool.start] at found) ran index _ filled
  simp only [Program.machine, filled, Option.bind_some, digestProgram, DigestCall.advance,
    Option.map_some, Option.some.injEq] at linked
  subst linked
  refine ⟨?_, sound valid⟩
  exact List.mem_append_right _ (List.mem_singleton.mpr rfl)

end Recorded

/-- One file, whose canonical name is `/etc/shadow`. -/
def shadowFs : FileSystem := .withLink shadowKey.val (.lit "/etc/passwd-") 7

def emptyWorld : FileWorld := ⟨Policy.boot (fun _ => true) (fun _ => true), fun _ => []⟩

def editor : Task := ⟨⟨.lit "vi", 200⟩, ⟨.lit "vi", 200⟩⟩

def shadowChoice : DigestChoice := ⟨some (sha256 []), true, pageSize, false, ⟨editor, true, true⟩⟩

/-- A read gives one byte. -/
def byteChoice : DigestChoice := { shadowChoice with size := 1 }

/-- Two bytes are written after an add has opened the file and before its first
chunk; the add then reads them one by one. -/
def shadowRewritten : List (Move (DigestCall sha256Shash) DigestChoice) :=
  [.spawn (.add shadowKey), .advance 0 shadowChoice, .advance 0 shadowChoice,
    .spawn (.write 7 0 [0x21, 0x22]), .advance 1 shadowChoice, .advance 1 shadowChoice,
    .advance 0 byteChoice, .advance 0 byteChoice, .advance 0 byteChoice]

/-- The entry that this add fills. -/
def rewrittenFile : AegisProtectedFile := fileEntry shadowKey.val (sha256 [0x21, 0x22], true)

theorem digestProgram_links_current_digest_shadowRewritten :
    ∃ final next, (digestProgram shadowFs sha256Shash).machine.run (Pool.start emptyWorld)
        shadowRewritten = some final ∧
      (digestProgram shadowFs sha256Shash).machine.step final (.advance 0 shadowChoice) =
        some next ∧
      next.shared.content 7 = [0x21, 0x22] ∧
      rewrittenFile ∈ next.shared.policy.files.entries ∧
      ∃ inode, shadowFs.kernPath shadowKey.val = .ok inode ∧
        rewrittenFile.hash = sha256Shash.digest (next.shared.content inode) := by
  have spares : (digestProgram shadowFs sha256Shash).machine.Meets (SparesHashed shadowFs)
      (Pool.start emptyWorld) shadowRewritten := by
    decide +kernel
  exact ⟨_, _, rfl, rfl, rfl, digestProgram_links_current_digest emptyWorld shadowRewritten _ _ rfl
    spares 0 shadowKey rewrittenFile shadowChoice rfl rfl rfl⟩

/-- An add of an empty file, up to the end of its hash computation. -/
def shadowHashed : List (Move (DigestCall sha256Shash) DigestChoice) :=
  .spawn (.add shadowKey) :: List.replicate 3 (.advance 0 shadowChoice)

/-- The entry that this add fills. -/
def shadowFile : AegisProtectedFile := fileEntry shadowKey.val (sha256 [], true)

/-- A write to the file is allowed after the hash has been computed, since the
file is not yet listed; the entry then becomes visible with the digest of the
old content and marked valid. Enforcement is on throughout. -/
theorem shadowHashed_written_links_stale_digest :
    ∃ final, (digestProgram shadowFs sha256Shash).machine.run (Pool.start emptyWorld)
        (shadowHashed ++ [.spawn (.write 7 0 [0x21]), .advance 1 shadowChoice,
          .advance 1 shadowChoice, .advance 0 shadowChoice]) = some final ∧
      final.shared.policy.cfg = aegisCfg ∧
      shadowFs.kernPath shadowKey.val = .ok 7 ∧ shadowFs.dPath 7 = shadowKey.val ∧
      ∃ file ∈ final.shared.policy.files.entries, file.key = shadowKey ∧ file.hashValid = true ∧
        file.hash ≠ sha256Shash.digest (final.shared.content 7) := by
  have stale : shadowFile.hash ≠ sha256Shash.digest [0x21] := by decide +kernel
  exact ⟨_, rfl, rfl, rfl, rfl, shadowFile, List.mem_singleton.mpr rfl, by decide +kernel, rfl,
    stale⟩

end Aegis.Concurrent
