import Aegis.Foundation.CheckInsert
import Aegis.Foundation.Sha256
import Aegis.Policy.Lists

/-!
Owns `aegis_file.c`: the digest of a file read in chunks, the protected file
list with its operations, and the list as a registry of paths.

What the kernel answers on the way is a parameter: allocations, path lookup,
opening, reading, and the steps of the hash transform. `Shash` states what the
crypto interface promises.

Does not own: the hooks that consult the list, locking, or the listing text.
-/

namespace Aegis.Policy

open Aegis.Foundation
open Aegis.Kernel

/-! ### Hash computation -/

/-- A streaming hash transform: updates concatenate, and the final value is the
digest of everything absorbed since `init`. -/
structure Shash where
  Desc : Type
  init : Desc
  update : Desc → List UInt8 → Desc
  final : Desc → Digest
  digest : List UInt8 → Digest
  update_nil : ∀ desc, update desc [] = desc
  update_update : ∀ desc first second,
    update (update desc first) second = update desc (first ++ second)
  final_update : ∀ message, final (update init message) = digest message

/-- The transform for `AEGIS_HASH_ALGO`, with the absorbed bytes as its
descriptor. -/
def sha256Shash : Shash where
  Desc := List UInt8
  init := []
  update desc bytes := desc ++ bytes
  final := sha256
  digest := sha256
  update_nil desc := List.append_nil desc
  update_update desc first second := List.append_assoc desc first second
  final_update message := congrArg sha256 (List.nil_append message)

/-- One `kernel_read` of the hash loop: bytes, with the outcome of
`crypto_shash_update` on them, or an error. -/
inductive ReadStep where
  | bytes (chunk : List UInt8) (update : Option Errno)
  | failed (error : Errno)

/-- Outcomes of the calls of `aegis_compute_file_hash`. Where `reads` ends,
`kernel_read` returns zero. -/
structure HashEnv where
  allocShash : Option Errno
  allocDesc : Bool
  init : Option Errno
  allocBuf : Bool
  reads : List ReadStep
  final : Option Errno

/-- The read loop: the value of `ret` at its exit, and the descriptor. -/
def hashChunks (shash : Shash) (desc : shash.Desc) : List ReadStep → Int × shash.Desc
  | [] => (0, desc)
  | .failed error :: _ => (error.ret, desc)
  | .bytes chunk outcome :: rest =>
      if chunk = [] then (0, desc)
      else
        match outcome with
        | some error => (error.ret, desc)
        | none => hashChunks shash (shash.update desc chunk) rest

/-- Return value, and the digest when one was written. `file` is `none` for a
NULL file, `hashOut` is whether the output pointer is not NULL. -/
def aegisComputeFileHash (shash : Shash) (file : Option HashEnv) (hashOut : Bool) :
    Int × Option Digest :=
  match file, hashOut with
  | some env, true =>
      match env.allocShash with
      | some error => (error.ret, none)
      | none =>
          if !env.allocDesc then (Errno.enomem.ret, none)
          else
            match env.init with
            | some error => (error.ret, none)
            | none =>
                if !env.allocBuf then (Errno.enomem.ret, none)
                else
                  let loop := hashChunks shash shash.init env.reads
                  if loop.1 ≠ 0 then (loop.1, none)
                  else
                    match env.final with
                    | some error => (error.ret, none)
                    | none => (0, some (shash.final loop.2))
  | _, _ => (Errno.einval.ret, none)

/-- The outcomes when nothing fails and the reads give these chunks. -/
def HashEnv.reading (chunks : List (List UInt8)) : HashEnv where
  allocShash := none
  allocDesc := true
  init := none
  allocBuf := true
  reads := chunks.map fun chunk => .bytes chunk none
  final := none

/-- The loop absorbs the chunks it reads, up to the first empty one. -/
theorem hashChunks_reading (shash : Shash) (desc : shash.Desc) {chunks : List (List UInt8)}
    (nonempty : ∀ chunk ∈ chunks, chunk ≠ []) :
    hashChunks shash desc (HashEnv.reading chunks).reads =
      (0, shash.update desc chunks.flatten) := by
  induction chunks generalizing desc with
  | nil => rw [List.flatten_nil, shash.update_nil]; rfl
  | cons chunk rest inductionHypothesis =>
      have later := inductionHypothesis (shash.update desc chunk) fun other member =>
        nonempty other (List.mem_cons_of_mem _ member)
      have present : chunk ≠ [] := nonempty chunk (by simp)
      simp only [HashEnv.reading, List.map_cons, hashChunks, if_neg present] at later ⊢
      rw [later, shash.update_update, List.flatten_cons]

/-- The digest does not depend on how the reads split the content. -/
theorem aegisComputeFileHash_reading (shash : Shash) {chunks : List (List UInt8)}
    (nonempty : ∀ chunk ∈ chunks, chunk ≠ []) :
    aegisComputeFileHash shash (some (.reading chunks)) true =
      (0, some (shash.digest chunks.flatten)) := by
  have loop := hashChunks_reading shash shash.init nonempty
  show (if (hashChunks shash shash.init (HashEnv.reading chunks).reads).1 ≠ 0 then _
    else (0, some (shash.final (hashChunks shash shash.init (HashEnv.reading chunks).reads).2))) = _
  rw [loop, if_neg (by simp), shash.final_update]

/-! ### The list -/

structure AegisProtectedFile where
  path : CBuffer aegisPathLen
  hash : Digest
  hashValid : Bool
deriving DecidableEq

abbrev FileList := Registry AegisProtectedFile

/-- Outcomes of the calls of `aegis_protected_file_add`. A successful `kmalloc`
leaves arbitrary bytes in the hash field. -/
structure FileAddEnv where
  kmalloc : Option Digest
  kernPath : CString → Except Errno Inode
  dentryOpen : Inode → Option Errno
  hashEnv : Inode → HashEnv

/-- `strncmp(entry->path, path, AEGIS_PATH_LEN) == 0`. -/
def filePathHit (path : CString) (entry : AegisProtectedFile) : Bool :=
  strncmp entry.path.memory path.bytes aegisPathLen == 0

/-- The hash field and `hash_valid` of a new entry. -/
def initialHash (shash : Shash) (env : FileAddEnv) (path : CString) (junk : Digest) :
    Digest × Bool :=
  match env.kernPath path with
  | .error _ => (junk, false)
  | .ok inode =>
      match env.dentryOpen inode with
      | some _ => (junk, false)
      | none =>
          match aegisComputeFileHash shash (some (env.hashEnv inode)) true with
          | (0, some digest) => (digest, true)
          | _ => (junk, false)

def fileEntry (path : CString) (hash : Digest × Bool) : AegisProtectedFile where
  path := CBuffer.filled aegisPathLen (by decide) path
  hash := hash.1
  hashValid := hash.2

def aegisProtectedFileAdd (shash : Shash) (env : FileAddEnv) (path : Option CString)
    (files : FileList) : ListOp AegisProtectedFile :=
  match path with
  | none => .fail .einval files
  | some path =>
      let new := env.kmalloc.map fun junk =>
        let entry := fileEntry path (initialHash shash env path junk)
        (entry, LogRecord.protectedFileAdded path entry.hashValid)
      listAdd aegisMaxProtectedFiles (filePathHit path) new files

def aegisProtectedFileDel (path : Option CString) (files : FileList) :
    ListOp AegisProtectedFile :=
  match path with
  | none => .fail .einval files
  | some path => listDel (filePathHit path) (.protectedFileRemoved path) files

/-- The unlocked read of `protected_file_count`. -/
def aegisProtectedFileCount (files : FileList) : Int := files.count

def aegisIsFileProtected (cfg : AegisConfig) (files : FileList) (path : Option CString) : Bool :=
  match path with
  | none => false
  | some path =>
      if !cfg.featureCheck featureFileIntegrity then false
      else files.listed (filePathHit path)

/-! ### The list as a registry of paths -/

/-- A path as the control interface passes it on: at most 255 bytes. -/
abbrev PathKey := { path : CString // path.length < aegisPathLen }

def AegisProtectedFile.key (entry : AegisProtectedFile) : PathKey :=
  ⟨entry.path.text, entry.path.text_length_lt⟩

theorem filePathHit_iff {path : CString} {entry : AegisProtectedFile} :
    filePathHit path entry = true ↔ entry.path.text = path := by
  unfold filePathHit
  rw [beq_iff_eq, entry.path.strncmp_eq_zero_iff]
  exact eq_comm

theorem fileEntry_path_text (path : CString) (hash : Digest × Bool) :
    (fileEntry path hash).path.text = path.take (aegisPathLen - 1) :=
  CBuffer.text_filled (by decide) path

theorem fileEntry_path_text_of_fits {path : CString} (fits : path.length < aegisPathLen)
    (hash : Digest × Bool) : (fileEntry path hash).path.text = path := by
  rw [fileEntry_path_text]
  exact CString.take_of_length_le (Nat.le_sub_one_of_lt fits)

theorem filePathHit_hitsKey (path : PathKey) :
    Registry.HitsKey AegisProtectedFile.key (filePathHit path.val) path := by
  intro entry
  rw [filePathHit_iff, Subtype.ext_iff]
  rfl

/-- An add that returns zero has appended an entry with the path, cut to the
size of the field, and the hash of the file the path resolves to. -/
theorem aegisProtectedFileAdd_list_of_ret_zero {shash : Shash} {env : FileAddEnv} {path : CString}
    {files : FileList} (added : (aegisProtectedFileAdd shash env (some path) files).ret = 0) :
    ∃ junk ∈ env.kmalloc, (aegisProtectedFileAdd shash env (some path) files).list =
      files.linkTail (fileEntry path (initialHash shash env path junk)) := by
  obtain ⟨made, new, linked⟩ := listAdd_list_of_ret_zero added
  obtain ⟨junk, memory, rfl⟩ := Option.map_eq_some_iff.mp new
  exact ⟨junk, memory, linked⟩

/-- A valid hash is the one computed from the file that the path resolves to. -/
theorem initialHash_valid {shash : Shash} {env : FileAddEnv} {path : CString} {junk : Digest}
    {inode : Inode} (resolved : env.kernPath path = .ok inode)
    (valid : (initialHash shash env path junk).2 = true) :
    aegisComputeFileHash shash (some (env.hashEnv inode)) true =
      (0, some (initialHash shash env path junk).1) := by
  simp only [initialHash, resolved] at valid ⊢
  cases opens : env.dentryOpen inode with
  | some error => simp [opens] at valid
  | none =>
      simp only [opens] at valid ⊢
      split at valid
      next digest computed =>
        rw [computed]
      next => cases valid

/-- Concurrent calls of `aegis_protected_file_add` and `aegis_protected_file_del`.
The payload is the outcome of the hash computation. -/
def fileSpec : CallSpec (Option PathKey) PathKey (Digest × Bool) AegisProtectedFile where
  max := aegisMaxProtectedFiles
  addKey := id
  delKey := id
  key := AegisProtectedFile.key
  hit path := filePathHit path.val
  make path hash := fileEntry path.val hash
  hitsKey := filePathHit_hitsKey
  key_make path hash := Subtype.ext (fileEntry_path_text_of_fits path.property hash)

end Aegis.Policy
