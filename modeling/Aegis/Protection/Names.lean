import Aegis.Protection.Contents

/-!
Owns the two names of a protected file: the text given to
`aegis_protected_file_add`, which stores it as it is and resolves it for the
digest, and the canonical name that the hooks compare with the stored text.

An add protects the file it resolves to exactly when the stored text is the
canonical name of that file, or that name was listed before.

Does not own: how a path is resolved, or how long a path the control interface
accepts.
-/

namespace Aegis.Protection

open Aegis.Foundation
open Aegis.Kernel
open Aegis.Policy
open Aegis.Concurrent

/-- The outcomes of an add on this file system. -/
def addEnv (fs : FileSystem) (env : FileAddEnv) : FileAddEnv := { env with kernPath := fs.kernPath }

/-- The policy after `aegis_protected_file_add`. -/
def afterAdd (fs : FileSystem) (shash : Shash) (env : FileAddEnv) (path : CString)
    (policy : PolicyState) : PolicyState :=
  { policy with
    files := (aegisProtectedFileAdd shash (addEnv fs env) (some path) policy.files).list }

/-- What an add that returns zero lists: what was listed before, and the path
as far as it fits. -/
theorem guards_afterAdd_iff {fs : FileSystem} {shash : Shash} {env : FileAddEnv} {path : CString}
    {policy : PolicyState} (active : policy.cfg.featureCheck featureFileIntegrity = true)
    (enforced : policy.cfg.fileIntegrityEnforce = true)
    (added : (aegisProtectedFileAdd shash (addEnv fs env) (some path) policy.files).ret = 0)
    (name : CString) :
    Guards (afterAdd fs shash env path policy) name ↔
      name = path.take (aegisPathLen - 1) ∨
        ∃ entry ∈ policy.files.entries, entry.path.text = name := by
  obtain ⟨junk, -, linked⟩ := aegisProtectedFileAdd_list_of_ret_zero added
  have entries : (afterAdd fs shash env path policy).files.entries =
      policy.files.entries ++
        [fileEntry path (initialHash shash (addEnv fs env) path junk)] :=
    congrArg Registry.entries linked
  constructor
  · intro guards
    obtain ⟨entry, member, named⟩ := guards.listed
    rw [entries] at member
    rcases List.mem_append.mp member with earlier | new
    · exact Or.inr ⟨entry, earlier, named⟩
    · rw [List.mem_singleton.mp new, fileEntry_path_text] at named
      exact Or.inl named.symm
  · intro named
    refine ⟨active, enforced, ?_⟩
    rw [entries]
    rcases named with rfl | ⟨entry, earlier, named⟩
    · exact ⟨_, List.mem_append_right _ (List.mem_singleton.mpr rfl), fileEntry_path_text _ _⟩
    · exact ⟨entry, List.mem_append_left _ earlier, named⟩

/-- The new entry is for this file: if its hash is valid, it was computed from
the file. -/
def RecordsFile (shash : Shash) (env : FileAddEnv) (inode : Inode) (old new : FileList) : Prop :=
  ∃ entry, new = old.linkTail entry ∧
    (entry.hashValid = true →
      aegisComputeFileHash shash (some (env.hashEnv inode)) true = (0, some entry.hash))

/-- In every reachable state with the layer switched on, an add that returns
zero records the file that its path resolves to, but afterwards the hooks deny
every write access to that file exactly when the stored text is the canonical
name of the file, or that name was listed before. -/
theorem add_denies_writes_iff (fs : FileSystem) (procAlloc : Fin 3 → Bool)
    (syscallAlloc : Fin 5 → Bool) (content : Contents) (world : World)
    (reached : (worldMachine fs).Reachable (.boot procAlloc syscallAlloc content) world)
    (active : world.cfg.featureCheck featureFileIntegrity = true)
    (enforced : world.cfg.fileIntegrityEnforce = true) (shash : Shash) (env : FileAddEnv)
    (path : CString)
    (added : (aegisProtectedFileAdd shash (addEnv fs env) (some path) world.policy.files).ret = 0)
    (inode : Inode) (resolved : fs.kernPath path = .ok inode) :
    RecordsFile shash env inode world.policy.files
        (afterAdd fs shash env path world.policy).files ∧
      (DeniesWrites (afterAdd fs shash env path world.policy) (fs.dPath inode) ↔
        fs.dPath inode = path.take (aegisPathLen - 1) ∨
          ∃ entry ∈ world.policy.files.entries, entry.path.text = fs.dPath inode) := by
  obtain ⟨junk, -, linked⟩ := aegisProtectedFileAdd_list_of_ret_zero added
  have counted : (afterAdd fs shash env path world.policy).files.Counted := by
    show Registry.Counted
      (aegisProtectedFileAdd shash (addEnv fs env) (some path) world.policy.files).list
    rw [linked]
    exact (filesCounted_reachable reached).linkTail _
  constructor
  · refine ⟨_, linked, fun valid => ?_⟩
    exact initialHash_valid resolved valid
  · rw [deniesWrites_iff counted]
    exact guards_afterAdd_iff active enforced added (fs.dPath inode)

/-- Everything the add asks of the kernel succeeds, and the file is empty. -/
def easyEnv : FileAddEnv where
  kmalloc := some (sha256 [])
  kernPath _ := .error .enoent
  dentryOpen _ := none
  hashEnv _ := .reading []

def freshWorld : World := .boot (fun _ => true) (fun _ => true) fun _ => []

theorem add_denies_writes_shadow :
    DeniesWrites (afterAdd guardedFs sha256Shash easyEnv shadowKey.val freshWorld.policy)
      (guardedFs.dPath 7) :=
  (add_denies_writes_iff guardedFs (fun _ => true) (fun _ => true) (fun _ => []) freshWorld
    (Machine.Reachable.refl _ _) (by decide) (by decide) sha256Shash easyEnv shadowKey.val
    (by decide +kernel) 7 (by decide +kernel)).2.mpr (Or.inl (by decide +kernel))

/-- An add through a link returns zero and records the digest of the file, and a
write to the file is allowed afterwards. -/
theorem add_through_link_protects_nothing :
    guardedFs.kernPath (.lit "/etc/alias") = .ok 7 ∧
    (aegisProtectedFileAdd sha256Shash (addEnv guardedFs easyEnv) (some (.lit "/etc/alias"))
      freshWorld.policy.files).ret = 0 ∧
    (∃ entry ∈ (afterAdd guardedFs sha256Shash easyEnv (.lit "/etc/alias")
      freshWorld.policy).files.entries, entry.hashValid = true) ∧
    (aegisFilePermission (afterAdd guardedFs sha256Shash easyEnv (.lit "/etc/alias")
      freshWorld.policy) (suppliedEnv writer) ⟨guardedFs.dPath 7, fmodeWrite⟩ mayWrite).ret = 0 ∧
    ¬ DeniesWrites (afterAdd guardedFs sha256Shash easyEnv (.lit "/etc/alias") freshWorld.policy)
      (guardedFs.dPath 7) := by
  have allowed : (aegisFilePermission (afterAdd guardedFs sha256Shash easyEnv (.lit "/etc/alias")
      freshWorld.policy) (suppliedEnv writer) ⟨guardedFs.dPath 7, fmodeWrite⟩ mayWrite).ret =
        0 := by
    decide +kernel
  refine ⟨by decide +kernel, by decide +kernel, by decide +kernel, allowed, fun denies => ?_⟩
  have refused := (denies writer fmodeWrite mayWrite).1 (by decide)
  exact Errno.eacces.ret_ne_zero (refused.symm.trans allowed)

end Aegis.Protection
