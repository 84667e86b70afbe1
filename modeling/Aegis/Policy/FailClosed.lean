import Aegis.Policy.Hooks

/-!
Owns how the hooks answer when the page for a path name cannot be allocated or
`d_path` cannot fill it: which requests that the policy denies are let through
by such a failure.

Does not own: the verdicts of the policy itself.
-/

namespace Aegis.Policy

open Aegis.Foundation
open Aegis.Kernel

/-- The same call with a page and a path name. -/
def HookEnv.supplied (env : HookEnv) : HookEnv := { env with page := true, dPath := true }

/-- The file whose path name the hook asks for. -/
def HookRequest.file : HookRequest → Option File
  | .filePermission file _ => some file
  | .fileOpen file => some file
  | .kernelReadFile file _ => file
  | _ => none

/-- `d_path` fails only for a name that does not fit in a page. -/
def DPathFits (env : HookEnv) (request : HookRequest) : Prop :=
  ∀ file, request.file = some file → env.dPath = false → pageSize ≤ file.path.length

/-- The hook denies the request whatever the allocation and `d_path` do, if it
denies it when both succeed. -/
def FailsClosed (policy : PolicyState) (env : HookEnv) (request : HookRequest) : Prop :=
  (runHook policy env.supplied request).ret ≠ 0 → (runHook policy env request).ret ≠ 0

/-- The request writes to a listed file under enforcement. -/
def WritesProtected (policy : PolicyState) : HookRequest → Prop
  | .filePermission file mask => deniesWrite policy file.path mask = true ∧ policy.files.count ≠ 0
  | .fileOpen file =>
      deniesWrite policy file.path (openMask file) = true ∧ policy.files.count ≠ 0
  | _ => False

/-- A listed path is shorter than any name that overflows a page. -/
theorem deniesWrite_path_length {policy : PolicyState} {path : CString} {mask : BitVec 32}
    (denied : deniesWrite policy path mask = true) : path.length < pageSize := by
  simp only [deniesWrite, Bool.and_eq_true, aegisIsFileProtected_iff] at denied
  obtain ⟨⟨⟨-, entry, -, rfl⟩, -⟩, -⟩ := denied
  have short := entry.path.text_length_lt
  have narrow : aegisPathLen < pageSize := by decide
  omega

/-- A file hook that denies when supplied is silenced by a missing page only. -/
private theorem failsClosed_of_denies {policy : PolicyState} {env : HookEnv} {path : CString}
    {mask : BitVec 32} (fits : env.dPath = false → pageSize ≤ path.length) :
    (deniesWrite policy path mask = true ∧ policy.files.count ≠ 0 →
        deniesWrite policy path mask = true ∧ policy.files.count ≠ 0 ∧
          env.page = true ∧ env.dPath = true) ↔
      ¬ (env.page = false ∧ deniesWrite policy path mask = true ∧ policy.files.count ≠ 0) := by
  constructor
  · rintro closed ⟨noPage, denies⟩
    have paged := (closed denies).2.2.1
    simp [noPage] at paged
  · intro supplied denies
    have named : env.dPath = true := by
      rw [← Bool.not_eq_false]
      intro unnamed
      have short := deniesWrite_path_length denies.1
      have long := fits unnamed
      omega
    refine ⟨denies.1, denies.2, ?_, named⟩
    rw [← Bool.not_eq_false]
    exact fun noPage => supplied ⟨noPage, denies⟩

/-- The module loading hook answers with an error when the page is missing. -/
theorem aegisKernelReadFile_ret_ne_zero_iff_supplied (policy : PolicyState) (env : HookEnv)
    (file : Option File) (id : KernelReadFileId) :
    (aegisKernelReadFile policy env.supplied file id).ret ≠ 0 ↔
      (aegisKernelReadFile policy env file id).ret ≠ 0 := by
  simp only [aegisKernelReadFile]
  split_ifs <;> cases file <;> simp [HookOutcome.allow]

/-- The hooks fail closed exactly outside one case: a write to a protected file
while no page can be allocated. -/
theorem runHook_failsClosed_iff (policy : PolicyState) (env : HookEnv) (request : HookRequest)
    (fits : DPathFits env request) :
    FailsClosed policy env request ↔ ¬ (env.page = false ∧ WritesProtected policy request) := by
  unfold FailsClosed
  cases request with
  | filePermission file mask =>
      simp only [runHook, aegisFilePermission_ret_ne_zero, WritesProtected, HookEnv.supplied,
        and_true]
      exact failsClosed_of_denies (fits file rfl)
  | fileOpen file =>
      simp only [runHook, aegisFileOpen_ret_ne_zero, WritesProtected, HookEnv.supplied, and_true]
      exact failsClosed_of_denies (fits file rfl)
  | kernelReadFile file id =>
      exact iff_of_true (aegisKernelReadFile_ret_ne_zero_iff_supplied policy env file id).mp
        fun both => both.2
  | _ => exact iff_of_true id fun both => both.2

def passwd : File := ⟨.lit "/etc/passwd", fmodeRead ||| fmodeWrite⟩

/-- The boot configuration with `/etc/passwd` listed. -/
def passwdPolicy : PolicyState :=
  { boot (fun _ => true) (fun _ => true) with
    files := Registry.empty.linkTail (fileEntry passwd.path (sha256 [], true)) }

def shell : Task := ⟨⟨.lit "sh", 100⟩, ⟨.lit "sh", 100⟩⟩

/-- A name that does not fit in a page. -/
def longModule : File :=
  ⟨⟨List.replicate pageSize 0x6d, by simp [List.mem_replicate]⟩, fmodeRead⟩

/-- Module loading is denied, and no system call is blocked. -/
def modulesDenied : PolicyState :=
  { boot (fun _ => true) (fun _ => false) with
    cfg := { aegisCfg with moduleLoadingDenied := true } }

/-- Neither a page nor the name: the error is another one, and still an error. -/
theorem runHook_failsClosed_longModule :
    DPathFits ⟨shell, false, false⟩ (.kernelReadFile (some longModule) .readingModule) ∧
      (runHook modulesDenied (HookEnv.supplied ⟨shell, false, false⟩)
        (.kernelReadFile (some longModule) .readingModule)).ret = Errno.eperm.ret ∧
      (runHook modulesDenied ⟨shell, false, false⟩
        (.kernelReadFile (some longModule) .readingModule)).ret = Errno.enomem.ret ∧
      FailsClosed modulesDenied ⟨shell, false, false⟩
        (.kernelReadFile (some longModule) .readingModule) := by
  have fits : DPathFits ⟨shell, false, false⟩
      (.kernelReadFile (some longModule) .readingModule) := by
    intro file isFile _
    obtain rfl : longModule = file := Option.some.inj isFile
    exact Nat.le_of_eq List.length_replicate.symm
  exact ⟨fits, rfl, rfl, (runHook_failsClosed_iff _ _ _ fits).mpr fun missed => missed.2⟩

/-- Without a page, a write to the listed file is allowed. -/
theorem aegisFilePermission_allows_without_page :
    DPathFits ⟨shell, false, true⟩ (.filePermission passwd mayWrite) ∧
      ¬ FailsClosed passwdPolicy ⟨shell, false, true⟩ (.filePermission passwd mayWrite) := by
  constructor
  · intro file _ unnamed
    simp at unnamed
  · intro closed
    have denied : (runHook passwdPolicy ⟨shell, true, true⟩ (.filePermission passwd mayWrite)).ret =
        Errno.eacces.ret := by decide +kernel
    have allowed : (runHook passwdPolicy ⟨shell, false, true⟩
        (.filePermission passwd mayWrite)).ret = 0 := by decide +kernel
    exact closed (fun zero => Errno.eacces.ret_ne_zero (denied.symm.trans zero)) allowed

end Aegis.Policy
