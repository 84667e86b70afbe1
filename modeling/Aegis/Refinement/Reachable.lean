import Aegis.Policy.Listings
import Aegis.Refinement.Sequential

/-!
Owns the policies that sequential operations can reach, from a boot in which
any allocation may fail and with operations that may fail anywhere, and what
holds of the entries of their lists.

The invariant is stated for a condition on file entries, so that it also speaks
about runs in which every added path meets a condition.

Does not own: the sets that the lists represent.
-/

namespace Aegis.Refinement

open Aegis.Foundation
open Aegis.Kernel
open Aegis.Policy
open Aegis.Control

/-- After `aegis_init`, with these outcomes of its allocations. -/
def KernelState.bootWith (procAlloc : Fin 3 → Bool) (syscallAlloc : Fin 5 → Bool) :
    KernelState where
  policy := Policy.boot procAlloc syscallAlloc
  mirrors := sysctlMirrors

/-- Some run of allowed operations leads from boot to this policy. -/
def ReachableBy (shash : Shash) (allowed : Operation → Prop) (policy : PolicyState) : Prop :=
  ∃ procAlloc syscallAlloc operations, (∀ operation ∈ operations, allowed operation) ∧
    ((kernel shash).run (.bootWith procAlloc syscallAlloc) operations).1.policy = policy

/-- Some run of any operations leads from boot to this policy. -/
def Reachable (shash : Shash) (policy : PolicyState) : Prop :=
  ReachableBy shash (fun _ => True) policy

theorem reachable_run (shash : Shash) (procAlloc : Fin 3 → Bool) (syscallAlloc : Fin 5 → Bool)
    (operations : List Operation) : Reachable shash
      ((kernel shash).run (.bootWith procAlloc syscallAlloc) operations).1.policy :=
  ⟨procAlloc, syscallAlloc, operations, fun _ _ => trivial, rfl⟩

/-! ### The invariant -/

/-- A number that the endpoint accepts. -/
def PlainSyscall (entry : AegisBlockedSyscall) : Prop :=
  0 ≤ entry.syscallNr ∧ entry.syscallNr < 2147483648

structure WellFormed (fileOk : AegisProtectedFile → Prop) (policy : PolicyState) : Prop where
  files : SoundList aegisMaxProtectedFiles fileOk policy.files
  procs : SoundList aegisMaxProtectedProcs PlainProc policy.procs
  syscalls : SoundList aegisMaxBlockedSyscalls PlainSyscall policy.syscalls

/-- The entry that the command adds is a good one. -/
def AddsGood (fileOk : AegisProtectedFile → Prop) : Command → Prop
  | .addFile path _ => ∀ hash, fileOk (fileEntry path.val hash)
  | .addProc comm pid => PlainProc (procEntry comm.val pid)
  | .addSyscall nr => nr.val < 2147483648
  | _ => True

theorem aegisProtectProcessAdd_sound {procOk : AegisProtectedProc → Prop} {kmalloc : Bool}
    {comm : CString} {pid : Int} {procs : ProcList}
    (sound : SoundList aegisMaxProtectedProcs procOk procs) (good : procOk (procEntry comm pid)) :
    SoundList aegisMaxProtectedProcs procOk
      (aegisProtectProcessAdd kmalloc (some comm) pid procs).list := by
  apply listAdd_sound sound
  intro made isNew
  obtain ⟨-, ⟨⟩⟩ := Option.ite_none_right_eq_some.mp isNew
  exact good

theorem aegisSyscallBlockAdd_sound {kmalloc : Bool} {nr : Int} {syscalls : SyscallList}
    (sound : SoundList aegisMaxBlockedSyscalls PlainSyscall syscalls) (small : nr < 2147483648) :
    SoundList aegisMaxBlockedSyscalls PlainSyscall
      (aegisSyscallBlockAdd kmalloc nr syscalls).list := by
  unfold aegisSyscallBlockAdd
  by_cases negative : nr < 0
  · rw [if_pos negative]
    exact sound
  · rw [if_neg negative]
    apply listAdd_sound sound
    intro made isNew
    obtain ⟨-, ⟨⟩⟩ := Option.ite_none_right_eq_some.mp isNew
    exact ⟨Int.not_lt.mp negative, small⟩

section Steps

variable {fileOk : AegisProtectedFile → Prop} {policy : PolicyState}

theorem wellFormed_boot (fileOk : AegisProtectedFile → Prop) (procAlloc : Fin 3 → Bool)
    (syscallAlloc : Fin 5 → Bool) : WellFormed fileOk (Policy.boot procAlloc syscallAlloc) where
  files := soundList_empty _ _
  procs := by
    have sshd : PlainProc (procEntry (.lit "sshd") 0) :=
      ⟨by decide +kernel, by decide, by decide⟩
    have init : PlainProc (procEntry (.lit "init") 1) :=
      ⟨by decide +kernel, by decide, by decide⟩
    have systemd : PlainProc (procEntry (.lit "systemd") 1) :=
      ⟨by decide +kernel, by decide, by decide⟩
    apply aegisProtectProcessAdd_sound _ systemd
    apply aegisProtectProcessAdd_sound _ init
    apply aegisProtectProcessAdd_sound _ sshd
    exact soundList_empty _ _
  syscalls := by
    apply aegisSyscallBlockAdd_sound _ (by decide)
    apply aegisSyscallBlockAdd_sound _ (by decide)
    apply aegisSyscallBlockAdd_sound _ (by decide)
    apply aegisSyscallBlockAdd_sound _ (by decide)
    apply aegisSyscallBlockAdd_sound _ (by decide)
    exact soundList_empty _ _

theorem WellFormed.perform (wellFormed : WellFormed fileOk policy) (shash : Shash)
    (env : ControlEnv) (len : Nat) {command : Command} (good : AddsGood fileOk command) :
    WellFormed fileOk (command.perform shash env len policy).policy := by
  obtain ⟨files, procs, syscalls⟩ := wellFormed
  cases command with
  | addFile path nonempty =>
      refine ⟨listAdd_sound files ?_, procs, syscalls⟩
      intro made isNew
      obtain ⟨junk, -, rfl⟩ := Option.map_eq_some_iff.mp isNew
      exact good _
  | delFile path nonempty => exact ⟨listDel_sound files _ _, procs, syscalls⟩
  | addProc comm pid => exact ⟨files, aegisProtectProcessAdd_sound procs good, syscalls⟩
  | delProc comm pid => exact ⟨files, listDel_sound procs _ _, syscalls⟩
  | addSyscall nr => exact ⟨files, procs, aegisSyscallBlockAdd_sound syscalls good⟩
  | delSyscall nr => exact ⟨files, procs, listDel_sound syscalls _ _⟩

/-- The endpoint scans names without blanks and numbers that are an `int`. -/
theorem addsGood_of_reads {endpoint : Endpoint} {ubuf : List UInt8} {command : Command}
    (reads : Reads ubuf endpoint command)
    (file : endpoint = .protectedFilesAdd → ∀ hash, fileOk (fileEntry (pathOf ubuf).val hash)) :
    AddsGood fileOk command := by
  cases reads with
  | addFile nonempty => exact file rfl
  | addProc converted =>
      have inRange : -2147483648 ≤ (scanProc ubuf).number ∧
          (scanProc ubuf).number < 2147483648 := sscanfWordInt_number_range 15 _ (by decide)
      refine ⟨?_, inRange.1, inRange.2⟩
      rw [procEntry_comm_text_of_fits (commOf ubuf).property]
      exact sscanfWordInt_word_solid 15 _ 0
  | addSyscall isNumber =>
      obtain ⟨value, converted, kept⟩ := Option.bind_eq_some_iff.mp isNumber
      obtain ⟨nonneg, ⟨⟩⟩ := Option.dite_none_right_eq_some.mp kept
      exact (kstrtoint_range converted).2
  | _ => trivial

/-- If the operation adds a file, its entry is a good one. -/
def AddsGoodFile (fileOk : AegisProtectedFile → Prop) : Operation → Prop
  | .write _ .protectedFilesAdd ubuf => ∀ hash, fileOk (fileEntry (lineOf ubuf aegisPathLen) hash)
  | _ => True

theorem WellFormed.step (shash : Shash) {state : KernelState} {operation : Operation}
    (good : AddsGoodFile fileOk operation) (wellFormed : WellFormed fileOk state.policy) :
    WellFormed fileOk ((kernel shash).step state operation).1.policy := by
  cases operation with
  | write env endpoint ubuf =>
      show WellFormed fileOk (aectlWrite shash env endpoint ubuf state.policy).policy
      rw [aectlWrite_eq]
      cases parsed : parseWrite env endpoint ubuf with
      | error ret => exact wellFormed
      | ok command =>
          apply wellFormed.perform shash env ubuf.length
          apply addsGood_of_reads (parseWrite_eq_ok_iff.mp parsed).2
          rintro rfl
          exact good
  | sysctl knob result => exact ⟨wellFormed.files, wellFormed.procs, wellFormed.syscalls⟩
  | hook env request => exact ⟨wellFormed.files, wellFormed.procs, wellFormed.syscalls⟩

end Steps

/-- Every run keeps the invariant. -/
theorem wellFormed_of_reachableBy {shash : Shash} {fileOk : AegisProtectedFile → Prop}
    {policy : PolicyState} (reached : ReachableBy shash (AddsGoodFile fileOk) policy) :
    WellFormed fileOk policy := by
  obtain ⟨procAlloc, syscallAlloc, operations, good, rfl⟩ := reached
  exact Transducer.run_of_forall (fun state : KernelState => WellFormed fileOk state.policy)
    (fun _ _ isGood holds => holds.step shash isGood) (wellFormed_boot fileOk _ _) good

/-- What holds of every entry with a path that fits holds of every file entry
that a run can add. -/
theorem wellFormed_of_paths {shash : Shash} {fileOk : AegisProtectedFile → Prop}
    {policy : PolicyState} (paths : ∀ (path : PathKey) hash, fileOk (fileEntry path.val hash))
    (reached : Reachable shash policy) : WellFormed fileOk policy := by
  obtain ⟨procAlloc, syscallAlloc, operations, -, final⟩ := reached
  have good : ∀ operation, AddsGoodFile fileOk operation := by
    intro operation
    cases operation with
    | write env endpoint ubuf =>
        cases endpoint with
        | protectedFilesAdd => exact paths (pathOf ubuf)
        | _ => trivial
    | sysctl knob result => trivial
    | hook env request => trivial
  exact wellFormed_of_reachableBy
    ⟨procAlloc, syscallAlloc, operations, fun operation _ => good operation, final⟩

theorem wellFormed_of_reachable {shash : Shash} {policy : PolicyState}
    (reached : Reachable shash policy) : WellFormed (fun _ => True) policy :=
  wellFormed_of_paths (fun _ _ => trivial) reached

end Aegis.Refinement
