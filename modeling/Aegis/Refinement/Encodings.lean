import Aegis.Refinement.Reachable

/-!
Owns what the listings tell about reachable policies: the process and system
call listings determine the entries of every reachable list, the file listing
determines them in runs that add plain paths only.

Does not own: the texts, or who reads them.
-/

namespace Aegis.Refinement

open Aegis.Foundation
open Aegis.Kernel
open Aegis.Policy
open Aegis.Control
open CString (ascii)

/-- The policy after an administrator has written these lines to the endpoint. -/
def afterWriting (endpoint : Endpoint) (lines : List (List UInt8)) : PolicyState :=
  ((kernel sha256Shash).run .boot (lines.map (.write administrator endpoint))).1.policy

theorem afterWriting_reachableBy {endpoint : Endpoint} {lines : List (List UInt8)}
    {allowed : Operation → Prop}
    (each : ∀ line ∈ lines, allowed (.write administrator endpoint line)) :
    ReachableBy sha256Shash allowed (afterWriting endpoint lines) := by
  refine ⟨fun _ => true, fun _ => true, lines.map (.write administrator endpoint), ?_, rfl⟩
  intro operation member
  obtain ⟨line, inLines, rfl⟩ := List.mem_map.mp member
  exact each line inLines

/-! ### Processes and system calls -/

/-- Equal listings show equal entries, and the names in the process list have
no blanks and at most 15 bytes. -/
theorem procs_and_syscalls_recoverable (shash : Shash) (first second : PolicyState)
    (firstReached : Reachable shash first) (secondReached : Reachable shash second) :
    (aegisProtectedProcessShow first.procs = aegisProtectedProcessShow second.procs →
      first.procs.entries.map AegisProtectedProc.shown =
        second.procs.entries.map AegisProtectedProc.shown) ∧
    (aegisBlockedSyscallShow first.syscalls = aegisBlockedSyscallShow second.syscalls →
      first.syscalls.entries.map AegisBlockedSyscall.syscallNr =
        second.syscalls.entries.map AegisBlockedSyscall.syscallNr) ∧
    ∀ entry ∈ first.procs.entries,
      (∀ byte ∈ entry.comm.text.bytes, isSpace byte = false ∧ byte ≠ 0) ∧
        entry.comm.text.length ≤ 15 := by
  have firstPlain := (wellFormed_of_reachable firstReached).procs.good
  have secondPlain := (wellFormed_of_reachable secondReached).procs.good
  refine ⟨aegisProtectedProcessShow_inj firstPlain secondPlain, aegisBlockedSyscallShow_inj, ?_⟩
  intro entry member
  refine ⟨fun byte inComm => ⟨(firstPlain entry member).solid byte inComm, ?_⟩,
    Nat.le_of_lt_succ entry.comm.text_length_lt⟩
  rintro rfl
  exact entry.comm.text.noNul inComm

/-- The empty name and a negative process id are told apart from the boot list. -/
theorem procs_recoverable_blank :
    Reachable sha256Shash (afterWriting .protectedProcsAdd [ascii " ", ascii "x -5"]) ∧
      aegisProtectedProcessShow
          (afterWriting .protectedProcsAdd [ascii " ", ascii "x -5"]).procs ≠
        aegisProtectedProcessShow (afterWriting .protectedProcsAdd []).procs := by
  have reached : ∀ lines, Reachable sha256Shash (afterWriting .protectedProcsAdd lines) :=
    fun lines => afterWriting_reachableBy fun _ _ => trivial
  refine ⟨reached _, fun same => ?_⟩
  have entries := (procs_and_syscalls_recoverable sha256Shash _ _ (reached _) (reached _)).1 same
  exact absurd (congrArg List.length entries) (by decide +kernel)

/-! ### Files -/

/-- A path that is added has no newline inside and, in its column, does not end
in a blank. -/
def PlainFileWrite : Operation → Prop
  | .write _ .protectedFilesAdd ubuf => PlainPath (lineOf ubuf aegisPathLen)
  | _ => True

theorem PlainFileWrite.addsGoodFile {operation : Operation} (plain : PlainFileWrite operation) :
    AddsGoodFile (fun entry => PlainPath entry.path.text) operation := by
  cases operation with
  | write env endpoint ubuf =>
      cases endpoint with
      | protectedFilesAdd =>
          intro hash
          rw [fileEntry_path_text_of_fits (lineOf_length_lt ubuf (by decide))]
          exact plain
      | _ => trivial
  | sysctl knob result => trivial
  | hook env request => trivial

/-- Where every run adds plain paths only, equal file listings show equal
paths, hash states and hashes. -/
theorem files_recoverable (shash : Shash) (first second : PolicyState)
    (firstReached : ReachableBy shash PlainFileWrite first)
    (secondReached : ReachableBy shash PlainFileWrite second)
    (same : aegisProtectedFileShow first.files = aegisProtectedFileShow second.files) :
    first.files.entries.map AegisProtectedFile.shown =
      second.files.entries.map AegisProtectedFile.shown := by
  have plain : ∀ policy, ReachableBy shash PlainFileWrite policy →
      ∀ entry ∈ policy.files.entries, PlainPath entry.path.text := by
    rintro policy ⟨procAlloc, syscallAlloc, operations, each, final⟩
    have reached : ReachableBy shash (AddsGoodFile fun entry => PlainPath entry.path.text) policy :=
      ⟨procAlloc, syscallAlloc, operations, fun operation member =>
        (each operation member).addsGoodFile, final⟩
    exact (wellFormed_of_reachableBy reached).files.good
  exact aegisProtectedFileShow_inj (plain first firstReached) (plain second secondReached) same

/-- A path with a blank inside is told apart from its first word. -/
theorem files_recoverable_blank :
    ReachableBy sha256Shash PlainFileWrite (afterWriting .protectedFilesAdd [ascii "/a b\n"]) ∧
      aegisProtectedFileShow (afterWriting .protectedFilesAdd [ascii "/a b\n"]).files ≠
        aegisProtectedFileShow (afterWriting .protectedFilesAdd [ascii "/a"]).files := by
  have first : ReachableBy sha256Shash PlainFileWrite
      (afterWriting .protectedFilesAdd [ascii "/a b\n"]) := by
    apply afterWriting_reachableBy
    intro line member
    obtain rfl : line = ascii "/a b\n" := by simpa using member
    exact ⟨by decide +kernel, by decide +kernel⟩
  have second : ReachableBy sha256Shash PlainFileWrite
      (afterWriting .protectedFilesAdd [ascii "/a"]) := by
    apply afterWriting_reachableBy
    intro line member
    obtain rfl : line = ascii "/a" := by simpa using member
    exact ⟨by decide +kernel, by decide +kernel⟩
  refine ⟨first, fun same => ?_⟩
  have entries := files_recoverable sha256Shash _ _ first second same
  exact absurd entries (by decide +kernel)

/-- A path of 40 bytes, as wide as its column. -/
def longPath (letter : UInt8) : List UInt8 := 47 :: List.replicate 39 letter

/-- A path with a trailing blank has the row of the path without it, and a path
with a newline inside can hold the end of one row and the start of another. -/
theorem aegisProtectedFileShow_collides :
    (Reachable sha256Shash (afterWriting .protectedFilesAdd [ascii "/a"]) ∧
      Reachable sha256Shash (afterWriting .protectedFilesAdd [ascii "/a "]) ∧
      aegisProtectedFileShow (afterWriting .protectedFilesAdd [ascii "/a"]).files =
        aegisProtectedFileShow (afterWriting .protectedFilesAdd [ascii "/a "]).files ∧
      (afterWriting .protectedFilesAdd [ascii "/a"]).files.entries.map AegisProtectedFile.shown ≠
        (afterWriting .protectedFilesAdd [ascii "/a "]).files.entries.map
          AegisProtectedFile.shown) ∧
    let pending := ascii " <pending>\n"
    let first := [longPath 97 ++ pending ++ longPath 98, longPath 99]
    let second := [longPath 97, longPath 98 ++ pending ++ longPath 99]
    aegisProtectedFileShow (afterWriting .protectedFilesAdd first).files =
        aegisProtectedFileShow (afterWriting .protectedFilesAdd second).files ∧
      (afterWriting .protectedFilesAdd first).files.entries.map AegisProtectedFile.shown ≠
        (afterWriting .protectedFilesAdd second).files.entries.map AegisProtectedFile.shown := by
  have reached : ∀ lines, Reachable sha256Shash (afterWriting .protectedFilesAdd lines) :=
    fun lines => afterWriting_reachableBy fun _ _ => trivial
  exact ⟨⟨reached _, reached _, by decide +kernel, by decide +kernel⟩, by decide +kernel,
    by decide +kernel⟩

end Aegis.Refinement
