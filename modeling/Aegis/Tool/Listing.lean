import Aegis.Refinement.Encodings
import Aegis.Tool.Aegisctl

/-!
Owns the listing commands of `aegisctl.c`: `print_file` with its single read,
and the files of the policy directory that the commands print.

A read returns the whole listing if it fits and its first bytes otherwise.

Does not own: the banners, or the status and statistics files.
-/

namespace Aegis.Tool

open Aegis.Foundation
open Aegis.Kernel
open Aegis.Policy
open Aegis.Control
open Aegis.Refinement
open CString (ascii)

def maxBuf : Nat := 4096

/-- What `print_file` prints. -/
inductive PrintedFile where
  | cannotOpen (file : String) (error : Errno)
  | text (bytes : List UInt8)
deriving DecidableEq

/-- `opened` is the error of `open`, or the contents of the file. -/
def printFile (file : String) (opened : Except Errno (List UInt8)) : PrintedFile :=
  match opened with
  | .error error => .cannotOpen file error
  | .ok contents =>
      let buf := contents.take (maxBuf - 1)
      if buf = [] then .text (ascii "  (empty)\n")
      else .text (CString.ofMemory (buf ++ [0])).bytes

/-- A file of the policy directory that lists entries. -/
inductive ListingFile where
  | protectedProcs
  | protectedFiles
  | blockedSyscalls
deriving DecidableEq

def ListingFile.name : ListingFile → String
  | .protectedProcs => "protected_procs"
  | .protectedFiles => "protected_files"
  | .blockedSyscalls => "blocked_syscalls"

/-- The argument that makes the tool print the file. -/
def ListingFile.command : ListingFile → String
  | .protectedProcs => "procs"
  | .protectedFiles => "files"
  | .blockedSyscalls => "symlist"

def ListingFile.show (policy : PolicyState) : ListingFile → List UInt8
  | .protectedProcs => aegisProtectedProcessShow policy.procs
  | .protectedFiles => aegisProtectedFileShow policy.files
  | .blockedSyscalls => aegisBlockedSyscallShow policy.syscalls

def securityfsFiles : List ListingFile := [.protectedProcs, .protectedFiles, .blockedSyscalls]

/-- What a run of the tool prints of the listings. -/
def printedListing (policy : PolicyState) (argv : List CString) : Option PrintedFile :=
  match (main argv).2 with
  | .printFile file =>
      (securityfsFiles.find? fun listing => listing.name = file).map fun listing =>
        printFile file (.ok (listing.show policy))
  | _ => none

/-- Each listing command prints the whole text of its list. -/
def ListingsComplete (policy : PolicyState) : Prop :=
  ∀ listing : ListingFile, printedListing policy [argv0, .lit listing.command] =
    some (.text (listing.show policy))

theorem printedListing_eq (policy : PolicyState) (listing : ListingFile) :
    printedListing policy [argv0, .lit listing.command] =
      some (printFile listing.name (.ok (listing.show policy))) := by
  cases listing with
  | protectedProcs => rfl
  | protectedFiles => rfl
  | blockedSyscalls => rfl

/-- A text without NUL is printed whole exactly when it fits in one read. -/
theorem printFile_eq_text_iff {file : String} {contents : List UInt8} (nonempty : contents ≠ [])
    (noNul : 0 ∉ contents) :
    printFile file (.ok contents) = .text contents ↔ contents.length ≤ maxBuf - 1 := by
  have present : contents.take (maxBuf - 1) ≠ [] := by
    simpa [List.take_eq_nil_iff, maxBuf] using nonempty
  have free : 0 ∉ contents.take (maxBuf - 1) := fun member => noNul (List.mem_of_mem_take member)
  have text : (CString.ofMemory (contents.take (maxBuf - 1) ++ [0])).bytes =
      contents.take (maxBuf - 1) :=
    congrArg CString.bytes (CString.ofMemory_append_nul ⟨_, free⟩ [])
  simp only [printFile, present, if_false, text, PrintedFile.text.injEq]
  exact List.take_eq_self_iff contents

theorem showTable_ne_nil (title : String) (count : Int) (heading rows : List (List UInt8)) :
    showTable title count heading rows ≠ [] := by
  have length := showTable_length title count heading rows
  intro empty
  rw [empty, List.length_nil] at length
  omega

/-- The process and system call listings of a reachable policy always fit, so
the commands print everything exactly when the file listing fits. -/
theorem listingsComplete_iff_of_wellFormed {policy : PolicyState}
    (wellFormed : WellFormed (fun _ => True) policy) :
    ListingsComplete policy ↔ fileListingLength policy.files ≤ maxBuf - 1 := by
  have procs : (aegisProtectedProcessShow policy.procs).length ≤ maxBuf - 1 :=
    (aegisProtectedProcessShow_length_le wellFormed.procs.counted wellFormed.procs.bounded
      wellFormed.procs.good).trans (by decide)
  have syscalls : (aegisBlockedSyscallShow policy.syscalls).length ≤ maxBuf - 1 := by
    refine (aegisBlockedSyscallShow_length_le wellFormed.syscalls.counted
      wellFormed.syscalls.bounded fun entry member => ?_).trans (by decide)
    obtain ⟨nonneg, small⟩ := wellFormed.syscalls.good entry member
    omega
  have whole : ∀ listing : ListingFile,
      printedListing policy [argv0, .lit listing.command] = some (.text (listing.show policy)) ↔
        (listing.show policy).length ≤ maxBuf - 1 := by
    intro listing
    rw [printedListing_eq, Option.some.injEq]
    cases listing with
    | protectedProcs =>
        exact printFile_eq_text_iff (showTable_ne_nil _ _ _ _) (aegisProtectedProcessShow_noNul _)
    | protectedFiles =>
        exact printFile_eq_text_iff (showTable_ne_nil _ _ _ _) (aegisProtectedFileShow_noNul _)
    | blockedSyscalls =>
        exact printFile_eq_text_iff (showTable_ne_nil _ _ _ _) (aegisBlockedSyscallShow_noNul _)
  rw [← aegisProtectedFileShow_length]
  constructor
  · intro complete
    exact (whole .protectedFiles).mp (complete .protectedFiles)
  · intro files listing
    apply (whole listing).mpr
    cases listing with
    | protectedProcs => exact procs
    | protectedFiles => exact files
    | blockedSyscalls => exact syscalls

/-- In every reachable policy the listing commands print everything exactly
when the file listing has at most 4095 bytes. -/
theorem listingsComplete_iff (shash : Shash) (policy : PolicyState)
    (reached : Reachable shash policy) :
    ListingsComplete policy ↔ fileListingLength policy.files ≤ 4095 :=
  listingsComplete_iff_of_wellFormed (wellFormed_of_reachable reached)

theorem listingsComplete_passwd :
    Reachable sha256Shash (afterWriting .protectedFilesAdd [ascii "/etc/passwd"]) ∧
      ListingsComplete (afterWriting .protectedFilesAdd [ascii "/etc/passwd"]) := by
  have reached : Reachable sha256Shash (afterWriting .protectedFilesAdd [ascii "/etc/passwd"]) :=
    afterWriting_reachableBy fun _ _ => trivial
  exact ⟨reached, (listingsComplete_iff sha256Shash _ reached).mpr (by decide +kernel)⟩

/-- Fifteen paths of 255 bytes. -/
def longPaths : List (List UInt8) :=
  (List.range 15).map fun index => 47 :: UInt8.ofNat (97 + index) :: List.replicate 253 120

/-- Fifteen long paths make a listing of 4118 bytes, and `aegisctl files` cuts
it off. -/
theorem aegisctl_files_cuts_listing :
    Reachable sha256Shash (afterWriting .protectedFilesAdd longPaths) ∧
      (afterWriting .protectedFilesAdd longPaths).files.entries.length = 15 ∧
      fileListingLength (afterWriting .protectedFilesAdd longPaths).files = 4118 ∧
      ¬ ListingsComplete (afterWriting .protectedFilesAdd longPaths) := by
  have reached : Reachable sha256Shash (afterWriting .protectedFilesAdd longPaths) :=
    afterWriting_reachableBy fun _ _ => trivial
  have length : fileListingLength (afterWriting .protectedFilesAdd longPaths).files = 4118 := by
    decide +kernel
  refine ⟨reached, by decide +kernel, length, fun complete => ?_⟩
  have fits := (listingsComplete_iff_of_wellFormed (wellFormed_of_reachable reached)).mp complete
  rw [length] at fits
  exact absurd fits (by decide)

end Aegis.Tool
