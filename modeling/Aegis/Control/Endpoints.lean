import Mathlib.Data.List.DropRight
import Aegis.Policy.Hooks

/-!
Owns `aegis_control.c`: the six write endpoints, the helper that copies the
user's bytes into a string, and the table of endpoint names.

A write is the bytes of the user buffer; its length is `len`. `ControlEnv`
holds the capability of the caller and the outcome of the user copy and of the
allocations.

Does not own: what the lists do with a parsed argument.
-/

namespace Aegis.Control

open Aegis.Foundation
open Aegis.Kernel
open Aegis.Policy

structure ControlEnv where
  capable : Bool
  copyFault : Bool
  kmallocBuf : Bool
  kmallocEntry : Bool
  fileAdd : FileAddEnv

/-- An administrator's write in which every allocation succeeds and no path is
found. -/
def administrator : ControlEnv where
  capable := true
  copyFault := false
  kmallocBuf := true
  kmallocEntry := true
  fileAdd :=
    { kmalloc := some ⟨List.replicate 32 0, by decide⟩
      kernPath := fun _ => .error .enoent
      dentryOpen := fun _ => none
      hashEnv := fun _ => ⟨none, true, none, true, [], none⟩ }

structure ControlOutcome where
  ret : Int
  policy : PolicyState
  log : List LogRecord

/-! ### Shared helpers -/

def aectlAuthorized (env : ControlEnv) : Bool := env.capable

def isNewline (byte : UInt8) : Bool := byte == 10 || byte == 13

/-- The value of `n` at the exit of the loop that strips trailing newlines. -/
def stripLength (out : List UInt8) : Nat → Nat
  | 0 => 0
  | n + 1 => if isNewline (out.getD n 0) then stripLength out n else n + 1

/-- Return value, and the string left in `out`. -/
def aectlGetString (copyFault : Bool) (ubuf : List UInt8) (max : Nat) : Int × CString :=
  let n := min ubuf.length (max - 1)
  let out := ubuf.take n
  if copyFault then (Errno.efault.ret, .empty)
  else if strnlen out n ≠ n then (Errno.einval.ret, .empty)
  else (stripLength out n, .ofMemory (out.take (stripLength out n)))

/-- The write returns `len` when the list operation returns zero. -/
def writeResult (len : Nat) (ret : Int) : Int := if ret = 0 then len else ret

def ControlOutcome.refuse (policy : PolicyState) (ret : Int) : ControlOutcome := ⟨ret, policy, []⟩

/-! ### Protected files -/

def aectlWriteOp (env : ControlEnv) (ubuf : List UInt8) (policy : PolicyState)
    (op : CString → ListOp AegisProtectedFile) : ControlOutcome :=
  let got := aectlGetString env.copyFault ubuf aegisPathLen
  if !aectlAuthorized env then .refuse policy Errno.eperm.ret
  else if ubuf.length = 0 || aegisPathLen < ubuf.length then .refuse policy Errno.einval.ret
  else if !env.kmallocBuf then .refuse policy Errno.enomem.ret
  else if got.1 ≤ 0 then .refuse policy got.1
  else
    let result := op got.2
    ⟨writeResult ubuf.length result.ret, { policy with files := result.list }, result.log⟩

def aectlFilesAddWrite (shash : Shash) (env : ControlEnv) (ubuf : List UInt8)
    (policy : PolicyState) : ControlOutcome :=
  aectlWriteOp env ubuf policy fun path =>
    aegisProtectedFileAdd shash env.fileAdd (some path) policy.files

def aectlFilesDelWrite (env : ControlEnv) (ubuf : List UInt8) (policy : PolicyState) :
    ControlOutcome :=
  aectlWriteOp env ubuf policy fun path => aegisProtectedFileDel (some path) policy.files

/-! ### Protected processes -/

/-- The common body of the two process handlers. -/
def aectlProcsWrite (env : ControlEnv) (ubuf : List UInt8) (policy : PolicyState)
    (op : CString → Int → ListOp AegisProtectedProc) : ControlOutcome :=
  let got := aectlGetString env.copyFault ubuf aegisPathLen
  let scanned := sscanfWordInt 15 got.2 0
  if !aectlAuthorized env then .refuse policy Errno.eperm.ret
  else if ubuf.length = 0 || aegisPathLen ≤ ubuf.length then .refuse policy Errno.einval.ret
  else if got.1 ≤ 0 then .refuse policy got.1
  else if scanned.conversions < 1 then .refuse policy Errno.einval.ret
  else
    let result := op scanned.word scanned.number
    ⟨writeResult ubuf.length result.ret, { policy with procs := result.list }, result.log⟩

def aectlProcsAddWrite (env : ControlEnv) (ubuf : List UInt8) (policy : PolicyState) :
    ControlOutcome :=
  aectlProcsWrite env ubuf policy fun comm pid =>
    aegisProtectProcessAdd env.kmallocEntry (some comm) pid policy.procs

def aectlProcsDelWrite (env : ControlEnv) (ubuf : List UInt8) (policy : PolicyState) :
    ControlOutcome :=
  aectlProcsWrite env ubuf policy fun comm pid =>
    aegisProtectProcessDel (some comm) pid policy.procs

/-! ### Blocked syscalls -/

/-- `sizeof(buf)` of the syscall handlers. -/
def syscallBufLen : Nat := 16

/-- The common body of the two syscall handlers. -/
def aectlSyscallsWrite (env : ControlEnv) (ubuf : List UInt8) (policy : PolicyState)
    (op : Int → ListOp AegisBlockedSyscall) : ControlOutcome :=
  let got := aectlGetString env.copyFault ubuf syscallBufLen
  if !aectlAuthorized env then .refuse policy Errno.eperm.ret
  else if ubuf.length = 0 || syscallBufLen ≤ ubuf.length then .refuse policy Errno.einval.ret
  else if got.1 ≤ 0 then .refuse policy got.1
  else
    match kstrtoint got.2.bytes with
    | none => .refuse policy Errno.einval.ret
    | some nr =>
        if nr < 0 then .refuse policy Errno.einval.ret
        else
          let result := op nr
          ⟨writeResult ubuf.length result.ret, { policy with syscalls := result.list },
            result.log⟩

def aectlSyscallsAddWrite (env : ControlEnv) (ubuf : List UInt8) (policy : PolicyState) :
    ControlOutcome :=
  aectlSyscallsWrite env ubuf policy fun nr =>
    aegisSyscallBlockAdd env.kmallocEntry nr policy.syscalls

def aectlSyscallsDelWrite (env : ControlEnv) (ubuf : List UInt8) (policy : PolicyState) :
    ControlOutcome :=
  aectlSyscallsWrite env ubuf policy fun nr => aegisSyscallBlockDel nr policy.syscalls

/-! ### Securityfs wiring -/

inductive Endpoint where
  | protectedFilesAdd
  | protectedFilesDel
  | protectedProcsAdd
  | protectedProcsDel
  | blockedSyscallsAdd
  | blockedSyscallsDel
deriving DecidableEq, Repr

def Endpoint.fileName : Endpoint → String
  | .protectedFilesAdd => "protected_files_add"
  | .protectedFilesDel => "protected_files_del"
  | .protectedProcsAdd => "protected_procs_add"
  | .protectedProcsDel => "protected_procs_del"
  | .blockedSyscallsAdd => "blocked_syscalls_add"
  | .blockedSyscallsDel => "blocked_syscalls_del"

/-- `aectl_entries`: the names of the files and their handlers, in order. -/
def aectlEntries : List (String × Endpoint) :=
  [.protectedFilesAdd, .protectedFilesDel, .protectedProcsAdd, .protectedProcsDel,
    .blockedSyscallsAdd, .blockedSyscallsDel].map fun endpoint => (endpoint.fileName, endpoint)

def aectlWrite (shash : Shash) (env : ControlEnv) (endpoint : Endpoint) (ubuf : List UInt8)
    (policy : PolicyState) : ControlOutcome :=
  match endpoint with
  | .protectedFilesAdd => aectlFilesAddWrite shash env ubuf policy
  | .protectedFilesDel => aectlFilesDelWrite env ubuf policy
  | .protectedProcsAdd => aectlProcsAddWrite env ubuf policy
  | .protectedProcsDel => aectlProcsDelWrite env ubuf policy
  | .blockedSyscallsAdd => aectlSyscallsAddWrite env ubuf policy
  | .blockedSyscallsDel => aectlSyscallsDelWrite env ubuf policy

/-! ### The string helper -/

/-- What is left of a line after its trailing newlines are removed. -/
def stripNewlines (line : List UInt8) : List UInt8 := line.rdropWhile isNewline

theorem stripNewlines_sublist (line : List UInt8) : (stripNewlines line).Sublist line := by
  rw [stripNewlines, List.rdropWhile, ← List.reverse_sublist, List.reverse_reverse]
  exact List.dropWhile_sublist _

theorem take_stripLength (out : List UInt8) (n : Nat) (within : n ≤ out.length) :
    out.take (stripLength out n) = stripNewlines (out.take n) := by
  induction n with
  | zero => simp [stripLength, stripNewlines]
  | succ n inductionHypothesis =>
      have inside : n < out.length := within
      have last : out.getD n 0 = out[n] := by simp [inside]
      have grow : out.take (n + 1) = out.take n ++ [out[n]] := by
        rw [List.take_add_one, List.getElem?_eq_getElem inside]
        rfl
      unfold stripLength
      rw [last]
      by_cases newline : isNewline out[n] = true
      · rw [if_pos newline, inductionHypothesis (Nat.le_of_lt inside), grow, stripNewlines,
          stripNewlines, List.rdropWhile_concat_pos _ _ _ newline]
      · rw [if_neg newline, grow, stripNewlines, List.rdropWhile_concat_neg _ _ _ newline]

theorem stripLength_le (out : List UInt8) (n : Nat) : stripLength out n ≤ n := by
  induction n with
  | zero => exact Nat.le_refl 0
  | succ n inductionHypothesis =>
      unfold stripLength
      split
      · omega
      · exact Nat.le_refl _

/-- The bytes the helper copies. -/
def copiedBytes (ubuf : List UInt8) (max : Nat) : List UInt8 := ubuf.take (max - 1)

private theorem take_min_length (ubuf : List UInt8) (bound : Nat) :
    ubuf.take (min ubuf.length bound) = ubuf.take bound := by
  rcases Nat.le_total ubuf.length bound with short | long
  · rw [Nat.min_eq_left short, List.take_length, List.take_of_length_le short]
  · rw [Nat.min_eq_right long]

/-- The line the helper leaves in the buffer when it accepts the bytes. -/
def lineOf (ubuf : List UInt8) (max : Nat) : CString :=
  .ofMemory (stripNewlines (copiedBytes ubuf max))

/-- No NUL survives the copy, so the line is all that was not stripped. -/
theorem lineOf_bytes {ubuf : List UInt8} {max : Nat} (noNul : 0 ∉ copiedBytes ubuf max) :
    (lineOf ubuf max).bytes = stripNewlines (copiedBytes ubuf max) := by
  have free : 0 ∉ stripNewlines (copiedBytes ubuf max) := fun member =>
    noNul ((stripNewlines_sublist _).subset member)
  exact congrArg CString.bytes (CString.ofMemory_bytes ⟨_, free⟩)

/-- The string helper reports a copy fault, an embedded NUL, or the length of
the line. -/
theorem aectlGetString_eq (copyFault : Bool) (ubuf : List UInt8) (max : Nat) :
    aectlGetString copyFault ubuf max =
      if copyFault then (Errno.efault.ret, .empty)
      else if 0 ∈ copiedBytes ubuf max then (Errno.einval.ret, .empty)
      else ((lineOf ubuf max).length, lineOf ubuf max) := by
  set n := min ubuf.length (max - 1) with nDef
  have copied : ubuf.take n = copiedBytes ubuf max := take_min_length ubuf (max - 1)
  have length : (copiedBytes ubuf max).length = n := by
    rw [copiedBytes, List.length_take, nDef, Nat.min_comm]
  have whole : (copiedBytes ubuf max).take n = copiedBytes ubuf max := by
    rw [← length, List.take_length]
  have nul := strnlen_eq_iff (Nat.le_of_eq length.symm)
  have stripped := take_stripLength (copiedBytes ubuf max) n (Nat.le_of_eq length.symm)
  rw [whole] at nul stripped
  simp only [aectlGetString, ← nDef, copied, ne_eq, nul, not_not, stripped]
  by_cases clean : 0 ∈ copiedBytes ubuf max
  · simp only [clean, if_true]
  · have count : stripLength (copiedBytes ubuf max) n = (lineOf ubuf max).length := by
      rw [CString.length, lineOf_bytes clean, ← stripped, List.length_take, length,
        Nat.min_eq_left (stripLength_le _ n)]
    simp only [clean, if_false, count, lineOf]

theorem lineOf_length_lt (ubuf : List UInt8) {max : Nat} (positive : 0 < max) :
    (lineOf ubuf max).length < max := by
  have shorter : (lineOf ubuf max).length ≤ (stripNewlines (copiedBytes ubuf max)).length :=
    (List.takeWhile_sublist _).length_le
  have stripped : (stripNewlines (copiedBytes ubuf max)).length ≤ (copiedBytes ubuf max).length :=
    (stripNewlines_sublist _).length_le
  have copied : (copiedBytes ubuf max).length ≤ max - 1 := List.length_take_le _ _
  omega

/-- The helper returns zero exactly for a line of newlines only. -/
theorem lineOf_length_eq_zero_iff {ubuf : List UInt8} {max : Nat}
    (noNul : 0 ∉ copiedBytes ubuf max) :
    (lineOf ubuf max).length = 0 ↔ ∀ byte ∈ copiedBytes ubuf max, isNewline byte = true := by
  rw [CString.length, List.length_eq_zero_iff, lineOf_bytes noNul]
  exact List.rdropWhile_eq_nil_iff

end Aegis.Control
