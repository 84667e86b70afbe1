import Aegis.Foundation.Scan

/-!
Owns the part of the kernel's interface that the module is written against:
error numbers, access masks, open modes, the identifiers passed to the loading
hooks, system call numbers, and the fields of tasks and files that the module
reads.

Does not own: behaviour of the kernel. What a call into the kernel returns is a
parameter of the function that makes the call.
-/

namespace Aegis.Kernel

open Aegis.Foundation

/-! ### Error numbers -/

/-- An error number. Functions return it negated. -/
structure Errno where
  number : Nat
  positive : 0 < number
deriving DecidableEq

namespace Errno

def eperm : Errno := ⟨1, by decide⟩
def enoent : Errno := ⟨2, by decide⟩
def ebadf : Errno := ⟨9, by decide⟩
def enomem : Errno := ⟨12, by decide⟩
def eacces : Errno := ⟨13, by decide⟩
def efault : Errno := ⟨14, by decide⟩
def eexist : Errno := ⟨17, by decide⟩
def einval : Errno := ⟨22, by decide⟩
def enospc : Errno := ⟨28, by decide⟩

/-- The return value `-E...`. -/
def ret (error : Errno) : Int := -(error.number : Int)

theorem ret_injective : Function.Injective ret := by
  rintro ⟨number, positive⟩ ⟨other, otherPositive⟩ same
  obtain rfl : number = other := Int.ofNat.inj (neg_injective same)
  rfl

theorem ret_neg (error : Errno) : error.ret < 0 := by
  have positive := error.positive
  unfold ret
  omega

@[simp] theorem ret_ne_zero (error : Errno) : error.ret ≠ 0 := Int.ne_of_lt error.ret_neg

end Errno

/-! ### Masks and modes -/

def mayWrite : BitVec 32 := 2
def mayRead : BitVec 32 := 4
def mayAppend : BitVec 32 := 8

def fmodeRead : BitVec 32 := 1
def fmodeWrite : BitVec 32 := 2

def ptraceModeNoaudit : BitVec 32 := 4

/-- `mask & bits` as a truth value. -/
def hasBits (mask bits : BitVec 32) : Bool := mask &&& bits != 0

def pageSize : Nat := 4096

/-! ### Loading identifiers and system call numbers -/

/-- `enum kernel_read_file_id`; the module distinguishes four of them. -/
inductive KernelReadFileId where
  | readingModule
  | readingFirmware
  | readingKexecImage
  | readingKexecInitramfs
  | other (id : Nat)
deriving DecidableEq, Repr

/-- `enum kernel_load_data_id`; the module distinguishes two of them. -/
inductive KernelLoadDataId where
  | loadingModule
  | loadingFirmware
  | loadingKexecImage
  | other (id : Nat)
deriving DecidableEq, Repr

def nrInitModule : Int := 175
def nrDeleteModule : Int := 176
def nrKexecLoad : Int := 246
def nrFinitModule : Int := 313
def nrKexecFileLoad : Int := 320

/-! ### Tasks and files -/

/-- The name and thread id of a task. -/
structure TaskName where
  comm : CString
  pid : Int
deriving DecidableEq

/-- A task with its thread group leader. -/
structure Task extends TaskName where
  groupLeader : TaskName
deriving DecidableEq

/-- An open file: the name `d_path` would write, and the mode it was opened
with. -/
structure File where
  path : CString
  fMode : BitVec 32
deriving DecidableEq

abbrev Inode := Nat

end Aegis.Kernel
