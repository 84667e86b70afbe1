import Aegis.Foundation.Atomicity
import Aegis.Concurrent.FastPath

/-!
Owns the reduction of the protected file list from single memory steps to
atomic sections. In the larger program the list has no lock and no stored
length apart from its entries: a locked section of an add or a del is one step,
and a hook is one step that runs `aegis_file_permission` on the list.

An add takes effect when it counts its entry, a del when it unlinks one or
finds none, and a hook at its last step. So the unlocked read of the count is
as good as a read under the lock.

Does not own: the sections themselves, or the gap between the check and the
insertion of an add, which the larger program has too.
-/

namespace Aegis.Concurrent

open Aegis.Foundation
open Aegis.Kernel
open Aegis.Policy

/-! ### The larger program -/

inductive SectionCall where
  | list (call : FileCall)
  | hook (file : File) (mask : BitVec 32)
  | hookReturned (file : File) (mask : BitVec 32) (ret : Int)

/-- What a section finds besides the list. -/
structure SectionChoice where
  payload : Option (Digest × Bool)
  policy : PolicyState
  env : HookEnv

def SectionCall.advance (index : Nat) (files : FileList) (choice : SectionChoice) :
    SectionCall → Option (FileList × SectionCall)
  | .list call =>
      (fileSpec.program.advance index files call choice.payload).map fun result =>
        (result.1, .list result.2)
  | .hook file mask =>
      let policy := { choice.policy with files := files }
      some (files, .hookReturned file mask (aegisFilePermission policy choice.env file mask).ret)
  | .hookReturned _ _ _ => none

/-- The entries that have been counted, with their number. -/
def LockedFiles.settled (files : LockedFiles) : FileList :=
  ⟨(files.entries.take files.count.toNat).map OwnedFile.file,
    (files.entries.take files.count.toNat).length⟩

section Settled

variable {files : LockedFiles}

end Settled

/-! ### Steps -/

section Steps

variable {index : Nat} {files next : LockedFiles} {call after : FileTask} {choice : StepChoice}

end Steps

/-! ### Runs -/

end Aegis.Concurrent
