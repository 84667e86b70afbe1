import Mathlib.Logic.Function.Basic
import Aegis.Kernel.Interface

/-!
Owns the file system as far as the module's guarantees speak of it: path lookup
and canonical names, the contents of files, reads and writes at a position, and
the open modes that follow from the flags of `open(2)`.

These definitions are what is assumed of the kernel. Names do not change: a
rename is outside the model.

Does not own: which accesses a hook allows, descriptors, or the page cache.
-/

namespace Aegis.Kernel

open Aegis.Foundation

/-- Lookup follows links and normalises the path; `dPath` is the canonical name
of a file. -/
structure FileSystem where
  kernPath : CString → Except Errno Inode
  dPath : Inode → CString
  canonical : ∀ {path inode}, kernPath path = .ok inode → kernPath (dPath inode) = .ok inode

/-- One file with a canonical name and a link to it. -/
def FileSystem.withLink (name link : CString) (file : Inode) : FileSystem where
  kernPath path := if path = name ∨ path = link then .ok file else .error .enoent
  dPath _ := name
  canonical {path inode} resolved := by
    split at resolved
    · exact (if_pos (Or.inl rfl)).trans resolved
    · cases resolved

abbrev Contents := Inode → List UInt8

def readAt (content : List UInt8) (pos size : Nat) : List UInt8 :=
  (content.drop pos).take size

/-- A write past the end fills the gap with zeros; an empty write does nothing. -/
def writeAt (content : List UInt8) (pos : Nat) (bytes : List UInt8) : List UInt8 :=
  if bytes = [] then content
  else
    (content ++ List.replicate (pos - content.length) 0).take pos ++ bytes ++
      content.drop (pos + bytes.length)

/-- Reading on from where a read stopped reads a longer piece of the file. -/
theorem take_append_readAt (content : List UInt8) (pos size : Nat) :
    content.take pos ++ readAt content pos size =
      content.take (pos + (readAt content pos size).length) := by
  unfold readAt
  rw [← List.take_add, List.length_take, List.length_drop]
  rcases Nat.le_total size (content.length - pos) with short | long
  · rw [Nat.min_eq_left short]
  · rw [Nat.min_eq_right long, List.take_of_length_le (by omega),
      List.take_of_length_le (by omega)]

theorem readAt_eq_nil {content : List UInt8} {pos size : Nat} (positive : 0 < size)
    (ended : readAt content pos size = []) : content.take pos = content := by
  unfold readAt at ended
  rw [List.take_eq_nil_iff] at ended
  rcases ended with zero | dropped
  · omega
  · exact List.take_of_length_le (List.drop_eq_nil_iff.mp dropped)

/-! ### Open flags -/

def oAccmode : BitVec 32 := 3
def oTrunc : BitVec 32 := 0x200
def oAppend : BitVec 32 := 0x400

/-- `OPEN_FMODE`: read is mode 1, write is mode 2, both is mode 3, and the
fourth access mode gives neither. -/
def openFmode (flags : BitVec 32) : BitVec 32 := (flags + 1) &&& oAccmode

end Aegis.Kernel
