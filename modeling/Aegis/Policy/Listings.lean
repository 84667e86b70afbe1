import Mathlib.Algebra.Order.BigOperators.Group.List
import Aegis.Foundation.Format
import Aegis.Policy.Syscalls

/-!
Owns the texts of the three `show` functions: a line with the count, two lines
of column titles, and a row for each entry. Each table is given with its length
and with the condition on its entries under which they can be read back.

Does not own: who reads the text, or which entries a list can hold.
-/

namespace Aegis.Policy

open Aegis.Foundation
open Aegis.Kernel
open CString (ascii)

/-! ### The common shape -/

/-- The `seq_printf` calls of a `show` function, one line each. -/
def showTable (title : String) (count : Int) (heading rows : List (List UInt8)) : List UInt8 :=
  unlines ((ascii title ++ ascii " (" ++ decimal count ++ ascii " entries):") :: (heading ++ rows))

theorem showTable_length (title : String) (count : Int) (heading rows : List (List UInt8)) :
    (showTable title count heading rows).length =
      (ascii title).length + (decimal count).length + 13 + (unlines heading).length +
        (unlines rows).length := by
  have literals : (ascii " (").length = 2 ∧ (ascii " entries):").length = 10 := by decide
  simp only [showTable, unlines_length, List.map_cons, List.map_append, List.sum_cons,
    List.sum_append, List.length_append, literals]
  omega

theorem showTable_noNul {title : String} {heading rows : List (List UInt8)}
    (titleNoNul : 0 ∉ ascii title) (headingNoNul : ∀ line ∈ heading, 0 ∉ line)
    (rowsNoNul : ∀ row ∈ rows, 0 ∉ row) (count : Int) :
    0 ∉ showTable title count heading rows := by
  have number : 0 ∉ decimal count := (decimalString count).noNul
  have literals : 0 ∉ ascii " (" ∧ 0 ∉ ascii " entries):" := by decide
  intro member
  obtain ⟨line, inTable, inLine⟩ := List.mem_flatMap.mp member
  have inLine : 0 ∈ line := by simpa using inLine
  rcases List.mem_cons.mp inTable with rfl | inRest
  · simp [titleNoNul, number, literals] at inLine
  · rcases List.mem_append.mp inRest with inHeading | inRows
    · exact headingNoNul line inHeading inLine
    · exact rowsNoNul line inRows inLine

theorem ne_blank_of_lt {byte : UInt8} (small : byte.toNat < 32) : byte ≠ 32 := by
  rintro rfl
  exact absurd small (by decide)

/-- A table whose rows have no newlines and determine what they show determines
what it shows. -/
theorem showTable_recovers {title : String} {heading : List (List UInt8)}
    (plainTitle : 10 ∉ ascii title) (plainHeading : ∀ line ∈ heading, 10 ∉ line)
    {Entry Value : Type} {row : Entry → List UInt8} {shown : Entry → Value}
    {first second : List Entry} {firstCount secondCount : Int}
    (firstPlain : ∀ entry ∈ first, 10 ∉ row entry)
    (secondPlain : ∀ entry ∈ second, 10 ∉ row entry)
    (determines : ∀ one ∈ first, ∀ other ∈ second, row one = row other → shown one = shown other)
    (same : showTable title firstCount heading (first.map row) =
      showTable title secondCount heading (second.map row)) :
    first.map shown = second.map shown := by
  have plain : ∀ (count : Int) (entries : List Entry), (∀ entry ∈ entries, 10 ∉ row entry) →
      ∀ line ∈ (ascii title ++ ascii " (" ++ decimal count ++ ascii " entries):") ::
        (heading ++ entries.map row), 10 ∉ line := by
    intro count entries plainRows line member
    rcases List.mem_cons.mp member with rfl | inTable
    · have literals : 10 ∉ ascii " (" ∧ 10 ∉ ascii " entries):" := by decide
      have number : 10 ∉ decimal count := fun digit => absurd (decimal_solid digit) (by decide)
      simp [plainTitle, number, literals]
    · rcases List.mem_append.mp inTable with inHeading | inRows
      · exact plainHeading line inHeading
      · obtain ⟨entry, inEntries, rfl⟩ := List.mem_map.mp inRows
        exact plainRows entry inEntries
  have lines := unlines_inj (plain firstCount first firstPlain)
    (plain secondCount second secondPlain) same
  have rows := List.append_cancel_left (List.cons.inj lines).2
  exact map_eq_map_of_inj determines rows

/-! ### Protected files -/

/-- `"%-40s %s"`. -/
def fileRow (path hash : List UInt8) : List UInt8 := padRight 40 path ++ 32 :: hash

def hashText (entry : AegisProtectedFile) : List UInt8 :=
  if entry.hashValid then hexBytes entry.hash.val else ascii "<pending>"

def fileHeading : List (List UInt8) :=
  [fileRow (ascii "PATH") (ascii "HASH"), fileRow (ascii "----") (ascii "----")]

def aegisProtectedFileShow (files : FileList) : List UInt8 :=
  showTable "AEGIS Protected Files" files.count fileHeading
    (files.entries.map fun entry => fileRow entry.path.text.bytes (hashText entry))

/-- What a row is meant to tell: the path, and the hash if it is valid. -/
def AegisProtectedFile.shown (entry : AegisProtectedFile) : CString × Option Digest :=
  (entry.path.text, if entry.hashValid then some entry.hash else none)

/-- A path without newlines. If it does not overflow its column, it does not
end in a blank. -/
structure PlainPath (path : CString) : Prop where
  noNewline : 10 ∉ path.bytes
  ends : path.length ≤ 40 → path.bytes.getLast? ≠ some 32

theorem hashText_length (entry : AegisProtectedFile) :
    (hashText entry).length = if entry.hashValid then 64 else 9 := by
  unfold hashText
  split
  · rw [hexBytes_length, entry.hash.property]
  · decide

/-- A hash column holds hexadecimal digits or the word for a pending hash. -/
theorem mem_hashText {entry : AegisProtectedFile} {byte : UInt8}
    (member : byte ∈ hashText entry) : 48 ≤ byte.toNat := by
  unfold hashText at member
  split at member
  · rcases mem_hexBytes member with digit | letter
    · exact (isDigit_range digit).1
    · omega
  · have all : ∀ letter ∈ ascii "<pending>", 48 ≤ letter.toNat := by decide +kernel
    exact all byte member

/-- A pending row ends in `>`, which is no hexadecimal digit. -/
theorem hashText_getLast? (entry : AegisProtectedFile) :
    (hashText entry).getLast? = some 62 ↔ entry.hashValid = false := by
  unfold hashText
  cases entry.hashValid with
  | false =>
      simp only [Bool.false_eq_true, if_false, iff_true]
      decide
  | true =>
      simp only [if_true, Bool.true_eq_false, iff_false]
      intro last
      exact absurd (mem_hexBytes (List.mem_of_getLast? last)) (by decide)

theorem not_mem_fileRow {entry : AegisProtectedFile} {byte : UInt8} (small : byte.toNat < 32)
    (absent : byte ∉ entry.path.text.bytes) :
    byte ∉ fileRow entry.path.text.bytes (hashText entry) := by
  have noBlank : byte ≠ 32 := ne_blank_of_lt small
  have noHash : byte ∉ hashText entry := by
    intro member
    have large := mem_hashText member
    omega
  rw [fileRow, List.mem_append, List.mem_cons, not_or, not_or]
  exact ⟨not_mem_padRight noBlank absent, noBlank, noHash⟩

theorem fileRow_inj {first second : AegisProtectedFile} (firstPlain : PlainPath first.path.text)
    (secondPlain : PlainPath second.path.text)
    (same : fileRow first.path.text.bytes (hashText first) =
      fileRow second.path.text.bytes (hashText second)) : first.shown = second.shown := by
  have last : ∀ entry : AegisProtectedFile,
      (fileRow entry.path.text.bytes (hashText entry)).getLast? = (hashText entry).getLast? := by
    intro entry
    have present : hashText entry ≠ [] := by
      have length := hashText_length entry
      intro empty
      rw [empty] at length
      split at length <;> simp at length
    rw [fileRow, List.getLast?_append_cons, List.getLast?_cons_of_ne_nil present]
  have kinds : first.hashValid = false ↔ second.hashValid = false := by
    rw [← hashText_getLast?, ← hashText_getLast?, ← last, ← last, same]
  have valid : first.hashValid = second.hashValid := by simpa using kinds
  have lengths : (32 :: hashText first).length = (32 :: hashText second).length := by
    rw [List.length_cons, List.length_cons, hashText_length, hashText_length, valid]
  obtain ⟨paths, hashes⟩ := List.append_inj' same lengths
  have path := CString.ext (padRight_inj firstPlain.ends secondPlain.ends paths)
  have hash := (List.cons.inj hashes).2
  unfold hashText at hash
  unfold AegisProtectedFile.shown
  rw [path, ← valid]
  rw [← valid] at hash
  cases isValid : first.hashValid with
  | false => rfl
  | true =>
      simp only [isValid, if_true] at hash ⊢
      rw [Subtype.ext (hexBytes_injective hash)]

/-- Plain paths and their hashes are recovered from the listing. -/
theorem aegisProtectedFileShow_inj {first second : FileList}
    (firstPlain : ∀ entry ∈ first.entries, PlainPath entry.path.text)
    (secondPlain : ∀ entry ∈ second.entries, PlainPath entry.path.text)
    (same : aegisProtectedFileShow first = aegisProtectedFileShow second) :
    first.entries.map AegisProtectedFile.shown = second.entries.map AegisProtectedFile.shown := by
  apply showTable_recovers (by decide) (by decide) _ _ _ same
  · exact fun entry member => not_mem_fileRow (by decide) (firstPlain entry member).noNewline
  · exact fun entry member => not_mem_fileRow (by decide) (secondPlain entry member).noNewline
  · exact fun one inFirst other inSecond =>
      fileRow_inj (firstPlain one inFirst) (secondPlain other inSecond)

/-! ### Protected processes -/

/-- `"%-20s %8s"` and `"%-20s %8d"`. -/
def procRow (comm pid : List UInt8) : List UInt8 := padRight 20 comm ++ 32 :: padLeft 8 pid

def procHeading : List (List UInt8) :=
  [procRow (ascii "COMM") (ascii "PID"), procRow (ascii "----") (ascii "---")]

def aegisProtectedProcessShow (procs : ProcList) : List UInt8 :=
  showTable "AEGIS Protected Processes" procs.count procHeading
    (procs.entries.map fun entry => procRow entry.comm.text.bytes (decimal entry.pid))

def AegisProtectedProc.shown (entry : AegisProtectedProc) : CString × Int :=
  (entry.comm.text, entry.pid)

/-- A name without blanks, and a process id that is an `int`. -/
structure PlainProc (entry : AegisProtectedProc) : Prop where
  solid : ∀ byte ∈ entry.comm.text.bytes, isSpace byte = false
  low : -2147483648 ≤ entry.pid
  high : entry.pid < 2147483648

theorem decimal_head_ne_blank (value : Int) : (decimal value).head? ≠ some 32 := fun blank =>
  absurd (decimal_solid (List.mem_of_mem_head? blank)) (by decide)

theorem not_mem_procRow {entry : AegisProtectedProc} {byte : UInt8} (small : byte.toNat < 32)
    (absent : byte ∉ entry.comm.text.bytes) :
    byte ∉ procRow entry.comm.text.bytes (decimal entry.pid) := by
  have noBlank : byte ≠ 32 := ne_blank_of_lt small
  rw [procRow, List.mem_append, List.mem_cons, not_or, not_or]
  exact ⟨not_mem_padRight noBlank absent, noBlank,
    not_mem_padLeft noBlank (not_mem_decimal (by omega))⟩

theorem procRow_inj {first second : AegisProtectedProc} (firstPlain : PlainProc first)
    (secondPlain : PlainProc second)
    (same : procRow first.comm.text.bytes (decimal first.pid) =
      procRow second.comm.text.bytes (decimal second.pid)) : first.shown = second.shown := by
  have ends : ∀ entry : AegisProtectedProc, PlainProc entry →
      entry.comm.text.bytes.length ≤ 20 → entry.comm.text.bytes.getLast? ≠ some 32 :=
    fun entry plain _ last => absurd (plain.solid 32 (List.mem_of_getLast? last)) (by decide)
  -- A name has at most 15 bytes, so its column is 20 bytes wide.
  have width : ∀ entry : AegisProtectedProc, (padRight 20 entry.comm.text.bytes).length = 20 := by
    intro entry
    have short : entry.comm.text.bytes.length < 16 := entry.comm.text_length_lt
    rw [padRight_length]
    omega
  obtain ⟨comms, pids⟩ := List.append_inj same ((width first).trans (width second).symm)
  have comm := CString.ext (padRight_inj (ends first firstPlain) (ends second secondPlain) comms)
  have pid := decimal_injective (padLeft_inj (decimal_head_ne_blank _) (decimal_head_ne_blank _)
    (List.cons.inj pids).2)
  rw [AegisProtectedProc.shown, AegisProtectedProc.shown, comm, pid]

/-- Plain entries are recovered from the listing. -/
theorem aegisProtectedProcessShow_inj {first second : ProcList}
    (firstPlain : ∀ entry ∈ first.entries, PlainProc entry)
    (secondPlain : ∀ entry ∈ second.entries, PlainProc entry)
    (same : aegisProtectedProcessShow first = aegisProtectedProcessShow second) :
    first.entries.map AegisProtectedProc.shown = second.entries.map AegisProtectedProc.shown := by
  have noNewline : ∀ entry : AegisProtectedProc, PlainProc entry →
      10 ∉ entry.comm.text.bytes := fun entry plain member =>
    absurd (plain.solid 10 member) (by decide)
  apply showTable_recovers (by decide) (by decide) _ _ _ same
  · intro entry member
    exact not_mem_procRow (by decide) (noNewline entry (firstPlain entry member))
  · intro entry member
    exact not_mem_procRow (by decide) (noNewline entry (secondPlain entry member))
  · exact fun one inFirst other inSecond =>
      procRow_inj (firstPlain one inFirst) (secondPlain other inSecond)

/-! ### Blocked system calls -/

/-- `"%8s"` and `"%8d"`. -/
def syscallRow (nr : List UInt8) : List UInt8 := padLeft 8 nr

def syscallHeading : List (List UInt8) := [syscallRow (ascii "NR"), syscallRow (ascii "--")]

def aegisBlockedSyscallShow (syscalls : SyscallList) : List UInt8 :=
  showTable "AEGIS Blocked Syscalls" syscalls.count syscallHeading
    (syscalls.entries.map fun entry => syscallRow (decimal entry.syscallNr))

/-- The numbers are recovered from the listing, whatever they are. -/
theorem aegisBlockedSyscallShow_inj {first second : SyscallList}
    (same : aegisBlockedSyscallShow first = aegisBlockedSyscallShow second) :
    first.entries.map AegisBlockedSyscall.syscallNr =
      second.entries.map AegisBlockedSyscall.syscallNr := by
  apply showTable_recovers (by decide) (by decide) _ _ _ same
  · exact fun entry _ => not_mem_padLeft (by decide) (not_mem_decimal (by decide))
  · exact fun entry _ => not_mem_padLeft (by decide) (not_mem_decimal (by decide))
  · exact fun one _ other _ row => decimal_injective
      (padLeft_inj (decimal_head_ne_blank _) (decimal_head_ne_blank _) row)

/-! ### No NUL -/

theorem aegisProtectedFileShow_noNul (files : FileList) : 0 ∉ aegisProtectedFileShow files := by
  apply showTable_noNul (by decide) (by decide)
  intro row member
  obtain ⟨entry, -, rfl⟩ := List.mem_map.mp member
  exact not_mem_fileRow (by decide) entry.path.text.noNul

theorem aegisProtectedProcessShow_noNul (procs : ProcList) :
    0 ∉ aegisProtectedProcessShow procs := by
  apply showTable_noNul (by decide) (by decide)
  intro row member
  obtain ⟨entry, -, rfl⟩ := List.mem_map.mp member
  exact not_mem_procRow (by decide) entry.comm.text.noNul

theorem aegisBlockedSyscallShow_noNul (syscalls : SyscallList) :
    0 ∉ aegisBlockedSyscallShow syscalls := by
  apply showTable_noNul (by decide) (by decide)
  intro row member
  obtain ⟨entry, -, rfl⟩ := List.mem_map.mp member
  exact not_mem_padLeft (by decide) (not_mem_decimal (by decide))

/-! ### Lengths -/

/-- The length of the file listing, from the lengths of the paths. -/
def fileListingLength (files : FileList) : Nat :=
  126 + (decimal files.count).length +
    (files.entries.map fun entry =>
      max 40 entry.path.text.length + (if entry.hashValid then 66 else 11)).sum

theorem aegisProtectedFileShow_length (files : FileList) :
    (aegisProtectedFileShow files).length = fileListingLength files := by
  have heading : (unlines fileHeading).length = 92 := by decide
  have title : (ascii "AEGIS Protected Files").length = 21 := by decide
  have row : ∀ entry : AegisProtectedFile,
      (fileRow entry.path.text.bytes (hashText entry)).length + 1 =
        max 40 entry.path.text.length + (if entry.hashValid then 66 else 11) := by
    intro entry
    rw [fileRow, List.length_append, List.length_cons, padRight_length, hashText_length,
      CString.length]
    split <;> omega
  rw [aegisProtectedFileShow, showTable_length, heading, title, unlines_length, List.map_map,
    fileListingLength]
  simp only [Function.comp_def, row]
  omega

theorem sum_map_le_mul {Entry : Type} {entries : List Entry} {size : Entry → Nat} {bound : Nat}
    (each : ∀ entry ∈ entries, size entry ≤ bound) :
    (entries.map size).sum ≤ entries.length * bound := by
  have bounded := List.sum_le_card_nsmul (entries.map size) bound (by
    intro value member
    obtain ⟨entry, inList, rfl⟩ := List.mem_map.mp member
    exact each entry inList)
  simpa using bounded

theorem aegisProtectedProcessShow_length_le {procs : ProcList} (counted : procs.Counted)
    (bounded : procs.entries.length ≤ aegisMaxProtectedProcs)
    (plain : ∀ entry ∈ procs.entries, PlainProc entry) :
    (aegisProtectedProcessShow procs).length ≤ 2221 := by
  have heading : (unlines procHeading).length = 60 := by decide
  have title : (ascii "AEGIS Protected Processes").length = 25 := by decide
  have rows : (unlines (procs.entries.map fun entry =>
      procRow entry.comm.text.bytes (decimal entry.pid))).length ≤ procs.entries.length * 33 := by
    rw [unlines_length, List.map_map]
    apply sum_map_le_mul
    intro entry member
    have short : entry.comm.text.bytes.length < 16 := entry.comm.text_length_lt
    have pid := decimal_length_le (plain entry member).low (plain entry member).high
    simp only [Function.comp_apply, procRow, List.length_append, List.length_cons,
      padRight_length, padLeft_length]
    omega
  have bound : procs.entries.length ≤ 64 := bounded
  have count : (decimal procs.count).length ≤ 11 := by
    unfold Registry.Counted at counted
    exact decimal_length_le (by omega) (by omega)
  rw [aegisProtectedProcessShow, showTable_length, heading, title]
  omega

theorem aegisBlockedSyscallShow_length_le {syscalls : SyscallList} (counted : syscalls.Counted)
    (bounded : syscalls.entries.length ≤ aegisMaxBlockedSyscalls)
    (inRange : ∀ entry ∈ syscalls.entries,
      -2147483648 ≤ entry.syscallNr ∧ entry.syscallNr < 2147483648) :
    (aegisBlockedSyscallShow syscalls).length ≤ 3136 := by
  have heading : (unlines syscallHeading).length = 18 := by decide
  have title : (ascii "AEGIS Blocked Syscalls").length = 22 := by decide
  have rows : (unlines (syscalls.entries.map fun entry =>
      syscallRow (decimal entry.syscallNr))).length ≤ syscalls.entries.length * 12 := by
    rw [unlines_length, List.map_map]
    apply sum_map_le_mul
    intro entry member
    have number := decimal_length_le (inRange entry member).1 (inRange entry member).2
    simp only [Function.comp_apply, syscallRow, padLeft_length]
    omega
  have bound : syscalls.entries.length ≤ 256 := bounded
  have count : (decimal syscalls.count).length ≤ 11 := by
    unfold Registry.Counted at counted
    exact decimal_length_le (by omega) (by omega)
  rw [aegisBlockedSyscallShow, showTable_length, heading, title]
  omega

end Aegis.Policy
