import Mathlib.Data.List.TakeWhile

/-!
Owns byte strings in the representation of C: NUL-terminated text, fixed-size
buffers that hold such text, and the string functions that fill and compare
them (`memset`, `strscpy`, `strncmp`, `strnlen`).

A memory area is the list of its bytes from the pointer on. Reading past the
end of the list reads the terminating NUL of a string argument.

Does not own: number formats, scanning, or the meaning of any buffer.
-/

namespace Aegis.Foundation

/-- The text of a C string: the bytes before the terminating NUL. -/
structure CString where
  bytes : List UInt8
  noNul : 0 ∉ bytes
deriving DecidableEq

namespace CString

@[ext] theorem ext {left right : CString} (same : left.bytes = right.bytes) : left = right := by
  cases left
  cases right
  simpa using same

def length (text : CString) : Nat := text.bytes.length

def empty : CString := ⟨[], by simp⟩

/-- Bytes of a literal, one byte for each character. -/
def ascii (literal : String) : List UInt8 :=
  literal.toList.map fun character => UInt8.ofNat character.toNat

/-- A literal as a C string. -/
def lit (literal : String) : CString :=
  ⟨(ascii literal).filter (· != 0), by simp⟩

/-- The text that starts at the head of a memory area. -/
def ofMemory (memory : List UInt8) : CString :=
  ⟨memory.takeWhile (· != 0), fun member => by
    have nonzero := List.mem_takeWhile_imp member
    simp at nonzero⟩

/-- The first `count` bytes of a text. -/
def take (text : CString) (count : Nat) : CString :=
  ⟨text.bytes.take count, fun member => text.noNul (List.mem_of_mem_take member)⟩

theorem take_of_length_le {text : CString} {count : Nat} (fits : text.length ≤ count) :
    text.take count = text := by
  apply ext
  exact List.take_of_length_le fits

theorem length_take_le (text : CString) (count : Nat) : (text.take count).length ≤ count :=
  List.length_take_le count text.bytes

private theorem takeWhile_ne_zero_of_noNul {bytes : List UInt8} (noNul : 0 ∉ bytes) :
    bytes.takeWhile (· != 0) = bytes := by
  rw [List.takeWhile_eq_self_iff]
  intro byte member
  have : byte ≠ 0 := fun zero => noNul (zero ▸ member)
  simpa using this

@[simp] theorem ofMemory_bytes (text : CString) : ofMemory text.bytes = text :=
  ext (takeWhile_ne_zero_of_noNul text.noNul)

/-- A terminator ends the text, whatever follows it in memory. -/
theorem ofMemory_append_nul (text : CString) (rest : List UInt8) :
    ofMemory (text.bytes ++ 0 :: rest) = text := by
  apply ext
  have nonzero : ∀ byte ∈ text.bytes, (byte != 0) = true := by
    intro byte member
    have : byte ≠ 0 := fun zero => text.noNul (zero ▸ member)
    simpa using this
  simp [ofMemory, List.takeWhile_append_of_pos nonzero]

end CString

/-! ### Comparison -/

/-- `strncmp`: the sign of the first difference in the first `count` bytes,
where a common NUL ends both strings. -/
def strncmp (left right : List UInt8) : Nat → Int
  | 0 => 0
  | count + 1 =>
      if left.headD 0 ≠ right.headD 0 then
        if left.headD 0 < right.headD 0 then -1 else 1
      else if left.headD 0 = 0 then 0
      else strncmp left.tail right.tail count

/-- The text at a pointer is empty, or its first byte and the text behind it. -/
theorem CString.ofMemory_eq_ite (memory : List UInt8) :
    (CString.ofMemory memory).bytes =
      if memory.headD 0 = 0 then [] else memory.headD 0 :: (ofMemory memory.tail).bytes := by
  cases memory with
  | nil => rfl
  | cons byte rest =>
      simp only [CString.ofMemory, List.takeWhile_cons, List.headD_cons, List.tail_cons]
      by_cases zero : byte = 0
      · simp [zero]
      · simp [zero]

theorem CString.ofMemory_headD (memory : List UInt8) :
    (ofMemory memory).bytes.headD 0 = memory.headD 0 := by
  rw [ofMemory_eq_ite]
  by_cases zero : memory.headD 0 = 0
  · rw [if_pos zero, zero]
    rfl
  · rw [if_neg zero]
    rfl

/-- `strncmp` reports equality exactly when the two texts agree on their first
`count` bytes. -/
theorem strncmp_eq_zero_iff (left right : List UInt8) (count : Nat) :
    strncmp left right count = 0 ↔
      (CString.ofMemory left).bytes.take count = (CString.ofMemory right).bytes.take count := by
  induction count generalizing left right with
  | zero => simp [strncmp]
  | succ count inductionHypothesis =>
      rw [strncmp]
      by_cases same : left.headD 0 = right.headD 0
      · rw [if_neg (not_not_intro same), CString.ofMemory_eq_ite left,
          CString.ofMemory_eq_ite right, ← same]
        by_cases zero : left.headD 0 = 0
        · rw [if_pos zero, if_pos zero, if_pos zero]
          exact iff_of_true rfl rfl
        · rw [if_neg zero, if_neg zero, if_neg zero, inductionHypothesis, List.take_succ_cons,
            List.take_succ_cons, List.cons.injEq]
          exact (and_iff_right rfl).symm
      · -- The first bytes differ, so the texts differ within the first byte.
        have nonzero : (if left.headD 0 < right.headD 0 then (-1 : Int) else 1) ≠ 0 := by
          split <;> decide
        rw [if_pos same]
        refine iff_of_false nonzero fun equal => same ?_
        have heads := congrArg (fun bytes => bytes.headD 0) equal
        rw [← CString.ofMemory_headD left, ← CString.ofMemory_headD right]
        simpa [List.head?_take] using heads

/-- What follows a terminator in memory is not compared. -/
theorem strncmp_append_nul (left bytes rest : List UInt8) (count : Nat) :
    strncmp left (bytes ++ 0 :: rest) count = strncmp left bytes count := by
  induction count generalizing left bytes with
  | zero => rfl
  | succ count inductionHypothesis =>
      cases bytes with
      | nil =>
          -- Both sides read a NUL here, so they stop unless the first bytes differ.
          rw [List.nil_append, strncmp, strncmp, List.headD_cons, List.headD_nil]
          by_cases zero : left.headD 0 = 0
          · rw [if_pos zero, if_pos zero]
          · rw [if_pos zero, if_pos zero]
      | cons byte later =>
          rw [List.cons_append, strncmp, strncmp, List.tail_cons, List.tail_cons,
            inductionHypothesis]
          rfl

/-! ### Fixed-size buffers -/

/-- A character array of `size` bytes that holds a NUL-terminated text. -/
structure CBuffer (size : Nat) where
  memory : List UInt8
  sized : memory.length = size
  terminated : 0 ∈ memory
deriving DecidableEq

namespace CBuffer

variable {size : Nat}

/-- The text the buffer holds. -/
def text (buffer : CBuffer size) : CString := CString.ofMemory buffer.memory

/-- The text and its terminator fit in the buffer. -/
theorem text_length_lt (buffer : CBuffer size) : buffer.text.length < size := by
  have shorter : (buffer.memory.takeWhile (· != 0)).length ≤ buffer.memory.length :=
    (List.takeWhile_sublist _).length_le
  rcases Nat.lt_or_eq_of_le shorter with less | equal
  · exact lt_of_lt_of_eq less buffer.sized
  · -- A text that fills the buffer leaves no room for its terminator.
    have whole : buffer.memory.takeWhile (· != 0) = buffer.memory :=
      (List.takeWhile_sublist _).eq_of_length equal
    rw [List.takeWhile_eq_self_iff] at whole
    have impossible := whole 0 buffer.terminated
    simp at impossible

/-- Comparison of a whole buffer with a text is equality of texts, never a
prefix match. -/
theorem strncmp_eq_zero_iff (buffer : CBuffer size) (query : CString) :
    strncmp buffer.memory query.bytes size = 0 ↔ query = buffer.text := by
  rw [Foundation.strncmp_eq_zero_iff, CString.ofMemory_bytes]
  have fits := buffer.text_length_lt
  change buffer.text.bytes.take size = query.bytes.take size ↔ _
  rw [List.take_of_length_le (Nat.le_of_lt fits)]
  constructor
  · intro equal
    -- The buffer's text is shorter than `size`, so nothing of the query was cut.
    have uncut : query.bytes.length ≤ size := by
      have lengths := congrArg List.length equal
      rw [List.length_take] at lengths
      unfold CString.length at fits
      omega
    rw [List.take_of_length_le uncut] at equal
    exact CString.ext equal.symm
  · rintro rfl
    rw [List.take_of_length_le (Nat.le_of_lt fits)]

end CBuffer

/-- Contents of a memory area after `memset(area, value, count)`. -/
def memset (value : UInt8) (count : Nat) : List UInt8 := List.replicate count value

/-- `strscpy`: copy at most `dest.length - 1` bytes and terminate. -/
def strscpy (dest : List UInt8) (source : CString) : List UInt8 :=
  let copied := source.bytes.take (dest.length - 1)
  copied ++ 0 :: dest.drop (copied.length + 1)

theorem strscpy_length {dest : List UInt8} (positive : 0 < dest.length) (source : CString) :
    (strscpy dest source).length = dest.length := by
  simp only [strscpy, List.length_append, List.length_cons, List.length_drop, List.length_take]
  omega

theorem ofMemory_strscpy (dest : List UInt8) (source : CString) :
    CString.ofMemory (strscpy dest source) = source.take (dest.length - 1) :=
  CString.ofMemory_append_nul (source.take (dest.length - 1)) _

/-- A zeroed buffer filled by `strscpy`. -/
def CBuffer.filled (size : Nat) (positive : 0 < size) (source : CString) : CBuffer size where
  memory := strscpy (memset 0 size) source
  sized := by
    have length : (memset 0 size).length = size := by simp [memset]
    rw [strscpy_length (by rwa [length]), length]
  terminated := by simp [strscpy]

theorem CBuffer.text_filled {size : Nat} (positive : 0 < size) (source : CString) :
    (CBuffer.filled size positive source).text = source.take (size - 1) := by
  unfold CBuffer.text CBuffer.filled
  rw [ofMemory_strscpy]
  simp [memset]

/-- How `strncmp` over all `size` bytes compares a field, written from a key by
`field`, with a query in memory: by equality with what the field holds of the
key. -/
structure ComparesExactly (size : Nat) (field : CString → List UInt8) : Prop where
  held : ∀ (key query : CString) (rest : List UInt8),
    strncmp (field key) (query.bytes ++ 0 :: rest) size = 0 ↔
      query.bytes = key.bytes.take (min key.length (size - 1))
  whole : ∀ (key query : CString) (rest : List UInt8), key.length ≤ size - 1 →
    (strncmp (field key) (query.bytes ++ 0 :: rest) size = 0 ↔ query = key)
  tooLong : ∀ (key query : CString) (rest : List UInt8), size ≤ query.length →
    strncmp (field key) (query.bytes ++ 0 :: rest) size ≠ 0

theorem CBuffer.filled_comparesExactly {size : Nat} (positive : 0 < size) :
    ComparesExactly size fun key => (CBuffer.filled size positive key).memory := by
  have matched : ∀ (key query : CString) (rest : List UInt8),
      strncmp (CBuffer.filled size positive key).memory (query.bytes ++ 0 :: rest) size = 0 ↔
        query = key.take (size - 1) := by
    intro key query rest
    rw [strncmp_append_nul, CBuffer.strncmp_eq_zero_iff, CBuffer.text_filled]
  constructor
  · intro key query rest
    rw [matched, CString.ext_iff, Nat.min_comm, CString.length, ← List.take_eq_take_min]
    rfl
  · intro key query rest fits
    rw [matched, CString.take_of_length_le fits]
  · intro key query rest long equal
    rw [matched] at equal
    have short := key.length_take_le (size - 1)
    rw [← equal] at short
    omega

/-! ### Length -/

/-- `strnlen`: bytes before the first NUL, at most `count`. -/
def strnlen (memory : List UInt8) (count : Nat) : Nat :=
  ((memory.take count).takeWhile (· != 0)).length

/-- The area holds no NUL in its first `count` bytes exactly when `strnlen`
reaches its bound. -/
theorem strnlen_eq_iff {memory : List UInt8} {count : Nat} (within : count ≤ memory.length) :
    strnlen memory count = count ↔ 0 ∉ memory.take count := by
  have full : (memory.take count).length = count := by
    rw [List.length_take]
    omega
  constructor
  · intro reached member
    have whole : (memory.take count).takeWhile (· != 0) = memory.take count :=
      (List.takeWhile_sublist _).eq_of_length (reached.trans full.symm)
    rw [List.takeWhile_eq_self_iff] at whole
    have impossible := whole 0 member
    simp at impossible
  · intro noNul
    have whole := CString.ofMemory_bytes ⟨memory.take count, noNul⟩
    unfold strnlen
    rw [show (memory.take count).takeWhile (· != 0) = memory.take count from
      congrArg CString.bytes whole, full]

end Aegis.Foundation
