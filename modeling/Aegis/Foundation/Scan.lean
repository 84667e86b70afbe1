import Mathlib.Data.Nat.Digits.Lemmas
import Aegis.Foundation.CString

/-!
Owns the number and word formats of the kernel's string library: character
classes, `%s` and `%d` conversions of `sscanf`, `kstrtoint` with base ten, and
decimal output.

Inputs are the bytes before the terminating NUL, so the end of the list is the
end of the string.

Does not own: other conversions, other bases, or any input grammar.
-/

namespace Aegis.Foundation

/-- `isspace` of the kernel's character table: the ASCII blanks and the
no-break space `0xa0`. -/
def isSpace (byte : UInt8) : Bool :=
  (9 ≤ byte && byte ≤ 13) || byte == 32 || byte == 160

def isDigit (byte : UInt8) : Bool := 48 ≤ byte && byte ≤ 57

theorem isDigit_range {byte : UInt8} (digit : isDigit byte = true) :
    48 ≤ byte.toNat ∧ byte.toNat ≤ 57 := by
  simpa [isDigit, UInt8.le_iff_toNat_le] using digit

theorem isSpace_of_isDigit {byte : UInt8} (digit : isDigit byte = true) :
    isSpace byte = false := by
  have range := isDigit_range digit
  simp only [isSpace, Bool.or_eq_false_iff, Bool.and_eq_false_iff, decide_eq_false_iff_not,
    beq_eq_false_iff_ne, UInt8.le_iff_toNat_le, ne_eq, ← UInt8.toNat_inj, UInt8.reduceToNat]
  omega

def skipSpaces (input : List UInt8) : List UInt8 := input.dropWhile isSpace

def digitsValue (digits : List UInt8) : Nat :=
  digits.foldl (fun value digit => value * 10 + (digit.toNat - 48)) 0

/-- Conversion of a wider integer to `int`: the low 32 bits, signed. -/
def toInt32 (value : Int) : Int := value.bmod (2 ^ 32)

theorem toInt32_of_range {value : Int} (low : -2147483648 ≤ value) (high : value < 2147483648) :
    toInt32 value = value :=
  Int.bmod_eq_of_le low high

theorem toInt32_range (value : Int) :
    -2147483648 ≤ toInt32 value ∧ toInt32 value < 2147483648 :=
  ⟨Int.le_bmod (by decide), Int.bmod_lt (by decide)⟩

/-- The conversion `%<width>s`: skip blanks, then take at most `width`
non-blank bytes. The word may be empty. -/
def scanWord (width : Nat) (input : List UInt8) : List UInt8 × List UInt8 :=
  let start := skipSpaces input
  let word := (start.takeWhile fun byte => !isSpace byte).take width
  (word, start.drop word.length)

/-- The conversion `%d`. The accumulated value wraps at 64 bits before it is
stored, which the final conversion to `int` absorbs. -/
def scanInt (input : List UInt8) : Option Int :=
  let start := skipSpaces input
  let negative := start.head? == some 45
  let digits := (if negative then start.tail else start).takeWhile isDigit
  if digits = [] then none
  else some (toInt32 (if negative then -(digitsValue digits : Int) else digitsValue digits))

/-- Result of `sscanf(input, "%<width>s %d", word, &number)`. -/
structure WordInt where
  conversions : Nat
  word : CString
  number : Int
deriving DecidableEq

theorem scanWord_subset (width : Nat) (input : List UInt8) :
    ∀ byte ∈ (scanWord width input).1, byte ∈ input := by
  intro byte member
  have inStart := (List.takeWhile_sublist _).subset (List.mem_of_mem_take member)
  exact (List.dropWhile_sublist _).subset inStart

theorem scanWord_solid (width : Nat) (input : List UInt8) :
    ∀ byte ∈ (scanWord width input).1, isSpace byte = false := by
  intro byte member
  have taken := List.mem_takeWhile_imp (List.mem_of_mem_take member)
  simpa using taken

theorem scanWord_length_le (width : Nat) (input : List UInt8) :
    (scanWord width input).1.length ≤ width :=
  List.length_take_le _ _

/-- `sscanf` with the format `"%<width>s %d"`. A conversion that finds the
input exhausted ends the scan, and a failed `%d` leaves `number` as it was. -/
def sscanfWordInt (width : Nat) (input : CString) (number : Int) : WordInt :=
  let scanned := scanWord width input.bytes
  if input.bytes = [] then ⟨0, .empty, number⟩
  else
    let word : CString := ⟨scanned.1, fun nul => input.noNul (scanWord_subset width _ 0 nul)⟩
    match scanInt scanned.2 with
    | none => ⟨1, word, number⟩
    | some value => ⟨2, word, value⟩

theorem sscanfWordInt_word_length_le (width : Nat) (input : CString) (number : Int) :
    (sscanfWordInt width input number).word.length ≤ width := by
  simp only [sscanfWordInt]
  split
  · exact Nat.zero_le width
  · split <;> exact scanWord_length_le width input.bytes

theorem sscanfWordInt_word_solid (width : Nat) (input : CString) (number : Int) :
    ∀ byte ∈ (sscanfWordInt width input number).word.bytes, isSpace byte = false := by
  simp only [sscanfWordInt]
  split
  · exact fun byte member => absurd member (List.not_mem_nil)
  · split <;> exact scanWord_solid width input.bytes

/-- A converted number is an `int`. -/
theorem sscanfWordInt_number_range (width : Nat) (input : CString) {number : Int}
    (inRange : -2147483648 ≤ number ∧ number < 2147483648) :
    -2147483648 ≤ (sscanfWordInt width input number).number ∧
      (sscanfWordInt width input number).number < 2147483648 := by
  simp only [sscanfWordInt]
  split
  · exact inRange
  · cases scanned : scanInt (scanWord width input.bytes).2 with
    | none => exact inRange
    | some value =>
        simp only [scanInt, Option.ite_none_left_eq_some, Option.some.injEq] at scanned
        rw [← scanned.2]
        exact toInt32_range _

/-- Any input that is not empty yields a word, though it may be empty. -/
theorem sscanfWordInt_conversions_pos (width : Nat) {input : CString}
    (nonempty : input.bytes ≠ []) (number : Int) :
    0 < (sscanfWordInt width input number).conversions := by
  unfold sscanfWordInt
  rw [if_neg nonempty]
  cases scanInt (scanWord width input.bytes).2 with
  | none => exact Nat.one_pos
  | some value => exact Nat.two_pos

/-- A blank word leaves nothing for the number to be read from. -/
theorem sscanfWordInt_number_of_blank {width : Nat} (positive : 0 < width) {input : CString}
    {number : Int} (blank : (sscanfWordInt width input number).word.bytes = []) :
    (sscanfWordInt width input number).number = number := by
  by_cases empty : input.bytes = []
  · simp [sscanfWordInt, empty]
  · have word : (scanWord width input.bytes).1 = [] := by
      rw [← blank, sscanfWordInt, if_neg empty]
      cases scanInt (scanWord width input.bytes).2 <;> rfl
    have nothing : skipSpaces input.bytes = [] := by
      cases start : skipSpaces input.bytes with
      | nil => rfl
      | cons head tail =>
          have solid : isSpace head = false := by
            have first := List.head?_dropWhile_not isSpace input.bytes
            rw [← skipSpaces, start] at first
            simpa using first
          obtain ⟨count, rfl⟩ := Nat.exists_eq_add_one_of_ne_zero (Nat.pos_iff_ne_zero.mp positive)
          simp [scanWord, start, solid] at word
    have rest : (scanWord width input.bytes).2 = [] := by simp [scanWord, nothing]
    simp [sscanfWordInt, empty, rest, scanInt, skipSpaces]

/-! ### Conversions of well-formed input -/

section WellFormed

variable {blanks rest : List UInt8} (areBlank : ∀ byte ∈ blanks, isSpace byte = true)

theorem takeWhile_append_of_ends {accepts : UInt8 → Bool} {word : List UInt8}
    (inside : ∀ byte ∈ word, accepts byte = true)
    (ends : ∀ byte ∈ rest.head?, accepts byte = false) :
    (word ++ rest).takeWhile accepts = word := by
  rw [List.takeWhile_append_of_pos inside]
  cases rest with
  | nil => simp
  | cons head tail => simp [ends head rfl]

include areBlank

theorem skipSpaces_append (ends : ∀ byte ∈ rest.head?, isSpace byte = false) :
    skipSpaces (blanks ++ rest) = rest := by
  unfold skipSpaces
  rw [List.dropWhile_append_of_pos areBlank]
  cases rest with
  | nil => rfl
  | cons head tail => simp [ends head rfl]

/-- `%s` reads a word that fits the field and ends at a blank or at the end. -/
theorem scanWord_append {width : Nat} {word : List UInt8} (nonempty : word ≠ [])
    (fits : word.length ≤ width) (solid : ∀ byte ∈ word, isSpace byte = false)
    (ends : ∀ byte ∈ rest.head?, isSpace byte = true) :
    scanWord width (blanks ++ (word ++ rest)) = (word, rest) := by
  have start : skipSpaces (blanks ++ (word ++ rest)) = word ++ rest := by
    apply skipSpaces_append areBlank
    rw [List.head?_append_of_ne_nil word nonempty]
    exact fun byte first => solid byte (List.mem_of_mem_head? first)
  have taken : (word ++ rest).takeWhile (fun byte => !isSpace byte) = word :=
    takeWhile_append_of_ends (fun byte member => by simp [solid byte member])
      fun byte first => by simp [ends byte first]
  simp only [scanWord, start, taken, List.take_of_length_le fits, List.drop_left]

/-- `%d` reads digits. -/
theorem scanInt_digits {digits : List UInt8} (nonempty : digits ≠ [])
    (allDigits : ∀ byte ∈ digits, isDigit byte = true)
    (ends : ∀ byte ∈ rest.head?, isDigit byte = false) :
    scanInt (blanks ++ (digits ++ rest)) = some (toInt32 (digitsValue digits)) := by
  have first : ∀ byte ∈ (digits ++ rest).head?, isDigit byte = true := by
    rw [List.head?_append_of_ne_nil digits nonempty]
    exact fun byte member => allDigits byte (List.mem_of_mem_head? member)
  have start : skipSpaces (blanks ++ (digits ++ rest)) = digits ++ rest :=
    skipSpaces_append areBlank fun byte member => isSpace_of_isDigit (first byte member)
  have unsigned : ((digits ++ rest).head? == some 45) = false := by
    rw [beq_eq_false_iff_ne]
    intro minus
    exact absurd (first 45 minus) (by decide)
  simp only [scanInt, start, unsigned, Bool.false_eq_true, if_false,
    takeWhile_append_of_ends allDigits ends, nonempty]

/-- `%d` reads a minus sign and digits. -/
theorem scanInt_minus_digits {digits : List UInt8} (nonempty : digits ≠ [])
    (allDigits : ∀ byte ∈ digits, isDigit byte = true)
    (ends : ∀ byte ∈ rest.head?, isDigit byte = false) :
    scanInt (blanks ++ (45 :: digits ++ rest)) = some (toInt32 (-(digitsValue digits : Int))) := by
  have start : skipSpaces (blanks ++ (45 :: digits ++ rest)) = 45 :: (digits ++ rest) :=
    skipSpaces_append areBlank (by simp [isSpace])
  simp only [scanInt, start, List.head?_cons, List.tail_cons, beq_self_eq_true, if_true,
    takeWhile_append_of_ends allDigits ends, nonempty, if_false]

theorem scanInt_blanks : scanInt blanks = none := by
  have start : skipSpaces blanks = [] := List.dropWhile_eq_nil_iff.mpr areBlank
  simp [scanInt, start]

end WellFormed

/-- A non-blank word that fits the field, with nothing after it. -/
theorem sscanfWordInt_of_word {width : Nat} {word : CString} (nonempty : word.bytes ≠ [])
    (fits : word.length ≤ width) (solid : ∀ byte ∈ word.bytes, isSpace byte = false)
    (number : Int) :
    sscanfWordInt width word number = ⟨1, word, number⟩ := by
  have scanned : scanWord width ([] ++ (word.bytes ++ [])) = (word.bytes, []) :=
    scanWord_append (by simp) nonempty fits solid (by simp)
  rw [List.nil_append, List.append_nil] at scanned
  simp only [sscanfWordInt, scanned, if_neg nonempty]
  rfl

/-- `kstrtoint(input, 10, &result)`; `none` is any error code. A sign and one
trailing newline are accepted. -/
def kstrtoint (input : List UInt8) : Option Int :=
  let negative := input.head? == some 45
  let start := if negative || input.head? == some 43 then input.tail else input
  let digits := start.takeWhile isDigit
  let rest := start.drop digits.length
  let value : Int := if negative then -(digitsValue digits : Int) else digitsValue digits
  if digits = [] || (rest ≠ [] && rest ≠ [10]) then none
  else if -(2 ^ 31) ≤ value ∧ value < 2 ^ 31 then some value
  else none

theorem kstrtoint_range {input : List UInt8} {value : Int} (parsed : kstrtoint input = some value) :
    -2147483648 ≤ value ∧ value < 2147483648 := by
  simp only [kstrtoint, Option.ite_none_left_eq_some, Option.ite_none_right_eq_some,
    Option.some.injEq] at parsed
  obtain ⟨-, inRange, rfl⟩ := parsed
  exact inRange

/-! ### Decimal output -/

def decimalNat (value : Nat) : List UInt8 :=
  if value = 0 then [48]
  else (Nat.digits 10 value).reverse.map fun digit => UInt8.ofNat (48 + digit)

/-- The conversion `%d` of `printf`. -/
def decimal (value : Int) : List UInt8 :=
  if value < 0 then 45 :: decimalNat value.natAbs else decimalNat value.natAbs

theorem decimalNat_noNul (value : Nat) : 0 ∉ decimalNat value := by
  unfold decimalNat
  split
  · decide
  · simp only [List.mem_map, List.mem_reverse, not_exists, not_and]
    intro digit member zero
    have small : digit < 10 := Nat.digits_lt_base (by decide) member
    have wrapped := congrArg UInt8.toNat zero
    simp only [UInt8.toNat_ofNat'] at wrapped
    have unwrapped : (48 + digit) % 2 ^ 8 = 48 + digit := Nat.mod_eq_of_lt (by omega)
    rw [unwrapped] at wrapped
    simp at wrapped

def decimalString (value : Int) : CString where
  bytes := decimal value
  noNul := by
    unfold decimal
    have digits := decimalNat_noNul value.natAbs
    split
    · simpa using digits
    · exact digits

end Aegis.Foundation
