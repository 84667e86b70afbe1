import Aegis.Foundation.Scan

/-!
Owns the output formats of the kernel's `printf`: columns padded with blanks,
hexadecimal bytes, decimal integers, and texts made of lines. Each format comes
with its length and with the condition under which the value can be read back
from the text.

Does not own: scanning of input, or any particular table.
-/

namespace Aegis.Foundation

/-! ### Columns -/

/-- The conversion `%-<width>s`. -/
def padRight (width : Nat) (text : List UInt8) : List UInt8 :=
  text ++ List.replicate (width - text.length) 32

/-- The conversion `%<width>s`. -/
def padLeft (width : Nat) (text : List UInt8) : List UInt8 :=
  List.replicate (width - text.length) 32 ++ text

@[simp] theorem padRight_length (width : Nat) (text : List UInt8) :
    (padRight width text).length = max width text.length := by
  simp only [padRight, List.length_append, List.length_replicate]
  omega

@[simp] theorem padLeft_length (width : Nat) (text : List UInt8) :
    (padLeft width text).length = max width text.length := by
  simp only [padLeft, List.length_append, List.length_replicate]
  omega

/-- Padding brings in blanks only. -/
theorem not_mem_padRight {width : Nat} {text : List UInt8} {byte : UInt8} (noBlank : byte ≠ 32)
    (absent : byte ∉ text) : byte ∉ padRight width text := by
  rw [padRight, List.mem_append, not_or]
  exact ⟨absent, fun inPadding => noBlank (List.eq_of_mem_replicate inPadding)⟩

theorem not_mem_padLeft {width : Nat} {text : List UInt8} {byte : UInt8} (noBlank : byte ≠ 32)
    (absent : byte ∉ text) : byte ∉ padLeft width text := by
  rw [padLeft, List.mem_append, not_or]
  exact ⟨fun inPadding => noBlank (List.eq_of_mem_replicate inPadding), absent⟩

theorem dropWhile_replicate_append {count : Nat} {text : List UInt8}
    (starts : text.head? ≠ some 32) :
    (List.replicate count 32 ++ text).dropWhile (· == 32) = text := by
  rw [List.dropWhile_append_of_pos (by simp)]
  cases text with
  | nil => rfl
  | cons first rest => simpa using starts

/-- A text that does not start with a blank is what remains of its field. -/
theorem padLeft_inj {width : Nat} {first second : List UInt8}
    (firstStarts : first.head? ≠ some 32) (secondStarts : second.head? ≠ some 32)
    (same : padLeft width first = padLeft width second) : first = second := by
  have stripped := congrArg (List.dropWhile (· == 32)) same
  rwa [padLeft, padLeft, dropWhile_replicate_append firstStarts,
    dropWhile_replicate_append secondStarts] at stripped

/-- A text that does not end in a blank is what remains of its field. A text
wider than the field may end in anything. -/
theorem padRight_inj {width : Nat} {first second : List UInt8}
    (firstEnds : first.length ≤ width → first.getLast? ≠ some 32)
    (secondEnds : second.length ≤ width → second.getLast? ≠ some 32)
    (same : padRight width first = padRight width second) : first = second := by
  have lengths := congrArg List.length same
  rw [padRight_length, padRight_length] at lengths
  by_cases fits : first.length ≤ width
  · have secondFits : second.length ≤ width := by omega
    have mirrored : ∀ text : List UInt8, text.getLast? ≠ some 32 →
        (padRight width text).reverse.dropWhile (· == 32) = text.reverse := by
      intro text ends
      rw [padRight, List.reverse_append, List.reverse_replicate]
      exact dropWhile_replicate_append (by rwa [List.head?_reverse])
    have stripped := congrArg (fun field : List UInt8 => field.reverse.dropWhile (· == 32)) same
    simp only [mirrored first (firstEnds fits), mirrored second (secondEnds secondFits)] at stripped
    exact List.reverse_injective stripped
  · have noPadding : width - first.length = 0 ∧ width - second.length = 0 := by omega
    rw [padRight, padRight, noPadding.1, noPadding.2] at same
    simpa using same

/-! ### Decimal integers -/

theorem decimalNat_allDigits (value : Nat) : ∀ byte ∈ decimalNat value, isDigit byte = true := by
  intro byte member
  unfold decimalNat at member
  split at member
  · obtain rfl : byte = 48 := by simpa using member
    decide
  · obtain ⟨digit, inDigits, rfl⟩ := List.mem_map.mp member
    have small : digit < 10 := Nat.digits_lt_base (by decide) (List.mem_reverse.mp inDigits)
    interval_cases digit <;> decide

theorem decimalNat_ne_nil (value : Nat) : decimalNat value ≠ [] := by
  unfold decimalNat
  split
  · decide
  · simpa [Nat.digits_eq_nil_iff_eq_zero] using ‹_›

private theorem digitsValue_of_digits {digits : List Nat} (small : ∀ digit ∈ digits, digit < 10) :
    digitsValue (digits.reverse.map fun digit => UInt8.ofNat (48 + digit)) =
      Nat.ofDigits 10 digits := by
  induction digits with
  | nil => rfl
  | cons digit rest inductionHypothesis =>
      have below : digit < 10 := small digit (by simp)
      have unwrapped : (UInt8.ofNat (48 + digit)).toNat = 48 + digit := by
        rw [UInt8.toNat_ofNat']
        exact Nat.mod_eq_of_lt (by omega)
      have later := inductionHypothesis fun other member => small other (by simp [member])
      unfold digitsValue at later ⊢
      rw [List.reverse_cons, List.map_append, List.foldl_append, later, Nat.ofDigits_cons]
      simp only [List.map_cons, List.map_nil, List.foldl_cons, List.foldl_nil, unwrapped]
      omega

/-- Decimal output reads back as the number. -/
@[simp] theorem digitsValue_decimalNat (value : Nat) : digitsValue (decimalNat value) = value := by
  unfold decimalNat
  split
  · rename_i zero
    rw [zero]
    rfl
  · rw [digitsValue_of_digits fun digit => Nat.digits_lt_base (by decide), Nat.ofDigits_digits]

theorem mem_decimal {value : Int} {byte : UInt8} (member : byte ∈ decimal value) :
    byte = 45 ∨ isDigit byte = true := by
  unfold decimal at member
  split at member
  · rcases List.mem_cons.mp member with sign | inDigits
    · exact Or.inl sign
    · exact Or.inr (decimalNat_allDigits _ byte inDigits)
  · exact Or.inr (decimalNat_allDigits _ byte member)

theorem decimal_solid {value : Int} {byte : UInt8} (member : byte ∈ decimal value) :
    isSpace byte = false := by
  rcases mem_decimal member with rfl | digit
  · decide
  · exact isSpace_of_isDigit digit

theorem not_mem_decimal {value : Int} {byte : UInt8} (small : byte.toNat < 45) :
    byte ∉ decimal value := by
  intro member
  rcases mem_decimal member with rfl | digit
  · exact absurd small (by decide)
  · have range : 48 ≤ byte.toNat ∧ byte.toNat ≤ 57 := isDigit_range digit
    omega

theorem decimal_injective : Function.Injective decimal := by
  have unsigned : ∀ value : Nat, (decimalNat value).head? ≠ some 45 := by
    intro value minus
    exact absurd (decimalNat_allDigits value 45 (List.mem_of_mem_head? minus)) (by decide)
  intro first second same
  unfold decimal at same
  split at same <;> split at same
  · have magnitudes := congrArg digitsValue (List.tail_eq_of_cons_eq same)
    simp only [digitsValue_decimalNat] at magnitudes
    omega
  · exact absurd (congrArg List.head? same).symm (unsigned _)
  · exact absurd (congrArg List.head? same) (unsigned _)
  · have magnitudes := congrArg digitsValue same
    simp only [digitsValue_decimalNat] at magnitudes
    omega

theorem decimalNat_length_le {value count : Nat} (positive : 0 < count)
    (below : value < 10 ^ count) : (decimalNat value).length ≤ count := by
  unfold decimalNat
  split
  · exact positive
  · rw [List.length_map, List.length_reverse]
    exact (Nat.digits_length_le_iff (by decide) value).mpr below

theorem decimal_length_le_of_natAbs {value : Int} {count : Nat} (positive : 0 < count)
    (below : value.natAbs < 10 ^ count) : (decimal value).length ≤ count + 1 := by
  have digits := decimalNat_length_le positive below
  unfold decimal
  split
  · rw [List.length_cons]
    omega
  · omega

/-- An `int` prints in at most eleven bytes. -/
theorem decimal_length_le {value : Int} (low : -2147483648 ≤ value) (high : value < 2147483648) :
    (decimal value).length ≤ 11 := by
  have digits : (decimalNat value.natAbs).length ≤ 10 :=
    decimalNat_length_le (by decide) (by omega)
  unfold decimal
  split
  · rw [List.length_cons]
    omega
  · omega

/-- `kstrtoint` reads back a printed number that is not negative. -/
theorem kstrtoint_decimal {value : Int} (nonneg : 0 ≤ value) (high : value < 2147483648) :
    kstrtoint (decimal value) = some value := by
  have digits : decimal value = decimalNat value.natAbs := if_neg (Int.not_lt.mpr nonneg)
  have allDigits := decimalNat_allDigits value.natAbs
  have notSign : ∀ sign : UInt8, isDigit sign = false →
      ((decimalNat value.natAbs).head? == some sign) = false := by
    intro sign notDigit
    rw [beq_eq_false_iff_ne]
    intro first
    have digit := allDigits sign (List.mem_of_mem_head? first)
    simp [notDigit] at digit
  have taken : (decimalNat value.natAbs).takeWhile isDigit = decimalNat value.natAbs :=
    List.takeWhile_eq_self_iff.mpr allDigits
  have magnitude : ((value.natAbs : Nat) : Int) = value := Int.natAbs_of_nonneg nonneg
  rw [digits]
  simp only [kstrtoint, notSign 45 (by decide), notSign 43 (by decide), Bool.false_or,
    Bool.false_eq_true, if_false, taken, List.drop_length, decimalNat_ne_nil,
    digitsValue_decimalNat, magnitude]
  simp only [ne_eq, not_true_eq_false, decide_false, Bool.false_and, Bool.or_self,
    Bool.false_eq_true, if_false]
  rw [if_pos ⟨by omega, by omega⟩]

/-! ### Hexadecimal bytes -/

def hexDigit (digit : Nat) : UInt8 :=
  if digit < 10 then UInt8.ofNat (48 + digit) else UInt8.ofNat (87 + digit)

/-- The conversion `%02x`. -/
def hexByte (byte : UInt8) : List UInt8 :=
  [hexDigit (byte.toNat / 16), hexDigit (byte.toNat % 16)]

def hexBytes (bytes : List UInt8) : List UInt8 := bytes.flatMap hexByte

theorem hexDigit_inj {first second : Nat} (firstSmall : first < 16) (secondSmall : second < 16)
    (same : hexDigit first = hexDigit second) : first = second := by
  have all : ∀ left right : Fin 16, hexDigit left = hexDigit right → left = right := by decide
  exact congrArg Fin.val (all ⟨first, firstSmall⟩ ⟨second, secondSmall⟩ same)

theorem hexByte_injective : Function.Injective hexByte := by
  intro first second same
  have firstBound := UInt8.toNat_lt first
  have secondBound := UInt8.toNat_lt second
  simp only [hexByte, List.cons.injEq, and_true] at same
  have high := hexDigit_inj (by omega) (by omega) same.1
  have low := hexDigit_inj (by omega) (by omega) same.2
  apply UInt8.toNat_inj.mp
  omega

theorem hexBytes_injective : Function.Injective hexBytes := by
  intro first
  induction first with
  | nil =>
      intro second same
      cases second with
      | nil => rfl
      | cons byte rest => simp [hexBytes, hexByte] at same
  | cons byte rest inductionHypothesis =>
      intro second same
      cases second with
      | nil => simp [hexBytes, hexByte] at same
      | cons other later =>
          simp only [hexBytes, List.flatMap_cons] at same
          obtain ⟨firstByte, remaining⟩ := List.append_inj same rfl
          rw [hexByte_injective firstByte, inductionHypothesis remaining]

theorem hexBytes_length (bytes : List UInt8) : (hexBytes bytes).length = 2 * bytes.length := by
  induction bytes with
  | nil => rfl
  | cons byte rest inductionHypothesis =>
      simp only [hexBytes, List.flatMap_cons, List.length_append, List.length_cons] at *
      rw [inductionHypothesis]
      simp only [hexByte, List.length_cons, List.length_nil]
      omega

/-- A hexadecimal digit is a decimal digit or a letter from `a` to `f`. -/
theorem mem_hexBytes {bytes : List UInt8} {byte : UInt8} (member : byte ∈ hexBytes bytes) :
    isDigit byte = true ∨ (97 ≤ byte.toNat ∧ byte.toNat ≤ 102) := by
  have all : ∀ digit : Fin 16, isDigit (hexDigit digit) = true ∨
      (97 ≤ (hexDigit digit).toNat ∧ (hexDigit digit).toNat ≤ 102) := by decide
  obtain ⟨source, -, inByte⟩ := List.mem_flatMap.mp member
  have bound := UInt8.toNat_lt source
  rcases List.mem_cons.mp inByte with rfl | inRest
  · exact all ⟨source.toNat / 16, by omega⟩
  · obtain rfl : byte = hexDigit (source.toNat % 16) := by simpa using inRest
    exact all ⟨source.toNat % 16, by omega⟩

/-- The conversion `%08x` of a 32-bit number. -/
def hexWord (value : BitVec 32) : List UInt8 :=
  hexBytes [UInt8.ofNat (value.toNat / 16777216), UInt8.ofNat (value.toNat / 65536),
    UInt8.ofNat (value.toNat / 256), UInt8.ofNat value.toNat]

theorem hexWord_injective : Function.Injective hexWord := by
  intro first second same
  have bytes := hexBytes_injective same
  simp only [List.cons.injEq, and_true, ← UInt8.toNat_inj, UInt8.toNat_ofNat'] at bytes
  have firstBound := first.isLt
  have secondBound := second.isLt
  apply BitVec.eq_of_toNat_eq
  omega

/-- The conversion `%x`. -/
def hexNat (value : Nat) : List UInt8 :=
  if value = 0 then [48] else (Nat.digits 16 value).reverse.map hexDigit

theorem hexNat_injective : Function.Injective hexNat := by
  let digitOf (byte : UInt8) : Nat := if byte.toNat < 58 then byte.toNat - 48 else byte.toNat - 87
  have readDigit : ∀ digit : Fin 16, digitOf (hexDigit digit) = digit := by decide
  have readBack : ∀ value, Nat.ofDigits 16 ((hexNat value).reverse.map digitOf) = value := by
    intro value
    unfold hexNat
    split
    · rename_i zero
      rw [zero]
      rfl
    · have digits : (Nat.digits 16 value).map (digitOf ∘ hexDigit) = Nat.digits 16 value := by
        refine (List.map_congr_left fun digit member => ?_).trans (List.map_id _)
        exact readDigit ⟨digit, Nat.digits_lt_base (by decide) member⟩
      rw [← List.map_reverse, List.reverse_reverse, List.map_map, digits, Nat.ofDigits_digits]
  intro first second same
  rw [← readBack first, ← readBack second, same]

theorem mem_hexNat {value : Nat} {byte : UInt8} (member : byte ∈ hexNat value) :
    isDigit byte = true ∨ (97 ≤ byte.toNat ∧ byte.toNat ≤ 102) := by
  unfold hexNat at member
  split at member
  · obtain rfl : byte = 48 := by simpa using member
    exact Or.inl (by decide)
  · obtain ⟨digit, inDigits, rfl⟩ := List.mem_map.mp member
    have small : digit < 16 := Nat.digits_lt_base (by decide) (List.mem_reverse.mp inDigits)
    have inByte : hexDigit digit ∈ hexBytes [UInt8.ofNat digit] := by
      simp [hexBytes, hexByte, Nat.mod_eq_of_lt small]
    exact mem_hexBytes inByte

/-! ### Lines -/

/-- The text of the lines, each ended by a newline. -/
def unlines (lines : List (List UInt8)) : List UInt8 := lines.flatMap (· ++ [10])

theorem unlines_length (lines : List (List UInt8)) :
    (unlines lines).length = (lines.map fun line => line.length + 1).sum := by
  rw [unlines, List.length_flatMap]
  congr 1
  exact List.map_congr_left fun line _ => by simp

theorem splitOn_unlines {lines : List (List UInt8)} (plain : ∀ line ∈ lines, 10 ∉ line) :
    (unlines lines).splitOn 10 = lines ++ [[]] := by
  induction lines with
  | nil => rfl
  | cons line rest inductionHypothesis =>
      have later := inductionHypothesis fun other member => plain other (by simp [member])
      have whole : line.splitOn 10 = [line] := by
        rw [List.splitOn_eq_singleton]
        exact plain line (by simp)
      have split : unlines (line :: rest) = line ++ 10 :: unlines rest := by simp [unlines]
      rw [split, List.splitOn_append_cons_self, whole, later]
      rfl

/-- Lines without newlines are recovered from their text. -/
theorem unlines_inj {first second : List (List UInt8)}
    (firstPlain : ∀ line ∈ first, 10 ∉ line) (secondPlain : ∀ line ∈ second, 10 ∉ line)
    (same : unlines first = unlines second) : first = second := by
  have split := congrArg (List.splitOn 10) same
  rw [splitOn_unlines firstPlain, splitOn_unlines secondPlain] at split
  exact (List.append_inj' split rfl).1

/-- Where a row determines what it shows, equal rows show equal values. -/
theorem map_eq_map_of_inj {Entry Row Value : Type} {row : Entry → Row} {shown : Entry → Value}
    {first second : List Entry}
    (determines : ∀ one ∈ first, ∀ other ∈ second, row one = row other → shown one = shown other)
    (rows : first.map row = second.map row) : first.map shown = second.map shown := by
  induction first generalizing second with
  | nil =>
      have empty : second = [] := List.map_eq_nil_iff.mp rows.symm
      rw [empty]
  | cons one rest inductionHypothesis =>
      cases second with
      | nil => cases rows
      | cons other later =>
          obtain ⟨here, remaining⟩ := List.cons.inj rows
          have same := determines one (by simp) other (by simp) here
          have others := inductionHypothesis (fun left inRest right inLater =>
            determines left (by simp [inRest]) right (by simp [inLater])) remaining
          rw [List.map_cons, List.map_cons, same, others]

end Aegis.Foundation
