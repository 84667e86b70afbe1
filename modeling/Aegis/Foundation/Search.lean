import Mathlib.Algebra.Ring.Nat
import Mathlib.Data.List.Basic

/-!
Owns searching a text for a word: the first occurrence, the loop that counts
occurrences by searching on from the last one, and the sum of the counts over
the parts between separators.

Does not own: what the word or the separator is.
-/

namespace Aegis.Foundation

universe u

variable {Symbol : Type u} [DecidableEq Symbol]

/-- `strstr`: the text from the first occurrence of the word on. -/
def strstr (word : List Symbol) : List Symbol → Option (List Symbol)
  | [] => if word = [] then some [] else none
  | symbol :: rest =>
      if word.isPrefixOf (symbol :: rest) then some (symbol :: rest) else strstr word rest

/-- The number of positions at which the word occurs. -/
def occurrences (word : List Symbol) : List Symbol → Nat
  | [] => 0
  | symbol :: rest =>
      (if word.isPrefixOf (symbol :: rest) then 1 else 0) + occurrences word rest

theorem strstr_length_le {word text found : List Symbol} (isFound : strstr word text = some found) :
    found.length ≤ text.length := by
  induction text with
  | nil =>
      simp only [strstr, Option.ite_none_right_eq_some, Option.some.injEq] at isFound
      exact Nat.le_of_eq (congrArg List.length isFound.2.symm)
  | cons symbol rest inductionHypothesis =>
      rw [strstr] at isFound
      split at isFound
      · exact Nat.le_of_eq (congrArg List.length (Option.some.inj isFound).symm)
      · have later := inductionHypothesis isFound
        rw [List.length_cons]
        omega

/-- The loop `for (line = text; (line = strstr(line, word)) != NULL; line++)`:
how often its body runs. -/
def countMatches (word text : List Symbol) : Nat :=
  match found : strstr word text with
  | none => 0
  | some [] => 1
  | some (_ :: rest) => 1 + countMatches word rest
termination_by text.length
decreasing_by
  have shorter := strstr_length_le found
  rw [List.length_cons] at shorter
  omega

/-- The parts that repeated calls of `strtok_r` return: those between
delimiters that are not empty. -/
def strtok (delimiter : Symbol) (text : List Symbol) : List (List Symbol) :=
  (text.splitOn delimiter).filter (· ≠ [])

/-! ### Counting -/

section Counting

variable {word : List Symbol} (nonempty : word ≠ [])

theorem occurrences_of_strstr_none {text : List Symbol} (absent : strstr word text = none) :
    occurrences word text = 0 := by
  induction text with
  | nil => rfl
  | cons symbol rest inductionHypothesis =>
      rw [strstr] at absent
      split at absent
      · cases absent
      · rename_i differs
        rw [occurrences, if_neg differs, inductionHypothesis absent]

theorem occurrences_of_strstr_some {text rest : List Symbol} {symbol : Symbol}
    (isFound : strstr word text = some (symbol :: rest)) :
    occurrences word text = 1 + occurrences word rest := by
  induction text with
  | nil => simp [strstr] at isFound
  | cons first later inductionHypothesis =>
      rw [strstr] at isFound
      split at isFound
      · rename_i here
        obtain ⟨rfl, rfl⟩ := List.cons.inj (Option.some.inj isFound)
        rw [occurrences, if_pos here]
      · rename_i differs
        rw [occurrences, if_neg differs, Nat.zero_add, inductionHypothesis isFound]

/-- A word does not occur in a text that lacks one of its symbols. -/
theorem occurrences_of_not_mem {symbol : Symbol} (inWord : symbol ∈ word) {text : List Symbol}
    (absent : symbol ∉ text) : occurrences word text = 0 := by
  induction text with
  | nil => rfl
  | cons first rest inductionHypothesis =>
      have differs : ¬ word.isPrefixOf (first :: rest) = true := fun here =>
        absent ((List.isPrefixOf_iff_prefix.mp here).subset inWord)
      rw [List.mem_cons, not_or] at absent
      rw [occurrences, if_neg differs, inductionHypothesis absent.2]

include nonempty

theorem strstr_ne_some_nil (text : List Symbol) : strstr word text ≠ some [] := by
  induction text with
  | nil => simp [strstr, nonempty]
  | cons symbol rest inductionHypothesis =>
      rw [strstr]
      split
      · simp
      · exact inductionHypothesis

/-- The loop counts every occurrence once. -/
theorem countMatches_eq_occurrences (text : List Symbol) :
    countMatches word text = occurrences word text := by
  fun_induction countMatches word text with
  | case1 text absent => rw [occurrences_of_strstr_none absent]
  | case2 text atEnd => exact absurd atEnd (strstr_ne_some_nil nonempty text)
  | case3 text symbol rest isFound inductionHypothesis =>
      rw [occurrences_of_strstr_some isFound, inductionHypothesis]

theorem occurrences_eq_zero_iff (text : List Symbol) :
    occurrences word text = 0 ↔ strstr word text = none := by
  refine ⟨fun none => ?_, occurrences_of_strstr_none⟩
  cases isFound : strstr word text with
  | none => rfl
  | some found =>
      cases found with
      | nil => exact absurd isFound (strstr_ne_some_nil nonempty text)
      | cons symbol rest =>
          rw [occurrences_of_strstr_some isFound] at none
          omega

end Counting

/-! ### Separators -/

section Separators

variable {word : List Symbol} {separator : Symbol} (apart : separator ∉ word)

include apart

/-- A word without the separator does not reach beyond it. -/
theorem isPrefixOf_append_separator (line rest : List Symbol) :
    word.isPrefixOf (line ++ separator :: rest) = word.isPrefixOf line := by
  induction word generalizing line with
  | nil => simp
  | cons symbol later inductionHypothesis =>
      rw [List.mem_cons, not_or] at apart
      cases line with
      | nil =>
          have unequal : (symbol == separator) = false := by
            rw [beq_eq_false_iff_ne]
            exact Ne.symm apart.1
          simp [List.isPrefixOf, unequal]
      | cons first line =>
          rw [List.cons_append, List.isPrefixOf, List.isPrefixOf, inductionHypothesis apart.2]

/-- Occurrences before and after a separator are counted apart. -/
theorem occurrences_append_separator (nonempty : word ≠ []) (line rest : List Symbol) :
    occurrences word (line ++ separator :: rest) =
      occurrences word line + occurrences word rest := by
  induction line with
  | nil =>
      have differs : word.isPrefixOf (separator :: rest) = false := by
        have short := isPrefixOf_append_separator apart [] rest
        rw [List.nil_append] at short
        rw [short]
        cases word with
        | nil => exact absurd rfl nonempty
        | cons symbol later => rfl
      simp [occurrences, differs]
  | cons symbol line inductionHypothesis =>
      have same := isPrefixOf_append_separator apart (symbol :: line) rest
      rw [List.cons_append] at same
      rw [List.cons_append, occurrences, occurrences, same, inductionHypothesis]
      omega

/-- The occurrences in a text are those in its lines. -/
theorem occurrences_eq_sum (nonempty : word ≠ []) (text : List Symbol) :
    occurrences word text = ((text.splitOn separator).map (occurrences word)).sum := by
  induction length : text.length using Nat.strongRecOn generalizing text with
  | ind size inductionHypothesis =>
      by_cases member : separator ∈ text
      · obtain ⟨line, rest, rfl⟩ := List.append_of_mem member
        rw [List.length_append, List.length_cons] at length
        rw [occurrences_append_separator apart nonempty, List.splitOn_append_cons_self,
          List.map_append, List.sum_append,
          inductionHypothesis line.length (by omega) line rfl,
          inductionHypothesis rest.length (by omega) rest rfl]
      · rw [List.splitOn_eq_singleton member]
        simp

end Separators

section Counts

variable {Part : Type u} {count : Part → Nat}

/-- Every positive count adds at least one to the sum. -/
theorem length_filter_le_sum (parts : List Part) :
    (parts.filter fun part => count part ≠ 0).length ≤ (parts.map count).sum := by
  induction parts with
  | nil => exact Nat.le_refl 0
  | cons part rest inductionHypothesis =>
      rw [List.map_cons, List.sum_cons, List.filter_cons]
      split
      · rename_i positive
        have positive : count part ≠ 0 := by simpa using positive
        rw [List.length_cons]
        omega
      · omega

/-- A sum of counts is the number of positive ones exactly when no count is
greater than one. -/
theorem sum_eq_length_filter_iff {parts : List Part} :
    (parts.map count).sum = (parts.filter fun part => count part ≠ 0).length ↔
      ∀ part ∈ parts, count part ≤ 1 := by
  induction parts with
  | nil => simp
  | cons part rest inductionHypothesis =>
      have lower : (rest.filter fun part => count part ≠ 0).length ≤ (rest.map count).sum :=
        length_filter_le_sum rest
      rw [List.map_cons, List.sum_cons, List.filter_cons, List.forall_mem_cons]
      refine Iff.trans ?_ (and_congr_right' inductionHypothesis)
      split
      · rename_i positive
        have positive : count part ≠ 0 := by simpa using positive
        rw [List.length_cons]
        omega
      · rename_i zero
        have zero : count part = 0 := by simpa using zero
        omega

end Counts

end Aegis.Foundation
