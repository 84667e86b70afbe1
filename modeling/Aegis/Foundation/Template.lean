import Aegis.Foundation.Search

/-!
Owns texts that alternate literals and fields, as formatted output does: a lead,
and fields that are each followed by a literal. A literal that starts and ends
with symbols outside a word is a fence: no occurrence of the word reaches across
it, so the word occurs in the text only inside of one part.

Does not own: how a field is rendered.
-/

namespace Aegis.Foundation

universe u

variable {Symbol : Type u}

def template (lead : List Symbol) : List (List Symbol × List Symbol) → List Symbol
  | [] => lead
  | (field, literal) :: rest => lead ++ (field ++ template literal rest)

@[simp] theorem template_nil (lead : List Symbol) : template lead [] = lead := rfl

@[simp] theorem template_cons (lead field literal : List Symbol)
    (rest : List (List Symbol × List Symbol)) :
    template lead ((field, literal) :: rest) = lead ++ (field ++ template literal rest) := rfl

theorem not_mem_template {symbol : Symbol} {lead : List Symbol}
    {parts : List (List Symbol × List Symbol)} (inLead : symbol ∉ lead)
    (inParts : ∀ part ∈ parts, symbol ∉ part.1 ∧ symbol ∉ part.2) :
    symbol ∉ template lead parts := by
  induction parts generalizing lead with
  | nil => exact inLead
  | cons part rest inductionHypothesis =>
      obtain ⟨field, literal⟩ := part
      obtain ⟨here, later⟩ := List.forall_mem_cons.mp inParts
      simp only [template_cons, List.mem_append, not_or]
      exact ⟨inLead, here.1, inductionHypothesis here.2 later⟩

/-! ### Delimited fields -/

/-- A field without the delimiter ends at its first occurrence. -/
theorem append_delimiter_inj {delimiter : Symbol} {left right rest others : List Symbol}
    (leftFree : delimiter ∉ left) (rightFree : delimiter ∉ right)
    (same : left ++ delimiter :: rest = right ++ delimiter :: others) :
    left = right ∧ rest = others := by
  induction left generalizing right with
  | nil =>
      cases right with
      | nil => exact ⟨rfl, List.tail_eq_of_cons_eq same⟩
      | cons symbol later =>
          obtain ⟨rfl, -⟩ := List.cons.inj same
          exact absurd List.mem_cons_self rightFree
  | cons symbol later inductionHypothesis =>
      cases right with
      | nil =>
          obtain ⟨rfl, -⟩ := List.cons.inj same
          exact absurd List.mem_cons_self leftFree
      | cons other remaining =>
          obtain ⟨rfl, tails⟩ := List.cons.inj same
          rw [List.mem_cons, not_or] at leftFree rightFree
          obtain ⟨rfl, rests⟩ := inductionHypothesis leftFree.2 rightFree.2 tails
          exact ⟨rfl, rests⟩

/-- A field without the delimiter before it starts after its last occurrence. -/
theorem delimiter_append_inj {delimiter : Symbol} {left right rest others : List Symbol}
    (leftFree : delimiter ∉ left) (rightFree : delimiter ∉ right)
    (same : rest ++ delimiter :: left = others ++ delimiter :: right) :
    rest = others ∧ left = right := by
  have mirrored := congrArg List.reverse same
  simp only [List.reverse_append, List.reverse_cons, List.append_assoc, List.singleton_append]
    at mirrored
  obtain ⟨fields, rests⟩ := append_delimiter_inj
    (fun member => leftFree (List.mem_reverse.mp member))
    (fun member => rightFree (List.mem_reverse.mp member)) mirrored
  exact ⟨List.reverse_injective rests, List.reverse_injective fields⟩

section Fields

variable {lead literal closing : List Symbol} {delimiter : Symbol} {left right : List Symbol}
variable {rest others : List (List Symbol × List Symbol)}

/-- A field that lacks the first symbol of the literal after it. -/
theorem template_cons_inj (starts : literal.head? = some delimiter) (leftFree : delimiter ∉ left)
    (rightFree : delimiter ∉ right)
    (same : template lead ((left, literal) :: rest) = template lead ((right, literal) :: others)) :
    left = right ∧ template literal rest = template literal others := by
  have opens : ∀ parts, ∃ tail, template literal parts = delimiter :: tail := by
    intro parts
    obtain ⟨tail, rfl⟩ := List.head?_eq_some_iff.mp starts
    cases parts with
    | nil => exact ⟨tail, rfl⟩
    | cons part more => exact ⟨_, rfl⟩
  obtain ⟨tail, isTail⟩ := opens rest
  obtain ⟨otherTail, isOtherTail⟩ := opens others
  rw [template_cons, template_cons, isTail, isOtherTail] at same
  obtain ⟨rfl, rfl⟩ := append_delimiter_inj leftFree rightFree (List.append_cancel_left same)
  exact ⟨rfl, isTail.trans isOtherTail.symm⟩

/-- The last field may hold anything. -/
theorem template_singleton_inj
    (same : template lead [(left, literal)] = template lead [(right, literal)]) : left = right :=
  List.append_cancel_right (List.append_cancel_left same)

/-- The last field but one may hold anything if the last one lacks the last
symbol of the literal between them. -/
theorem template_pair_inj {last otherLast : List Symbol} (ends : literal.getLast? = some delimiter)
    (leftFree : delimiter ∉ last) (rightFree : delimiter ∉ otherLast)
    (same : template lead [(left, literal), (last, closing)] =
      template lead [(right, literal), (otherLast, closing)]) :
    left = right ∧ last = otherLast := by
  obtain ⟨start, rfl⟩ := List.getLast?_eq_some_iff.mp ends
  have fields := List.append_cancel_left same
  simp only [template_cons, template_nil, List.append_assoc, List.singleton_append] at fields
  rw [← List.append_assoc, ← List.append_assoc, ← List.cons_append, ← List.cons_append,
    ← List.append_assoc, ← List.append_assoc] at fields
  obtain ⟨starts, rfl⟩ := delimiter_append_inj leftFree rightFree
    (List.append_cancel_right fields)
  exact ⟨List.append_cancel_right starts, rfl⟩

end Fields

/-! ### Fences -/

section Fences

variable [DecidableEq Symbol] {word : List Symbol}

/-- The text is empty or ends outside the word. -/
def EndsOutside (word text : List Symbol) : Prop := ∀ symbol ∈ text.getLast?, symbol ∉ word

instance (word text : List Symbol) : Decidable (EndsOutside word text) :=
  inferInstanceAs (Decidable (∀ symbol ∈ text.getLast?, symbol ∉ word))

structure Fence (word literal : List Symbol) : Prop where
  first : ∀ symbol ∈ literal.head?, symbol ∉ word
  last : EndsOutside word literal
  absent : occurrences word literal = 0

instance (word literal : List Symbol) : Decidable (Fence word literal) :=
  decidable_of_iff
    ((∀ symbol ∈ literal.head?, symbol ∉ word) ∧ EndsOutside word literal ∧
      occurrences word literal = 0)
    ⟨fun fence => ⟨fence.1, fence.2.1, fence.2.2⟩, fun fence => ⟨fence.first, fence.last,
      fence.absent⟩⟩

variable (nonempty : word ≠ [])

include nonempty

/-- Occurrences after a text that ends outside the word are counted apart. -/
theorem occurrences_append_of_last {left : List Symbol} (ends : EndsOutside word left)
    (right : List Symbol) :
    occurrences word (left ++ right) = occurrences word left + occurrences word right := by
  rcases List.eq_nil_or_concat left with rfl | ⟨start, symbol, rfl⟩
  · simp [occurrences]
  · have apart : symbol ∉ word := ends symbol (by simp)
    have whole := occurrences_append_separator apart nonempty start right
    have alone := occurrences_append_separator apart nonempty start []
    rw [List.concat_eq_append, List.append_assoc, List.singleton_append, whole, alone]
    simp [occurrences]

/-- Occurrences before a text that starts outside the word are counted apart. -/
theorem occurrences_append_of_first (left : List Symbol) {right : List Symbol}
    (starts : ∀ symbol ∈ right.head?, symbol ∉ word) :
    occurrences word (left ++ right) = occurrences word left + occurrences word right := by
  cases right with
  | nil => simp [occurrences]
  | cons symbol rest =>
      have apart : symbol ∉ word := starts symbol (by simp)
      have alone := occurrences_append_separator apart nonempty [] rest
      rw [List.nil_append] at alone
      rw [occurrences_append_separator apart nonempty, alone]
      simp [occurrences]

/-- A search passes over a text in which the word does not occur and that ends
outside of it. -/
theorem strstr_append_of_last {left : List Symbol} (ends : EndsOutside word left)
    (absent : occurrences word left = 0) (right : List Symbol) :
    strstr word (left ++ right) = strstr word right := by
  induction left with
  | nil => rfl
  | cons symbol rest inductionHypothesis =>
      have split := occurrences_append_of_last nonempty ends right
      rw [List.cons_append, occurrences, occurrences] at split
      rw [occurrences] at absent
      have later : EndsOutside word rest := by
        intro other isLast
        apply ends other
        cases rest with
        | nil => cases isLast
        | cons next more => exact isLast
      have continued := occurrences_append_of_last nonempty later right
      rw [List.cons_append, strstr, if_neg, inductionHypothesis later (by omega)]
      intro here
      rw [if_pos here] at split
      omega

/-- Between fences, a word that no field holds does not occur. -/
theorem occurrences_template {lead : List Symbol} {parts : List (List Symbol × List Symbol)}
    (absent : occurrences word lead = 0)
    (ends : parts ≠ [] → EndsOutside word lead)
    (inParts : ∀ part ∈ parts, occurrences word part.1 = 0 ∧ Fence word part.2)
    (separated : ∀ part ∈ parts.dropLast, part.2 ≠ []) :
    occurrences word (template lead parts) = 0 := by
  induction parts generalizing lead with
  | nil => exact absent
  | cons part rest inductionHypothesis =>
      obtain ⟨field, literal⟩ := part
      obtain ⟨here, later⟩ := List.forall_mem_cons.mp inParts
      have starts : ∀ symbol ∈ (template literal rest).head?, symbol ∉ word := by
        cases rest with
        | nil => exact here.2.first
        | cons next more =>
            have present : literal ≠ [] := separated (field, literal) (by simp)
            cases literal with
            | nil => exact absurd rfl present
            | cons symbol tail => exact here.2.first
      have remaining := inductionHypothesis here.2.absent (fun _ => here.2.last) later
        fun other member => by
          apply separated other
          cases rest with
          | nil => cases member
          | cons next more => exact List.mem_cons_of_mem _ member
      rw [template_cons, occurrences_append_of_last nonempty (ends (List.cons_ne_nil _ _)),
        occurrences_append_of_first nonempty field starts, absent, here.1, remaining]

end Fences

end Aegis.Foundation
