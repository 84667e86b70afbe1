import Mathlib.Data.List.Forall2
import Aegis.Foundation.Transducer

/-!
Owns noninterference of systems that answer each input. A relation between
states unwinds a system when hidden inputs do not leave it, all inputs respect
it, and observed inputs answer alike in related states.

`Transducer.Unwinds.run` carries this to runs: leaving out any of the hidden
inputs changes neither what the observed inputs answer nor, up to the relation,
the last state.

Does not own: any concrete system, or which of its inputs are hidden.
-/

namespace Aegis.Foundation

universe u v w

/-- The second list has, for some elements of the first and in their order, a
matching element; the other elements of the first may be dropped. -/
inductive Purged {First : Type u} {Second : Type v} (drops : First → Prop)
    (keeps : First → Second → Prop) : List First → List Second → Prop
  | nil : Purged drops keeps [] []
  | keep {first second rest others} (isKept : keeps first second)
      (later : Purged drops keeps rest others) :
      Purged drops keeps (first :: rest) (second :: others)
  | drop {first rest others} (isDropped : drops first) (later : Purged drops keeps rest others) :
      Purged drops keeps (first :: rest) others

theorem Purged.refl {Item : Type u} {drops : Item → Prop} (items : List Item) :
    Purged drops Eq items items := by
  induction items with
  | nil => exact .nil
  | cons item rest inductionHypothesis => exact .keep rfl inductionHypothesis

theorem Purged.imp {First : Type u} {Second : Type v} {drops : First → Prop}
    {keeps weaker : First → Second → Prop}
    (implies : ∀ first second, keeps first second → weaker first second)
    {firsts : List First} {seconds : List Second} (purged : Purged drops keeps firsts seconds) :
    Purged drops weaker firsts seconds := by
  induction purged with
  | nil => exact .nil
  | keep isKept _ inductionHypothesis => exact .keep (implies _ _ isKept) inductionHypothesis
  | drop isDropped _ inductionHypothesis => exact .drop isDropped inductionHypothesis

/-- Where nothing may be dropped the lists match element by element. -/
theorem Purged.forall₂ {First : Type u} {Second : Type v} {keeps : First → Second → Prop}
    {firsts : List First} {seconds : List Second}
    (purged : Purged (fun _ => False) keeps firsts seconds) :
    List.Forall₂ keeps firsts seconds := by
  induction purged with
  | nil => exact .nil
  | keep isKept _ inductionHypothesis => exact .cons isKept inductionHypothesis
  | drop isDropped _ _ => exact isDropped.elim

namespace Transducer

variable {State : Type u} {Input : Type v} {Output : Type w}

/-- The inputs of a run, each with its output. -/
def trace (system : Transducer State Input Output) (state : State) :
    List Input → List (Input × Output)
  | [] => []
  | input :: rest =>
      (input, (system.step state input).2) :: trace system (system.step state input).1 rest

/-- What every allowed input keeps makes the answers of allowed inputs good. -/
theorem forall_mem_trace {system : Transducer State Input Output} {allowed : Input → Prop}
    (invariant : State → Prop) {good : Input × Output → Prop}
    (keeps : ∀ state input, allowed input → invariant state →
      invariant (system.step state input).1)
    (answers : ∀ state input, allowed input → invariant state →
      good (input, (system.step state input).2))
    {state : State} (holds : invariant state) {inputs : List Input}
    (each : ∀ input ∈ inputs, allowed input) : ∀ answered ∈ system.trace state inputs,
      good answered := by
  induction inputs generalizing state with
  | nil => simp [trace]
  | cons input rest inductionHypothesis =>
      have isAllowed := each input (by simp)
      intro answered member
      rcases List.mem_cons.mp member with rfl | later
      · exact answers state input isAllowed holds
      · exact inductionHypothesis (keeps state input isAllowed holds)
          (fun other inRest => each other (by simp [inRest])) answered later

structure Unwinds (system : Transducer State Input Output) (hidden observed : Input → Prop)
    (same : State → State → Prop) : Prop where
  hides : ∀ {left right input}, hidden input → same left right →
    same (system.step left input).1 right
  respects : ∀ {left right} input, same left right →
    same (system.step left input).1 (system.step right input).1
  answers : ∀ {left right input}, observed input → same left right →
    (system.step left input).2 = (system.step right input).2

/-- Two answered inputs that are one input, with one answer if it is
observed. -/
def SameAnswer (observed : Input → Prop) (first second : Input × Output) : Prop :=
  first.1 = second.1 ∧ (observed first.1 → first.2 = second.2)

theorem Unwinds.run {system : Transducer State Input Output} {hidden observed : Input → Prop}
    {same : State → State → Prop} (unwinds : system.Unwinds hidden observed same)
    {inputs kept : List Input} (purged : Purged hidden Eq inputs kept) {left right : State}
    (related : same left right) :
    Purged (fun answered => hidden answered.1) (SameAnswer observed) (system.trace left inputs)
        (system.trace right kept) ∧
      same (system.run left inputs).1 (system.run right kept).1 := by
  induction purged generalizing left right with
  | nil => exact ⟨.nil, related⟩
  | @keep input other rest others isSame later inductionHypothesis =>
      subst isSame
      obtain ⟨traces, final⟩ := inductionHypothesis (unwinds.respects input related)
      refine ⟨.keep ⟨rfl, fun isObserved => ?_⟩ traces, final⟩
      exact unwinds.answers isObserved related
  | drop isHidden later inductionHypothesis =>
      obtain ⟨traces, final⟩ := inductionHypothesis (unwinds.hides isHidden related)
      exact ⟨.drop isHidden traces, final⟩

end Transducer

end Aegis.Foundation
