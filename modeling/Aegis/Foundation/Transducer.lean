/-!
Owns deterministic systems that answer each input: a step gives the next state
and an output, a run gives the last state and the outputs in order. Two systems
related by a simulation give the same outputs on every run, and what every
guarded step keeps holds after every run of guarded steps.

Does not own: any concrete system, or inputs that are refused.
-/

namespace Aegis.Foundation

universe u v w x

structure Transducer (State : Type u) (Input : Type v) (Output : Type w) where
  step : State → Input → State × Output

namespace Transducer

variable {State : Type u} {Abstract : Type x} {Input : Type v} {Output : Type w}

def run (system : Transducer State Input Output) (state : State) :
    List Input → State × List Output
  | [] => (state, [])
  | input :: rest =>
      let first := system.step state input
      let later := run system first.1 rest
      (later.1, first.2 :: later.2)

@[simp] theorem run_nil (system : Transducer State Input Output) (state : State) :
    system.run state [] = (state, []) := rfl

theorem run_cons (system : Transducer State Input Output) (state : State) (input : Input)
    (rest : List Input) :
    system.run state (input :: rest) =
      ((system.run (system.step state input).1 rest).1,
        (system.step state input).2 :: (system.run (system.step state input).1 rest).2) := rfl

theorem run_append_fst (system : Transducer State Input Output) (state : State)
    (first second : List Input) :
    (system.run state (first ++ second)).1 = (system.run (system.run state first).1 second).1 := by
  induction first generalizing state with
  | nil => rfl
  | cons input rest inductionHypothesis =>
      rw [List.cons_append, run_cons, run_cons]
      exact inductionHypothesis _

/-- Every input of the run meets `guard` in the state it is taken in. -/
def Meets (system : Transducer State Input Output) (guard : State → Input → Prop) :
    State → List Input → Prop
  | _, [] => True
  | state, input :: rest =>
      guard state input ∧ Meets system guard (system.step state input).1 rest

theorem Meets.run {system : Transducer State Input Output} {guard : State → Input → Prop}
    (invariant : State → Prop)
    (keeps : ∀ state input, guard state input → invariant state →
      invariant (system.step state input).1)
    {state : State} {inputs : List Input} (meets : system.Meets guard state inputs)
    (holds : invariant state) : invariant (system.run state inputs).1 := by
  induction inputs generalizing state with
  | nil => exact holds
  | cons input rest inductionHypothesis =>
      rw [run_cons]
      exact inductionHypothesis meets.2 (keeps state input meets.1 holds)

theorem meets_append {system : Transducer State Input Output} {guard : State → Input → Prop}
    {state : State} {first second : List Input} :
    system.Meets guard state (first ++ second) ↔
      system.Meets guard state first ∧ system.Meets guard (system.run state first).1 second := by
  induction first generalizing state with
  | nil => simp [Meets]
  | cons input rest inductionHypothesis =>
      simp only [List.cons_append, Meets, inductionHypothesis, run_cons, and_assoc]

section Items

variable {Item : Type x} (system : Transducer State Input Output) (guard : State → Input → Prop)
variable (view : State → List Item → Prop) (input : Item → Input) {items : List Item}

/-- Inputs that each meet the guard and put one item at the end of a view. -/
theorem meets_of_appends
    (appends : ∀ state done item rest, done ++ item :: rest = items → view state done →
      guard state (input item) ∧ view (system.step state (input item)).1 (done ++ [item]))
    {state : State} {done rest : List Item} (split : done ++ rest = items)
    (holds : view state done) :
    system.Meets guard state (rest.map input) ∧
      view (system.run state (rest.map input)).1 items := by
  induction rest generalizing state done with
  | nil =>
      rw [List.append_nil] at split
      subst split
      exact ⟨trivial, holds⟩
  | cons item later inductionHypothesis =>
      obtain ⟨meets, next⟩ := appends state done item later split holds
      obtain ⟨meetsLater, final⟩ := inductionHypothesis (by simpa using split) next
      exact ⟨⟨meets, meetsLater⟩, final⟩

/-- Inputs that each meet the guard and take one item off the front of a
view. -/
theorem meets_of_removes
    (removes : ∀ state item rest, item ∈ items → view state (item :: rest) →
      guard state (input item) ∧ view (system.step state (input item)).1 rest)
    {state : State} (holds : view state items) :
    system.Meets guard state (items.map input) ∧
      view (system.run state (items.map input)).1 [] := by
  induction items generalizing state with
  | nil => exact ⟨trivial, holds⟩
  | cons item rest inductionHypothesis =>
      obtain ⟨meets, next⟩ := removes state item rest (by simp) holds
      obtain ⟨meetsLater, final⟩ := inductionHypothesis
        (fun state other later member => removes state other later (by simp [member])) next
      exact ⟨⟨meets, meetsLater⟩, final⟩

end Items

/-- What every allowed input keeps holds after every run of allowed inputs. -/
theorem run_of_forall {system : Transducer State Input Output} {allowed : Input → Prop}
    (invariant : State → Prop)
    (keeps : ∀ state input, allowed input → invariant state →
      invariant (system.step state input).1)
    {state : State} (holds : invariant state) {inputs : List Input}
    (each : ∀ input ∈ inputs, allowed input) : invariant (system.run state inputs).1 := by
  have meets : system.Meets (fun _ => allowed) state inputs := by
    clear holds
    induction inputs generalizing state with
    | nil => trivial
    | cons input rest inductionHypothesis =>
        exact ⟨each input (by simp), inductionHypothesis fun later member =>
          each later (by simp [member])⟩
  exact meets.run invariant keeps holds

/-- On every allowed input, related states give the same output and stay
related. -/
def Simulates (concrete : Transducer State Input Output)
    (model : Transducer Abstract Input Output) (allowed : Input → Prop)
    (related : State → Abstract → Prop) : Prop :=
  ∀ ⦃state abstract input⦄, allowed input → related state abstract →
    (concrete.step state input).2 = (model.step abstract input).2 ∧
      related (concrete.step state input).1 (model.step abstract input).1

/-- The run rule: a simulation carries over to every run of allowed inputs. -/
theorem Simulates.run {concrete : Transducer State Input Output}
    {model : Transducer Abstract Input Output} {allowed : Input → Prop}
    {related : State → Abstract → Prop} (simulates : Simulates concrete model allowed related)
    {state : State} {abstract : Abstract} (start : related state abstract)
    (inputs : List Input) (each : ∀ input ∈ inputs, allowed input) :
    (concrete.run state inputs).2 = (model.run abstract inputs).2 ∧
      related (concrete.run state inputs).1 (model.run abstract inputs).1 := by
  induction inputs generalizing state abstract with
  | nil => exact ⟨rfl, start⟩
  | cons input rest inductionHypothesis =>
      obtain ⟨output, next⟩ := simulates (each input (by simp)) start
      obtain ⟨outputs, final⟩ :=
        inductionHypothesis next fun later member => each later (by simp [member])
      rw [run_cons, run_cons, output, outputs]
      exact ⟨rfl, final⟩

end Transducer

end Aegis.Foundation
