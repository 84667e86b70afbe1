import Mathlib.Logic.Basic

/-!
Owns executable transition systems: a step function, finite runs of it, the
rule that carries an invariant along every run, runs whose steps all meet a
condition on the state before the step, and runs that never leave a set of
states.

Does not own: any concrete state or action, fairness, or infinite runs.
-/

namespace Aegis.Foundation

universe u v

/-- A transition system. A step is `none` where the action is not enabled. -/
structure Machine (State : Type u) (Action : Type v) where
  step : State → Action → Option State

namespace Machine

variable {State : Type u} {Action : Type v} (machine : Machine State Action)

/-- The state after a finite sequence of actions. -/
def run (state : State) : List Action → Option State
  | [] => some state
  | action :: rest => (machine.step state action).bind fun next => run next rest

@[simp] theorem run_nil (state : State) : machine.run state [] = some state := rfl

theorem run_cons_eq_some {state final : State} {action : Action} {rest : List Action} :
    machine.run state (action :: rest) = some final ↔
      ∃ next, machine.step state action = some next ∧ machine.run next rest = some final := by
  simp only [run, Option.bind_eq_some_iff]

theorem run_append (state : State) (first second : List Action) :
    machine.run state (first ++ second) =
      (machine.run state first).bind fun middle => machine.run middle second := by
  induction first generalizing state with
  | nil => rfl
  | cons action rest inductionHypothesis =>
      simp only [List.cons_append, run, Option.bind_assoc, inductionHypothesis]

theorem run_append_eq_some {state final : State} {first second : List Action} :
    machine.run state (first ++ second) = some final ↔
      ∃ middle, machine.run state first = some middle ∧
        machine.run middle second = some final := by
  rw [run_append, Option.bind_eq_some_iff]

/-- Some run leads from `start` to `state`. -/
def Reachable (start state : State) : Prop :=
  ∃ actions, machine.run start actions = some state

theorem Reachable.refl (start : State) : machine.Reachable start start := ⟨[], rfl⟩

variable {machine} in
theorem Reachable.run {start state final : State} (reached : machine.Reachable start state)
    {actions : List Action} (ran : machine.run state actions = some final) :
    machine.Reachable start final := by
  obtain ⟨before, earlier⟩ := reached
  exact ⟨before ++ actions, machine.run_append_eq_some.mpr ⟨state, earlier, ran⟩⟩

/-! ### Invariants -/

/-- Every step whose action meets `guard` keeps `invariant`. -/
def KeepsUnder (guard : State → Action → Prop) (invariant : State → Prop) : Prop :=
  ∀ ⦃state action next⦄, guard state action → invariant state →
    machine.step state action = some next → invariant next

/-- Every step keeps `invariant`. -/
def Keeps (invariant : State → Prop) : Prop :=
  machine.KeepsUnder (fun _ _ => True) invariant

/-- Every action of the run meets `guard` in the state it is taken in. -/
def Meets (guard : State → Action → Prop) : State → List Action → Prop
  | _, [] => True
  | state, action :: rest =>
      guard state action ∧ ∀ next, machine.step state action = some next → Meets guard next rest

instance decidableMeets (guard : State → Action → Prop)
    [∀ state action, Decidable (guard state action)] :
    ∀ state actions, Decidable (machine.Meets guard state actions)
  | _, [] => isTrue trivial
  | state, action :: rest =>
      have (next : State) : Decidable (machine.Meets guard next rest) :=
        decidableMeets guard next rest
      inferInstanceAs (Decidable (guard state action ∧
        ∀ next ∈ machine.step state action, machine.Meets guard next rest))

theorem meets_of_forall_mem {guard : State → Action → Prop} (state : State)
    (actions : List Action) (each : ∀ action ∈ actions, ∀ state, guard state action) :
    machine.Meets guard state actions := by
  induction actions generalizing state with
  | nil => trivial
  | cons action rest inductionHypothesis =>
      refine ⟨each action (by simp) state, fun next _ => ?_⟩
      exact inductionHypothesis next fun later member => each later (by simp [member])

variable {machine}

/-- The run rule: what every guarded step keeps, every guarded run keeps. -/
theorem KeepsUnder.run {guard : State → Action → Prop} {invariant : State → Prop}
    (keeps : machine.KeepsUnder guard invariant) {state final : State} {actions : List Action}
    (meets : machine.Meets guard state actions) (holds : invariant state)
    (ran : machine.run state actions = some final) : invariant final := by
  induction actions generalizing state with
  | nil =>
      obtain rfl := Option.some.inj ran
      exact holds
  | cons action rest inductionHypothesis =>
      obtain ⟨next, stepped, later⟩ := machine.run_cons_eq_some.mp ran
      exact inductionHypothesis (meets.2 next stepped) (keeps meets.1 holds stepped) later

theorem Keeps.run {invariant : State → Prop} (keeps : machine.Keeps invariant)
    {state final : State} {actions : List Action} (holds : invariant state)
    (ran : machine.run state actions = some final) : invariant final :=
  KeepsUnder.run keeps (machine.meets_of_forall_mem state actions fun _ _ _ => trivial) holds ran

/-- A kept invariant of the start state holds in every reachable state. -/
theorem Keeps.reachable {invariant : State → Prop} (keeps : machine.Keeps invariant)
    {start state : State} (holds : invariant start) (reached : machine.Reachable start state) :
    invariant state := by
  obtain ⟨actions, ran⟩ := reached
  exact keeps.run holds ran

/-! ### Runs that stay in a set of states -/

variable (machine) in
/-- `good` holds in every state of the run, the first and the last included. -/
def Throughout (good : State → Prop) : State → List Action → Prop
  | state, [] => good state
  | state, action :: rest =>
      good state ∧ ∀ next, machine.step state action = some next → Throughout good next rest

variable {good : State → Prop} {start state final : State}

theorem Throughout.head {actions : List Action}
    (throughout : machine.Throughout good state actions) : good state := by
  cases actions with
  | nil => exact throughout
  | cons action rest => exact throughout.1

theorem Throughout.mono {better : State → Prop} {actions : List Action}
    (throughout : machine.Throughout good state actions)
    (weaker : ∀ state, good state → better state) : machine.Throughout better state actions := by
  induction actions generalizing state with
  | nil => exact weaker state throughout
  | cons action rest inductionHypothesis =>
      refine ⟨weaker state throughout.1, fun next stepped => ?_⟩
      exact inductionHypothesis (throughout.2 next stepped)

/-- A condition on states only. -/
theorem Throughout.meets {actions : List Action}
    (throughout : machine.Throughout good state actions) :
    machine.Meets (fun state _ => good state) state actions := by
  induction actions generalizing state with
  | nil => trivial
  | cons action rest inductionHypothesis =>
      refine ⟨throughout.1, fun next stepped => ?_⟩
      exact inductionHypothesis (throughout.2 next stepped)

theorem Throughout.append {first second : List Action}
    (before : machine.Throughout good start first) (ran : machine.run start first = some state)
    (after : machine.Throughout good state second) :
    machine.Throughout good start (first ++ second) := by
  induction first generalizing start with
  | nil =>
      obtain rfl := Option.some.inj ran
      exact after
  | cons action rest inductionHypothesis =>
      refine ⟨before.1, fun next stepped => ?_⟩
      obtain ⟨taken, steppedTaken, later⟩ := machine.run_cons_eq_some.mp ran
      obtain rfl := Option.some.inj (stepped.symm.trans steppedTaken)
      exact inductionHypothesis (before.2 next stepped) later

variable (machine) in
/-- Some run that stays in `good` leads from `start` to `state`. -/
def ReachableWithin (good : State → Prop) (start state : State) : Prop :=
  ∃ actions, machine.run start actions = some state ∧ machine.Throughout good start actions

theorem ReachableWithin.refl (holds : good start) : machine.ReachableWithin good start start :=
  ⟨[], rfl, holds⟩

theorem ReachableWithin.step (holds : good start) (action : Action)
    (stepped : machine.step start action = some state)
    (rest : machine.ReachableWithin good state final) :
    machine.ReachableWithin good start final := by
  obtain ⟨actions, ran, throughout⟩ := rest
  refine ⟨action :: actions, machine.run_cons_eq_some.mpr ⟨state, stepped, ran⟩, holds, ?_⟩
  intro next steppedNext
  obtain rfl := Option.some.inj (stepped.symm.trans steppedNext)
  exact throughout

theorem ReachableWithin.trans (first : machine.ReachableWithin good start state)
    (second : machine.ReachableWithin good state final) :
    machine.ReachableWithin good start final := by
  obtain ⟨before, ran, throughout⟩ := first
  obtain ⟨after, ranAfter, throughoutAfter⟩ := second
  exact ⟨before ++ after, machine.run_append_eq_some.mpr ⟨state, ran, ranAfter⟩,
    throughout.append ran throughoutAfter⟩

theorem ReachableWithin.mono {better : State → Prop}
    (reached : machine.ReachableWithin good start state)
    (weaker : ∀ state, good state → better state) :
    machine.ReachableWithin better start state := by
  obtain ⟨actions, ran, throughout⟩ := reached
  exact ⟨actions, ran, throughout.mono weaker⟩

/-- The run rule for such runs: a step into `good` keeps the invariant. -/
theorem ReachableWithin.invariant {invariant : State → Prop}
    (keeps : ∀ state action next, good next → invariant state →
      machine.step state action = some next → invariant next)
    (reached : machine.ReachableWithin good start state) (holds : invariant start) :
    invariant state := by
  obtain ⟨actions, ran, throughout⟩ := reached
  induction actions generalizing start with
  | nil =>
      obtain rfl := Option.some.inj ran
      exact holds
  | cons action rest inductionHypothesis =>
      obtain ⟨next, stepped, later⟩ := machine.run_cons_eq_some.mp ran
      have stays := throughout.2 next stepped
      exact inductionHypothesis (keeps start action next stays.head holds stepped) later stays

theorem ReachableWithin.holds (reached : machine.ReachableWithin good start state) :
    good state := by
  obtain ⟨actions, ran, throughout⟩ := reached
  exact invariant (fun _ _ _ here _ _ => here) ⟨actions, ran, throughout⟩ throughout.head

end Machine

end Aegis.Foundation
