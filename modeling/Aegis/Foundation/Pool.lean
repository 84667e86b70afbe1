import Mathlib.Data.List.Perm.Basic
import Aegis.Foundation.Machine

/-!
Owns pools of concurrent calls over one shared state. Any number of calls may
be spawned; each step advances one of them, named by its index, and may change
the shared state. A call that has returned keeps its index, so an index
identifies a call for the whole run.

`Program.machine` is the interleaving semantics. `Program.keepsUnder_of_calls`
is the proof rule for invariants of one call at a time: a step keeps the
moving call's part and does not interfere with the parts of the others.
`Pool.exists_rest` turns a step into the exchange of one element of a multiset
of calls, which is what invariants that count calls or compare two of them
need.

Does not own: any program, lock or shared data.
-/

namespace Aegis.Foundation

universe u v w

/-- A shared state and the local states of all calls spawned so far. -/
structure Pool (Shared : Type u) (Call : Type v) where
  shared : Shared
  calls : List Call

/-- One step of a pool: a new call, or a step of the call with an index. -/
inductive Move (Call : Type v) (Choice : Type w) where
  | spawn (call : Call)
  | advance (index : Nat) (choice : Choice)

/-- The code of the calls. `advance` may use the call's own index, and its
`choice` resolves what the environment decides. -/
structure Program (Shared : Type u) (Call : Type v) (Choice : Type w) where
  entry : Call → Bool
  advance : Nat → Shared → Call → Choice → Option (Shared × Call)

namespace Pool

variable {Shared : Type u} {Call : Type v}

/-- The pool before any call. -/
def start (shared : Shared) : Pool Shared Call := ⟨shared, []⟩

/-- Setting the call at an index exchanges that one call, up to order. -/
theorem exists_rest {calls : List Call} {index : Nat} {call : Call}
    (found : calls[index]? = some call) :
    ∃ rest : List Call, calls.Perm (call :: rest) ∧
      ∀ next, (calls.set index next).Perm (next :: rest) := by
  induction calls generalizing index with
  | nil => simp at found
  | cons head tail inductionHypothesis =>
      cases index with
      | zero =>
          obtain rfl : head = call := by simpa using found
          exact ⟨tail, List.Perm.refl _, fun next => List.Perm.refl _⟩
      | succ index =>
          obtain ⟨rest, before, after⟩ := inductionHypothesis (by simpa using found)
          refine ⟨head :: rest, ?_, fun next => ?_⟩
          · exact (before.cons head).trans (List.Perm.swap call head rest)
          · exact ((after next).cons head).trans (List.Perm.swap next head rest)

private theorem perm_filterMap_cons {Value : Type w} {f : Call → Option Value}
    {calls rest : List Call} {call : Call} (permutation : calls.Perm (call :: rest)) :
    (calls.filterMap f).Perm ((f call).toList ++ rest.filterMap f) := by
  have mapped := permutation.filterMap f
  cases value : f call with
  | none => simpa [List.filterMap_cons, value] using mapped
  | some result => simpa [List.filterMap_cons, value] using mapped

/-- The same for what a partial function finds in the calls. -/
theorem exists_filterMap_rest {Value : Type w} (f : Call → Option Value) {calls : List Call}
    {index : Nat} {call : Call} (found : calls[index]? = some call) :
    ∃ rest : List Value, (calls.filterMap f).Perm ((f call).toList ++ rest) ∧
      ∀ next, ((calls.set index next).filterMap f).Perm ((f next).toList ++ rest) := by
  obtain ⟨rest, before, after⟩ := exists_rest found
  exact ⟨rest.filterMap f, perm_filterMap_cons before, fun next => perm_filterMap_cons (after next)⟩

/-- A call present after a step of call `index` is that call's new state, or
was there before at another index. -/
theorem getElem?_set_cases {calls : List Call} {index other : Nat} {next call : Call}
    (found : (calls.set index next)[other]? = some call) :
    (other = index ∧ call = next) ∨ (other ≠ index ∧ calls[other]? = some call) := by
  by_cases same : other = index
  · subst same
    rw [List.getElem?_set_self'] at found
    cases present : calls[other]? with
    | none => simp [present] at found
    | some previous => simp [present] at found; exact Or.inl ⟨rfl, found.symm⟩
  · rw [List.getElem?_set_ne (Ne.symm same)] at found
    exact Or.inr ⟨same, found⟩

/-- The other calls are still there after a step of call `index`. -/
theorem mem_set_of_ne {calls : List Call} {index : Nat} {call next other : Call}
    (found : calls[index]? = some call) (member : other ∈ calls) (different : other ≠ call) :
    other ∈ calls.set index next := by
  obtain ⟨rest, before, after⟩ := exists_rest found
  have inRest := List.mem_of_ne_of_mem different (before.mem_iff.mp member)
  exact (after next).mem_iff.mpr (List.mem_cons_of_mem next inRest)

/-- So is the call that stepped, in its new state. -/
theorem mem_set_self {calls : List Call} {index : Nat} {call next : Call}
    (found : calls[index]? = some call) : next ∈ calls.set index next := by
  obtain ⟨rest, -, after⟩ := exists_rest found
  exact (after next).mem_iff.mpr List.mem_cons_self

/-- A call present after a spawn is the new call, or was there before. -/
theorem getElem?_concat_cases {calls : List Call} {other : Nat} {new call : Call}
    (found : (calls ++ [new])[other]? = some call) :
    (other = calls.length ∧ call = new) ∨ calls[other]? = some call := by
  rcases Nat.lt_trichotomy other calls.length with below | equal | above
  · rw [List.getElem?_append_left below] at found
    exact Or.inr found
  · subst equal
    rw [List.getElem?_append_right (Nat.le_refl _), Nat.sub_self] at found
    exact Or.inl ⟨rfl, by simpa using found.symm⟩
  · rw [List.getElem?_eq_none (by simp; omega)] at found
    simp at found

end Pool

namespace Program

variable {Shared : Type u} {Call : Type v} {Choice : Type w}

/-- All interleavings of the calls of a program. -/
def machine (program : Program Shared Call Choice) :
    Machine (Pool Shared Call) (Move Call Choice) where
  step pool
    | .spawn call =>
        if program.entry call then some ⟨pool.shared, pool.calls ++ [call]⟩ else none
    | .advance index choice =>
        pool.calls[index]?.bind fun call =>
          (program.advance index pool.shared call choice).map fun result =>
            ⟨result.1, pool.calls.set index result.2⟩

variable {program : Program Shared Call Choice} {pool next : Pool Shared Call}

/-- What a step can do: a call enters, or one call advances. -/
theorem machine_step_cases {move : Move Call Choice}
    (stepped : program.machine.step pool move = some next) :
    (∃ call, move = .spawn call ∧ program.entry call = true ∧
      next = ⟨pool.shared, pool.calls ++ [call]⟩) ∨
    (∃ index choice call shared after, move = .advance index choice ∧
      pool.calls[index]? = some call ∧
      program.advance index pool.shared call choice = some (shared, after) ∧
      next = ⟨shared, pool.calls.set index after⟩) := by
  cases move with
  | spawn call =>
      simp only [machine, Option.ite_none_right_eq_some, Option.some.injEq] at stepped
      exact Or.inl ⟨call, rfl, stepped.1, stepped.2.symm⟩
  | advance index choice =>
      simp only [machine, Option.bind_eq_some_iff, Option.map_eq_some_iff] at stepped
      obtain ⟨call, found, ⟨shared, after⟩, advanced, rfl⟩ := stepped
      exact Or.inr ⟨index, choice, call, shared, after, rfl, found, advanced, rfl⟩

theorem machine_step_spawn (call : Call) (enters : program.entry call = true) (shared : Shared)
    (calls : List Call) :
    program.machine.step ⟨shared, calls⟩ (.spawn call) = some ⟨shared, calls ++ [call]⟩ :=
  if_pos enters

/-- A step of the call between two groups of calls. -/
theorem machine_step_between {shared after : Shared} {call next : Call} {before rest : List Call}
    {choice : Choice}
    (advanced : program.advance before.length shared call choice = some (after, next)) :
    program.machine.step ⟨shared, before ++ call :: rest⟩ (.advance before.length choice) =
      some ⟨after, before ++ next :: rest⟩ := by
  simp [machine, advanced]

variable (program) in
/-- Some uninterrupted run takes the only call of a pool from one state to
another. -/
def RunsAlone (shared : Shared) (call : Call) (final : Shared) (last : Call) : Prop :=
  ∃ choices : List Choice,
    program.machine.run ⟨shared, [call]⟩ (choices.map (Move.advance 0)) = some ⟨final, [last]⟩

theorem RunsAlone.refl (shared : Shared) (call : Call) :
    program.RunsAlone shared call shared call := ⟨[], rfl⟩

theorem RunsAlone.step {shared next final : Shared} {call after last : Call} (choice : Choice)
    (advanced : program.advance 0 shared call choice = some (next, after))
    (rest : program.RunsAlone next after final last) :
    program.RunsAlone shared call final last := by
  obtain ⟨choices, ran⟩ := rest
  refine ⟨choice :: choices, program.machine.run_cons_eq_some.mpr ⟨⟨next, [after]⟩, ?_, ran⟩⟩
  simp [machine, advanced]

theorem RunsAlone.trans {shared middle final : Shared} {call between last : Call}
    (first : program.RunsAlone shared call middle between)
    (second : program.RunsAlone middle between final last) :
    program.RunsAlone shared call final last := by
  obtain ⟨choices, ran⟩ := first
  obtain ⟨later, ranLater⟩ := second
  refine ⟨choices ++ later, ?_⟩
  rw [List.map_append]
  exact program.machine.run_append_eq_some.mpr ⟨_, ran, ranLater⟩

/-- The rule for invariants of the form: the number of calls and the shared
state satisfy `inv`, and every call's own state satisfies `own` with respect to
the shared state. -/
theorem keepsUnder_of_calls {guard : Pool Shared Call → Move Call Choice → Prop}
    (inv : Nat → Shared → Prop) (own : Nat → Shared → Call → Prop)
    (spawned : ∀ count shared call, inv count shared → program.entry call = true →
      inv (count + 1) shared ∧ own count shared call)
    (moved : ∀ (pool : Pool Shared Call) index choice call shared after,
      guard pool (.advance index choice) → inv pool.calls.length pool.shared →
      pool.calls[index]? = some call → own index pool.shared call →
      program.advance index pool.shared call choice = some (shared, after) →
      inv pool.calls.length shared ∧ own index shared after ∧
        ∀ other, other ≠ index → ∀ bystander, pool.calls[other]? = some bystander →
          own other pool.shared bystander → own other shared bystander) :
    program.machine.KeepsUnder guard fun pool => inv pool.calls.length pool.shared ∧
      ∀ index call, pool.calls[index]? = some call → own index pool.shared call := by
  intro pool move next guarded holds stepped
  rcases machine_step_cases stepped with
    ⟨call, rfl, enters, rfl⟩ | ⟨index, choice, call, shared, after, rfl, found, advanced, rfl⟩
  · obtain ⟨kept, new⟩ := spawned pool.calls.length pool.shared call holds.1 enters
    refine ⟨by simpa using kept, fun other present lookup => ?_⟩
    rcases Pool.getElem?_concat_cases lookup with ⟨rfl, rfl⟩ | earlier
    · exact new
    · exact holds.2 other present earlier
  · obtain ⟨kept, mover, bystanders⟩ := moved pool index choice call shared after guarded holds.1
      found (holds.2 index call found) advanced
    refine ⟨by simpa using kept, fun other present lookup => ?_⟩
    rcases Pool.getElem?_set_cases lookup with ⟨rfl, rfl⟩ | ⟨different, earlier⟩
    · exact mover
    · exact bystanders other different present earlier (holds.2 other present earlier)

/-- The same rule where nothing is said of the shared state by itself. -/
theorem keepsUnder_of_own {guard : Pool Shared Call → Move Call Choice → Prop}
    (own : Nat → Shared → Call → Prop)
    (spawned : ∀ count shared call, program.entry call = true → own count shared call)
    (moved : ∀ (pool : Pool Shared Call) index choice call shared after,
      guard pool (.advance index choice) → pool.calls[index]? = some call →
      own index pool.shared call →
      program.advance index pool.shared call choice = some (shared, after) →
      own index shared after ∧
        ∀ other, other ≠ index → ∀ bystander, pool.calls[other]? = some bystander →
          own other pool.shared bystander → own other shared bystander) :
    program.machine.KeepsUnder guard fun pool =>
      ∀ index call, pool.calls[index]? = some call → own index pool.shared call := by
  have keeps := keepsUnder_of_calls (fun _ _ => True) own
    (fun count shared call _ enters => ⟨trivial, spawned count shared call enters⟩)
    (fun pool index choice call shared after guarded _ found owns advanced =>
      ⟨trivial, moved pool index choice call shared after guarded found owns advanced⟩)
  intro pool move next guarded holds stepped
  exact (keeps guarded ⟨trivial, holds⟩ stepped).2

end Program

end Aegis.Foundation
