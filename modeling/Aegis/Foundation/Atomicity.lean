import Aegis.Foundation.Pool

/-!
Owns the reduction of a program with small steps to one with larger atomic
steps. A coarsening maps the shared state and the calls; under an invariant of
the small steps, each of them is either invisible after the map or one step of
the same call in the larger program.

`Coarsening.Sound.run` carries this to runs: every run of the small steps is,
after the map, a run of the larger ones, whose schedule keeps all spawns and
drops the invisible steps. A call takes effect at one of its own steps, so the
larger program respects the order in which calls return and are made.

Does not own: any program, or the choice of the steps that take effect.
-/

namespace Aegis.Foundation

universe u v w

section Thinning

variable {Fine Coarse : Type v} {FineChoice CoarseChoice : Type w}

/-- The second schedule spawns the same calls and takes some of the steps of
the first, at their places in the order. -/
inductive Thins (call : Fine → Coarse) :
    List (Move Fine FineChoice) → List (Move Coarse CoarseChoice) → Prop
  | nil : Thins call [] []
  | spawn (entered : Fine) {fine coarse} (rest : Thins call fine coarse) :
      Thins call (.spawn entered :: fine) (.spawn (call entered) :: coarse)
  | keep (index : Nat) (choice : FineChoice) (chosen : CoarseChoice) {fine coarse}
      (rest : Thins call fine coarse) :
      Thins call (.advance index choice :: fine) (.advance index chosen :: coarse)
  | drop (index : Nat) (choice : FineChoice) {fine coarse} (rest : Thins call fine coarse) :
      Thins call (.advance index choice :: fine) coarse

end Thinning

/-- How the small program is seen in the larger one. -/
structure Coarsening (FineShared FineCall CoarseShared CoarseCall : Type*) where
  shared : FineShared → CoarseShared
  call : FineCall → CoarseCall

namespace Coarsening

variable {FineShared CoarseShared : Type u} {FineCall CoarseCall : Type v}
variable {FineChoice CoarseChoice : Type w}
variable (view : Coarsening FineShared FineCall CoarseShared CoarseCall)

def pool (fine : Pool FineShared FineCall) : Pool CoarseShared CoarseCall :=
  ⟨view.shared fine.shared, fine.calls.map view.call⟩

/-- Entries are entries, and a step is invisible or a step of the same call. -/
structure Sound (fine : Program FineShared FineCall FineChoice)
    (coarse : Program CoarseShared CoarseCall CoarseChoice)
    (invariant : Pool FineShared FineCall → Prop) : Prop where
  entry : ∀ {call}, fine.entry call = true → coarse.entry (view.call call) = true
  advance : ∀ {pool index call choice next after}, invariant pool →
    pool.calls[index]? = some call →
    fine.advance index pool.shared call choice = some (next, after) →
      (view.shared next = view.shared pool.shared ∧ view.call after = view.call call) ∨
      ∃ chosen, coarse.advance index (view.shared pool.shared) (view.call call) chosen =
        some (view.shared next, view.call after)

variable {view} {fine : Program FineShared FineCall FineChoice}
variable {coarse : Program CoarseShared CoarseCall CoarseChoice}
variable {invariant : Pool FineShared FineCall → Prop}

theorem pool_advance (pool : Pool FineShared FineCall) (index : Nat) (next : FineShared)
    (after : FineCall) : view.pool ⟨next, pool.calls.set index after⟩ =
      ⟨view.shared next, (pool.calls.map view.call).set index (view.call after)⟩ := by
  simp [Coarsening.pool, List.map_set]

/-- An invisible step leaves the view of the pool as it was. -/
theorem pool_advance_of_invisible {pool : Pool FineShared FineCall} {index : Nat}
    {call after : FineCall} {next : FineShared} (found : pool.calls[index]? = some call)
    (sameShared : view.shared next = view.shared pool.shared)
    (sameCall : view.call after = view.call call) :
    view.pool ⟨next, pool.calls.set index after⟩ = view.pool pool := by
  have present : (pool.calls.map view.call)[index]? = some (view.call call) := by
    rw [List.getElem?_map, found]
    rfl
  obtain ⟨below, same⟩ := List.getElem?_eq_some_iff.mp present
  rw [pool_advance, sameShared, sameCall, ← same, List.set_getElem_self]
  rfl

theorem Sound.run (sound : view.Sound fine coarse invariant)
    (keeps : fine.machine.Keeps invariant) {pool final : Pool FineShared FineCall}
    {moves : List (Move FineCall FineChoice)} (holds : invariant pool)
    (ran : fine.machine.run pool moves = some final) :
    ∃ sections : List (Move CoarseCall CoarseChoice), Thins view.call moves sections ∧
      coarse.machine.run (view.pool pool) sections = some (view.pool final) := by
  induction moves generalizing pool with
  | nil =>
      obtain rfl := Option.some.inj ran
      exact ⟨[], .nil, rfl⟩
  | cons move rest inductionHypothesis =>
      obtain ⟨next, stepped, later⟩ := fine.machine.run_cons_eq_some.mp ran
      obtain ⟨sections, thins, ranLater⟩ :=
        inductionHypothesis (keeps trivial holds stepped) later
      rcases Program.machine_step_cases stepped with
        ⟨call, rfl, enters, rfl⟩ | ⟨index, choice, call, shared, after, rfl, found, advanced, rfl⟩
      · refine ⟨_, .spawn call thins, coarse.machine.run_cons_eq_some.mpr ⟨_, ?_, ranLater⟩⟩
        simp [Program.machine, Coarsening.pool, sound.entry enters]
      · rcases sound.advance holds found advanced with ⟨sameShared, sameCall⟩ | ⟨chosen, visible⟩
        · refine ⟨sections, .drop index choice thins, ?_⟩
          rw [← ranLater, pool_advance_of_invisible found sameShared sameCall]
        · refine ⟨_, .keep index choice chosen thins,
            coarse.machine.run_cons_eq_some.mpr ⟨_, ?_, ranLater⟩⟩
          simp [Program.machine, Coarsening.pool, found, visible, List.map_set]

end Coarsening

end Aegis.Foundation
