import Aegis.Foundation.Pool
import Aegis.Policy.Sysctl

/-!
Owns the sysctl handlers under concurrent callers. A write stores the parsed
number into the mirror, loads the mirror and commits what it loaded into
`aegis_cfg`; each of the three is one step, and nothing keeps two writers of
one knob apart.

A handler that runs alone does what the sequential one does. Mirror and
configuration agree whenever no handler is in flight, in every run in which no
number is stored while another writer of the knob is between its load and its
commit.

Does not own: what `proc_dointvec` accepts, or hooks that read the
configuration meanwhile.
-/

namespace Aegis.Concurrent

open Aegis.Foundation
open Aegis.Kernel
open Aegis.Policy

structure KnobState where
  mirrors : SysctlMirrors
  cfg : AegisConfig

def KnobState.boot : KnobState := ⟨sysctlMirrors, aegisCfg⟩

/-- Where a call of a handler stands. -/
inductive KnobCall where
  | called (knob : Knob) (write : Bool) (result : Dointvec)
  | parsed (knob : Knob)
  | loaded (knob : Knob) (value : Int)
  | returned (knob : Knob) (ret : Int)
deriving DecidableEq

def knobProgram : Program KnobState KnobCall Unit where
  entry
    | .called _ _ _ => true
    | _ => false
  advance _ state call _ :=
    match call with
    | .called knob write result =>
        if write && result.ret = 0 then
          some ({ state with mirrors := result.mirrors knob state.mirrors }, .parsed knob)
        else some (state, .returned knob result.ret)
    | .parsed knob => some (state, .loaded knob (state.mirrors knob))
    | .loaded knob value =>
        some ({ state with cfg := state.cfg.commit knob value }, .returned knob 0)
    | .returned _ _ => none

theorem aegisSysctlHandler_alone (knob : Knob) (write : Bool) (result : Dointvec)
    (mirrors : SysctlMirrors) (cfg : AegisConfig) :
    let outcome := aegisSysctlHandler knob write result mirrors cfg
    knobProgram.RunsAlone ⟨mirrors, cfg⟩ (.called knob write result)
      ⟨outcome.mirrors, outcome.cfg⟩ (.returned knob outcome.ret) := by
  intro outcome
  have handler : outcome = procHandler knob write result mirrors cfg := by
    rw [← aegisSysctlHandler_eq]
  rw [handler]
  by_cases commits : (write && result.ret = 0) = true
  · have isWrite : write = true := (Bool.and_eq_true _ _ ▸ commits).1
    have succeeded : result.ret = 0 := by simpa [isWrite] using commits
    simp only [procHandler, isWrite, succeeded, decide_true, Bool.and_self, if_true]
    refine .step () (if_pos (by simp [succeeded])) (.step () rfl (.step () rfl (.refl _ _)))
  · have silent : (if write then result.mirrors knob mirrors else mirrors) = mirrors := by
      cases write with
      | false => rfl
      | true => exact Dointvec.mirrors_of_failed (by simpa using commits) knob mirrors
    simp only [procHandler, commits, silent]
    exact .step () (if_neg commits) (.refl _ _)

/-! ### Runs without a lost update -/

namespace KnobCall

/-- A writer of the knob that has not yet committed. -/
def pending (wanted : Knob) : KnobCall → Bool
  | .parsed knob => knob == wanted
  | .loaded knob _ => knob == wanted
  | _ => false

/-- A writer of the knob between its load and its commit. -/
def hasLoaded (wanted : Knob) : KnobCall → Bool
  | .loaded knob _ => knob == wanted
  | _ => false

def isReturned : KnobCall → Bool
  | .returned _ _ => true
  | _ => false

/-- The knob whose mirror the next step of the call stores into. -/
def stores : KnobCall → Option Knob
  | .called knob true (.stored _) => some knob
  | _ => none

end KnobCall

abbrev KnobPool := Pool KnobState KnobCall

/-- A number is stored only while no writer of its knob is between load and
commit. -/
def StoresAlone (pool : KnobPool) : Move KnobCall Unit → Prop
  | .spawn _ => True
  | .advance index _ =>
      ∀ knob ∈ (pool.calls[index]?.bind KnobCall.stores), ∀ call ∈ pool.calls,
        call.hasLoaded knob = false

instance (pool : KnobPool) (move : Move KnobCall Unit) : Decidable (StoresAlone pool move) :=
  match move with
  | .spawn _ => isTrue trivial
  | .advance index _ =>
      inferInstanceAs (Decidable (∀ knob ∈ (pool.calls[index]?.bind KnobCall.stores),
        ∀ call ∈ pool.calls, call.hasLoaded knob = false))

/-- What a step of a handler can do. -/
theorem knobProgram_advance_cases {index : Nat} {state next : KnobState} {call after : KnobCall}
    {choice : Unit} (advanced : knobProgram.advance index state call choice = some (next, after)) :
    (∃ knob write result, call = .called knob write result ∧ next = state ∧
      after = .returned knob result.ret) ∨
    (∃ knob result, call = .called knob true result ∧
      next = { state with mirrors := result.mirrors knob state.mirrors } ∧
      after = .parsed knob) ∨
    (∃ knob, call = .parsed knob ∧ next = state ∧ after = .loaded knob (state.mirrors knob)) ∨
    (∃ knob value, call = .loaded knob value ∧
      next = { state with cfg := state.cfg.commit knob value } ∧ after = .returned knob 0) := by
  cases call with
  | called knob write result =>
      simp only [knobProgram] at advanced
      split at advanced
      · rename_i commits
        obtain rfl : write = true := (Bool.and_eq_true _ _ ▸ commits).1
        obtain ⟨rfl, rfl⟩ := Prod.mk.inj (Option.some.inj advanced)
        exact Or.inr (Or.inl ⟨knob, result, rfl, rfl, rfl⟩)
      · obtain ⟨rfl, rfl⟩ := Prod.mk.inj (Option.some.inj advanced)
        exact Or.inl ⟨knob, write, result, rfl, rfl, rfl⟩
  | parsed knob =>
      obtain ⟨rfl, rfl⟩ := Prod.mk.inj (Option.some.inj advanced)
      exact Or.inr (Or.inr (Or.inl ⟨knob, rfl, rfl, rfl⟩))
  | loaded knob value =>
      obtain ⟨rfl, rfl⟩ := Prod.mk.inj (Option.some.inj advanced)
      exact Or.inr (Or.inr (Or.inr ⟨knob, value, rfl, rfl, rfl⟩))
  | returned knob ret => simp [knobProgram] at advanced

/-- The mirror of a knob is committed, or a writer of the knob is still to
commit; and what a writer has loaded is what the mirror holds. -/
structure InStep (pool : KnobPool) : Prop where
  committed : ∀ knob, (∃ call ∈ pool.calls, call.pending knob = true) ∨
    pool.shared.cfg.commit knob (pool.shared.mirrors knob) = pool.shared.cfg
  current : ∀ knob value, .loaded knob value ∈ pool.calls → value = pool.shared.mirrors knob

/-- The rule for one step of a handler. Its own promise to commit is the only
one that the step can end. -/
theorem InStep.exchange {pool : KnobPool} (inStep : InStep pool) {index : Nat}
    {call after : KnobCall} {shared : KnobState} (found : pool.calls[index]? = some call)
    (committed : ∀ knob, after.pending knob = true ∨
      shared.cfg.commit knob (shared.mirrors knob) = shared.cfg ∨
      call.pending knob = false ∧
        (pool.shared.cfg.commit knob (pool.shared.mirrors knob) = pool.shared.cfg →
          shared.cfg.commit knob (shared.mirrors knob) = shared.cfg))
    (loaded : ∀ knob value, after = .loaded knob value → value = shared.mirrors knob)
    (stable : ∀ knob value, .loaded knob value ∈ pool.calls →
      shared.mirrors knob = pool.shared.mirrors knob) :
    InStep ⟨shared, pool.calls.set index after⟩ := by
  constructor
  · intro knob
    rcases committed knob with pending | done | ⟨idle, kept⟩
    · exact Or.inl ⟨after, Pool.mem_set_self found, pending⟩
    · exact Or.inr done
    · refine (inStep.committed knob).imp ?_ kept
      rintro ⟨other, member, pending⟩
      have different : other ≠ call := by
        rintro rfl
        rw [idle] at pending
        cases pending
      exact ⟨other, Pool.mem_set_of_ne found member different, pending⟩
  · intro knob value member
    rcases List.mem_or_eq_of_mem_set member with earlier | same
    · rw [stable knob value earlier]
      exact inStep.current knob value earlier
    · exact loaded knob value same.symm

/-- A store changes no mirror that another writer has loaded. -/
theorem StoresAlone.mirrors_eq {pool : KnobPool} {index : Nat} {knob other : Knob}
    {result : Dointvec} {value : Int} (alone : StoresAlone pool (.advance index ()))
    (found : pool.calls[index]? = some (.called knob true result))
    (member : .loaded other value ∈ pool.calls) :
    result.mirrors knob pool.shared.mirrors other = pool.shared.mirrors other := by
  by_cases same : other = knob
  · subst same
    cases result with
    | failed error => rfl
    | kept => rfl
    | stored number =>
        have idle := alone other (by rw [found]; rfl) _ member
        simp [KnobCall.hasLoaded] at idle
  · exact result.mirrors_of_ne same _

theorem InStep.spawn {pool : KnobPool} (inStep : InStep pool) {call : KnobCall}
    (enters : knobProgram.entry call = true) : InStep ⟨pool.shared, pool.calls ++ [call]⟩ := by
  constructor
  · intro knob
    refine (inStep.committed knob).imp_left ?_
    rintro ⟨other, member, pending⟩
    exact ⟨other, List.mem_append_left _ member, pending⟩
  · intro knob value member
    rcases List.mem_append.mp member with earlier | new
    · exact inStep.current knob value earlier
    · rw [← List.mem_singleton.mp new] at enters
      simp [knobProgram] at enters

theorem keepsUnder_inStep : knobProgram.machine.KeepsUnder StoresAlone InStep := by
  intro pool move next alone inStep stepped
  rcases Program.machine_step_cases stepped with
    ⟨call, rfl, enters, rfl⟩ | ⟨index, choice, call, shared, after, rfl, found, advanced, rfl⟩
  · exact inStep.spawn enters
  · rcases knobProgram_advance_cases advanced with
      ⟨knob, write, result, rfl, rfl, rfl⟩ | ⟨knob, result, rfl, rfl, rfl⟩ |
        ⟨knob, rfl, rfl, rfl⟩ | ⟨knob, value, rfl, rfl, rfl⟩
    · refine inStep.exchange found (fun wanted => Or.inr (Or.inr ⟨rfl, id⟩)) ?_ fun _ _ _ => rfl
      intro wanted value same
      cases same
    · refine inStep.exchange found (fun wanted => ?_) ?_ fun wanted value member =>
        alone.mirrors_eq found member
      · by_cases same : knob = wanted
        · exact Or.inl (by simp [KnobCall.pending, same])
        · refine Or.inr (Or.inr ⟨rfl, fun committed => ?_⟩)
          show pool.shared.cfg.commit wanted (result.mirrors knob pool.shared.mirrors wanted) = _
          rw [result.mirrors_of_ne (Ne.symm same), committed]
      · intro wanted value same
        cases same
    · refine inStep.exchange found (fun wanted => ?_) ?_ fun _ _ _ => rfl
      · by_cases same : knob = wanted
        · exact Or.inl (by simp [KnobCall.pending, same])
        · exact Or.inr (Or.inr ⟨by simpa [KnobCall.pending] using same, id⟩)
      · intro wanted value same
        cases same
        rfl
    · have fresh : value = pool.shared.mirrors knob :=
        inStep.current knob value (List.mem_of_getElem? found)
      refine inStep.exchange found (fun wanted => ?_) ?_ fun _ _ _ => rfl
      · by_cases same : knob = wanted
        · subst same
          rw [fresh]
          exact Or.inr (Or.inl (AegisConfig.commit_commit _ _ _ _))
        · refine Or.inr (Or.inr ⟨by simpa [KnobCall.pending] using same, fun committed => ?_⟩)
          show (pool.shared.cfg.commit knob value).commit wanted _ = _
          rw [AegisConfig.commit_comm _ same, committed]
      · intro wanted other same
        cases same

theorem inStep_boot : InStep (Pool.start KnobState.boot) where
  committed knob := Or.inr (synced_boot knob)
  current _ _ member := absurd member List.not_mem_nil

/-- In every run from boot in which no number is stored while another writer of
its knob is between load and commit, each state without a handler in flight has
the configuration that the mirrors show. -/
theorem knobs_show_configuration (moves : List (Move KnobCall Unit)) (final : KnobPool)
    (ran : knobProgram.machine.run (Pool.start KnobState.boot) moves = some final)
    (alone : knobProgram.machine.Meets StoresAlone (Pool.start KnobState.boot) moves)
    (quiet : ∀ call ∈ final.calls, call.isReturned = true) :
    final.shared.cfg = .ofMirrors final.shared.mirrors := by
  have inStep := keepsUnder_inStep.run alone inStep_boot ran
  apply Synced.eq_ofMirrors
  intro knob
  refine (inStep.committed knob).resolve_left ?_
  rintro ⟨call, member, pending⟩
  have returned := quiet call member
  cases call <;> simp_all [KnobCall.isReturned, KnobCall.pending]

/-- One writer switches the module off, then another switches it on. -/
def turns : List (Move KnobCall Unit) :=
  [.spawn (.called .enabled true (.stored 0)), .spawn (.called .enabled true (.stored 1)),
    .advance 0 (), .advance 0 (), .advance 0 (), .advance 1 (), .advance 1 (), .advance 1 ()]

theorem knobs_show_configuration_turns :
    ∃ final, knobProgram.machine.run (Pool.start KnobState.boot) turns = some final ∧
      final.shared.cfg = .ofMirrors final.shared.mirrors := by
  have alone : knobProgram.machine.Meets StoresAlone (Pool.start KnobState.boot) turns := by
    decide +kernel
  exact ⟨_, rfl, knobs_show_configuration turns _ rfl alone (by decide +kernel)⟩

/-- The second writer stores, loads and commits between the first one's load
and commit. -/
def racingWrites : List (Move KnobCall Unit) :=
  [.spawn (.called .enabled true (.stored 0)), .spawn (.called .enabled true (.stored 1)),
    .advance 0 (), .advance 0 (), .advance 1 (), .advance 1 (), .advance 1 (), .advance 0 ()]

/-- Both writers have returned, the sysctl file reads 1, and the module is
off. -/
theorem racingWrites_disable_unseen :
    ∃ final, knobProgram.machine.run (Pool.start KnobState.boot) racingWrites = some final ∧
      (∀ call ∈ final.calls, call.isReturned = true) ∧ final.shared.mirrors .enabled = 1 ∧
      final.shared.cfg.enabled = false ∧ final.shared.cfg ≠ .ofMirrors final.shared.mirrors := by
  refine ⟨_, rfl, by decide +kernel, by decide +kernel, by decide +kernel, fun same => ?_⟩
  exact absurd (congrArg AegisConfig.enabled same) (by decide +kernel)

end Aegis.Concurrent
