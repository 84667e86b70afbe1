import Mathlib.Algebra.BigOperators.Group.List.Basic
import Mathlib.Data.BitVec
import Aegis.Foundation.Pool

/-!
Owns calls that read a shared view and bump shared counters. The code of a call
is a tree of questions and bumps; each of them is one step, so that the view may
change between any two of them. Counters wrap at a width.

A call that runs alone gives what its code evaluates to. Over any interleaving,
with the view changing by steps of its own, every counter is its first value
plus the number of bumps that the calls have made, and what is asserted at every
point of a call's code holds of its answers, its bumps and its result; an answer
is what the view gave at the step that asked. Bumps are never taken back, so a
tally that stays the same shows that no new call has bumped anything.

Does not own: any view, counters or code.
-/

namespace Aegis.Foundation

universe u

/-- A question, and the answer to it. -/
structure Answer (View : Type u) where
  question : View → Bool
  value : Bool

/-- The code of a call. -/
inductive Code (View Counter Result : Type u) where
  | ret (result : Result)
  | ask (question : View → Bool) (yes no : Code View Counter Result)
  | bump (counter : Counter) (next : Code View Counter Result)

namespace Code

variable {View Counter Result : Type u}

/-- The result, and the counters bumped, under a view that does not change. -/
def eval (view : View) : Code View Counter Result → Result × List Counter
  | .ret result => (result, [])
  | .ask question yes no => if question view then yes.eval view else no.eval view
  | .bump counter next => ((next.eval view).1, counter :: (next.eval view).2)

@[simp] theorem eval_ret (view : View) (result : Result) :
    (ret result : Code View Counter Result).eval view = (result, []) := rfl

@[simp] theorem eval_ask (view : View) (question : View → Bool)
    (yes no : Code View Counter Result) :
    (ask question yes no).eval view =
      if question view then yes.eval view else no.eval view := rfl

@[simp] theorem eval_bump (view : View) (counter : Counter) (next : Code View Counter Result) :
    (bump counter next).eval view = ((next.eval view).1, counter :: (next.eval view).2) := rfl

section Assertions

variable (holds : List (Answer View) → List Counter → Option Result → Prop)

/-- `holds` at every point of the code of a call that was given the answers
`known` and has bumped `done`. The result is there at the end only. -/
def Asserts (known : List (Answer View)) (done : List Counter) : Code View Counter Result → Prop
  | .ret result => holds known done none ∧ holds known done (some result)
  | .ask question yes no => holds known done none ∧
      yes.Asserts (known ++ [⟨question, true⟩]) done ∧
      no.Asserts (known ++ [⟨question, false⟩]) done
  | .bump counter next => holds known done none ∧ next.Asserts known (done ++ [counter])

variable {holds} in
theorem Asserts.here {known : List (Answer View)} {done : List Counter}
    {code : Code View Counter Result} (asserts : code.Asserts holds known done) :
    holds known done none := by
  cases code with
  | ret result => exact asserts.1
  | ask question yes no => exact asserts.1
  | bump counter next => exact asserts.1

end Assertions

end Code

/-- Counters of a width, stored in `Stats`. -/
structure Meter (width : Nat) (Stats Counter : Type u) [DecidableEq Counter] where
  read : Stats → Counter → BitVec width
  inc : Stats → Counter → Stats
  read_inc : ∀ stats bumped counter, read (inc stats bumped) counter =
    if counter = bumped then read stats counter + 1 else read stats counter

/-- Where a call stands, with the counters it has bumped so far. -/
inductive MeteredCall (Arg View Counter Result : Type u) where
  | called (arg : Arg)
  | running (arg : Arg) (code : Code View Counter Result) (bumped : List Counter)
  | returned (arg : Arg) (result : Result) (bumped : List Counter)

namespace MeteredCall

variable {Arg View Counter Result : Type u}

def arg : MeteredCall Arg View Counter Result → Arg
  | .called arg => arg
  | .running arg _ _ => arg
  | .returned arg _ _ => arg

def bumped : MeteredCall Arg View Counter Result → List Counter
  | .called _ => []
  | .running _ _ bumped => bumped
  | .returned _ _ bumped => bumped

def isReturned : MeteredCall Arg View Counter Result → Bool
  | .returned _ _ _ => true
  | _ => false

def result : MeteredCall Arg View Counter Result → Option Result
  | .returned _ result _ => some result
  | _ => none

section Assertions

variable (holds : Arg → List (Answer View) → List Counter → Option Result → Prop)

/-- The call is at a point of code that asserts `holds`, after some of the
answers `given` to it. -/
def Shaped (given : Answer View → Prop) : MeteredCall Arg View Counter Result → Prop
  | .called arg => holds arg [] [] none
  | .running arg code bumped =>
      ∃ known, (∀ answer ∈ known, given answer) ∧ code.Asserts (holds arg) known bumped
  | .returned arg result bumped =>
      ∃ known, (∀ answer ∈ known, given answer) ∧ holds arg known bumped (some result)

variable {holds} {given later : Answer View → Prop} {call : MeteredCall Arg View Counter Result}

theorem Shaped.mono (shaped : call.Shaped holds given)
    (kept : ∀ answer, given answer → later answer) : call.Shaped holds later := by
  cases call with
  | called arg => exact shaped
  | running arg code bumped =>
      obtain ⟨known, each, asserts⟩ := shaped
      exact ⟨known, fun answer member => kept answer (each answer member), asserts⟩
  | returned arg result bumped =>
      obtain ⟨known, each, ended⟩ := shaped
      exact ⟨known, fun answer member => kept answer (each answer member), ended⟩

theorem Shaped.exists_known (shaped : call.Shaped holds given) :
    ∃ known, (∀ answer ∈ known, given answer) ∧ holds call.arg known call.bumped call.result := by
  cases call with
  | called arg => exact ⟨[], fun _ member => absurd member List.not_mem_nil, shaped⟩
  | running arg code bumped =>
      obtain ⟨known, each, asserts⟩ := shaped
      exact ⟨known, each, asserts.here⟩
  | returned arg result bumped => exact shaped

end Assertions

end MeteredCall

section Program

variable {Arg View Env Stats Counter Result : Type u} [DecidableEq Counter] {width : Nat}
variable (meter : Meter width Stats Counter) (view : Env → View)
variable (code : Arg → Code View Counter Result)

def meteredProgram : Program (Env × Stats) (MeteredCall Arg View Counter Result) Unit where
  entry
    | .called _ => true
    | _ => false
  advance _ shared call _ :=
    match call with
    | .called arg => some (shared, .running arg (code arg) [])
    | .running arg (.ret result) bumped => some (shared, .returned arg result bumped)
    | .running arg (.ask question yes no) bumped =>
        some (shared, .running arg (if question (view shared.1) then yes else no) bumped)
    | .running arg (.bump counter next) bumped =>
        some ((shared.1, meter.inc shared.2 counter), .running arg next (bumped ++ [counter]))
    | .returned _ _ _ => none

/-- A call that runs alone returns what its code evaluates to. -/
theorem meteredProgram_alone (env : Env) (stats : Stats) (arg : Arg) :
    (meteredProgram meter view code).RunsAlone (env, stats) (.called arg)
      (env, ((code arg).eval (view env)).2.foldl meter.inc stats)
      (.returned arg ((code arg).eval (view env)).1 ((code arg).eval (view env)).2) := by
  have running : ∀ (body : Code View Counter Result) (stats : Stats) (done : List Counter),
      (meteredProgram meter view code).RunsAlone (env, stats) (.running arg body done)
        (env, (body.eval (view env)).2.foldl meter.inc stats)
        (.returned arg (body.eval (view env)).1 (done ++ (body.eval (view env)).2)) := by
    intro body
    induction body with
    | ret result =>
        intro stats done
        refine .step () rfl ?_
        rw [Code.eval_ret, List.append_nil]
        exact .refl _ _
    | ask question yes no yesHypothesis noHypothesis =>
        intro stats done
        refine .step () rfl ?_
        rw [Code.eval_ask]
        cases question (view env) with
        | true => exact yesHypothesis stats done
        | false => exact noHypothesis stats done
    | bump counter next inductionHypothesis =>
        intro stats done
        refine .step () rfl ?_
        have later := inductionHypothesis (meter.inc stats counter) (done ++ [counter])
        rw [List.append_assoc, List.singleton_append] at later
        exact later
  exact .step () rfl (running (code arg) stats [])

/-- What a step of a call can do. -/
theorem meteredProgram_advance_cases {index : Nat} {shared next : Env × Stats}
    {call after : MeteredCall Arg View Counter Result} {choice : Unit}
    (advanced : (meteredProgram meter view code).advance index shared call choice =
      some (next, after)) :
    (∃ arg, call = .called arg ∧ next = shared ∧ after = .running arg (code arg) []) ∨
    (∃ arg result bumped, call = .running arg (.ret result) bumped ∧ next = shared ∧
      after = .returned arg result bumped) ∨
    (∃ arg question yes no bumped, call = .running arg (.ask question yes no) bumped ∧
      next = shared ∧
      after = .running arg (if question (view shared.1) then yes else no) bumped) ∨
    (∃ arg counter rest bumped, call = .running arg (.bump counter rest) bumped ∧
      next = (shared.1, meter.inc shared.2 counter) ∧
      after = .running arg rest (bumped ++ [counter])) := by
  cases call with
  | called arg =>
      obtain ⟨rfl, rfl⟩ := Prod.mk.inj (Option.some.inj advanced)
      exact Or.inl ⟨arg, rfl, rfl, rfl⟩
  | running arg body bumped =>
      cases body with
      | ret result =>
          obtain ⟨rfl, rfl⟩ := Prod.mk.inj (Option.some.inj advanced)
          exact Or.inr (Or.inl ⟨arg, result, bumped, rfl, rfl, rfl⟩)
      | ask question yes no =>
          obtain ⟨rfl, rfl⟩ := Prod.mk.inj (Option.some.inj advanced)
          exact Or.inr (Or.inr (Or.inl ⟨arg, question, yes, no, bumped, rfl, rfl, rfl⟩))
      | bump counter rest =>
          obtain ⟨rfl, rfl⟩ := Prod.mk.inj (Option.some.inj advanced)
          exact Or.inr (Or.inr (Or.inr ⟨arg, counter, rest, bumped, rfl, rfl, rfl⟩))
  | returned arg result bumped => simp [meteredProgram] at advanced

/-! ### Interleaved calls under a changing view -/

/-- A step of what the view shows, or of a call. -/
inductive MeteredMove (Action Call : Type u) where
  | environment (action : Action)
  | call (move : Move Call Unit)

variable {Action : Type u} (environment : Machine Env Action)

def meteredMachine :
    Machine (Pool (Env × Stats) (MeteredCall Arg View Counter Result))
      (MeteredMove Action (MeteredCall Arg View Counter Result)) where
  step pool
    | .environment action =>
        (environment.step pool.shared.1 action).map fun env =>
          ⟨(env, pool.shared.2), pool.calls⟩
    | .call move => (meteredProgram meter view code).machine.step pool move

/-- The number of bumps of a counter that the calls have made. -/
def tally (counter : Counter) (calls : List (MeteredCall Arg View Counter Result)) : Nat :=
  (calls.map fun call => call.bumped.count counter).sum

/-- Every counter is its first value plus its bumps, and every call is where its
code asserts `holds`, after answers `given` to it. -/
structure Tallied (holds : Arg → List (Answer View) → List Counter → Option Result → Prop)
    (start : Stats) (given : Nat → Answer View → Prop)
    (pool : Pool (Env × Stats) (MeteredCall Arg View Counter Result)) : Prop where
  read : ∀ counter, meter.read pool.shared.2 counter =
    meter.read start counter + BitVec.ofNat width (tally counter pool.calls)
  shaped : ∀ (index : Nat) (call : MeteredCall Arg View Counter Result),
    pool.calls[index]? = some call → call.Shaped holds (given index)

/-- At some step of the run, the call with this index asked the question, and
the view at that moment gave the answer. -/
def Given (start : Pool (Env × Stats) (MeteredCall Arg View Counter Result))
    (moves : List (MeteredMove Action (MeteredCall Arg View Counter Result))) (index : Nat)
    (answer : Answer View) : Prop :=
  ∃ earlier later pool arg yes no bumped,
    moves = earlier ++ .call (.advance index ()) :: later ∧
      (meteredMachine meter view code environment).run start earlier = some pool ∧
      pool.calls[index]? = some (.running arg (.ask answer.question yes no) bumped) ∧
      answer.question (view pool.shared.1) = answer.value

variable {meter view code environment}
variable {holds : Arg → List (Answer View) → List Counter → Option Result → Prop}
variable {start : Stats} {given later : Nat → Answer View → Prop}

theorem tally_perm_cons {counter : Counter}
    {calls rest : List (MeteredCall Arg View Counter Result)}
    {call : MeteredCall Arg View Counter Result} (permutation : calls.Perm (call :: rest)) :
    tally counter calls = call.bumped.count counter + tally counter rest := by
  unfold tally
  rw [(permutation.map _).sum_eq, List.map_cons, List.sum_cons]

omit [DecidableEq Counter] in
/-- The calls after one of them has moved. -/
theorem shaped_set {calls : List (MeteredCall Arg View Counter Result)} {index : Nat}
    {after : MeteredCall Arg View Counter Result}
    (shaped : ∀ (other : Nat) (call : MeteredCall Arg View Counter Result),
      calls[other]? = some call → call.Shaped holds (later other))
    (moved : after.Shaped holds (later index)) (other : Nat)
    (call : MeteredCall Arg View Counter Result)
    (found : (calls.set index after)[other]? = some call) :
    call.Shaped holds (later other) := by
  rcases Pool.getElem?_set_cases found with ⟨rfl, rfl⟩ | ⟨-, old⟩
  · exact moved
  · exact shaped other call old

section Steps

variable {pool : Pool (Env × Stats) (MeteredCall Arg View Counter Result)}

theorem Tallied.mono (tallied : Tallied meter holds start given pool)
    (kept : ∀ index answer, given index answer → later index answer) :
    Tallied meter holds start later pool where
  read := tallied.read
  shaped index call found := (tallied.shaped index call found).mono (kept index)

theorem Tallied.shaped_of_mem (tallied : Tallied meter holds start given pool)
    {call : MeteredCall Arg View Counter Result} (member : call ∈ pool.calls) :
    call.Shaped holds fun _ => True := by
  obtain ⟨index, found⟩ := List.getElem?_of_mem member
  exact (tallied.shaped index call found).mono fun _ _ => trivial

/-- A step that bumps nothing. -/
theorem Tallied.exchange (tallied : Tallied meter holds start given pool) {index : Nat}
    {call after : MeteredCall Arg View Counter Result} (found : pool.calls[index]? = some call)
    (same : after.bumped = call.bumped) (shaped : after.Shaped holds (given index)) :
    Tallied meter holds start given ⟨pool.shared, pool.calls.set index after⟩ := by
  obtain ⟨rest, before, later⟩ := Pool.exists_rest found
  refine ⟨fun counter => ?_, shaped_set tallied.shaped shaped⟩
  rw [tallied.read counter, tally_perm_cons before, tally_perm_cons (later after), same]

/-- A step that bumps one counter. -/
theorem Tallied.bump (tallied : Tallied meter holds start given pool) {index : Nat}
    {counter : Counter} {call after : MeteredCall Arg View Counter Result}
    (found : pool.calls[index]? = some call) (one : after.bumped = call.bumped ++ [counter])
    (shaped : after.Shaped holds (given index)) :
    Tallied meter holds start given
      ⟨(pool.shared.1, meter.inc pool.shared.2 counter), pool.calls.set index after⟩ := by
  obtain ⟨rest, before, later⟩ := Pool.exists_rest found
  refine ⟨fun other => ?_, shaped_set tallied.shaped shaped⟩
  rw [meter.read_inc, tallied.read other, tally_perm_cons before, tally_perm_cons (later after),
    one, List.count_append, List.count_singleton]
  by_cases same : other = counter
  · rw [if_pos same, if_pos (beq_iff_eq.mpr same.symm), BitVec.add_assoc, Nat.add_right_comm,
      BitVec.ofNat_add _ 1]
    rfl
  · rw [if_neg same, if_neg (by simpa using Ne.symm same), Nat.add_zero]

/-- A new call. -/
theorem Tallied.spawn (tallied : Tallied meter holds start given pool) {arg : Arg}
    (shaped : holds arg [] [] none) :
    Tallied meter holds start given ⟨pool.shared, pool.calls ++ [.called arg]⟩ := by
  refine ⟨fun counter => ?_, fun index call found => ?_⟩
  · rw [tally_perm_cons (List.perm_append_singleton _ _)]
    simpa [MeteredCall.bumped] using tallied.read counter
  · by_cases earlier : index < pool.calls.length
    · rw [List.getElem?_append_left earlier] at found
      exact tallied.shaped index call found
    · rw [List.getElem?_append_right (Nat.le_of_not_lt earlier)] at found
      obtain rfl := List.mem_singleton.mp (List.mem_of_getElem? found)
      exact shaped

/-- Every step, if what it asks is among what was given. -/
theorem Tallied.step (asserts : ∀ arg, (code arg).Asserts (holds arg) [] [])
    (tallied : Tallied meter holds start given pool)
    {move : MeteredMove Action (MeteredCall Arg View Counter Result)}
    {next : Pool (Env × Stats) (MeteredCall Arg View Counter Result)}
    (stepped : (meteredMachine meter view code environment).step pool move = some next)
    (asks : ∀ {index arg question yes no bumped}, move = .call (.advance index ()) →
      pool.calls[index]? = some (.running arg (.ask question yes no) bumped) →
      given index ⟨question, question (view pool.shared.1)⟩) :
    Tallied meter holds start given next := by
  cases move with
  | environment action =>
      obtain ⟨env, -, rfl⟩ := Option.map_eq_some_iff.mp stepped
      exact ⟨tallied.read, tallied.shaped⟩
  | call move =>
      rcases Program.machine_step_cases stepped with
        ⟨call, rfl, enters, rfl⟩ | ⟨index, choice, call, shared, after, rfl, found, advanced, rfl⟩
      · obtain ⟨arg, rfl⟩ : ∃ arg, call = .called arg := by
          cases call with
          | called arg => exact ⟨arg, rfl⟩
          | running arg body bumped => simp [meteredProgram] at enters
          | returned arg result bumped => simp [meteredProgram] at enters
        exact tallied.spawn (asserts arg).here
      · have shaped := tallied.shaped index call found
        rcases meteredProgram_advance_cases _ _ _ advanced with
          ⟨arg, rfl, rfl, rfl⟩ | ⟨arg, result, bumped, rfl, rfl, rfl⟩ |
            ⟨arg, question, yes, no, bumped, rfl, rfl, rfl⟩ |
            ⟨arg, counter, rest, bumped, rfl, rfl, rfl⟩
        · exact tallied.exchange found rfl
            ⟨[], fun _ member => absurd member List.not_mem_nil, asserts arg⟩
        · obtain ⟨known, each, -, ended⟩ := shaped
          exact tallied.exchange found rfl ⟨known, each, ended⟩
        · obtain ⟨known, each, -, onYes, onNo⟩ := shaped
          have answered := asks rfl found
          refine tallied.exchange found rfl ?_
          -- The new answer joins those that the call knows.
          cases value : question (view pool.shared.1) with
          | true =>
              rw [value] at answered
              refine ⟨known ++ [⟨question, true⟩], ?_, onYes⟩
              simpa [or_imp, forall_and] using ⟨each, answered⟩
          | false =>
              rw [value] at answered
              refine ⟨known ++ [⟨question, false⟩], ?_, onNo⟩
              simpa [or_imp, forall_and] using ⟨each, answered⟩
        · obtain ⟨known, each, -, goesOn⟩ := shaped
          exact tallied.bump found rfl ⟨known, each, goesOn⟩

end Steps

theorem tallied_start (env : Env) (stats : Stats) (given : Nat → Answer View → Prop) :
    Tallied meter holds stats given
      (Pool.start (env, stats) : Pool _ (MeteredCall Arg View Counter Result)) where
  read counter := by simp [Pool.start, tally]
  shaped index call found := by simp [Pool.start] at found

theorem Given.append {origin : Pool (Env × Stats) (MeteredCall Arg View Counter Result)}
    {moves : List (MeteredMove Action (MeteredCall Arg View Counter Result))} {index : Nat}
    {answer : Answer View} (was : Given meter view code environment origin moves index answer)
    (more : List (MeteredMove Action (MeteredCall Arg View Counter Result))) :
    Given meter view code environment origin (moves ++ more) index answer := by
  obtain ⟨earlier, rest, pool, arg, yes, no, bumped, rfl, ran, asked, answered⟩ := was
  exact ⟨earlier, rest ++ more, pool, arg, yes, no, bumped, by simp, ran, asked, answered⟩

/-- Every run tallies its bumps, and its calls know what they were given. -/
theorem tallied_run (asserts : ∀ arg, (code arg).Asserts (holds arg) [] []) {env : Env}
    {stats : Stats} {moves : List (MeteredMove Action (MeteredCall Arg View Counter Result))}
    {pool : Pool (Env × Stats) (MeteredCall Arg View Counter Result)}
    (ran : (meteredMachine meter view code environment).run (Pool.start (env, stats)) moves =
      some pool) :
    Tallied meter holds stats
      (Given meter view code environment (Pool.start (env, stats)) moves) pool := by
  -- From the front, since the answers given to a call grow with the run.
  induction moves using List.reverseRecOn generalizing pool with
  | nil =>
      obtain rfl := Option.some.inj ran
      exact tallied_start env stats _
  | append_singleton moves move inductionHypothesis =>
      obtain ⟨middle, before, last⟩ :=
        (meteredMachine meter view code environment).run_append_eq_some.mp ran
      obtain ⟨next, stepped, ended⟩ :=
        (meteredMachine meter view code environment).run_cons_eq_some.mp last
      obtain rfl := Option.some.inj ended
      have grown := (inductionHypothesis before).mono fun index answer was => was.append [move]
      refine grown.step asserts stepped ?_
      rintro index arg question yes no bumped rfl asked
      exact ⟨moves, [], middle, arg, yes, no, bumped, rfl, before, asked, rfl⟩

/-! ### Calls that go on -/

/-- Every call is still there, and what it has bumped is not taken back. -/
def Onward (earlier later : List (MeteredCall Arg View Counter Result)) : Prop :=
  ∀ (index : Nat) (call : MeteredCall Arg View Counter Result), earlier[index]? = some call →
    ∃ after, later[index]? = some after ∧ call.bumped <+: after.bumped

section Onward

variable {earlier later last : List (MeteredCall Arg View Counter Result)}

omit [DecidableEq Counter] in
theorem Onward.refl (calls : List (MeteredCall Arg View Counter Result)) : Onward calls calls :=
  fun _ call found => ⟨call, found, List.prefix_rfl⟩

omit [DecidableEq Counter] in
theorem Onward.trans (first : Onward earlier later) (second : Onward later last) :
    Onward earlier last := by
  intro index call found
  obtain ⟨after, foundAfter, grown⟩ := first index call found
  obtain ⟨final, foundFinal, grownAgain⟩ := second index after foundAfter
  exact ⟨final, foundFinal, grown.trans grownAgain⟩

omit [DecidableEq Counter] in
theorem onward_set {calls : List (MeteredCall Arg View Counter Result)} {index : Nat}
    {call after : MeteredCall Arg View Counter Result} (found : calls[index]? = some call)
    (grown : call.bumped <+: after.bumped) : Onward calls (calls.set index after) := by
  intro other present lookup
  have inside : other < calls.length := (List.getElem?_eq_some_iff.mp lookup).1
  by_cases same : other = index
  · subst same
    obtain rfl : call = present := Option.some.inj (found.symm.trans lookup)
    exact ⟨after, List.getElem?_set_self inside, grown⟩
  · rw [List.getElem?_set_ne (Ne.symm same)]
    exact ⟨present, lookup, List.prefix_rfl⟩

theorem onward_step {pool next : Pool (Env × Stats) (MeteredCall Arg View Counter Result)}
    {move : MeteredMove Action (MeteredCall Arg View Counter Result)}
    (stepped : (meteredMachine meter view code environment).step pool move = some next) :
    Onward pool.calls next.calls := by
  cases move with
  | environment action =>
      obtain ⟨env, -, rfl⟩ := Option.map_eq_some_iff.mp stepped
      exact .refl pool.calls
  | call move =>
      rcases Program.machine_step_cases stepped with
        ⟨call, rfl, -, rfl⟩ | ⟨index, choice, call, shared, after, rfl, found, advanced, rfl⟩
      · intro index present lookup
        have inside : index < pool.calls.length := (List.getElem?_eq_some_iff.mp lookup).1
        exact ⟨present, (List.getElem?_append_left inside).trans lookup, List.prefix_rfl⟩
      · apply onward_set found
        rcases meteredProgram_advance_cases _ _ _ advanced with
          ⟨arg, rfl, rfl, rfl⟩ | ⟨arg, result, bumped, rfl, rfl, rfl⟩ |
            ⟨arg, question, yes, no, bumped, rfl, rfl, rfl⟩ |
            ⟨arg, counter, rest, bumped, rfl, rfl, rfl⟩
        · exact List.prefix_rfl
        · exact List.prefix_rfl
        · exact List.prefix_rfl
        · exact List.prefix_append bumped [counter]

theorem onward_of_reachable
    {pool next : Pool (Env × Stats) (MeteredCall Arg View Counter Result)}
    (reached : (meteredMachine meter view code environment).Reachable pool next) :
    Onward pool.calls next.calls :=
  Machine.Keeps.reachable
    (show (meteredMachine meter view code environment).Keeps
        (fun state => Onward pool.calls state.calls) from
      fun _ _ _ _ holds stepped => holds.trans (onward_step stepped))
    (.refl pool.calls) reached

/-- The later calls hold the bumps of the earlier ones and those of new calls. -/
theorem Onward.tally_add_le (onward : Onward earlier later) (counter : Counter) :
    tally counter earlier + tally counter (later.drop earlier.length) ≤ tally counter later := by
  induction earlier generalizing later with
  | nil => simp [tally]
  | cons call rest inductionHypothesis =>
      obtain ⟨after, found, grown⟩ := onward 0 call rfl
      cases later with
      | nil => cases found
      | cons head others =>
          obtain rfl : head = after := Option.some.inj found
          have remaining : Onward rest others := fun index other lookup =>
            onward (index + 1) other lookup
          have later := inductionHypothesis remaining
          have own := grown.sublist.count_le counter
          rw [tally_perm_cons (List.Perm.refl (call :: rest)),
            tally_perm_cons (List.Perm.refl (head :: others)), List.length_cons,
            List.drop_succ_cons]
          omega

theorem Onward.tally_le (onward : Onward earlier later) (counter : Counter) :
    tally counter earlier ≤ tally counter later :=
  le_trans (Nat.le_add_right _ _) (onward.tally_add_le counter)

/-- If nothing more was bumped, no new call has bumped anything. -/
theorem Onward.bumped_eq_nil (onward : Onward earlier later)
    (same : ∀ counter, tally counter later = tally counter earlier) {index : Nat}
    {call : MeteredCall Arg View Counter Result} (new : earlier.length ≤ index)
    (found : later[index]? = some call) : call.bumped = [] := by
  rw [List.eq_nil_iff_forall_not_mem]
  intro counter member
  have nothing : tally counter (later.drop earlier.length) = 0 := by
    have sum := onward.tally_add_le counter
    rw [same counter] at sum
    omega
  have lookup : (later.drop earlier.length)[index - earlier.length]? = some call := by
    rw [List.getElem?_drop, Nat.add_sub_cancel' new]
    exact found
  obtain ⟨rest, permutation, -⟩ := Pool.exists_rest lookup
  rw [tally_perm_cons permutation] at nothing
  have bumped := List.count_pos_iff.mpr member
  omega

end Onward

end Program

end Aegis.Foundation
