import Aegis.Foundation.Metered

/-!
Owns code whose verdict follows an order of views. A call asks its questions one
after another while the view changes, so no single view need explain its
answers. If stricter views only turn answers in the denying direction, the
verdict is still bracketed: the call denies what a lower bound of all views
during the call denies, and allows what an upper bound allows.

`Tracks` is this property of a piece of code, with one rule for each
constructor; `Above` says that of two branches one is the more denying.

Does not own: any view, order or code.
-/

namespace Aegis.Foundation

universe u

namespace Code

variable {View Counter Result : Type u}

/-- Whatever possible view answers each question, the result `holds`. -/
def Forced (possible : View → Prop) (holds : Result → Prop) : Code View Counter Result → Prop
  | .ret result => holds result
  | .ask question yes no => ∀ view, possible view →
      if question view then yes.Forced possible holds else no.Forced possible holds
  | .bump _ next => next.Forced possible holds

/-- Every end of the code `holds`. -/
def Always (holds : Result → Prop) : Code View Counter Result → Prop
  | .ret result => holds result
  | .ask _ yes no => yes.Always holds ∧ no.Always holds
  | .bump _ next => next.Always holds

variable {possible : View → Prop} {holds : Result → Prop} {denies : Result → Prop}
variable {question : View → Bool} {yes no base code : Code View Counter Result}

theorem Forced.ask (first : yes.Forced possible holds) (second : no.Forced possible holds) :
    (Code.ask question yes no).Forced possible holds := by
  intro view _
  cases question view with
  | true => exact first
  | false => exact second

theorem Always.forced (always : code.Always holds) : code.Forced possible holds := by
  induction code with
  | ret result => exact always
  | ask question yes no yesHypothesis noHypothesis =>
      exact Forced.ask (yesHypothesis always.1) (noHypothesis always.2)
  | bump counter next inductionHypothesis => exact inductionHypothesis always

/-- A condition that reads nothing may be assumed. -/
theorem Forced.of_imp {condition : Prop} (forced : condition → code.Forced possible holds) :
    code.Forced possible fun result => condition → holds result := by
  by_cases met : condition
  · have simpler : (fun result => condition → holds result) = holds := by
      funext result
      exact propext (forall_prop_of_true met)
    rw [simpler]
    exact forced met
  · apply Always.forced
    induction code with
    | ret result => exact fun holds => absurd holds met
    | ask question yes no yesHypothesis noHypothesis =>
        exact ⟨yesHypothesis fun holds => absurd holds met,
          noHypothesis fun holds => absurd holds met⟩
    | bump counter next inductionHypothesis => exact inductionHypothesis forced

theorem Always.eval (always : code.Always holds) (view : View) : holds (code.eval view).1 := by
  induction code with
  | ret result => exact always
  | ask question yes no yesHypothesis noHypothesis =>
      rw [eval_ask]
      cases question view with
      | true => exact yesHypothesis always.1
      | false => exact noHypothesis always.2
  | bump counter next inductionHypothesis => exact inductionHypothesis always

/-- Code that always ends one way is not forced to end another way, if some view
is possible. -/
theorem Always.not_forced {other : Result → Prop} (always : code.Always other)
    (disjoint : ∀ result, other result → ¬ holds result) {view : View}
    (isPossible : possible view) : ¬ code.Forced possible holds := by
  induction code with
  | ret result => exact disjoint result always
  | ask question yes no yesHypothesis noHypothesis =>
      intro forced
      have answer := forced view isPossible
      cases found : question view with
      | true =>
          rw [found, if_pos rfl] at answer
          exact yesHypothesis always.1 answer
      | false =>
          rw [found, if_neg Bool.false_ne_true] at answer
          exact noHypothesis always.2 answer
  | bump counter next inductionHypothesis => exact inductionHypothesis always

/-! ### The more denying of two pieces of code -/

/-- Under any possible views, the first denies when the second must, and the
second allows when the first must. -/
structure Above (denies : Result → Prop) (first second : Code View Counter Result) : Prop where
  up : ∀ (possible : View → Prop) {view : View}, possible view →
    second.Forced possible denies → first.Forced possible denies
  down : ∀ (possible : View → Prop) {view : View}, possible view →
    first.Forced possible (fun result => ¬ denies result) →
      second.Forced possible fun result => ¬ denies result

theorem Above.refl (code : Code View Counter Result) : Above denies code code :=
  ⟨fun _ _ _ forced => forced, fun _ _ _ forced => forced⟩

theorem Above.of_denies (always : yes.Always denies) : Above denies yes no where
  up _ _ _ _ := always.forced
  down _ _ isPossible forced :=
    absurd forced (always.not_forced (fun _ denied => not_not_intro denied) isPossible)

theorem Above.of_allows (always : no.Always fun result => ¬ denies result) :
    Above denies yes no where
  up _ _ isPossible forced :=
    absurd forced (always.not_forced (fun _ allowed => allowed) isPossible)
  down _ _ _ _ := always.forced

theorem Above.ask (first : Above denies yes base) (second : Above denies no base) :
    Above denies (Code.ask question yes no) base where
  up possible _ isPossible forced :=
    (first.up possible isPossible forced).ask (second.up possible isPossible forced)
  down possible view isPossible forced := by
    have answer := forced view isPossible
    cases found : question view with
    | true =>
        rw [found, if_pos rfl] at answer
        exact first.down possible isPossible answer
    | false =>
        rw [found, if_neg Bool.false_ne_true] at answer
        exact second.down possible isPossible answer

/-! ### Verdicts that follow an order -/

section Tracks

variable {le : View → View → Prop}

/-- The verdict under a lower bound of the views is kept if it denies, and the
one under an upper bound if it allows. -/
structure Tracks (le : View → View → Prop) (denies : Result → Prop)
    (code : Code View Counter Result) : Prop where
  floor : ∀ {floor : View}, le floor floor → denies (code.eval floor).1 →
    code.Forced (le floor) denies
  ceiling : ∀ {ceiling : View}, le ceiling ceiling → ¬ denies (code.eval ceiling).1 →
    code.Forced (fun view => le view ceiling) fun result => ¬ denies result

theorem Tracks.ret (result : Result) :
    Tracks le denies (Code.ret result : Code View Counter Result) :=
  ⟨fun _ denied => denied, fun _ allowed => allowed⟩

/-- Code that denies whatever it reads. -/
theorem Tracks.of_denies (always : code.Always denies) : Tracks le denies code where
  floor _ _ := always.forced
  ceiling _ allowed := absurd (always.eval _) allowed

theorem Tracks.of_allows (always : code.Always fun result => ¬ denies result) :
    Tracks le denies code where
  floor _ denied := absurd denied (always.eval _)
  ceiling _ _ := always.forced

theorem Tracks.bump {next : Code View Counter Result} (counter : Counter)
    (tracks : Tracks le denies next) : Tracks le denies (Code.bump counter next) :=
  ⟨tracks.floor, tracks.ceiling⟩

/-- A question that stricter views answer with yes more often, where yes leads
to the more denying branch. -/
theorem Tracks.ask
    (rising : ∀ {weak strict}, le weak strict → question weak = true → question strict = true)
    (first : Tracks le denies yes) (second : Tracks le denies no) (above : Above denies yes no) :
    Tracks le denies (Code.ask question yes no) where
  floor {floor} isView denied := by
    rw [eval_ask] at denied
    cases answer : question floor with
    | true =>
        rw [answer, if_pos rfl] at denied
        intro view stricter
        rw [if_pos (rising stricter answer)]
        exact first.floor isView denied
    | false =>
        rw [answer, if_neg Bool.false_ne_true] at denied
        have forced := second.floor isView denied
        exact (above.up _ isView forced).ask forced
  ceiling {ceiling} isView allowed := by
    rw [eval_ask] at allowed
    cases answer : question ceiling with
    | true =>
        rw [answer, if_pos rfl] at allowed
        have forced := first.ceiling isView allowed
        exact forced.ask (above.down (fun view => le view ceiling) isView forced)
    | false =>
        rw [answer, if_neg Bool.false_ne_true] at allowed
        intro view weaker
        have still : ¬ question view = true := by
          intro yes
          exact Bool.false_ne_true (answer.symm.trans (rising weaker yes))
        rw [if_neg still]
        exact second.ceiling isView allowed

/-- A question that stricter views answer with no more often, where no leads to
the more denying branch. -/
theorem Tracks.ask_falling
    (falling : ∀ {weak strict}, le weak strict → question strict = true → question weak = true)
    (first : Tracks le denies yes) (second : Tracks le denies no) (above : Above denies no yes) :
    Tracks le denies (Code.ask question yes no) where
  floor {floor} isView denied := by
    rw [eval_ask] at denied
    cases answer : question floor with
    | true =>
        rw [answer, if_pos rfl] at denied
        have forced := first.floor isView denied
        exact forced.ask (above.up _ isView forced)
    | false =>
        rw [answer, if_neg Bool.false_ne_true] at denied
        intro view stricter
        have still : ¬ question view = true := by
          intro yes
          exact Bool.false_ne_true (answer.symm.trans (falling stricter yes))
        rw [if_neg still]
        exact second.floor isView denied
  ceiling {ceiling} isView allowed := by
    rw [eval_ask] at allowed
    cases answer : question ceiling with
    | true =>
        rw [answer, if_pos rfl] at allowed
        intro view weaker
        rw [if_pos (falling weaker answer)]
        exact first.ceiling isView allowed
    | false =>
        rw [answer, if_neg Bool.false_ne_true] at allowed
        have forced := second.ceiling isView allowed
        exact (above.down (fun view => le view ceiling) isView forced).ask forced

end Tracks

end Code

/-! ### Calls under a changing view -/

section Calls

variable {Arg View Env Stats Counter Result Action : Type u} [DecidableEq Counter] {width : Nat}
variable {meter : Meter width Stats Counter} {view : Env → View}
variable {code : Arg → Code View Counter Result} {environment : Machine Env Action}

/-- What is left of the call is forced. -/
def MeteredCall.Bound (code : Arg → Code View Counter Result) (possible : View → Prop)
    (holds : Arg → Result → Prop) : MeteredCall Arg View Counter Result → Prop
  | .called arg => (code arg).Forced possible (holds arg)
  | .running arg body _ => body.Forced possible (holds arg)
  | .returned arg result _ => holds arg result

variable {possible : View → Prop} {holds : Arg → Result → Prop}

theorem MeteredCall.Bound.advance {index : Nat} {shared next : Env × Stats}
    {call after : MeteredCall Arg View Counter Result} {choice : Unit}
    (bound : call.Bound code possible holds) (isPossible : possible (view shared.1))
    (advanced : (meteredProgram meter view code).advance index shared call choice =
      some (next, after)) : after.Bound code possible holds := by
  cases call with
  | called arg =>
      obtain ⟨-, rfl⟩ := Prod.mk.inj (Option.some.inj advanced)
      exact bound
  | running arg body bumped =>
      cases body with
      | ret result =>
          obtain ⟨-, rfl⟩ := Prod.mk.inj (Option.some.inj advanced)
          exact bound
      | ask question yes no =>
          obtain ⟨-, rfl⟩ := Prod.mk.inj (Option.some.inj advanced)
          have answer := bound (view shared.1) isPossible
          cases found : question (view shared.1) with
          | true =>
              rw [found, if_pos rfl] at answer
              rw [if_pos rfl]
              exact answer
          | false =>
              rw [found, if_neg Bool.false_ne_true] at answer
              rw [if_neg Bool.false_ne_true]
              exact answer
      | bump counter rest =>
          obtain ⟨-, rfl⟩ := Prod.mk.inj (Option.some.inj advanced)
          exact bound
  | returned arg result bumped => simp [meteredProgram] at advanced

/-- The calls made since a point in time, given by the number of earlier calls,
stay bound while the view stays possible. -/
theorem keepsUnder_bound (forced : ∀ arg, (code arg).Forced possible (holds arg))
    (earlier : Nat) :
    (meteredMachine meter view code environment).KeepsUnder
      (fun pool _ => possible (view pool.shared.1))
      fun pool => earlier ≤ pool.calls.length ∧ ∀ index call, earlier ≤ index →
        pool.calls[index]? = some call → call.Bound code possible holds := by
  intro pool move next isPossible bound stepped
  cases move with
  | environment action =>
      obtain ⟨env, -, rfl⟩ := Option.map_eq_some_iff.mp stepped
      exact bound
  | call move =>
      rcases Program.machine_step_cases stepped with
        ⟨call, rfl, enters, rfl⟩ | ⟨index, choice, call, shared, after, rfl, found, advanced, rfl⟩
      · refine ⟨?_, fun other present later lookup => ?_⟩
        · have before := bound.1
          simp only [List.length_append]
          omega
        · rcases Pool.getElem?_concat_cases lookup with ⟨-, rfl⟩ | old
          · cases present with
            | called arg => exact forced arg
            | running arg body bumped => simp [meteredProgram] at enters
            | returned arg result bumped => simp [meteredProgram] at enters
          · exact bound.2 other present later old
      · refine ⟨?_, fun other present later lookup => ?_⟩
        · simpa using bound.1
        · rcases Pool.getElem?_set_cases lookup with ⟨rfl, rfl⟩ | ⟨-, old⟩
          · exact (bound.2 other call later found).advance isPossible advanced
          · exact bound.2 other present later old

end Calls

end Aegis.Foundation
