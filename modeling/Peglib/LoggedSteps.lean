import Peglib.TracedComputation

/-!
# Steps with a log

A relation between a state, the log of what happens next and the state reached.
If it holds of no step and composes, then a program whose single steps keep it
keeps it as a whole, whether it returns, throws or runs out of its budget. The
exceptions that may leave the program are followed along.
-/

namespace Peglib.LoggedSteps

open Peglib.TracedComputation

set_option autoImplicit false

variable {Moment State Exn Value Other : Type}

/-- A relation that contains the empty step and composes along the log. -/
class Chained (step : State → List Moment → State → Prop) : Prop where
  refl : ∀ state, step state [] state
  trans : ∀ first middle last log rest, step first log middle → step middle rest last →
    step first (log ++ rest) last

/-- One run keeps the relation, and throws nothing else than it may. -/
structure RunFollows (step : State → List Moment → State → Prop) (raises : Exn → Prop)
    (state : State) (run : Run Moment State Exn Value) : Prop where
  steps : step state run.trace run.state
  raised : ∀ exn, run.outcome = .thrown exn → raises exn

abbrev Follows (step : State → List Moment → State → Prop) (raises : Exn → Prop)
    (body : Comp Moment State Exn Value) (state : State) : Prop :=
  RunFollows step raises state (body state)

section Rules

variable {step : State → List Moment → State → Prop} {raises : Exn → Prop} {state : State}

theorem follows_pure [chained : Chained step] (value : Value) :
    Follows step raises (pure value : Comp Moment State Exn Value) state :=
  ⟨chained.refl state, by simp [Comp.pure_eq, Comp.pure]⟩

theorem follows_modify {update : State → State} (moves : step state [] (update state)) :
    Follows step raises (Comp.modify update : Comp Moment State Exn Unit) state :=
  ⟨moves, by simp [Comp.modify]⟩

theorem follows_modifyGet {update : State → Value × State} (moves : step state [] (update state).2) :
    Follows step raises (Comp.modifyGet update : Comp Moment State Exn Value) state :=
  ⟨moves, by simp [Comp.modifyGet]⟩

theorem follows_announce {moment : State → Moment} (moves : step state [moment state] state) :
    Follows step raises (Comp.announce moment : Comp Moment State Exn Unit) state :=
  ⟨moves, by simp [Comp.announce]⟩

theorem follows_throw [chained : Chained step] {exn : Exn} (allowed : raises exn) :
    Follows step raises (Comp.throw exn : Comp Moment State Exn Value) state :=
  ⟨chained.refl state, by simp [Comp.throw, allowed]⟩

theorem follows_exhaust [chained : Chained step] :
    Follows step raises (Comp.exhaust : Comp Moment State Exn Value) state :=
  ⟨chained.refl state, by simp [Comp.exhaust]⟩

theorem follows_bind [chained : Chained step] {first : Comp Moment State Exn Value}
    {next : Value → Comp Moment State Exn Other} (leading : Follows step raises first state)
    (rest : ∀ value middle log, first state = ⟨.returned value, middle, log⟩ →
      step state log middle → Follows step raises (next value) middle) :
    Follows step raises (first >>= next) state := by
  rcases run : first state with ⟨outcome, middle, log⟩
  rw [Follows, run] at leading
  cases outcome with
  | returned value =>
      have later := rest value middle log run leading.steps
      rw [Follows, Comp.bind_returned run]
      exact ⟨chained.trans _ _ _ _ _ leading.steps later.steps, later.raised⟩
  | thrown exn =>
      rw [Follows, Comp.bind_thrown run]
      exact ⟨leading.steps, fun other ended => leading.raised other (by simpa using ended)⟩
  | exhausted =>
      rw [Follows, Comp.bind_exhausted run]
      exact ⟨leading.steps, by simp⟩

theorem follows_read [chained : Chained step] {view : State → Value}
    {next : Value → Comp Moment State Exn Other}
    (rest : Follows step raises (next (view state)) state) :
    Follows step raises (Comp.read view >>= next) state := by
  refine follows_bind ⟨chained.refl state, by simp [Comp.read]⟩ ?_
  intro value middle log run _
  cases run
  exact rest

theorem follows_ite {condition : Prop} [Decidable condition]
    {first second : Comp Moment State Exn Value}
    (whenTrue : condition → Follows step raises first state)
    (whenFalse : ¬condition → Follows step raises second state) :
    Follows step raises (if condition then first else second) state := by
  by_cases holds : condition
  · rw [if_pos holds]
    exact whenTrue holds
  · rw [if_neg holds]
    exact whenFalse holds

theorem follows_onlyIf [chained : Chained step] {condition : Prop} [Decidable condition]
    {body : Comp Moment State Exn Unit} (whenTrue : condition → Follows step raises body state) :
    Follows step raises (Comp.onlyIf condition body) state :=
  follows_ite whenTrue fun _ => follows_pure ()

theorem follows_guarded [chained : Chained step] {body : Comp Moment State Exn Value}
    {cleanup : State → State} (inside : Follows step raises body state)
    (closing : ∀ last, step last [] (cleanup last)) :
    Follows step raises (Comp.guarded body cleanup) state := by
  unfold Follows Comp.guarded
  rw [Follows] at inside
  generalize body state = run at inside ⊢
  rcases run with ⟨outcome, last, log⟩
  have closed : step state log (cleanup last) := by
    simpa using chained.trans _ _ _ _ _ inside.steps (closing last)
  cases outcome with
  | returned value => exact ⟨closed, by simp⟩
  | thrown exn => exact ⟨closed, fun other ended => inside.raised other (by simpa using ended)⟩
  | exhausted => exact ⟨inside.steps, by simp⟩

theorem follows_catching {body : Comp Moment State Exn Value} {handler : Exn → Option Value}
    {raises' : Exn → Prop} (inside : Follows step raises' body state)
    (passed : ∀ exn, raises' exn → handler exn = none → raises exn) :
    Follows step raises (Comp.catching body handler) state := by
  unfold Follows Comp.catching
  rw [Follows] at inside
  generalize body state = run at inside ⊢
  rcases run with ⟨outcome, last, log⟩
  cases outcome with
  | returned value => exact ⟨inside.steps, by simp⟩
  | exhausted => exact ⟨inside.steps, by simp⟩
  | thrown exn =>
      have allowed := inside.raised exn rfl
      dsimp only
      cases handled : handler exn with
      | some value => exact ⟨inside.steps, by simp⟩
      | none =>
          refine ⟨inside.steps, fun other ended => ?_⟩
          obtain rfl : exn = other := by simpa using ended
          exact passed exn allowed handled

end Rules

end Peglib.LoggedSteps
