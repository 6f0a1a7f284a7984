import Mathlib.Tactic.Common

/-!
# Traced computations

State-passing computations that may throw, may run out of a recursion budget,
and keep a log of the moments they announce on the way. The log survives
exceptions and exhaustion, so a statement about every moment of a run also
covers the runs that never come back. Nothing here knows which program is
being modelled.
-/

namespace Peglib.TracedComputation

set_option autoImplicit false

/-- How a run ends. `exhausted` is no behaviour of the modelled program: it
says only that the recursion budget of the model was too small. -/
inductive Outcome (Exn Value : Type) where
  | returned (value : Value)
  | thrown (exn : Exn)
  | exhausted

namespace Outcome

variable {Exn Value : Type}

def value? : Outcome Exn Value → Option Value
  | .returned value => some value
  | _ => none

def exn? : Outcome Exn Value → Option Exn
  | .thrown exn => some exn
  | _ => none

def bind {Other : Type} (first : Outcome Exn Value) (next : Value → Outcome Exn Other) :
    Outcome Exn Other :=
  match first with
  | .returned value => next value
  | .thrown exn => .thrown exn
  | .exhausted => .exhausted

theorem finished_of_value {outcome : Outcome Exn Value} (valued : outcome.value?.isSome = true) :
    outcome ≠ .exhausted := by
  rintro rfl
  cases valued

theorem returned_of_value {outcome : Outcome Exn Value} (valued : outcome.value?.isSome = true) :
    ∃ value, outcome = .returned value := by
  cases outcome with
  | returned value => exact ⟨value, rfl⟩
  | thrown _ | exhausted => cases valued

theorem value_eq_some {outcome : Outcome Exn Value} {value : Value} :
    outcome.value? = some value ↔ outcome = .returned value := by
  cases outcome <;> simp [value?]

instance : Monad (Outcome Exn) where
  pure := .returned
  bind := Outcome.bind

end Outcome

structure Run (Moment State Exn Value : Type) where
  outcome : Outcome Exn Value
  state : State
  trace : List Moment

/-- A computation from a state to a finished run. -/
def Comp (Moment State Exn Value : Type) : Type :=
  State → Run Moment State Exn Value

namespace Comp

variable {Moment State Exn Value Other : Type}

def pure (value : Value) : Comp Moment State Exn Value := fun state =>
  ⟨.returned value, state, []⟩

/-- The log of the second computation follows the log of the first. -/
def bind (first : Comp Moment State Exn Value)
    (next : Value → Comp Moment State Exn Other) : Comp Moment State Exn Other := fun state =>
  match first state with
  | ⟨.returned value, middle, trace⟩ =>
      ⟨(next value middle).outcome, (next value middle).state, trace ++ (next value middle).trace⟩
  | ⟨.thrown exn, middle, trace⟩ => ⟨.thrown exn, middle, trace⟩
  | ⟨.exhausted, middle, trace⟩ => ⟨.exhausted, middle, trace⟩

instance : Monad (Comp Moment State Exn) where
  pure := Comp.pure
  bind := Comp.bind

def read (view : State → Value) : Comp Moment State Exn Value := fun state =>
  ⟨.returned (view state), state, []⟩

def modify (update : State → State) : Comp Moment State Exn Unit := fun state =>
  ⟨.returned (), update state, []⟩

/-- An update that also reports something about the state it found. -/
def modifyGet (update : State → Value × State) : Comp Moment State Exn Value := fun state =>
  ⟨.returned (update state).1, (update state).2, []⟩

def throw (exn : Exn) : Comp Moment State Exn Value := fun state => ⟨.thrown exn, state, []⟩

def exhaust : Comp Moment State Exn Value := fun state => ⟨.exhausted, state, []⟩

/-- A question about the state that may have no answer. -/
def ask (view : State → Outcome Exn Value) : Comp Moment State Exn Value := fun state =>
  ⟨view state, state, []⟩

def announce (moment : State → Moment) : Comp Moment State Exn Unit := fun state =>
  ⟨.returned (), state, [moment state]⟩

/-- Runs `cleanup` when the body returns and when it throws, as a destructor
of a scope object does. -/
def guarded (body : Comp Moment State Exn Value) (cleanup : State → State) :
    Comp Moment State Exn Value := fun state =>
  match body state with
  | ⟨.returned value, last, trace⟩ => ⟨.returned value, cleanup last, trace⟩
  | ⟨.thrown exn, last, trace⟩ => ⟨.thrown exn, cleanup last, trace⟩
  | ⟨.exhausted, last, trace⟩ => ⟨.exhausted, last, trace⟩

/-- A handler that recovers from some exceptions with a value and lets the
others pass; the state at the throw is kept. -/
def catching (body : Comp Moment State Exn Value) (handler : Exn → Option Value) :
    Comp Moment State Exn Value := fun state =>
  match body state with
  | ⟨.thrown exn, last, trace⟩ =>
      match handler exn with
      | some value => ⟨.returned value, last, trace⟩
      | none => ⟨.thrown exn, last, trace⟩
  | run => run

def onlyIf (condition : Prop) [Decidable condition] (body : Comp Moment State Exn Unit) :
    Comp Moment State Exn Unit :=
  if condition then body else Comp.pure ()

theorem bind_eq (first : Comp Moment State Exn Value)
    (next : Value → Comp Moment State Exn Other) : first >>= next = Comp.bind first next := rfl

theorem pure_eq (value : Value) :
    (Pure.pure value : Comp Moment State Exn Value) = Comp.pure value := rfl

instance : LawfulMonad (Comp Moment State Exn) := by
  refine LawfulMonad.mk' _ (fun first => ?_) (fun value next => rfl) fun first next last => ?_
  · funext state
    change Comp.bind first (fun value => Comp.pure value) state = first state
    rw [Comp.bind]
    rcases first state with ⟨_ | _ | _, middle, trace⟩
    · exact congrArg (Run.mk _ _) (List.append_nil trace)
    · rfl
    · rfl
  · funext state
    change Comp.bind (Comp.bind first next) last state =
      Comp.bind first (fun value => Comp.bind (next value) last) state
    unfold Comp.bind
    rcases first state with ⟨_ | _ | _, middle, trace⟩
    · dsimp only
      rcases next _ middle with ⟨_ | _ | _, after, trace'⟩
      · exact congrArg (Run.mk _ _) (List.append_assoc _ _ _)
      · rfl
      · rfl
    · rfl
    · rfl

theorem bind_returned {first : Comp Moment State Exn Value}
    {next : Value → Comp Moment State Exn Other} {state middle : State} {value : Value}
    {trace : List Moment} (run : first state = ⟨.returned value, middle, trace⟩) :
    (first >>= next) state =
      ⟨(next value middle).outcome, (next value middle).state,
        trace ++ (next value middle).trace⟩ := by
  rw [bind_eq, Comp.bind, run]

theorem bind_thrown {first : Comp Moment State Exn Value}
    {next : Value → Comp Moment State Exn Other} {state middle : State} {exn : Exn}
    {trace : List Moment} (run : first state = ⟨.thrown exn, middle, trace⟩) :
    (first >>= next) state = ⟨.thrown exn, middle, trace⟩ := by
  rw [bind_eq, Comp.bind, run]

theorem bind_exhausted {first : Comp Moment State Exn Value}
    {next : Value → Comp Moment State Exn Other} {state middle : State}
    {trace : List Moment} (run : first state = ⟨.exhausted, middle, trace⟩) :
    (first >>= next) state = ⟨.exhausted, middle, trace⟩ := by
  rw [bind_eq, Comp.bind, run]

theorem returned_of_bind {first : Comp Moment State Exn Value}
    {next : Value → Comp Moment State Exn Other} {state : State} {value : Other}
    (ended : ((first >>= next) state).outcome = .returned value) :
    ∃ found middle trace, first state = ⟨.returned found, middle, trace⟩ ∧
      (next found middle).outcome = .returned value := by
  rcases run : first state with ⟨outcome, middle, trace⟩
  cases outcome with
  | returned found =>
      rw [bind_returned run] at ended
      exact ⟨found, middle, trace, rfl, ended⟩
  | thrown exn => rw [bind_thrown run] at ended; cases ended
  | exhausted => rw [bind_exhausted run] at ended; cases ended

end Comp

end Peglib.TracedComputation
