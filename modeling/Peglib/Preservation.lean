import Peglib.WeakestPrecondition

/-!
# Relations kept by every run

`Preserves kept thrown body` relates the state a run starts in to the state it
returns in by `kept`, and to the state it throws in by `thrown`. The rules
follow the monad, so what every primitive step keeps is kept by any program
written with the primitives.
-/

namespace Peglib.Preservation

open Peglib.TracedComputation Peglib.WeakestPrecondition

set_option autoImplicit false

variable {Moment State Exn Value Other : Type}

def Preserves (kept thrown : State → State → Prop) (body : Comp Moment State Exn Value) : Prop :=
  ∀ state, Outcome.meets (fun _ last => thrown state last) (fun _ last => kept state last)
    (body state).outcome (body state).state

/-- What the rules below ask of a pair of relations. -/
class Composable (kept thrown : State → State → Prop) : Prop where
  refl : ∀ state, kept state state
  trans : ∀ first second third, kept first second → kept second third → kept first third
  before : ∀ first second third, kept first second → thrown second third → thrown first third

section Rules

variable {kept thrown : State → State → Prop}

theorem preserves_pure [rules : Composable kept thrown] (value : Value) :
    Preserves kept thrown (pure value : Comp Moment State Exn Value) :=
  rules.refl

theorem preserves_read [rules : Composable kept thrown] (view : State → Value) :
    Preserves kept thrown (Comp.read view : Comp Moment State Exn Value) :=
  rules.refl

theorem preserves_announce [rules : Composable kept thrown] (moment : State → Moment) :
    Preserves kept thrown (Comp.announce moment : Comp Moment State Exn Unit) :=
  rules.refl

theorem preserves_modify {update : State → State} (step : ∀ state, kept state (update state)) :
    Preserves kept thrown (Comp.modify update : Comp Moment State Exn Unit) :=
  step

theorem preserves_modifyGet {update : State → Value × State}
    (step : ∀ state, kept state (update state).2) :
    Preserves kept thrown (Comp.modifyGet update : Comp Moment State Exn Value) :=
  step

theorem preserves_throw (raised : ∀ state, thrown state state) (exn : Exn) :
    Preserves kept thrown (Comp.throw exn : Comp Moment State Exn Value) :=
  raised

theorem preserves_exhaust :
    Preserves kept thrown (Comp.exhaust : Comp Moment State Exn Value) :=
  fun _ => trivial

theorem preserves_bind [rules : Composable kept thrown] {first : Comp Moment State Exn Value}
    {next : Value → Comp Moment State Exn Other} (firstKept : Preserves kept thrown first)
    (later : ∀ value, Preserves kept thrown (next value)) :
    Preserves kept thrown (first >>= next) := by
  intro state
  have step := firstKept state
  rcases run : first state with ⟨outcome, middle, trace⟩
  rw [run] at step
  cases outcome with
  | returned value =>
      rw [Comp.bind_returned run]
      have rest := later value middle
      cases ended : (next value middle).outcome with
      | returned other => rw [ended] at rest; exact rules.trans _ _ _ step rest
      | thrown exn => rw [ended] at rest; exact rules.before _ _ _ step rest
      | exhausted => trivial
  | thrown exn => rw [Comp.bind_thrown run]; exact step
  | exhausted => rw [Comp.bind_exhausted run]; trivial

theorem preserves_ite {condition : Prop} [Decidable condition]
    {first second : Comp Moment State Exn Value}
    (whenTrue : condition → Preserves kept thrown first)
    (whenFalse : ¬condition → Preserves kept thrown second) :
    Preserves kept thrown (if condition then first else second) := by
  split_ifs with holds
  · exact whenTrue holds
  · exact whenFalse holds

theorem preserves_onlyIf [rules : Composable kept thrown] {condition : Prop}
    [Decidable condition] {body : Comp Moment State Exn Unit}
    (bodyKept : condition → Preserves kept thrown body) :
    Preserves kept thrown (Comp.onlyIf condition body) :=
  preserves_ite bodyKept fun _ => preserves_pure ()

theorem preserves_mono {kept' thrown' : State → State → Prop} {body : Comp Moment State Exn Value}
    (bodyKept : Preserves kept thrown body)
    (returns : ∀ state last, kept state last → kept' state last)
    (throws : ∀ state last, thrown state last → thrown' state last) :
    Preserves kept' thrown' body := by
  intro state
  have step := bodyKept state
  cases run : (body state).outcome with
  | returned value => rw [run] at step; exact returns _ _ step
  | thrown exn => rw [run] at step; exact throws _ _ step
  | exhausted => trivial

theorem preserves_scope {inside insideThrown : State → State → Prop}
    {opening closing : State → State} {body : Comp Moment State Exn Value}
    (bodyKept : Preserves inside insideThrown body)
    (returns : ∀ state last, inside (opening state) last → kept state (closing last))
    (throws : ∀ state last, insideThrown (opening state) last → thrown state (closing last)) :
    Preserves kept thrown (Comp.modify opening >>= fun _ => Comp.guarded body closing) := by
  intro state
  have step := bodyKept (opening state)
  rw [Comp.bind_returned (show Comp.modify opening state = ⟨.returned (), opening state, []⟩
    from rfl)]
  unfold Comp.guarded
  rcases run : body (opening state) with ⟨outcome, last, trace⟩
  rw [run] at step
  cases outcome with
  | returned value => exact returns _ _ step
  | thrown exn => exact throws _ _ step
  | exhausted => trivial

/-- Two pairs of relations kept by the same runs. -/
theorem preserves_and {kept' thrown' : State → State → Prop} {body : Comp Moment State Exn Value}
    (left : Preserves kept thrown body) (right : Preserves kept' thrown' body) :
    Preserves (fun state last => kept state last ∧ kept' state last)
      (fun state last => thrown state last ∧ thrown' state last) body := by
  intro state
  have first := left state
  have second := right state
  cases run : (body state).outcome with
  | returned value | thrown exn => rw [run] at first second; exact ⟨first, second⟩
  | exhausted => trivial

theorem Preserves.returned {body : Comp Moment State Exn Value}
    (bodyKept : Preserves kept thrown body) {state : State} {value : Value}
    (ended : (body state).outcome = .returned value) : kept state (body state).state := by
  have step := bodyKept state
  rwa [ended] at step

end Rules

/-- The contract that asks only for a condition on throws. -/
def throwing (onThrow : State → Prop) : Contract Moment State Exn :=
  ⟨fun _ => True, fun _ => True, fun _ last => onThrow last⟩

theorem along_unconstrained (log : List Moment) (last : Prop) :
    along (fun _ => True) (fun _ => True) log last ↔ last := by
  induction log with
  | nil => exact Iff.rfl
  | cons moment rest induction => simp only [along, induction, true_and, true_implies]

theorem preserves_iff_wp {kept thrown : State → State → Prop}
    {body : Comp Moment State Exn Value} :
    Preserves kept thrown body ↔
      ∀ state, wp (throwing (thrown state)) body (fun _ last => kept state last) state := by
  unfold Preserves wp throwing
  refine forall_congr' fun state => ?_
  rw [along_unconstrained]

theorem wp_preserves {contract : Contract Moment State Exn} {body : Comp Moment State Exn Value}
    {post : Value → State → Prop} {kept thrown : State → State → Prop} {state : State}
    (holds : wp contract body post state) (bodyKept : Preserves kept thrown body) :
    wp contract body (fun value last => post value last ∧ kept state last) state := by
  unfold wp at holds ⊢
  refine along_mono (fun _ => id) (fun _ _ => id) ?_ _ holds
  have step := bodyKept state
  cases run : (body state).outcome with
  | returned value => rw [run] at step; exact fun met => ⟨met, step⟩
  | thrown exn => exact id
  | exhausted => exact id

end Peglib.Preservation
