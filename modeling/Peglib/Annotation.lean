import Peglib.Preservation

/-!
# Annotated runs

A computation may be run over a state that carries notes on the side, and may
return notes along with its value. It follows a plain computation if forgetting
the notes gives the plain run, log and exceptions included. An annotated engine
that follows a plain one says more about the same runs, and changes none.
-/

namespace Peglib.Annotation

open Peglib.TracedComputation Peglib.WeakestPrecondition Peglib.Preservation

set_option autoImplicit false

structure Annotated (State Notes : Type) where
  plain : State
  notes : Notes

variable {Moment State Notes Exn Value Other Plain PlainOther : Type}

/-- A plain step, which leaves the notes alone. -/
def lift (body : Comp Moment State Exn Value) : Comp Moment (Annotated State Notes) Exn Value :=
  fun state => ⟨(body state.plain).outcome, ⟨(body state.plain).state, state.notes⟩,
    (body state.plain).trace⟩

def annotate (update : Notes → Notes) : Comp Moment (Annotated State Notes) Exn Unit :=
  Comp.modify fun state => ⟨state.plain, update state.notes⟩

def onPlain (update : State → State) (state : Annotated State Notes) : Annotated State Notes :=
  ⟨update state.plain, state.notes⟩

def Outcome.view (forget : Value → Plain) : Outcome Exn Value → Outcome Exn Plain
  | .returned value => .returned (forget value)
  | .thrown exn => .thrown exn
  | .exhausted => .exhausted

def erase (forget : Value → Plain) (run : Run Moment (Annotated State Notes) Exn Value) :
    Run Moment State Exn Plain :=
  ⟨Outcome.view forget run.outcome, run.state.plain, run.trace⟩

/-- Without its notes the annotated computation is the plain one. -/
def Follows (forget : Value → Plain) (annotated : Comp Moment (Annotated State Notes) Exn Value)
    (plain : Comp Moment State Exn Plain) : Prop :=
  ∀ state, erase forget (annotated state) = plain state.plain

section Rules

variable {forget : Value → Plain} {forget' : Other → PlainOther}

theorem Follows.annotated {annotated : Comp Moment (Annotated State Notes) Exn Value}
    {plain : Comp Moment State Exn Plain} (follows : Follows forget annotated plain)
    {state : Annotated State Notes} {value : Plain}
    (returned : (plain state.plain).outcome = .returned value) :
    ∃ noted, forget noted = value ∧ (annotated state).outcome = .returned noted := by
  rw [← follows state] at returned
  unfold erase Outcome.view at returned
  split at returned
  · next noted outcome => exact ⟨noted, Outcome.returned.inj returned, outcome⟩
  · cases returned
  · cases returned

theorem Follows.plain_state {annotated : Comp Moment (Annotated State Notes) Exn Value}
    {plain : Comp Moment State Exn Plain} (follows : Follows forget annotated plain)
    (state : Annotated State Notes) : (annotated state).state.plain = (plain state.plain).state := by
  rw [← follows state]
  rfl

theorem Follows.preserves {annotated : Comp Moment (Annotated State Notes) Exn Value}
    {plain : Comp Moment State Exn Plain} (follows : Follows forget annotated plain)
    {kept thrown : State → State → Prop} (keeps : Preserves kept thrown plain) :
    Preserves (fun before after => kept before.plain after.plain)
      (fun before after => thrown before.plain after.plain) annotated := by
  intro state
  have step := keeps state.plain
  rw [← follows state] at step
  unfold erase at step
  cases run : (annotated state).outcome with
  | returned value | thrown exn => rw [run] at step; exact step
  | exhausted => trivial

theorem follows_lift (body : Comp Moment State Exn Value) :
    Follows id (lift body : Comp Moment (Annotated State Notes) Exn Value) body := by
  intro state
  unfold lift erase Outcome.view
  rcases body state.plain with ⟨outcome, last, trace⟩
  cases outcome <;> rfl

theorem follows_pure {value : Value} {plain : Plain} (same : forget value = plain) :
    Follows forget (pure value : Comp Moment (Annotated State Notes) Exn Value)
      (pure plain) := by
  intro state
  rw [← same]
  rfl

theorem follows_throw (exn : Exn) :
    Follows forget (Comp.throw exn : Comp Moment (Annotated State Notes) Exn Value)
      (Comp.throw exn) :=
  fun _ => rfl

theorem follows_exhaust :
    Follows forget (Comp.exhaust : Comp Moment (Annotated State Notes) Exn Value) Comp.exhaust :=
  fun _ => rfl

theorem follows_bind {first : Comp Moment (Annotated State Notes) Exn Value}
    {plainFirst : Comp Moment State Exn Plain}
    {next : Value → Comp Moment (Annotated State Notes) Exn Other}
    {plainNext : Plain → Comp Moment State Exn PlainOther} (firsts : Follows forget first plainFirst)
    (later : ∀ value, Follows forget' (next value) (plainNext (forget value))) :
    Follows forget' (first >>= next) (plainFirst >>= plainNext) := by
  intro state
  have same := firsts state
  rcases run : first state with ⟨outcome, middle, trace⟩
  rw [run] at same
  cases outcome with
  | returned value =>
      have rest := later value middle
      rw [Comp.bind_returned run, Comp.bind_returned same.symm, ← rest]
      rfl
  | thrown exn =>
      rw [Comp.bind_thrown run, Comp.bind_thrown same.symm]
      rfl
  | exhausted =>
      rw [Comp.bind_exhausted run, Comp.bind_exhausted same.symm]
      rfl

theorem follows_aside {first : Comp Moment (Annotated State Notes) Exn Value}
    {next : Value → Comp Moment (Annotated State Notes) Exn Other}
    {plain : Comp Moment State Exn PlainOther}
    (aside : ∀ state, ∃ value notes, first state = ⟨.returned value, ⟨state.plain, notes⟩, []⟩)
    (later : ∀ value, Follows forget' (next value) plain) :
    Follows forget' (first >>= next) plain := by
  intro state
  obtain ⟨value, notes, run⟩ := aside state
  rw [Comp.bind_returned run]
  exact later value ⟨state.plain, notes⟩

theorem follows_annotate (update : Notes → Notes)
    {next : Unit → Comp Moment (Annotated State Notes) Exn Other}
    {plain : Comp Moment State Exn PlainOther} (later : Follows forget' (next ()) plain) :
    Follows forget' (annotate update >>= next) plain :=
  follows_aside (fun state => ⟨(), update state.notes, rfl⟩) fun _ => later

theorem follows_read (view : Annotated State Notes → Value)
    {next : Value → Comp Moment (Annotated State Notes) Exn Other}
    {plain : Comp Moment State Exn PlainOther} (later : ∀ value, Follows forget' (next value) plain) :
    Follows forget' (Comp.read view >>= next) plain :=
  follows_aside (fun state => ⟨view state, state.notes, rfl⟩) later

theorem follows_after {first : Comp Moment (Annotated State Notes) Exn Value}
    {plain : Comp Moment State Exn Plain}
    {next : Value → Comp Moment (Annotated State Notes) Exn Other} {forget'' : Other → Plain}
    (firsts : Follows forget first plain)
    (later : ∀ value, Follows forget'' (next value) (pure (forget value))) :
    Follows forget'' (first >>= next) plain := by
  intro state
  have erased := firsts state
  rcases run : first state with ⟨outcome, middle, trace⟩
  rw [run] at erased
  rw [← erased]
  cases outcome with
  | returned value =>
      have rest := later value middle
      rw [Comp.bind_returned run]
      unfold erase at rest ⊢
      rw [Comp.pure_eq, Comp.pure, Run.mk.injEq] at rest
      rw [rest.1, rest.2.1, rest.2.2, List.append_nil]
      rfl
  | thrown exn => rw [Comp.bind_thrown run]; rfl
  | exhausted => rw [Comp.bind_exhausted run]; rfl

theorem follows_ite {condition : Prop} [Decidable condition]
    {first second : Comp Moment (Annotated State Notes) Exn Value}
    {plainFirst plainSecond : Comp Moment State Exn Plain}
    (whenTrue : condition → Follows forget first plainFirst)
    (whenFalse : ¬condition → Follows forget second plainSecond) :
    Follows forget (if condition then first else second)
      (if condition then plainFirst else plainSecond) := by
  split_ifs with holds
  · exact whenTrue holds
  · exact whenFalse holds

theorem follows_onlyIf {condition : Prop} [Decidable condition]
    {body : Comp Moment (Annotated State Notes) Exn Unit} {plain : Comp Moment State Exn Unit}
    (follows : Follows id body plain) :
    Follows id (Comp.onlyIf condition body) (Comp.onlyIf condition plain) :=
  follows_ite (fun _ => follows) fun _ => follows_pure rfl

theorem follows_guarded {body : Comp Moment (Annotated State Notes) Exn Value}
    {plain : Comp Moment State Exn Plain} (follows : Follows forget body plain)
    (cleanup : State → State) :
    Follows forget (Comp.guarded body (onPlain cleanup)) (Comp.guarded plain cleanup) := by
  intro state
  have erased := follows state
  unfold Comp.guarded
  rcases run : body state with ⟨outcome, last, trace⟩
  rw [run] at erased
  rw [← erased]
  cases outcome <;> rfl

end Rules

theorem wp_lift {onThrow : Annotated State Notes → Prop} {body : Comp Moment State Exn Value}
    {post : Value → Annotated State Notes → Prop} {state : Annotated State Notes} :
    wp (throwing onThrow) (lift body) post state ↔
      wp (throwing fun last => onThrow ⟨last, state.notes⟩) body
        (fun value last => post value ⟨last, state.notes⟩) state.plain := by
  unfold wp lift
  rcases body state.plain with ⟨outcome, last, trace⟩
  cases outcome <;> exact Iff.rfl

theorem wp_lift_read {view : State → Value} {post : Value → Annotated State Notes → Prop}
    {contract : Contract Moment (Annotated State Notes) Exn} {state : Annotated State Notes} :
    wp contract (lift (Comp.read view)) post state ↔ post (view state.plain) state := Iff.rfl

theorem wp_lift_modify {update : State → State} {post : Unit → Annotated State Notes → Prop}
    {contract : Contract Moment (Annotated State Notes) Exn} {state : Annotated State Notes} :
    wp contract (lift (Comp.modify update)) post state ↔
      post () ⟨update state.plain, state.notes⟩ := Iff.rfl

theorem wp_annotate {update : Notes → Notes} {post : Unit → Annotated State Notes → Prop}
    {contract : Contract Moment (Annotated State Notes) Exn} {state : Annotated State Notes} :
    wp contract (annotate update) post state ↔ post () ⟨state.plain, update state.notes⟩ := Iff.rfl

end Peglib.Annotation
