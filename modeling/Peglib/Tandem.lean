import Mathlib.Data.List.Forall2
import Mathlib.Data.Option.Basic
import Peglib.TracedComputation

/-!
# Computations in tandem

Two computations over different states run in tandem when, from related states,
they end alike, in related states, with logs whose moments are related one by
one. They end alike when both return, with values that agree, both throw, with
exceptions that agree, or both give up. The relation holds all the way, also
where a run throws or gives up.
-/

namespace Peglib.Tandem

open Peglib.TracedComputation

set_option autoImplicit false

variable {Near Far Moment Moment' Exn Value Value' Other Other' : Type}

inductive OutcomesAgree (exns : Exn → Exn → Prop) (agree : Value → Value' → Prop) :
    Outcome Exn Value → Outcome Exn Value' → Prop where
  | returned {value : Value} {value' : Value'} (same : agree value value') :
      OutcomesAgree exns agree (.returned value) (.returned value')
  | thrown {exn exn' : Exn} (same : exns exn exn') :
      OutcomesAgree exns agree (.thrown exn) (.thrown exn')
  | exhausted : OutcomesAgree exns agree .exhausted .exhausted

/-- Two runs with outcomes that agree, related states and related logs. -/
structure Together (related : Near → Far → Prop) (moments : Moment → Moment' → Prop)
    (exns : Exn → Exn → Prop) (agree : Value → Value' → Prop) (run : Run Moment Near Exn Value)
    (run' : Run Moment' Far Exn Value') : Prop where
  outcome : OutcomesAgree exns agree run.outcome run'.outcome
  states : related run.state run'.state
  logs : List.Forall₂ moments run.trace run'.trace

def InTandem (related : Near → Far → Prop) (moments : Moment → Moment' → Prop)
    (exns : Exn → Exn → Prop) (agree : Value → Value' → Prop) (left : Comp Moment Near Exn Value)
    (right : Comp Moment' Far Exn Value') : Prop :=
  ∀ near far, related near far → Together related moments exns agree (left near) (right far)

section Rules

variable {related : Near → Far → Prop} {moments : Moment → Moment' → Prop}
  {exns : Exn → Exn → Prop} {agree : Value → Value' → Prop} {agree' : Other → Other' → Prop}

theorem tandem_pure {value : Value} {value' : Value'} (same : agree value value') :
    InTandem related moments exns agree (pure value : Comp Moment Near Exn Value) (pure value') :=
  fun _ _ states => ⟨.returned same, states, .nil⟩

theorem tandem_throw {exn exn' : Exn} (same : exns exn exn') :
    InTandem related moments exns agree (Comp.throw exn : Comp Moment Near Exn Value)
      (Comp.throw exn') :=
  fun _ _ states => ⟨.thrown same, states, .nil⟩

theorem tandem_exhaust :
    InTandem related moments exns agree (Comp.exhaust : Comp Moment Near Exn Value) Comp.exhaust :=
  fun _ _ states => ⟨.exhausted, states, .nil⟩

theorem tandem_modify {update : Near → Near} {update' : Far → Far}
    (step : ∀ near far, related near far → related (update near) (update' far)) :
    InTandem related moments exns Eq (Comp.modify update : Comp Moment Near Exn Unit)
      (Comp.modify update') :=
  fun near far states => ⟨.returned rfl, step near far states, .nil⟩

theorem tandem_modifyGet {update : Near → Value × Near} {update' : Far → Value' × Far}
    (step : ∀ near far, related near far →
      agree (update near).1 (update' far).1 ∧ related (update near).2 (update' far).2) :
    InTandem related moments exns agree (Comp.modifyGet update : Comp Moment Near Exn Value)
      (Comp.modifyGet update') :=
  fun near far states => ⟨.returned (step near far states).1, (step near far states).2, .nil⟩

theorem tandem_announce {moment : Near → Moment} {moment' : Far → Moment'}
    (step : ∀ near far, related near far → moments (moment near) (moment' far)) :
    InTandem related moments exns Eq (Comp.announce moment : Comp Moment Near Exn Unit)
      (Comp.announce moment') :=
  fun near far states => ⟨.returned rfl, states, .cons (step near far states) .nil⟩

theorem tandem_bind {left : Comp Moment Near Exn Value} {right : Comp Moment' Far Exn Value'}
    {next : Value → Comp Moment Near Exn Other} {next' : Value' → Comp Moment' Far Exn Other'}
    (firsts : InTandem related moments exns agree left right)
    (rest : ∀ value value', agree value value' →
      InTandem related moments exns agree' (next value) (next' value')) :
    InTandem related moments exns agree' (left >>= next) (right >>= next') := by
  intro near far states
  have started := firsts near far states
  rcases run : left near with ⟨outcome, near', log⟩
  rcases run' : right far with ⟨outcome', far', log'⟩
  rw [run, run'] at started
  obtain ⟨outcomes, states', logs⟩ := started
  cases outcomes with
  | @returned value value' same =>
      rw [Comp.bind_returned run, Comp.bind_returned run']
      have later := rest value value' same near' far' states'
      exact ⟨later.outcome, later.states, List.rel_append logs later.logs⟩
  | thrown same =>
      rw [Comp.bind_thrown run, Comp.bind_thrown run']
      exact ⟨.thrown same, states', logs⟩
  | exhausted =>
      rw [Comp.bind_exhausted run, Comp.bind_exhausted run']
      exact ⟨.exhausted, states', logs⟩

theorem tandem_then {left : Comp Moment Near Exn Value} {right : Comp Moment' Far Exn Value}
    {next : Value → Comp Moment Near Exn Other} {next' : Value → Comp Moment' Far Exn Other'}
    (firsts : InTandem related moments exns Eq left right)
    (rest : ∀ value, InTandem related moments exns agree' (next value) (next' value)) :
    InTandem related moments exns agree' (left >>= next) (right >>= next') := by
  refine tandem_bind firsts fun value value' same => ?_
  rw [← same]
  exact rest value

theorem tandem_look {Seen Seen' : Type} {view : Near → Seen} {view' : Far → Seen'}
    {next : Seen → Comp Moment Near Exn Other} {next' : Seen' → Comp Moment' Far Exn Other'}
    (rest : ∀ near far, related near far →
      Together related moments exns agree' (next (view near) near) (next' (view' far) far)) :
    InTandem related moments exns agree' (Comp.read view >>= next) (Comp.read view' >>= next') :=
  fun near far states =>
    have later := rest near far states
    ⟨later.outcome, later.states, later.logs⟩

theorem tandem_read {view : Near → Value} {view' : Far → Value}
    {next : Value → Comp Moment Near Exn Other} {next' : Value → Comp Moment' Far Exn Other'}
    (same : ∀ near far, related near far → view near = view' far)
    (rest : ∀ value, InTandem related moments exns agree' (next value) (next' value)) :
    InTandem related moments exns agree' (Comp.read view >>= next) (Comp.read view' >>= next') := by
  refine tandem_look fun near far states => ?_
  rw [same near far states]
  exact rest _ near far states

theorem tandem_update {update : Near → Near} {update' : Far → Far}
    {next : Unit → Comp Moment Near Exn Other} {next' : Unit → Comp Moment' Far Exn Other'}
    (step : ∀ near far, related near far → related (update near) (update' far))
    (rest : InTandem related moments exns agree' (next ()) (next' ())) :
    InTandem related moments exns agree' (Comp.modify update >>= next)
      (Comp.modify update' >>= next') :=
  tandem_then (tandem_modify step) fun _ => rest

theorem tandem_ite {condition condition' : Prop} [Decidable condition] [Decidable condition']
    {first second : Comp Moment Near Exn Value} {first' second' : Comp Moment' Far Exn Value'}
    (same : condition ↔ condition') (whenTrue : InTandem related moments exns agree first first')
    (whenFalse : InTandem related moments exns agree second second') :
    InTandem related moments exns agree (if condition then first else second)
      (if condition' then first' else second') := by
  by_cases holds : condition
  · rw [if_pos holds, if_pos (same.mp holds)]
    exact whenTrue
  · rw [if_neg holds, if_neg fun holds' => holds (same.mpr holds')]
    exact whenFalse

theorem tandem_onlyIf {condition condition' : Prop} [Decidable condition] [Decidable condition']
    {body : Comp Moment Near Exn Unit} {body' : Comp Moment' Far Exn Unit}
    (same : condition ↔ condition') (bodies : InTandem related moments exns Eq body body') :
    InTandem related moments exns Eq (Comp.onlyIf condition body) (Comp.onlyIf condition' body') :=
  tandem_ite same bodies (tandem_pure rfl)

theorem tandem_guarded {body : Comp Moment Near Exn Value} {body' : Comp Moment' Far Exn Value'}
    {cleanup : Near → Near} {cleanup' : Far → Far}
    (bodies : InTandem related moments exns agree body body')
    (cleaned : ∀ near far, related near far → related (cleanup near) (cleanup' far)) :
    InTandem related moments exns agree (Comp.guarded body cleanup)
      (Comp.guarded body' cleanup') := by
  intro near far states
  have inside := bodies near far states
  unfold Comp.guarded
  generalize body near = run at inside ⊢
  generalize body' far = run' at inside ⊢
  rcases run with ⟨outcome, last, log⟩
  rcases run' with ⟨outcome', last', log'⟩
  obtain ⟨outcomes, lasts, logs⟩ := inside
  cases outcomes with
  | returned same => exact ⟨.returned same, cleaned _ _ lasts, logs⟩
  | thrown same => exact ⟨.thrown same, cleaned _ _ lasts, logs⟩
  | exhausted => exact ⟨.exhausted, lasts, logs⟩

theorem tandem_catching {body : Comp Moment Near Exn Value} {body' : Comp Moment' Far Exn Value'}
    {handler : Exn → Option Value} {handler' : Exn → Option Value'}
    (bodies : InTandem related moments exns agree body body')
    (handled : ∀ exn exn', exns exn exn' → Option.Rel agree (handler exn) (handler' exn')) :
    InTandem related moments exns agree (Comp.catching body handler)
      (Comp.catching body' handler') := by
  intro near far states
  have inside := bodies near far states
  unfold Comp.catching
  generalize body near = run at inside ⊢
  generalize body' far = run' at inside ⊢
  rcases run with ⟨outcome, last, log⟩
  rcases run' with ⟨outcome', last', log'⟩
  obtain ⟨outcomes, lasts, logs⟩ := inside
  cases outcomes with
  | returned same => exact ⟨.returned same, lasts, logs⟩
  | exhausted => exact ⟨.exhausted, lasts, logs⟩
  | @thrown exn exn' same =>
      have answers := handled exn exn' same
      dsimp only
      cases caught : handler exn with
      | none =>
          rw [caught] at answers
          cases caught' : handler' exn' with
          | none => exact ⟨.thrown same, lasts, logs⟩
          | some value' =>
              rw [caught'] at answers
              cases answers
      | some value =>
          rw [caught] at answers
          cases caught' : handler' exn' with
          | none =>
              rw [caught'] at answers
              cases answers
          | some value' =>
              rw [caught'] at answers
              cases answers with
              | some agrees => exact ⟨.returned agrees, lasts, logs⟩

theorem Together.weaken {exns' : Exn → Exn → Prop} {run : Run Moment Near Exn Value}
    {run' : Run Moment' Far Exn Value'} (together : Together related moments exns agree run run')
    (weaker : ∀ exn exn', exns exn exn' → exns' exn exn') :
    Together related moments exns' agree run run' := by
  refine ⟨?_, together.states, together.logs⟩
  have outcomes := together.outcome
  generalize run.outcome = outcome at outcomes ⊢
  generalize run'.outcome = outcome' at outcomes ⊢
  cases outcomes with
  | returned same => exact .returned same
  | @thrown exn exn' same => exact .thrown (weaker exn exn' same)
  | exhausted => exact .exhausted

end Rules

end Peglib.Tandem
