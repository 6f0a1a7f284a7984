import Peglib.TracedComputation

/-!
# Frames along a log

`Carries` speaks about one run of a traced computation and about every moment
it logs: what the state held at the start is kept up to each moment and to the
end, and what an earlier moment had settled lasts to every later one. The rules
follow the monad; the postcondition also sees the log of the run.
-/

namespace Peglib.LogFrames

open Peglib.TracedComputation

set_option autoImplicit false

variable {Moment State Exn Value Other : Type}

/-- How far states are kept, and what of an earlier state lasts. -/
structure FrameRules (State : Type) where
  kept : State → State → Prop
  lasting : State → State → Prop
  refl : ∀ state, kept state state
  trans : ∀ first second third, kept first second → kept second third → kept first third
  lasts : ∀ first second third, lasting first second → kept second third → lasting first third

structure Carries (view : Moment → State) (rules : FrameRules State)
    (broken : Exn → State → Prop) (post : Value → State → List Moment → Prop) (state : State)
    (run : Run Moment State Exn Value) : Prop where
  moments : ∀ moment ∈ run.trace,
    rules.kept state (view moment) ∧ rules.lasting (view moment) run.state
  ordered : run.trace.Pairwise fun earlier later => rules.lasting (view earlier) (view later)
  kept : rules.kept state run.state
  returned : ∀ value, run.outcome = .returned value → post value run.state run.trace
  thrown : ∀ exn, run.outcome = .thrown exn → broken exn run.state

section Rules

variable {view : Moment → State} {rules : FrameRules State} {broken : Exn → State → Prop}
  {post : Value → State → List Moment → Prop} {state : State}

theorem carries_pure {value : Value} (met : post value state []) :
    Carries view rules broken post state
      ((pure value : Comp Moment State Exn Value) state) where
  moments _ member := absurd member List.not_mem_nil
  ordered := List.Pairwise.nil
  kept := rules.refl state
  returned _ ended := by cases ended; exact met
  thrown _ ended := by cases ended

theorem carries_throw {exn : Exn} (met : broken exn state) :
    Carries view rules broken post state
      ((Comp.throw exn : Comp Moment State Exn Value) state) where
  moments _ member := absurd member List.not_mem_nil
  ordered := List.Pairwise.nil
  kept := rules.refl state
  returned _ ended := by cases ended
  thrown _ ended := by cases ended; exact met

theorem carries_exhaust :
    Carries view rules broken post state ((Comp.exhaust : Comp Moment State Exn Value) state) where
  moments _ member := absurd member List.not_mem_nil
  ordered := List.Pairwise.nil
  kept := rules.refl state
  returned _ ended := by cases ended
  thrown _ ended := by cases ended

theorem carries_ask {look : State → Outcome Exn Value}
    (met : ∀ value, look state = .returned value → post value state [])
    (breaks : ∀ exn, look state = .thrown exn → broken exn state) :
    Carries view rules broken post state ((Comp.ask look : Comp Moment State Exn Value) state) where
  moments _ member := absurd member List.not_mem_nil
  ordered := List.Pairwise.nil
  kept := rules.refl state
  returned := met
  thrown := breaks

/-- The second run sees the log of the first. It may be carried from any state
that keeps the start and lets the log last. -/
theorem carries_bind_from {middle : Value → State → List Moment → Prop}
    {post : Other → State → List Moment → Prop} {first : Comp Moment State Exn Value}
    {next : Value → Comp Moment State Exn Other}
    (leading : Carries view rules broken middle state (first state))
    (rest : ∀ value here log, first state = ⟨.returned value, here, log⟩ → middle value here log →
      ∃ here', rules.kept state here' ∧ (∀ moment ∈ log, rules.lasting (view moment) here') ∧
        Carries view rules broken (fun other last log' => post other last (log ++ log')) here'
          (next value here)) :
    Carries view rules broken post state ((first >>= next) state) := by
  rcases run : first state with ⟨outcome, here, log⟩
  rw [run] at leading
  cases outcome with
  | thrown exn =>
      rw [Comp.bind_thrown run]
      exact ⟨leading.moments, leading.ordered, leading.kept, nofun,
        fun other ended => leading.thrown other (by cases ended; rfl)⟩
  | exhausted =>
      rw [Comp.bind_exhausted run]
      exact ⟨leading.moments, leading.ordered, leading.kept, nofun, nofun⟩
  | returned value =>
      obtain ⟨here', kept, settled, later⟩ := rest value here log run (leading.returned value rfl)
      rw [Comp.bind_returned run]
      refine ⟨fun moment member => ?_, ?_, rules.trans _ _ _ kept later.kept,
        later.returned, later.thrown⟩
      · rcases List.mem_append.mp member with early | late
        · exact ⟨(leading.moments moment early).1, rules.lasts _ _ _ (settled moment early) later.kept⟩
        · have found := later.moments moment late
          exact ⟨rules.trans _ _ _ kept found.1, found.2⟩
      · refine List.pairwise_append.mpr ⟨leading.ordered, later.ordered, ?_⟩
        intro earlier early moment late
        exact rules.lasts _ _ _ (settled earlier early) (later.moments moment late).1

/-- The second run starts where the first one returned. -/
theorem carries_bind {middle : Value → State → List Moment → Prop}
    {post : Other → State → List Moment → Prop} {first : Comp Moment State Exn Value}
    {next : Value → Comp Moment State Exn Other}
    (leading : Carries view rules broken middle state (first state))
    (rest : ∀ value here log, first state = ⟨.returned value, here, log⟩ → middle value here log →
      Carries view rules broken (fun other last log' => post other last (log ++ log')) here
        (next value here)) :
    Carries view rules broken post state ((first >>= next) state) := by
  refine carries_bind_from leading fun value here log run met => ⟨here, ?_, ?_, rest _ _ _ run met⟩
  · have kept := leading.kept
    rwa [run] at kept
  · intro moment member
    have moments := leading.moments
    rw [run] at moments
    exact (moments moment member).2

theorem carries_modify {post : Other → State → List Moment → Prop} {update : State → State}
    {next : Unit → Comp Moment State Exn Other} (step : rules.kept state (update state))
    (rest : Carries view rules broken post (update state) (next () (update state))) :
    Carries view rules broken post state ((Comp.modify update >>= next) state) :=
  ⟨fun moment member => ⟨rules.trans _ _ _ step (rest.moments moment member).1,
      (rest.moments moment member).2⟩,
    rest.ordered, rules.trans _ _ _ step rest.kept, rest.returned, rest.thrown⟩

theorem carries_update {post : Unit → State → List Moment → Prop} {update : State → State}
    (step : rules.kept state (update state)) (met : post () (update state) []) :
    Carries view rules broken post state ((Comp.modify update : Comp Moment State Exn Unit) state) where
  moments _ member := absurd member List.not_mem_nil
  ordered := List.Pairwise.nil
  kept := step
  returned _ _ := met
  thrown _ ended := by cases ended

theorem carries_read {post : Other → State → List Moment → Prop} {look : State → Value}
    {next : Value → Comp Moment State Exn Other}
    (rest : Carries view rules broken post state (next (look state) state)) :
    Carries view rules broken post state ((Comp.read look >>= next) state) :=
  rest

theorem carries_modifyGet {post : Other → State → List Moment → Prop}
    {update : State → Value × State} {next : Value → Comp Moment State Exn Other}
    (step : rules.kept state (update state).2)
    (rest : Carries view rules broken post (update state).2
      (next (update state).1 (update state).2)) :
    Carries view rules broken post state ((Comp.modifyGet update >>= next) state) :=
  ⟨fun moment member => ⟨rules.trans _ _ _ step (rest.moments moment member).1,
      (rest.moments moment member).2⟩,
    rest.ordered, rules.trans _ _ _ step rest.kept, rest.returned, rest.thrown⟩

theorem carries_announce {post : Other → State → List Moment → Prop} {moment : State → Moment}
    {next : Unit → Comp Moment State Exn Other} (here : rules.kept state (view (moment state)))
    (settled : rules.lasting (view (moment state)) state)
    (rest : Carries view rules broken (fun other last log => post other last (moment state :: log))
      state (next () state)) :
    Carries view rules broken post state ((Comp.announce moment >>= next) state) := by
  refine ⟨fun other member => ?_, ?_, rest.kept, rest.returned, rest.thrown⟩
  · rcases List.mem_cons.mp member with rfl | late
    · exact ⟨here, rules.lasts _ _ _ settled rest.kept⟩
    · exact rest.moments other late
  · refine List.pairwise_cons.mpr ⟨fun later late => ?_, rest.ordered⟩
    exact rules.lasts _ _ _ settled (rest.moments later late).1

theorem carries_ite {condition : Prop} [Decidable condition]
    {first second : Comp Moment State Exn Value}
    (whenTrue : condition → Carries view rules broken post state (first state))
    (whenFalse : ¬condition → Carries view rules broken post state (second state)) :
    Carries view rules broken post state ((if condition then first else second) state) := by
  split_ifs with holds
  · exact whenTrue holds
  · exact whenFalse holds

theorem carries_onlyIf {condition : Prop} [Decidable condition]
    {post : Unit → State → List Moment → Prop} {body : Comp Moment State Exn Unit}
    (whenTrue : condition → Carries view rules broken post state (body state))
    (whenFalse : ¬condition → post () state []) :
    Carries view rules broken post state (Comp.onlyIf condition body state) :=
  carries_ite whenTrue fun fails => carries_pure (whenFalse fails)

theorem carries_guarded {body : Comp Moment State Exn Value} {cleanup : State → State}
    {broken' : Exn → State → Prop} (cleans : ∀ last, rules.kept last (cleanup last))
    (runs : Carries view rules broken' (fun value last log => post value (cleanup last) log) state
      (body state))
    (breaks : ∀ exn last, broken' exn last → broken exn (cleanup last)) :
    Carries view rules broken post state (Comp.guarded body cleanup state) := by
  unfold Comp.guarded
  rcases run : body state with ⟨outcome, last, log⟩
  rw [run] at runs
  have moments : ∀ moment ∈ log, rules.kept state (view moment) ∧
      rules.lasting (view moment) (cleanup last) := fun moment member =>
    ⟨(runs.moments moment member).1,
      rules.lasts _ _ _ (runs.moments moment member).2 (cleans last)⟩
  cases outcome with
  | returned value =>
      exact ⟨moments, runs.ordered, rules.trans _ _ _ runs.kept (cleans last),
        fun other ended => runs.returned other (by cases ended; rfl), nofun⟩
  | thrown exn =>
      exact ⟨moments, runs.ordered, rules.trans _ _ _ runs.kept (cleans last), nofun,
        fun other ended => breaks _ _ (runs.thrown other (by cases ended; rfl))⟩
  | exhausted => exact ⟨runs.moments, runs.ordered, runs.kept, nofun, nofun⟩

theorem carries_catching {body : Comp Moment State Exn Value} {handler : Exn → Option Value}
    (runs : Carries view rules broken post state (body state))
    (handled : ∀ exn value last log, handler exn = some value → broken exn last →
      post value last log) :
    Carries view rules broken post state (Comp.catching body handler state) := by
  unfold Comp.catching
  rcases run : body state with ⟨outcome, last, log⟩
  rw [run] at runs
  cases outcome with
  | returned value | exhausted => exact runs
  | thrown exn =>
      dsimp only
      cases answer : handler exn with
      | none => exact runs
      | some value =>
          refine ⟨runs.moments, runs.ordered, runs.kept, fun other ended => ?_, nofun⟩
          cases ended
          exact handled exn value last log answer (runs.thrown exn rfl)

theorem Carries.mono {rules' : FrameRules State} {broken' : Exn → State → Prop}
    {post' : Value → State → List Moment → Prop} {state' : State}
    {run : Run Moment State Exn Value} (runs : Carries view rules broken post state run)
    (keeps : ∀ last, rules.kept state last → rules'.kept state' last)
    (lasts : ∀ moment ∈ run.trace, ∀ later,
      rules.lasting (view moment) later → rules'.lasting (view moment) later)
    (breaks : ∀ exn last, broken exn last → broken' exn last)
    (posts : ∀ value, run.outcome = .returned value → post value run.state run.trace →
      post' value run.state run.trace) :
    Carries view rules' broken' post' state' run where
  moments moment member := ⟨keeps _ (runs.moments moment member).1,
    lasts moment member _ (runs.moments moment member).2⟩
  ordered := runs.ordered.imp_of_mem fun {earlier later} early _ lasting =>
    lasts earlier early (view later) lasting
  kept := keeps _ runs.kept
  returned value ended := posts value ended (runs.returned value ended)
  thrown exn ended := breaks exn _ (runs.thrown exn ended)

theorem Carries.weaken {post' : Value → State → List Moment → Prop}
    {run : Run Moment State Exn Value} (runs : Carries view rules broken post state run)
    (posts : ∀ value, run.outcome = .returned value → post value run.state run.trace →
      post' value run.state run.trace) : Carries view rules broken post' state run :=
  runs.mono (fun _ => id) (fun _ _ _ => id) (fun _ _ => id) posts

theorem Carries.recall {run : Run Moment State Exn Value}
    (runs : Carries view rules broken post state run) :
    Carries view rules broken (fun value last log => post value last log ∧
      rules.kept state last ∧ ∀ moment ∈ log, rules.lasting (view moment) last) state run :=
  runs.weaken fun _ _ met =>
    ⟨met, runs.kept, fun moment member => (runs.moments moment member).2⟩

end Rules

end Peglib.LogFrames
