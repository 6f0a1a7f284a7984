import Peglib.WeakestPrecondition

/-!
# Halting of budgeted computations

A computation with a recursion budget is a family of runs, one for each budget.
The family settles when from some budget on all runs are one finished run.
`Terminates assume` asks for that only where the moments of all large enough
runs meet an assumption.
-/

namespace Peglib.Halting

open Peglib.TracedComputation Peglib.WeakestPrecondition

set_option autoImplicit false

variable {Moment State Exn Value Other : Type}

/-- The larger run is the same one, or goes on where the smaller was exhausted. -/
def Extends (small large : Comp Moment State Exn Value) : Prop :=
  ∀ state, small state = large state ∨
    ((small state).outcome = .exhausted ∧ (small state).trace <+: (large state).trace)

/-- From some budget on every run is the same one, and it is finished. -/
def Settles (family : Nat → Comp Moment State Exn Value) (state : State) : Prop :=
  ∃ run : Run Moment State Exn Value, run.outcome ≠ .exhausted ∧
    ∃ enough, ∀ fuel, enough ≤ fuel → family fuel state = run

/-- The moments of all large enough runs meet the assumption. -/
def Assured (assume : Moment → Prop) (family : Nat → Comp Moment State Exn Value)
    (state : State) : Prop :=
  ∃ enough, ∀ fuel, enough ≤ fuel → ∀ moment ∈ (family fuel state).trace, assume moment

def Terminates (assume : Moment → Prop) (family : Nat → Comp Moment State Exn Value)
    (state : State) : Prop :=
  Assured assume family state → Settles family state

section Extension

theorem extends_refl (body : Comp Moment State Exn Value) : Extends body body :=
  fun _ => Or.inl rfl

theorem extends_exhaust (body : Comp Moment State Exn Value) :
    Extends (Comp.exhaust : Comp Moment State Exn Value) body :=
  fun _ => Or.inr ⟨rfl, List.nil_prefix⟩

theorem extends_bind {first first' : Comp Moment State Exn Value}
    {next next' : Value → Comp Moment State Exn Other} (firsts : Extends first first')
    (nexts : ∀ value, Extends (next value) (next' value)) :
    Extends (first >>= next) (first' >>= next') := by
  intro state
  rcases firsts state with same | ⟨exhausted, logged⟩
  · rcases run : first state with ⟨outcome, middle, log⟩
    rw [run] at same
    cases outcome with
    | returned value =>
        rw [Comp.bind_returned run, Comp.bind_returned same.symm]
        rcases nexts value middle with rest | ⟨exhausted, logged⟩
        · exact Or.inl (by rw [rest])
        · exact Or.inr ⟨exhausted, (List.prefix_append_right_inj _).mpr logged⟩
    | thrown exn => exact Or.inl (by rw [Comp.bind_thrown run, Comp.bind_thrown same.symm])
    | exhausted => exact Or.inl (by rw [Comp.bind_exhausted run, Comp.bind_exhausted same.symm])
  · rcases run : first state with ⟨outcome, middle, log⟩
    rw [run] at exhausted logged
    obtain rfl : outcome = .exhausted := exhausted
    rw [Comp.bind_exhausted run]
    refine Or.inr ⟨rfl, logged.trans ?_⟩
    rcases run' : first' state with ⟨outcome', middle', log'⟩
    cases outcome' with
    | returned value => rw [Comp.bind_returned run']; exact List.prefix_append _ _
    | thrown exn => exact ⟨[], by rw [Comp.bind_thrown run', List.append_nil]⟩
    | exhausted => exact ⟨[], by rw [Comp.bind_exhausted run', List.append_nil]⟩

theorem extends_guarded {body body' : Comp Moment State Exn Value} (cleanup : State → State)
    (bodies : Extends body body') :
    Extends (Comp.guarded body cleanup) (Comp.guarded body' cleanup) := by
  intro state
  rcases bodies state with same | ⟨exhausted, logged⟩
  · exact Or.inl (by unfold Comp.guarded; rw [same])
  · rcases run : body state with ⟨outcome, last, log⟩
    rw [run] at exhausted logged
    obtain rfl : outcome = .exhausted := exhausted
    refine Or.inr ⟨by unfold Comp.guarded; rw [run], ?_⟩
    unfold Comp.guarded
    rw [run]
    rcases run' : body' state with ⟨outcome', last', log'⟩
    rw [run'] at logged
    cases outcome' <;> exact logged

theorem extends_catching {body body' : Comp Moment State Exn Value} (handler : Exn → Option Value)
    (bodies : Extends body body') :
    Extends (Comp.catching body handler) (Comp.catching body' handler) := by
  intro state
  rcases bodies state with same | ⟨exhausted, logged⟩
  · exact Or.inl (by unfold Comp.catching; rw [same])
  · rcases run : body state with ⟨outcome, last, log⟩
    rw [run] at exhausted logged
    obtain rfl : outcome = .exhausted := exhausted
    refine Or.inr ⟨by unfold Comp.catching; rw [run], ?_⟩
    unfold Comp.catching
    rw [run]
    rcases run' : body' state with ⟨outcome', last', log'⟩
    rw [run'] at logged
    cases outcome' with
    | thrown exn => dsimp only; cases handler exn <;> exact logged
    | _ => exact logged

theorem Extends.run_eq {small large : Comp Moment State Exn Value} (extended : Extends small large)
    {state : State} (halted : (small state).outcome ≠ .exhausted) : small state = large state := by
  rcases extended state with same | ⟨exhausted, -⟩
  · exact same
  · exact absurd exhausted halted

theorem Extends.log_grows {small large : Comp Moment State Exn Value}
    (extended : Extends small large) (state : State) :
    (small state).trace <+: (large state).trace := by
  rcases extended state with same | ⟨-, logged⟩
  · exact ⟨[], by rw [same, List.append_nil]⟩
  · exact logged

/-- The moments of one finished run are those of every run. -/
theorem moments_of_finished {family : Nat → Comp Moment State Exn Value}
    (extends' : ∀ {fuel fuel' : Nat}, fuel ≤ fuel' → Extends (family fuel) (family fuel'))
    {state : State} (enough : Nat) (finished : (family enough state).outcome ≠ .exhausted)
    {holds : Moment → Prop} (met : ∀ moment ∈ (family enough state).trace, holds moment)
    (fuel : Nat) : ∀ moment ∈ (family fuel state).trace, holds moment := by
  intro moment member
  rcases Nat.le_total enough fuel with larger | smaller
  · rw [← (extends' larger).run_eq finished] at member
    exact met moment member
  · exact met moment (((extends' smaller).log_grows state).subset member)

end Extension

section Exhaustion

theorem exhausted_first {first : Comp Moment State Exn Value}
    {next : Value → Comp Moment State Exn Other} {state : State}
    (exhausted : (first state).outcome = .exhausted) :
    ((first >>= next) state).outcome = .exhausted := by
  rcases run : first state with ⟨outcome, middle, log⟩
  rw [run] at exhausted
  obtain rfl : outcome = .exhausted := exhausted
  rw [Comp.bind_exhausted run]

theorem exhausted_later {first : Comp Moment State Exn Value}
    {next : Value → Comp Moment State Exn Other} {state middle : State} {value : Value}
    {log : List Moment} (run : first state = ⟨.returned value, middle, log⟩)
    (exhausted : (next value middle).outcome = .exhausted) :
    ((first >>= next) state).outcome = .exhausted := by
  rw [Comp.bind_returned run]
  exact exhausted

theorem exhausted_if {condition : Prop} [Decidable condition]
    {first second : Comp Moment State Exn Value} {state : State} (holds : condition)
    (exhausted : (first state).outcome = .exhausted) :
    ((if condition then first else second) state).outcome = .exhausted := by
  rwa [if_pos holds]

theorem exhausted_catching {body : Comp Moment State Exn Value} {handler : Exn → Option Value}
    {state : State} (exhausted : (body state).outcome = .exhausted) :
    (Comp.catching body handler state).outcome = .exhausted := by
  unfold Comp.catching
  rcases run : body state with ⟨outcome, last, log⟩
  rw [run] at exhausted
  obtain rfl : outcome = .exhausted := exhausted
  rfl

end Exhaustion

theorem not_settles {family : Nat → Comp Moment State Exn Value} {state : State}
    (exhausted : ∀ fuel, (family fuel state).outcome = .exhausted) : ¬Settles family state := by
  rintro ⟨run, finished, enough, settled⟩
  rw [← settled enough (Nat.le_refl _)] at finished
  exact finished (exhausted enough)

section Rules

variable {assume : Moment → Prop} {state : State}

theorem terminates_const {step : Comp Moment State Exn Value}
    (halted : (step state).outcome ≠ .exhausted) : Terminates assume (fun _ => step) state :=
  fun _ => ⟨step state, halted, 0, fun _ _ => rfl⟩

theorem terminates_pure (value : Value) :
    Terminates assume (fun _ => (pure value : Comp Moment State Exn Value)) state :=
  terminates_const nofun

theorem terminates_throw (exn : Exn) :
    Terminates assume (fun _ => (Comp.throw exn : Comp Moment State Exn Value)) state :=
  terminates_const nofun

theorem terminates_bind {contract : Contract Moment State Exn} {post : Value → State → Prop}
    {first : Nat → Comp Moment State Exn Value} {next : Nat → Value → Comp Moment State Exn Other}
    (begins : Terminates assume first state) (meets : ∀ fuel, wp contract (first fuel) post state)
    (unassuming : ∀ moment, contract.assume moment)
    (later : ∀ value middle, post value middle →
      Terminates assume (fun fuel => next fuel value) middle) :
    Terminates assume (fun fuel => first fuel >>= next fuel) state := by
  rintro ⟨bound, assured⟩
  have early : Assured assume first state := by
    refine ⟨bound, fun fuel larger moment member => assured fuel larger moment ?_⟩
    beta_reduce
    rcases run : first fuel state with ⟨outcome, middle, log⟩
    rw [run] at member
    cases outcome with
    | returned value => rw [Comp.bind_returned run]; exact List.mem_append_left _ member
    | thrown exn => rw [Comp.bind_thrown run]; exact member
    | exhausted => rw [Comp.bind_exhausted run]; exact member
  obtain ⟨⟨outcome, middle, log⟩, finished, enough, settled⟩ := begins early
  cases outcome with
  | returned value =>
      have runs : ∀ fuel, enough ≤ fuel → (first fuel >>= next fuel) state =
          ⟨(next fuel value middle).outcome, (next fuel value middle).state,
            log ++ (next fuel value middle).trace⟩ :=
        fun fuel larger => Comp.bind_returned (settled fuel larger)
      have met : post value middle := by
        have returned := settled enough (Nat.le_refl _)
        have ended : (first enough state).outcome = .returned value := by rw [returned]
        have holds := wp_returned (meets enough) (fun moment _ => unassuming moment) ended
        rwa [returned] at holds
      have rest : Assured assume (fun fuel => next fuel value) middle := by
        refine ⟨max bound enough, fun fuel larger moment member => ?_⟩
        refine assured fuel (by omega) moment ?_
        beta_reduce
        rw [runs fuel (by omega)]
        exact List.mem_append_right _ member
      obtain ⟨run, done, enough', settled'⟩ := later value middle met rest
      refine ⟨⟨run.outcome, run.state, log ++ run.trace⟩, done, max enough enough', ?_⟩
      intro fuel larger
      beta_reduce
      have same : next fuel value middle = run := settled' fuel (by omega)
      rw [runs fuel (by omega), same]
  | thrown exn =>
      exact ⟨⟨.thrown exn, middle, log⟩, nofun, enough,
        fun fuel larger => Comp.bind_thrown (settled fuel larger)⟩
  | exhausted => exact absurd rfl finished

def anything : Contract Moment State Exn := ⟨fun _ => True, fun _ => True, fun _ _ => True⟩

theorem wp_anything (body : Comp Moment State Exn Value) :
    wp anything body (fun _ _ => True) state := by
  unfold wp
  induction (body state).trace with
  | nil => cases (body state).outcome <;> exact trivial
  | cons moment rest induction => exact fun _ => ⟨trivial, induction⟩

/-- The bind rule where nothing need be known of the state in between. -/
theorem terminates_then {first : Nat → Comp Moment State Exn Value}
    {next : Nat → Value → Comp Moment State Exn Other} (begins : Terminates assume first state)
    (later : ∀ value middle, Terminates assume (fun fuel => next fuel value) middle) :
    Terminates assume (fun fuel => first fuel >>= next fuel) state :=
  terminates_bind begins (fun fuel => wp_anything (first fuel)) (fun _ => trivial)
    fun value middle _ => later value middle

theorem terminates_meets {contract : Contract Moment State Exn} {post : Value → State → Prop}
    {step : Comp Moment State Exn Value} {next : Nat → Value → Comp Moment State Exn Other}
    (begins : Terminates assume (fun _ => step) state) (meets : wp contract step post state)
    (unassuming : ∀ moment, contract.assume moment)
    (later : ∀ value middle, post value middle →
      Terminates assume (fun fuel => next fuel value) middle) :
    Terminates assume (fun fuel => step >>= next fuel) state :=
  terminates_bind begins (fun _ => meets) unassuming later

theorem terminates_follow {step : Comp Moment State Exn Value}
    {next : Nat → Value → Comp Moment State Exn Other}
    (begins : Terminates assume (fun _ => step) state)
    (later : ∀ value middle, Terminates assume (fun fuel => next fuel value) middle) :
    Terminates assume (fun fuel => step >>= next fuel) state :=
  terminates_then begins later

theorem terminates_step {step : Comp Moment State Exn Value}
    {next : Nat → Value → Comp Moment State Exn Other} {middle : State} {value : Value}
    (run : step state = ⟨.returned value, middle, []⟩)
    (later : Terminates assume (fun fuel => next fuel value) middle) :
    Terminates assume (fun fuel => step >>= next fuel) state := by
  have meets : wp (anything : Contract Moment State Exn) step
      (fun found last => found = value ∧ last = middle) state := by
    unfold wp
    rw [run]
    exact ⟨rfl, rfl⟩
  refine terminates_meets (terminates_const (by rw [run]; exact nofun)) meets (fun _ => trivial) ?_
  rintro found last ⟨rfl, rfl⟩
  exact later

theorem terminates_read {view : State → Value} {next : Nat → Value → Comp Moment State Exn Other}
    (later : Terminates assume (fun fuel => next fuel (view state)) state) :
    Terminates assume (fun fuel => Comp.read view >>= next fuel) state :=
  terminates_step rfl later

theorem terminates_modify {update : State → State} {next : Nat → Unit → Comp Moment State Exn Other}
    (later : Terminates assume (fun fuel => next fuel ()) (update state)) :
    Terminates assume (fun fuel => Comp.modify update >>= next fuel) state :=
  terminates_step rfl later

theorem terminates_modifyGet {update : State → Value × State}
    {next : Nat → Value → Comp Moment State Exn Other}
    (later : Terminates assume (fun fuel => next fuel (update state).1) (update state).2) :
    Terminates assume (fun fuel => Comp.modifyGet update >>= next fuel) state :=
  terminates_step rfl later

theorem terminates_announce {moment : State → Moment}
    {next : Nat → Unit → Comp Moment State Exn Other}
    (later : assume (moment state) → Terminates assume (fun fuel => next fuel ()) state) :
    Terminates assume (fun fuel => Comp.announce moment >>= next fuel) state := by
  rintro ⟨bound, assured⟩
  have runs : ∀ fuel, (Comp.announce moment >>= next fuel) state =
      ⟨(next fuel () state).outcome, (next fuel () state).state,
        moment state :: (next fuel () state).trace⟩ := by
    intro fuel
    have logged : Comp.announce moment state =
        (⟨.returned (), state, [moment state]⟩ : Run Moment State Exn Unit) := rfl
    exact Comp.bind_returned logged
  have first := assured bound (Nat.le_refl _) (moment state)
    (by beta_reduce; rw [runs bound]; exact List.mem_cons_self)
  obtain ⟨run, done, enough, settled⟩ := later first ⟨bound, fun fuel larger other member =>
    assured fuel larger other (by beta_reduce; rw [runs fuel]; exact List.mem_cons_of_mem _ member)⟩
  refine ⟨⟨run.outcome, run.state, moment state :: run.trace⟩, done, enough, fun fuel larger => ?_⟩
  have same : next fuel () state = run := settled fuel larger
  beta_reduce
  rw [runs fuel, same]

theorem terminates_ite {condition : Prop} [Decidable condition]
    {first second : Nat → Comp Moment State Exn Value}
    (whenTrue : condition → Terminates assume first state)
    (whenFalse : ¬condition → Terminates assume second state) :
    Terminates assume (fun fuel => if condition then first fuel else second fuel) state := by
  by_cases holds : condition
  · simp only [if_pos holds]
    exact whenTrue holds
  · simp only [if_neg holds]
    exact whenFalse holds

theorem terminates_onlyIf {condition : Prop} [Decidable condition]
    {body : Nat → Comp Moment State Exn Unit} (whenTrue : Terminates assume body state) :
    Terminates assume (fun fuel => Comp.onlyIf condition (body fuel)) state :=
  terminates_ite (fun _ => whenTrue) fun _ => terminates_pure ()

theorem terminates_guarded {body : Nat → Comp Moment State Exn Value} {cleanup : State → State}
    (terminates : Terminates assume body state) :
    Terminates assume (fun fuel => Comp.guarded (body fuel) cleanup) state := by
  rintro ⟨bound, assured⟩
  have traces : ∀ fuel, (Comp.guarded (body fuel) cleanup state).trace = (body fuel state).trace := by
    intro fuel
    unfold Comp.guarded
    rcases body fuel state with ⟨outcome, last, log⟩
    cases outcome <;> rfl
  obtain ⟨⟨outcome, last, log⟩, done, enough, settled⟩ := terminates ⟨bound,
    fun fuel larger moment member => assured fuel larger moment (by rw [traces]; exact member)⟩
  refine ⟨Comp.guarded (fun _ => ⟨outcome, last, log⟩) cleanup state, ?_, enough, ?_⟩
  · cases outcome with
    | returned value => exact nofun
    | thrown exn => exact nofun
    | exhausted => exact absurd rfl done
  · intro fuel larger
    beta_reduce
    unfold Comp.guarded
    rw [settled fuel larger]

theorem terminates_catching {body : Nat → Comp Moment State Exn Value}
    {handler : Exn → Option Value} (terminates : Terminates assume body state) :
    Terminates assume (fun fuel => Comp.catching (body fuel) handler) state := by
  rintro ⟨bound, assured⟩
  have traces : ∀ fuel, (Comp.catching (body fuel) handler state).trace = (body fuel state).trace := by
    intro fuel
    unfold Comp.catching
    rcases body fuel state with ⟨outcome, last, log⟩
    cases outcome with
    | thrown exn => dsimp only; cases handler exn <;> rfl
    | _ => rfl
  obtain ⟨⟨outcome, last, log⟩, done, enough, settled⟩ := terminates ⟨bound,
    fun fuel larger moment member => assured fuel larger moment (by rw [traces]; exact member)⟩
  refine ⟨Comp.catching (fun _ => ⟨outcome, last, log⟩) handler state, ?_, enough, ?_⟩
  · unfold Comp.catching
    cases outcome with
    | returned value => exact nofun
    | thrown exn => dsimp only; cases handler exn <;> exact nofun
    | exhausted => exact absurd rfl done
  · intro fuel larger
    beta_reduce
    unfold Comp.catching
    rw [settled fuel larger]

theorem terminates_shift {family : Nat → Comp Moment State Exn Value} :
    Terminates assume (fun fuel => family (fuel + 1)) state ↔ Terminates assume family state := by
  constructor
  · rintro shifted ⟨bound, assured⟩
    obtain ⟨run, done, enough, settled⟩ := shifted
      ⟨bound, fun fuel larger => assured (fuel + 1) (by omega)⟩
    refine ⟨run, done, enough + 1, fun fuel larger => ?_⟩
    obtain ⟨less, rfl⟩ : ∃ less, fuel = less + 1 := ⟨fuel - 1, by omega⟩
    exact settled less (by omega)
  · rintro terminates ⟨bound, assured⟩
    obtain ⟨run, done, enough, settled⟩ := terminates ⟨bound + 1, fun fuel larger => by
      obtain ⟨less, rfl⟩ : ∃ less, fuel = less + 1 := ⟨fuel - 1, by omega⟩
      exact assured less (by omega)⟩
    exact ⟨run, done, enough, fun fuel larger => settled (fuel + 1) (by omega)⟩

end Rules

end Peglib.Halting
