import Peglib.WeakestPrecondition

/-!
# Coupled runs

A relational logic for two computations over two kinds of state. The runs are
alike from a pair of states when their outcomes and their logs are the same, the
states they return in are related by a postcondition, and the states they break
off in by a condition of their own. What the second run is known to meet may be
added on the way.
-/

namespace Peglib.Coupling

open Peglib.TracedComputation Peglib.WeakestPrecondition

set_option autoImplicit false

variable {Moment Near Far Exn Value Other : Type}

def Related (broken : Near → Far → Prop) (post : Value → Near → Far → Prop) :
    Outcome Exn Value → Near → Far → Prop
  | .returned value, near, far => post value near far
  | .thrown _, near, far => broken near far
  | .exhausted, near, far => broken near far

structure RunsAlike (broken : Near → Far → Prop) (post : Value → Near → Far → Prop)
    (left : Run Moment Near Exn Value) (right : Run Moment Far Exn Value) : Prop where
  outcome : left.outcome = right.outcome
  trace : left.trace = right.trace
  states : Related broken post right.outcome left.state right.state

def Alike (broken : Near → Far → Prop) (left : Comp Moment Near Exn Value)
    (right : Comp Moment Far Exn Value) (post : Value → Near → Far → Prop) (near : Near)
    (far : Far) : Prop :=
  RunsAlike broken post (left near) (right far)

section Rules

variable {broken : Near → Far → Prop} {post : Value → Near → Far → Prop} {near : Near} {far : Far}

theorem alike_pure {value : Value} (met : post value near far) :
    Alike broken (pure value : Comp Moment Near Exn Value) (pure value : Comp Moment Far Exn Value)
      post near far :=
  ⟨rfl, rfl, met⟩

theorem alike_throw (met : broken near far) (exn : Exn) :
    Alike broken (Comp.throw exn : Comp Moment Near Exn Value)
      (Comp.throw exn : Comp Moment Far Exn Value) post near far :=
  ⟨rfl, rfl, met⟩

theorem alike_exhaust (met : broken near far) :
    Alike broken (Comp.exhaust : Comp Moment Near Exn Value)
      (Comp.exhaust : Comp Moment Far Exn Value) post near far :=
  ⟨rfl, rfl, met⟩

theorem alike_bind (middle : Value → Near → Far → Prop) {post : Other → Near → Far → Prop}
    {left : Comp Moment Near Exn Value} {right : Comp Moment Far Exn Value}
    {next : Value → Comp Moment Near Exn Other} {next' : Value → Comp Moment Far Exn Other}
    (firsts : Alike broken left right middle near far)
    (rest : ∀ value near' far', middle value near' far' →
      Alike broken (next value) (next' value) post near' far') :
    Alike broken (left >>= next) (right >>= next') post near far := by
  unfold Alike at firsts rest ⊢
  rcases run : left near with ⟨outcome, near', log⟩
  rcases run' : right far with ⟨outcome', far', log'⟩
  rw [run, run'] at firsts
  obtain rfl : outcome = outcome' := firsts.outcome
  obtain rfl : log = log' := firsts.trace
  cases outcome with
  | returned value =>
      have later := rest value near' far' firsts.states
      rw [Comp.bind_returned run, Comp.bind_returned run']
      exact ⟨later.outcome, congrArg (log ++ ·) later.trace, later.states⟩
  | thrown exn =>
      rw [Comp.bind_thrown run, Comp.bind_thrown run']
      exact ⟨rfl, rfl, firsts.states⟩
  | exhausted =>
      rw [Comp.bind_exhausted run, Comp.bind_exhausted run']
      exact ⟨rfl, rfl, firsts.states⟩

theorem alike_post {post' : Value → Near → Far → Prop} {left : Comp Moment Near Exn Value}
    {right : Comp Moment Far Exn Value} (alike : Alike broken left right post near far)
    (weaker : ∀ value near far, post value near far → post' value near far) :
    Alike broken left right post' near far := by
  refine ⟨alike.outcome, alike.trace, ?_⟩
  have states := alike.states
  cases run : (right far).outcome with
  | returned value => rw [run] at states; exact weaker _ _ _ states
  | thrown exn => rw [run] at states; exact states
  | exhausted => rw [run] at states; exact states

theorem alike_meets {contract : Contract Moment Far Exn} {known : Value → Far → Prop}
    {left : Comp Moment Near Exn Value} {right : Comp Moment Far Exn Value}
    (alike : Alike broken left right post near far) (meets : wp contract right known far)
    (unassuming : ∀ moment, contract.assume moment) :
    Alike broken left right (fun value near far => post value near far ∧ known value far) near
      far := by
  refine ⟨alike.outcome, alike.trace, ?_⟩
  have states := alike.states
  cases run : (right far).outcome with
  | returned value =>
      rw [run] at states
      exact ⟨states, wp_returned meets (fun moment _ => unassuming moment) run⟩
  | thrown exn => rw [run] at states; exact states
  | exhausted => rw [run] at states; exact states

theorem alike_read {post : Other → Near → Far → Prop} {view : Near → Value} {view' : Far → Value}
    {next : Value → Comp Moment Near Exn Other} {next' : Value → Comp Moment Far Exn Other}
    (same : view near = view' far)
    (rest : Alike broken (next (view' far)) (next' (view' far)) post near far) :
    Alike broken (Comp.read view >>= next) (Comp.read view' >>= next') post near far := by
  rw [← same] at rest
  have step : (Comp.read view' >>= next') far = next' (view near) far := by rw [same]; rfl
  unfold Alike at rest ⊢
  rw [step]
  exact rest

theorem alike_modify {post : Other → Near → Far → Prop} {update : Near → Near}
    {update' : Far → Far} {next : Unit → Comp Moment Near Exn Other}
    {next' : Unit → Comp Moment Far Exn Other}
    (rest : Alike broken (next ()) (next' ()) post (update near) (update' far)) :
    Alike broken (Comp.modify update >>= next) (Comp.modify update' >>= next') post near far :=
  rest

theorem alike_modifyGet {post : Other → Near → Far → Prop} {update : Near → Value × Near}
    {update' : Far → Value × Far} {next : Value → Comp Moment Near Exn Other}
    {next' : Value → Comp Moment Far Exn Other} (same : (update near).1 = (update' far).1)
    (rest : Alike broken (next (update' far).1) (next' (update' far).1) post (update near).2
      (update' far).2) :
    Alike broken (Comp.modifyGet update >>= next) (Comp.modifyGet update' >>= next') post near
      far := by
  rw [← same] at rest
  have step : (Comp.modifyGet update' >>= next') far = next' (update near).1 (update' far).2 := by
    rw [same]
    rfl
  unfold Alike at rest ⊢
  rw [step]
  exact rest

theorem alike_announce {post : Unit → Near → Far → Prop} {moment : Near → Moment}
    {moment' : Far → Moment} (same : moment near = moment' far) (met : post () near far) :
    Alike broken (Comp.announce moment : Comp Moment Near Exn Unit)
      (Comp.announce moment' : Comp Moment Far Exn Unit) post near far :=
  ⟨rfl, congrArg (fun moment => [moment]) same, met⟩

theorem alike_ite {condition : Prop} [Decidable condition] {left left' : Comp Moment Near Exn Value}
    {right right' : Comp Moment Far Exn Value}
    (whenTrue : condition → Alike broken left right post near far)
    (whenFalse : ¬condition → Alike broken left' right' post near far) :
    Alike broken (if condition then left else left') (if condition then right else right') post
      near far := by
  split_ifs with holds
  · exact whenTrue holds
  · exact whenFalse holds

theorem alike_onlyIf {post : Unit → Near → Far → Prop} {condition : Prop} [Decidable condition]
    {left : Comp Moment Near Exn Unit} {right : Comp Moment Far Exn Unit}
    (body : condition → Alike broken left right post near far)
    (otherwise : ¬condition → post () near far) :
    Alike broken (Comp.onlyIf condition left) (Comp.onlyIf condition right) post near far :=
  alike_ite body fun fails => alike_pure (otherwise fails)

theorem alike_guarded {left : Comp Moment Near Exn Value} {right : Comp Moment Far Exn Value}
    {cleanup : Near → Near} {cleanup' : Far → Far}
    (bodies : Alike broken left right (fun value near far => post value (cleanup near) (cleanup' far))
      near far)
    (cleaned : ∀ near far, broken near far → broken (cleanup near) (cleanup' far)) :
    Alike broken (Comp.guarded left cleanup) (Comp.guarded right cleanup') post near far := by
  unfold Alike at bodies ⊢
  unfold Comp.guarded
  rcases run : left near with ⟨outcome, near', log⟩
  rcases run' : right far with ⟨outcome', far', log'⟩
  rw [run, run'] at bodies
  obtain rfl : outcome = outcome' := bodies.outcome
  obtain rfl : log = log' := bodies.trace
  cases outcome with
  | returned value => exact ⟨rfl, rfl, bodies.states⟩
  | thrown exn => exact ⟨rfl, rfl, cleaned _ _ bodies.states⟩
  | exhausted => exact ⟨rfl, rfl, bodies.states⟩

theorem alike_catching {left : Comp Moment Near Exn Value} {right : Comp Moment Far Exn Value}
    {handler : Exn → Option Value} (bodies : Alike broken left right post near far)
    (handled : ∀ value near far, broken near far → post value near far) :
    Alike broken (Comp.catching left handler) (Comp.catching right handler) post near far := by
  unfold Alike at bodies ⊢
  unfold Comp.catching
  rcases run : left near with ⟨outcome, near', log⟩
  rcases run' : right far with ⟨outcome', far', log'⟩
  rw [run, run'] at bodies
  obtain rfl : outcome = outcome' := bodies.outcome
  obtain rfl : log = log' := bodies.trace
  cases outcome with
  | thrown exn =>
      dsimp only
      cases handler exn with
      | some value => exact ⟨rfl, rfl, handled _ _ _ bodies.states⟩
      | none => exact ⟨rfl, rfl, bodies.states⟩
  | returned value => exact bodies
  | exhausted => exact bodies

end Rules

theorem RunsAlike.eq {broken : Far → Far → Prop} {post : Value → Far → Far → Prop}
    {left right : Run Moment Far Exn Value} (alike : RunsAlike broken post left right)
    (breaks : ∀ near far, broken near far → near = far)
    (returns : ∀ value near far, post value near far → near = far) : left = right := by
  obtain ⟨outcome, state, trace⟩ := left
  obtain ⟨outcome', state', trace'⟩ := right
  obtain ⟨rfl, rfl, states⟩ := alike
  have same : state = state' := by
    cases outcome with
    | returned value => exact returns _ _ _ states
    | thrown exn => exact breaks _ _ states
    | exhausted => exact breaks _ _ states
  rw [same]

section Twins

variable {State : Type}

structure TwinRuns (related : State → State → Prop) (left right : Run Moment State Exn Value) :
    Prop where
  outcome : left.outcome = right.outcome
  states : ∀ value, right.outcome = .returned value → related left.state right.state

/-- From two related states the computation has one outcome, and the states it returns
in are related again. -/
def Twins (related : State → State → Prop) (body : Comp Moment State Exn Value) : Prop :=
  ∀ near far, related near far → TwinRuns related (body near) (body far)

variable {related : State → State → Prop}

theorem twins_pure (value : Value) :
    Twins related (pure value : Comp Moment State Exn Value) :=
  fun _ _ alike => ⟨rfl, fun _ _ => alike⟩

theorem twins_throw (exn : Exn) : Twins related (Comp.throw exn : Comp Moment State Exn Value) :=
  fun _ _ _ => ⟨rfl, nofun⟩

theorem twins_exhaust : Twins related (Comp.exhaust : Comp Moment State Exn Value) :=
  fun _ _ _ => ⟨rfl, nofun⟩

theorem twins_announce (moment : State → Moment) :
    Twins related (Comp.announce moment : Comp Moment State Exn Unit) :=
  fun _ _ alike => ⟨rfl, fun _ _ => alike⟩

theorem twins_modify {update : State → State}
    (step : ∀ near far, related near far → related (update near) (update far)) :
    Twins related (Comp.modify update : Comp Moment State Exn Unit) :=
  fun near far alike => ⟨rfl, fun _ _ => step near far alike⟩

theorem twins_modifyGet {update : State → Value × State}
    (step : ∀ near far, related near far →
      (update near).1 = (update far).1 ∧ related (update near).2 (update far).2) :
    Twins related (Comp.modifyGet update : Comp Moment State Exn Value) :=
  fun near far alike =>
    ⟨congrArg Outcome.returned (step near far alike).1, fun _ _ => (step near far alike).2⟩

theorem twins_bind {first : Comp Moment State Exn Value} {next : Value → Comp Moment State Exn Other}
    (firsts : Twins related first) (rest : ∀ value, Twins related (next value)) :
    Twins related (first >>= next) := by
  intro near far alike
  have started := firsts near far alike
  rcases run : first near with ⟨outcome, near', log⟩
  rcases run' : first far with ⟨outcome', far', log'⟩
  rw [run, run'] at started
  obtain rfl : outcome = outcome' := started.outcome
  cases outcome with
  | returned value =>
      have later := rest value near' far' (started.states value rfl)
      rw [Comp.bind_returned run, Comp.bind_returned run']
      exact ⟨later.outcome, later.states⟩
  | thrown exn =>
      rw [Comp.bind_thrown run, Comp.bind_thrown run']
      exact ⟨rfl, nofun⟩
  | exhausted =>
      rw [Comp.bind_exhausted run, Comp.bind_exhausted run']
      exact ⟨rfl, nofun⟩

theorem twins_read {view : State → Value} {next : Value → Comp Moment State Exn Other}
    (same : ∀ near far, related near far → view near = view far)
    (rest : ∀ value, Twins related (next value)) : Twins related (Comp.read view >>= next) := by
  intro near far alike
  have step : (Comp.read view >>= next) near = next (view far) near := by
    rw [← same near far alike]
    rfl
  rw [step]
  exact rest (view far) near far alike

theorem twins_look {next : State → Comp Moment State Exn Other}
    (same : ∀ near far, related near far → next near = next far)
    (rest : ∀ state, Twins related (next state)) : Twins related (Comp.read id >>= next) := by
  intro near far alike
  have step : (Comp.read id >>= next) near = next far near := by
    rw [← same near far alike]
    rfl
  rw [step]
  exact rest far near far alike

theorem twins_ite {condition : Prop} [Decidable condition] {first second : Comp Moment State Exn Value}
    (whenTrue : condition → Twins related first) (whenFalse : ¬condition → Twins related second) :
    Twins related (if condition then first else second) := by
  split_ifs with holds
  · exact whenTrue holds
  · exact whenFalse holds

theorem twins_onlyIf {condition : Prop} [Decidable condition] {body : Comp Moment State Exn Unit}
    (bodies : condition → Twins related body) : Twins related (Comp.onlyIf condition body) :=
  twins_ite bodies fun _ => twins_pure ()

theorem twins_guarded {body : Comp Moment State Exn Value} {cleanup : State → State}
    (bodies : Twins related body)
    (cleaned : ∀ near far, related near far → related (cleanup near) (cleanup far)) :
    Twins related (Comp.guarded body cleanup) := by
  intro near far alike
  have inside := bodies near far alike
  unfold Comp.guarded
  rcases run : body near with ⟨outcome, near', log⟩
  rcases run' : body far with ⟨outcome', far', log'⟩
  rw [run, run'] at inside
  obtain rfl : outcome = outcome' := inside.outcome
  cases outcome with
  | returned value => exact ⟨rfl, fun _ _ => cleaned _ _ (inside.states value rfl)⟩
  | thrown exn => exact ⟨rfl, nofun⟩
  | exhausted => exact ⟨rfl, nofun⟩

end Twins

section Mirrors

variable {State Value' Other' : Type}

/-- Two runs that end alike: both return, and then their results agree and their states
are related, or both throw, or both exhaust their budget. -/
def EndAlike (related : State → State → Prop) (agree : Value → Value' → Prop)
    (left : Run Moment State Exn Value) (right : Run Moment State Exn Value') : Prop :=
  match left.outcome, right.outcome with
  | .returned value, .returned value' => agree value value' ∧ related left.state right.state
  | .thrown _, .thrown _ => True
  | .exhausted, .exhausted => True
  | _, _ => False

theorem EndAlike.trans {Value'' : Type} {related related' related'' : State → State → Prop}
    {agree : Value → Value' → Prop} {agree' : Value' → Value'' → Prop}
    {agree'' : Value → Value'' → Prop} {first : Run Moment State Exn Value}
    {second : Run Moment State Exn Value'} {third : Run Moment State Exn Value''}
    (left : EndAlike related agree first second) (right : EndAlike related' agree' second third)
    (values : ∀ value value' value'', agree value value' → agree' value' value'' →
      agree'' value value'')
    (states : ∀ near mid far, related near mid → related' mid far → related'' near far) :
    EndAlike related'' agree'' first third := by
  rcases first with ⟨outcome, state, log⟩
  rcases second with ⟨outcome', state', log'⟩
  rcases third with ⟨outcome'', state'', log''⟩
  cases outcome <;> cases outcome' <;> cases outcome'' <;>
    first
      | exact left.elim
      | exact right.elim
      | trivial
      | exact ⟨values _ _ _ left.1 right.1, states _ _ _ left.2 right.2⟩

/-- From related states the two computations end alike. -/
def Mirrors (related related' : State → State → Prop) (agree : Value → Value' → Prop)
    (left : Comp Moment State Exn Value) (right : Comp Moment State Exn Value') : Prop :=
  ∀ near far, related near far → EndAlike related' agree (left near) (right far)

variable {related related' related'' : State → State → Prop} {agree : Value → Value' → Prop}
  {agree' : Other → Other' → Prop}

theorem mirrors_pure {value : Value} {value' : Value'} (same : agree value value') :
    Mirrors related related agree (pure value : Comp Moment State Exn Value) (pure value') :=
  fun _ _ alike => ⟨same, alike⟩

theorem mirrors_throw (exn exn' : Exn) :
    Mirrors related related' agree (Comp.throw exn : Comp Moment State Exn Value) (Comp.throw exn') :=
  fun _ _ _ => trivial

theorem mirrors_exhaust :
    Mirrors related related' agree (Comp.exhaust : Comp Moment State Exn Value) Comp.exhaust :=
  fun _ _ _ => trivial

theorem mirrors_announce (moment moment' : State → Moment) :
    Mirrors related related (fun _ _ => True) (Comp.announce moment : Comp Moment State Exn Unit)
      (Comp.announce moment') :=
  fun _ _ alike => ⟨trivial, alike⟩

theorem mirrors_modify {update update' : State → State}
    (step : ∀ near far, related near far → related' (update near) (update' far)) :
    Mirrors related related' (fun _ _ => True) (Comp.modify update : Comp Moment State Exn Unit)
      (Comp.modify update') :=
  fun near far alike => ⟨trivial, step near far alike⟩

theorem mirrors_modifyGet {update : State → Value × State} {update' : State → Value' × State}
    (step : ∀ near far, related near far →
      agree (update near).1 (update' far).1 ∧ related' (update near).2 (update' far).2) :
    Mirrors related related' agree (Comp.modifyGet update : Comp Moment State Exn Value)
      (Comp.modifyGet update') :=
  fun near far alike => step near far alike

theorem end_alike_bind {first : Comp Moment State Exn Value} {first' : Comp Moment State Exn Value'}
    {next : Value → Comp Moment State Exn Other} {next' : Value' → Comp Moment State Exn Other'}
    {near far : State} (firsts : EndAlike related agree (first near) (first' far))
    (rest : ∀ value value' near' far' log', first' far = ⟨.returned value', far', log'⟩ →
      agree value value' → related near' far' →
      EndAlike related' agree' (next value near') (next' value' far')) :
    EndAlike related' agree' ((first >>= next) near) ((first' >>= next') far) := by
  unfold EndAlike at firsts
  rcases run : first near with ⟨outcome, near', log⟩
  rcases run' : first' far with ⟨outcome', far', log'⟩
  rw [run, run'] at firsts
  cases outcome with
  | returned value =>
      cases outcome' with
      | returned value' =>
          rw [Comp.bind_returned run, Comp.bind_returned run']
          exact rest value value' near' far' log' run' firsts.1 firsts.2
      | thrown _ | exhausted => exact firsts.elim
  | thrown exn =>
      cases outcome' with
      | thrown exn' =>
          rw [Comp.bind_thrown run, Comp.bind_thrown run']
          exact trivial
      | returned _ | exhausted => exact firsts.elim
  | exhausted =>
      cases outcome' with
      | exhausted =>
          rw [Comp.bind_exhausted run, Comp.bind_exhausted run']
          exact trivial
      | returned _ | thrown _ => exact firsts.elim

theorem end_alike_guarded {body : Comp Moment State Exn Value} {body' : Comp Moment State Exn Value'}
    {cleanup cleanup' : State → State} {near far : State}
    (bodies : EndAlike related agree (body near) (body' far))
    (cleaned : ∀ near far, related near far → related' (cleanup near) (cleanup' far)) :
    EndAlike related' agree (Comp.guarded body cleanup near) (Comp.guarded body' cleanup' far) := by
  unfold EndAlike Comp.guarded at *
  rcases run : body near with ⟨outcome, near', log⟩
  rcases run' : body' far with ⟨outcome', far', log'⟩
  rw [run, run'] at bodies
  cases outcome with
  | returned value =>
      cases outcome' with
      | returned value' => exact ⟨bodies.1, cleaned _ _ bodies.2⟩
      | thrown _ | exhausted => exact bodies.elim
  | thrown exn =>
      cases outcome' with
      | thrown exn' => exact trivial
      | returned _ | exhausted => exact bodies.elim
  | exhausted =>
      cases outcome' with
      | exhausted => exact trivial
      | returned _ | thrown _ => exact bodies.elim

theorem mirrors_bind {first : Comp Moment State Exn Value} {first' : Comp Moment State Exn Value'}
    {next : Value → Comp Moment State Exn Other} {next' : Value' → Comp Moment State Exn Other'}
    (firsts : Mirrors related related' agree first first')
    (rest : ∀ value value', agree value value' → Mirrors related' related'' agree' (next value) (next' value')) :
    Mirrors related related'' agree' (first >>= next) (first' >>= next') :=
  fun near far alike => end_alike_bind (firsts near far alike)
    fun value value' near' far' _ _ same states => rest value value' same near' far' states

theorem mirrors_read {view : State → Value} {view' : State → Value'}
    {next : Value → Comp Moment State Exn Other} {next' : Value' → Comp Moment State Exn Other'}
    (rest : ∀ near far, related near far →
      EndAlike related' agree' (next (view near) near) (next' (view' far) far)) :
    Mirrors related related' agree' (Comp.read view >>= next) (Comp.read view' >>= next') :=
  fun near far alike => rest near far alike

theorem mirrors_ite {condition condition' : Prop} [Decidable condition] [Decidable condition']
    {first second : Comp Moment State Exn Value} {first' second' : Comp Moment State Exn Value'}
    (same : condition ↔ condition')
    (whenTrue : condition → condition' → Mirrors related related' agree first first')
    (whenFalse : ¬condition → Mirrors related related' agree second second') :
    Mirrors related related' agree (if condition then first else second)
      (if condition' then first' else second') := by
  by_cases holds : condition
  · rw [if_pos holds, if_pos (same.mp holds)]
    exact whenTrue holds (same.mp holds)
  · rw [if_neg holds, if_neg fun holds' => holds (same.mpr holds')]
    exact whenFalse holds

theorem mirrors_onlyIf {condition condition' : Prop} [Decidable condition] [Decidable condition']
    {body body' : Comp Moment State Exn Unit} (same : condition ↔ condition')
    (bodies : condition → Mirrors related related (fun _ _ => True) body body') :
    Mirrors related related (fun _ _ => True) (Comp.onlyIf condition body)
      (Comp.onlyIf condition' body') :=
  mirrors_ite same (fun holds _ => bodies holds) fun _ => mirrors_pure trivial

theorem mirrors_guarded {body : Comp Moment State Exn Value} {body' : Comp Moment State Exn Value'}
    {cleanup cleanup' : State → State} (bodies : Mirrors related related' agree body body')
    (cleaned : ∀ near far, related' near far → related'' (cleanup near) (cleanup' far)) :
    Mirrors related related'' agree (Comp.guarded body cleanup) (Comp.guarded body' cleanup') :=
  fun near far alike => end_alike_guarded (bodies near far alike) cleaned

theorem EndAlike.weaken {agree' : Value → Value' → Prop} {left : Run Moment State Exn Value}
    {right : Run Moment State Exn Value'} (alike : EndAlike related agree left right)
    (values : ∀ value value', agree value value' → agree' value value')
    (states : ∀ near far, related near far → related' near far) :
    EndAlike related' agree' left right := by
  rcases left with ⟨outcome, state, log⟩
  rcases right with ⟨outcome', state', log'⟩
  cases outcome <;> cases outcome' <;>
    first
      | exact alike.elim
      | trivial
      | exact ⟨values _ _ alike.1, states _ _ alike.2⟩

theorem Mirrors.weaken {before after : State → State → Prop} {left : Comp Moment State Exn Value}
    {right : Comp Moment State Exn Value'} (mirrors : Mirrors related related' agree left right)
    (stronger : ∀ near far, before near far → related near far)
    (weaker : ∀ near far, related' near far → after near far) :
    Mirrors before after agree left right :=
  fun near far alike => (mirrors near far (stronger near far alike)).weaken (fun _ _ => id) weaker

theorem mirrors_far_modify {update : State → State} {left : Comp Moment State Exn Value}
    {right : Unit → Comp Moment State Exn Value'}
    (step : ∀ near far, related near far → related' near (update far))
    (rest : Mirrors related' related'' agree left (right ())) :
    Mirrors related related'' agree left (Comp.modify update >>= right) :=
  fun near far alike => rest near (update far) (step near far alike)

theorem mirrors_far_modifyGet {update : State → Value × State} {left : Comp Moment State Exn Other}
    {right : Value → Comp Moment State Exn Other'}
    (step : ∀ near far, related near far → related' near (update far).2)
    (rest : ∀ value, Mirrors related' related'' agree' left (right value)) :
    Mirrors related related'' agree' left (Comp.modifyGet update >>= right) :=
  fun near far alike => rest (update far).1 near (update far).2 (step near far alike)

theorem mirrors_far_read {view : State → Value} {left : Comp Moment State Exn Other}
    {right : Value → Comp Moment State Exn Other'}
    (rest : ∀ value, Mirrors related related' agree' left (right value)) :
    Mirrors related related' agree' left (Comp.read view >>= right) :=
  fun near far alike => rest (view far) near far alike

theorem mirrors_guarded_tail {Last Last' : Type} {agree'' : Last → Last' → Prop}
    {first : Comp Moment State Exn Value} {first' : Comp Moment State Exn Value'}
    {next : Value → Comp Moment State Exn Last} {next' : Value' → Comp Moment State Exn Other'}
    {cleanup : State → State} {last : Other' → Comp Moment State Exn Last'}
    (firsts : Mirrors related related' agree first first')
    (rest : ∀ value value', agree value value' →
      Mirrors related' related'' agree'' (next value) (Comp.guarded (next' value') cleanup >>= last)) :
    Mirrors related related'' agree'' (first >>= next)
      (Comp.guarded (first' >>= next') cleanup >>= last) := by
  intro near far alike
  have started := firsts near far alike
  unfold EndAlike at started
  rcases run : first near with ⟨outcome, near', log⟩
  rcases run' : first' far with ⟨outcome', far', log'⟩
  rw [run, run'] at started
  cases outcome with
  | returned value =>
      cases outcome' with
      | returned value' =>
          have ends := rest value value' started.1 near' far' started.2
          have guarded : Comp.guarded (first' >>= next') cleanup far =
              ⟨(Comp.guarded (next' value') cleanup far').outcome,
                (Comp.guarded (next' value') cleanup far').state,
                log' ++ (Comp.guarded (next' value') cleanup far').trace⟩ := by
            unfold Comp.guarded
            rw [Comp.bind_returned run']
            rcases next' value' far' with ⟨_ | _ | _, state, trace⟩ <;> rfl
          rw [Comp.bind_returned run]
          unfold EndAlike at ends ⊢
          rcases body : Comp.guarded (next' value') cleanup far' with ⟨outcome, state, trace⟩
          rw [body] at guarded
          cases outcome with
          | returned found =>
              rw [Comp.bind_returned body] at ends
              rw [Comp.bind_returned guarded]
              exact ends
          | thrown exn =>
              rw [Comp.bind_thrown body] at ends
              rw [Comp.bind_thrown guarded]
              exact ends
          | exhausted =>
              rw [Comp.bind_exhausted body] at ends
              rw [Comp.bind_exhausted guarded]
              exact ends
      | thrown _ | exhausted => exact started.elim
  | thrown exn =>
      cases outcome' with
      | thrown exn' =>
          have guarded : Comp.guarded (first' >>= next') cleanup far =
              ⟨.thrown exn', cleanup far', log'⟩ := by
            unfold Comp.guarded
            rw [Comp.bind_thrown run']
          rw [Comp.bind_thrown run, Comp.bind_thrown guarded]
          trivial
      | returned _ | exhausted => exact started.elim
  | exhausted =>
      cases outcome' with
      | exhausted =>
          have guarded : Comp.guarded (first' >>= next') cleanup far =
              ⟨.exhausted, far', log'⟩ := by
            unfold Comp.guarded
            rw [Comp.bind_exhausted run']
          rw [Comp.bind_exhausted run, Comp.bind_exhausted guarded]
          trivial
      | returned _ | thrown _ => exact started.elim

end Mirrors

end Peglib.Coupling
