import Peglib.TracedComputation

/-!
# Weakest preconditions with rely and guarantee along the log

`wp contract body post state` reads: every run of `body` from `state` meets
`post` when it returns and the contract's `onThrow` when it throws, and each
logged moment meets the guarantee, all under the assumption that the moments
logged so far met the contract's `assume`. Runs that exhaust their budget owe
only the moments they logged.
-/

namespace Peglib.WeakestPrecondition

open Peglib.TracedComputation

set_option autoImplicit false

structure Contract (Moment State Exn : Type) where
  assume : Moment → Prop
  guarantee : Moment → Prop
  onThrow : Exn → State → Prop

section Along

variable {Moment : Type}

/-- `last` holds after the log, each moment's guarantee being owed only while
the assumptions have held up to that moment. -/
def along (assume guarantee : Moment → Prop) : List Moment → Prop → Prop
  | [], last => last
  | moment :: rest, last => assume moment → guarantee moment ∧ along assume guarantee rest last

theorem along_append (assume guarantee : Moment → Prop) (first second : List Moment)
    (last : Prop) :
    along assume guarantee (first ++ second) last =
      along assume guarantee first (along assume guarantee second last) := by
  induction first with
  | nil => rfl
  | cons moment rest induction => simp only [List.cons_append, along, induction]

theorem along_mono {assume assume' guarantee guarantee' : Moment → Prop} {last last' : Prop}
    (assumes : ∀ moment, assume' moment → assume moment)
    (guarantees : ∀ moment, assume' moment → guarantee moment → guarantee' moment)
    (lasts : last → last') (log : List Moment) :
    along assume guarantee log last → along assume' guarantee' log last' := by
  induction log with
  | nil => exact lasts
  | cons moment rest induction =>
      intro holds assumed
      have found := holds (assumes moment assumed)
      exact ⟨guarantees moment assumed found.1, induction found.2⟩

theorem along_and {assume guarantee guarantee' : Moment → Prop} {last last' : Prop}
    (log : List Moment) (left : along assume guarantee log last)
    (right : along assume guarantee' log last') :
    along assume (fun moment => guarantee moment ∧ guarantee' moment) log (last ∧ last') := by
  induction log with
  | nil => exact ⟨left, right⟩
  | cons moment rest induction =>
      intro assumed
      exact ⟨⟨(left assumed).1, (right assumed).1⟩, induction (left assumed).2 (right assumed).2⟩

theorem along_elim {assume guarantee : Moment → Prop} {last : Prop} (log : List Moment)
    (holds : along assume guarantee log last) (assumed : ∀ moment ∈ log, assume moment) :
    (∀ moment ∈ log, guarantee moment) ∧ last := by
  induction log with
  | nil => exact ⟨by simp, holds⟩
  | cons moment rest induction =>
      have found := holds (assumed moment (by simp))
      have later := induction found.2 fun other member => assumed other (by simp [member])
      refine ⟨?_, later.2⟩
      intro other member
      rcases List.mem_cons.mp member with rfl | member
      · exact found.1
      · exact later.1 other member

end Along

variable {Moment State Exn Value Other : Type}

/-- What a finished run owes after its log. -/
def Outcome.meets (onThrow : Exn → State → Prop) (post : Value → State → Prop) :
    Outcome Exn Value → State → Prop
  | .returned value, state => post value state
  | .thrown exn, state => onThrow exn state
  | .exhausted, _ => True

def wp (contract : Contract Moment State Exn) (body : Comp Moment State Exn Value)
    (post : Value → State → Prop) (state : State) : Prop :=
  along contract.assume contract.guarantee (body state).trace
    (Outcome.meets contract.onThrow post (body state).outcome (body state).state)

variable {contract : Contract Moment State Exn} {post : Value → State → Prop} {state : State}

@[simp] theorem wp_pure (value : Value) :
    wp contract (pure value : Comp Moment State Exn Value) post state ↔ post value state := Iff.rfl

@[simp] theorem wp_read (view : State → Value) :
    wp contract (Comp.read view) post state ↔ post (view state) state := Iff.rfl

@[simp] theorem wp_modify (update : State → State) (post : Unit → State → Prop) :
    wp contract (Comp.modify update) post state ↔ post () (update state) := Iff.rfl

@[simp] theorem wp_modifyGet (update : State → Value × State) :
    wp contract (Comp.modifyGet update) post state ↔ post (update state).1 (update state).2 :=
  Iff.rfl

@[simp] theorem wp_throw (exn : Exn) :
    wp contract (Comp.throw exn) post state ↔ contract.onThrow exn state := Iff.rfl

@[simp] theorem wp_announce (moment : State → Moment) (post : Unit → State → Prop) :
    wp contract (Comp.announce moment) post state ↔
      (contract.assume (moment state) →
        contract.guarantee (moment state) ∧ post () state) := Iff.rfl

@[simp] theorem wp_bind (first : Comp Moment State Exn Value)
    (next : Value → Comp Moment State Exn Other) (post : Other → State → Prop) :
    wp contract (first >>= next) post state ↔
      wp contract first (fun value middle => wp contract (next value) post middle) state := by
  unfold wp
  rcases run : first state with ⟨outcome, middle, trace⟩
  cases outcome with
  | returned value =>
      rw [Comp.bind_returned run]
      simp only [along_append, Outcome.meets]
  | thrown exn => rw [Comp.bind_thrown run]; exact Iff.rfl
  | exhausted => rw [Comp.bind_exhausted run]; exact Iff.rfl

@[simp] theorem wp_ite (condition : Prop) [Decidable condition]
    (first second : Comp Moment State Exn Value) :
    wp contract (if condition then first else second) post state ↔
      (condition → wp contract first post state) ∧ (¬condition → wp contract second post state) := by
  split_ifs with holds <;> simp [holds]

@[simp] theorem wp_onlyIf (condition : Prop) [Decidable condition]
    (body : Comp Moment State Exn Unit) (post : Unit → State → Prop) :
    wp contract (Comp.onlyIf condition body) post state ↔
      (condition → wp contract body post state) ∧ (¬condition → post () state) := by
  unfold Comp.onlyIf
  split_ifs with holds
  · simp [holds]
  · simp only [holds, false_implies, not_false_eq_true, true_implies, true_and]
    exact Iff.rfl

@[simp] theorem wp_guarded (body : Comp Moment State Exn Value) (cleanup : State → State) :
    wp contract (Comp.guarded body cleanup) post state ↔
      wp { contract with onThrow := fun exn last => contract.onThrow exn (cleanup last) } body
        (fun value last => post value (cleanup last)) state := by
  unfold wp Comp.guarded
  rcases body state with ⟨outcome, last, trace⟩
  cases outcome <;> exact Iff.rfl

@[simp] theorem wp_catching (body : Comp Moment State Exn Value) (handler : Exn → Option Value) :
    wp contract (Comp.catching body handler) post state ↔
      wp { contract with
            onThrow := fun exn last =>
              match handler exn with
              | some value => post value last
              | none => contract.onThrow exn last } body post state := by
  unfold wp Comp.catching
  rcases body state with ⟨outcome, last, trace⟩
  cases outcome with
  | returned value => exact Iff.rfl
  | exhausted => exact Iff.rfl
  | thrown exn =>
      dsimp only
      cases found : handler exn <;> simp only [Outcome.meets, found]

theorem wp_mono {weaker : Contract Moment State Exn} {body : Comp Moment State Exn Value}
    {post' : Value → State → Prop} (holds : wp contract body post state)
    (assumes : ∀ moment, weaker.assume moment → contract.assume moment)
    (guarantees : ∀ moment, weaker.assume moment → contract.guarantee moment →
      weaker.guarantee moment)
    (throws : ∀ exn last, contract.onThrow exn last → weaker.onThrow exn last)
    (posts : ∀ value last, post value last → post' value last) :
    wp weaker body post' state := by
  refine along_mono assumes guarantees ?_ _ holds
  cases (body state).outcome with
  | returned value => exact posts value _
  | thrown exn => exact throws exn _
  | exhausted => exact id

theorem wp_post {body : Comp Moment State Exn Value} {post' : Value → State → Prop}
    (holds : wp contract body post state)
    (posts : ∀ value last, post value last → post' value last) :
    wp contract body post' state :=
  wp_mono holds (fun _ => id) (fun _ _ => id) (fun _ _ => id) posts

theorem wp_and {guarantee : Moment → Prop} {onThrow : Exn → State → Prop}
    {body : Comp Moment State Exn Value} {post' : Value → State → Prop}
    (left : wp contract body post state)
    (right : wp ⟨contract.assume, guarantee, onThrow⟩ body post' state) :
    wp ⟨contract.assume, fun moment => contract.guarantee moment ∧ guarantee moment,
        fun exn last => contract.onThrow exn last ∧ onThrow exn last⟩
      body (fun value last => post value last ∧ post' value last) state := by
  refine along_mono (fun _ => id) (fun _ _ => id) ?_ _ (along_and _ left right)
  cases (body state).outcome with
  | returned value => exact id
  | thrown exn => exact id
  | exhausted => exact fun _ => trivial

theorem wp_with {other : Contract Moment State Exn} {body : Comp Moment State Exn Value}
    {post' : Value → State → Prop} (holds : wp contract body post state)
    (more : wp other body post' state)
    (assumes : ∀ moment, contract.assume moment → other.assume moment) :
    wp contract body (fun value last => post value last ∧ post' value last) state := by
  have weakened : wp ⟨contract.assume, fun _ => True, fun _ _ => True⟩ body post' state :=
    wp_mono more assumes (fun _ _ _ => trivial) (fun _ _ _ => trivial) fun _ _ => id
  exact wp_mono (wp_and holds weakened) (fun _ => id) (fun _ _ met => met.1)
    (fun _ _ met => met.1) fun _ _ => id

/-- What a met contract says of one finished run. -/
theorem wp_elim {body : Comp Moment State Exn Value} (holds : wp contract body post state)
    (assumed : ∀ moment ∈ (body state).trace, contract.assume moment) :
    (∀ moment ∈ (body state).trace, contract.guarantee moment) ∧
      Outcome.meets contract.onThrow post (body state).outcome (body state).state :=
  along_elim _ holds assumed

theorem wp_returned {body : Comp Moment State Exn Value} {value : Value}
    (holds : wp contract body post state)
    (assumed : ∀ moment ∈ (body state).trace, contract.assume moment)
    (ended : (body state).outcome = .returned value) : post value (body state).state := by
  have met := (wp_elim holds assumed).2
  rwa [ended] at met

theorem wp_run {body : Comp Moment State Exn Value} {value : Value} {last : State}
    {log : List Moment} (holds : wp contract body post state)
    (run : body state = ⟨.returned value, last, log⟩)
    (assumed : ∀ moment ∈ log, contract.assume moment) : post value last := by
  have met := wp_returned holds (by rw [run]; exact assumed) (by rw [run])
  rwa [run] at met

theorem wp_thrown {body : Comp Moment State Exn Value} {exn : Exn}
    (holds : wp contract body post state)
    (assumed : ∀ moment ∈ (body state).trace, contract.assume moment)
    (ended : (body state).outcome = .thrown exn) : contract.onThrow exn (body state).state := by
  have met := (wp_elim holds assumed).2
  rwa [ended] at met

end Peglib.WeakestPrecondition
