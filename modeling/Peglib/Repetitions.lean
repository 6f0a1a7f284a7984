import Peglib.Rules

/-!
# The iterations of a repetition

One loop serves every repetition. It goes on while its child matches and moves,
and ends with the first iteration that fails, fills the count or stays in place.
-/

namespace Peglib.Repetitions

open Peglib.TracedComputation Peglib.ParseError Peglib.ParseContext Peglib.Expressions

set_option autoImplicit false

variable {CharT : Type} {skip : Parser CharT Unit} {child : Parser CharT ParseResult}
  {maxRep : Int} {node : NodePtr}

/-- An iteration: the skip before it, then the child with an uncommitted scope. -/
structure Iteration (skip : Parser CharT Unit) (child : Parser CharT ParseResult) (count : Nat)
    (here start after : Context CharT) (result : ParseResult) : Prop where
  skipped : ∃ log, Comp.onlyIf (0 < count) skip here = ⟨.returned (), start, log⟩
  parsed : ∃ log, child (start.setCut false) = ⟨.returned result, after, log⟩

/-- Runs that differ in their log at most. -/
def SameEnd {Value : Type} (left right : Run (Moment CharT) (Context CharT) Exn Value) : Prop :=
  left.outcome = right.outcome ∧ left.state = right.state

theorem bind_end {Value Other : Type} {first : Parser CharT Value}
    {next : Value → Parser CharT Other} {context middle : Context CharT} {value : Value}
    {log : List (Moment CharT)} (run : first context = ⟨.returned value, middle, log⟩) :
    SameEnd ((first >>= next) context) (next value middle) := by
  rw [Comp.bind_returned run]
  exact ⟨rfl, rfl⟩

theorem SameEnd.trans {Value : Type}
    {first second third : Run (Moment CharT) (Context CharT) Exn Value}
    (left : SameEnd first second) (right : SameEnd second third) : SameEnd first third :=
  ⟨left.1.trans right.1, left.2.trans right.2⟩

/-- What the loop does with the result of an iteration. -/
def afterIteration (skip : Parser CharT Unit) (child : Parser CharT ParseResult) (maxRep : Int)
    (node : NodePtr) (fuel count last : Nat) (startState : Nat) (result : ParseResult) :
    Parser CharT LoopExit :=
  if result.success then do
    let here ← Comp.read Context.position
    Comp.modify (pushChild node result.tree)
    if boundReached maxRep (count + 1) || decide (here = startState) then
      pure ⟨count + 1, false, here⟩
    else repeatLoop skip child maxRep node fuel (count + 1) here
  else pure ⟨count, true, last⟩

theorem loop_iteration {fuel count last : Nat} {here start after : Context CharT}
    {result : ParseResult} (iteration : Iteration skip child count here start after result) :
    SameEnd (repeatLoop skip child maxRep node (fuel + 1) count last here)
      (afterIteration skip child maxRep node fuel count last start.position result after) := by
  obtain ⟨log, skipped⟩ := iteration.skipped
  obtain ⟨log', parsed⟩ := iteration.parsed
  rw [repeatLoop]
  refine (bind_end skipped).trans ?_
  have read : (Comp.read Context.position start : Run (Moment CharT) _ Exn _) =
      ⟨.returned start.position, start, []⟩ := rfl
  have reset : (Comp.modify (fun context => context.setCut false) start :
      Run (Moment CharT) _ Exn _) = ⟨.returned (), start.setCut false, []⟩ := rfl
  exact (bind_end read).trans ((bind_end reset).trans (bind_end parsed))

theorem loop_fails {fuel count last : Nat} {here start after : Context CharT}
    {result : ParseResult} (iteration : Iteration skip child count here start after result)
    (failed : result.success = false) :
    SameEnd (repeatLoop skip child maxRep node (fuel + 1) count last here)
      ⟨.returned ⟨count, true, last⟩, after, []⟩ := by
  refine (loop_iteration iteration).trans ?_
  rw [afterIteration, if_neg (by simp [failed])]
  exact ⟨rfl, rfl⟩

theorem loop_stops {fuel count last : Nat} {here start after : Context CharT}
    {result : ParseResult} (iteration : Iteration skip child count here start after result)
    (success : result.success = true)
    (stop : (boundReached maxRep (count + 1) || decide (after.position = start.position)) = true) :
    SameEnd (repeatLoop skip child maxRep node (fuel + 1) count last here)
      ⟨.returned ⟨count + 1, false, after.position⟩, pushChild node result.tree after, []⟩ := by
  refine (loop_iteration iteration).trans ?_
  rw [afterIteration, if_pos success]
  have read : (Comp.read Context.position after : Run (Moment CharT) _ Exn _) =
      ⟨.returned after.position, after, []⟩ := rfl
  refine (bind_end read).trans ?_
  rw [if_pos stop]
  exact ⟨rfl, rfl⟩

theorem loop_continues {fuel count last : Nat} {here start after : Context CharT}
    {result : ParseResult} (iteration : Iteration skip child count here start after result)
    (success : result.success = true)
    (more : (boundReached maxRep (count + 1) || decide (after.position = start.position)) = false) :
    SameEnd (repeatLoop skip child maxRep node (fuel + 1) count last here)
      (repeatLoop skip child maxRep node fuel (count + 1) after.position
        (pushChild node result.tree after)) := by
  refine (loop_iteration iteration).trans ?_
  rw [afterIteration, if_pos success]
  have read : (Comp.read Context.position after : Run (Moment CharT) _ Exn _) =
      ⟨.returned after.position, after, []⟩ := rfl
  refine (bind_end read).trans ?_
  rw [if_neg (by simp [more])]
  exact ⟨rfl, rfl⟩

/-- The iterations of an unbounded repetition that matched and moved: their
number, the end of the last one, and the context after it. -/
inductive Matched (skip : Parser CharT Unit) (child : Parser CharT ParseResult) (node : NodePtr)
    (entered : Context CharT) : Nat → Nat → Context CharT → Prop
  | none : Matched skip child node entered 0 entered.position entered
  | next {count last here start after result} : Matched skip child node entered count last here →
      Iteration skip child count here start after result → result.success = true →
      after.position ≠ start.position →
      Matched skip child node entered (count + 1) after.position (pushChild node result.tree after)

theorem not_bound_reached (unbounded : maxRep ≤ 0) (count : Nat) :
    boundReached maxRep count = false := by
  simp [boundReached, Int.not_lt.mpr unbounded]

/-- A loop goes through the iterations that matched below its bound. -/
theorem matched_loop {entered here : Context CharT} {count last : Nat}
    (matched : Matched skip child node entered count last here)
    (below : ∀ earlier, earlier ≤ count → boundReached maxRep earlier = false) (left : Nat) :
    SameEnd (repeatLoop skip child maxRep node (left + count) 0 entered.position entered)
      (repeatLoop skip child maxRep node left count last here) := by
  induction matched generalizing left with
  | none => exact ⟨rfl, rfl⟩
  | next _ iteration success moved induction =>
      have earlier := induction (fun _ fewer => below _ (Nat.le_succ_of_le fewer)) (left + 1)
      rw [Nat.add_right_comm] at earlier
      refine earlier.trans (loop_continues iteration success ?_)
      rw [below _ (Nat.le_refl _), Bool.false_or]
      exact decide_eq_false moved

/-- An iteration from outside: where the child starts, where it ends, and whether it
matched. -/
structure Performed where
  start : Nat
  stop : Nat
  matched : Bool
deriving DecidableEq

def iterations (skip : Parser CharT Unit) (child : Parser CharT ParseResult) (maxRep : Int)
    (node : NodePtr) : Nat → Nat → Context CharT → List Performed
  | 0, _, _ => []
  | fuel + 1, count, here =>
      match Comp.onlyIf (0 < count) skip here with
      | ⟨.returned (), start, _⟩ =>
          match child (start.setCut false) with
          | ⟨.returned result, after, _⟩ =>
              ⟨start.position, after.position, result.success⟩ ::
                if result.success = true ∧
                    (boundReached maxRep (count + 1) || decide (after.position = start.position)) = false
                then iterations skip child maxRep node fuel (count + 1)
                  (pushChild node result.tree after)
                else []
          | _ => []
      | _ => []

theorem loop_trace {fuel count last : Nat} {here start after : Context CharT} {result : ParseResult}
    {log log' : List (Moment CharT)}
    (skipped : Comp.onlyIf (0 < count) skip here = ⟨.returned (), start, log⟩)
    (parsed : child (start.setCut false) = ⟨.returned result, after, log'⟩) :
    (repeatLoop skip child maxRep node (fuel + 1) count last here).trace =
      log ++ (log' ++
        (afterIteration skip child maxRep node fuel count last start.position result after).trace) := by
  have read : (Comp.read Context.position start : Run (Moment CharT) _ Exn _) =
      ⟨.returned start.position, start, []⟩ := rfl
  have reset : (Comp.modify (fun context => context.setCut false) start :
      Run (Moment CharT) _ Exn _) = ⟨.returned (), start.setCut false, []⟩ := rfl
  rw [repeatLoop, Comp.bind_returned skipped, Comp.bind_returned read, Comp.bind_returned reset,
    Comp.bind_returned parsed]
  rfl

theorem after_iteration_trace {fuel count last startState : Nat} {after : Context CharT}
    {result : ParseResult} (success : result.success = true)
    (more : (boundReached maxRep (count + 1) || decide (after.position = startState)) = false) :
    (afterIteration skip child maxRep node fuel count last startState result after).trace =
      (repeatLoop skip child maxRep node fuel (count + 1) after.position
        (pushChild node result.tree after)).trace := by
  have read : (Comp.read Context.position after : Run (Moment CharT) _ Exn _) =
      ⟨.returned after.position, after, []⟩ := rfl
  have pushed : (Comp.modify (pushChild node result.tree) after : Run (Moment CharT) _ Exn _) =
      ⟨.returned (), pushChild node result.tree after, []⟩ := rfl
  rw [afterIteration, if_pos success, Comp.bind_returned read, Comp.bind_returned pushed,
    if_neg (by rw [more]; exact Bool.false_ne_true)]
  rfl

/-- The context in which the loop of a repetition starts, in a scope of its own and
with a node of its own. -/
def entered (context : Context CharT) : Context CharT :=
  markStart context.initCut.makeNode.1 context.initCut.makeNode.2

/-- The minimum check and what follows it. -/
def repeatEnd (minRep : Nat) (maxRep : Int) (initState : Nat) (node : NodePtr) (ended : LoopExit) :
    Parser CharT ParseResult :=
  if ended.loopCount < minRep then do
    Comp.modify fun context => context.reset initState
    pure ⟨false, none⟩
  else repeatFinish maxRep node ended

theorem guarded_end {Value : Type} {body : Parser CharT Value}
    {cleanup : Context CharT → Context CharT} {context : Context CharT}
    {run : Run (Moment CharT) (Context CharT) Exn Value} (same : SameEnd (body context) run)
    (ended : run.outcome ≠ .exhausted) :
    SameEnd (Comp.guarded body cleanup context) ⟨run.outcome, cleanup run.state, []⟩ := by
  unfold Comp.guarded
  obtain ⟨outcomes, states⟩ := same
  rcases here : body context with ⟨outcome, last, log⟩
  rw [here] at outcomes states
  dsimp only at outcomes states
  cases outcome with
  | returned value => exact ⟨outcomes, congrArg cleanup states⟩
  | thrown exn => exact ⟨outcomes, congrArg cleanup states⟩
  | exhausted => exact absurd outcomes.symm ended

theorem guarded_trace {Value : Type} (body : Parser CharT Value)
    (cleanup : Context CharT → Context CharT) (context : Context CharT) :
    (Comp.guarded body cleanup context).trace = (body context).trace := by
  unfold Comp.guarded
  rcases body context with ⟨outcome, last, log⟩
  cases outcome <;> rfl

theorem first_trace {Value Other : Type} {first : Parser CharT Value}
    {next : Value → Parser CharT Other} {context : Context CharT} {moment : Moment CharT}
    (member : moment ∈ (first context).trace) : moment ∈ ((first >>= next) context).trace := by
  rcases run : first context with ⟨outcome, middle, log⟩
  rw [run] at member
  cases outcome with
  | returned value =>
      rw [Comp.bind_returned run]
      exact List.mem_append_left _ member
  | thrown exn => rw [Comp.bind_thrown run]; exact member
  | exhausted => rw [Comp.bind_exhausted run]; exact member

theorem repeat_trace {fuel minRep : Nat} {context : Context CharT} {moment : Moment CharT}
    (member : moment ∈ (repeatLoop skip child maxRep context.initCut.makeNode.1 fuel 0
      context.position (entered context)).trace) :
    moment ∈ (repeatParseImpl fuel skip child minRep maxRep context).trace := by
  have opened : (Comp.modify Context.initCut context : Run (Moment CharT) _ Exn _) =
      ⟨.returned (), context.initCut, []⟩ := rfl
  have read : (Comp.read Context.position context.initCut : Run (Moment CharT) _ Exn _) =
      ⟨.returned context.position, context.initCut, []⟩ := rfl
  have made : (Comp.modifyGet Context.makeNode context.initCut : Run (Moment CharT) _ Exn _) =
      ⟨.returned context.initCut.makeNode.1, context.initCut.makeNode.2, []⟩ := rfl
  have marked : (Comp.modify (markStart context.initCut.makeNode.1) context.initCut.makeNode.2 :
      Run (Moment CharT) _ Exn _) = ⟨.returned (), entered context, []⟩ := rfl
  rw [repeatParseImpl, Comp.bind_returned opened]
  simp only [guarded_trace, List.nil_append]
  rw [Comp.bind_returned read, Comp.bind_returned made, Comp.bind_returned marked]
  simp only [List.nil_append]
  exact first_trace member

theorem remove_cut_position (context : Context CharT) :
    context.removeCut.position = context.position := by
  unfold Context.removeCut
  split
  · rfl
  · split_ifs <;> rfl

/-- A repetition ends as its loop lets it end. -/
theorem repeat_after_loop {fuel minRep : Nat} {context last : Context CharT} {ended : LoopExit}
    (loop : SameEnd (repeatLoop skip child maxRep context.initCut.makeNode.1 fuel 0
      context.position (entered context)) ⟨.returned ended, last, []⟩)
    (finished : (repeatEnd minRep maxRep context.position context.initCut.makeNode.1 ended
      last).outcome ≠ .exhausted) :
    SameEnd (repeatParseImpl fuel skip child minRep maxRep context)
      ⟨(repeatEnd minRep maxRep context.position context.initCut.makeNode.1 ended last).outcome,
        (repeatEnd minRep maxRep context.position context.initCut.makeNode.1 ended
          last).state.removeCut, []⟩ := by
  rcases run : repeatLoop skip child maxRep context.initCut.makeNode.1 fuel 0 context.position
    (entered context) with ⟨outcome, final, log⟩
  rw [run] at loop
  obtain ⟨rfl, rfl⟩ : outcome = .returned ended ∧ final = last := loop
  have opened : (Comp.modify Context.initCut context : Run (Moment CharT) _ Exn _) =
      ⟨.returned (), context.initCut, []⟩ := rfl
  rw [repeatParseImpl]
  refine (bind_end opened).trans (guarded_end ?_ finished)
  have read : (Comp.read Context.position context.initCut : Run (Moment CharT) _ Exn _) =
      ⟨.returned context.position, context.initCut, []⟩ := rfl
  have made : (Comp.modifyGet Context.makeNode context.initCut : Run (Moment CharT) _ Exn _) =
      ⟨.returned context.initCut.makeNode.1, context.initCut.makeNode.2, []⟩ := rfl
  have marked : (Comp.modify (markStart context.initCut.makeNode.1) context.initCut.makeNode.2 :
      Run (Moment CharT) _ Exn _) = ⟨.returned (), entered context, []⟩ := rfl
  exact (bind_end read).trans ((bind_end made).trans ((bind_end marked).trans (bind_end run)))

/-- The node of a repetition is cut back to the iterations that matched. -/
def rewound (node : NodePtr) (count last : Nat) (context : Context CharT) : Context CharT :=
  (context.reset last).updateNode node (resizeChildren count)

theorem raise_run (context : Context CharT) :
    (raiseIfCommitted : Parser CharT Unit) context =
      if context.cut = true then
        ⟨.thrown (.parseError context.errors.furthestFailurePos context.errors.expected), context,
          [⟨.failure, context⟩]⟩
      else ⟨.returned (), context, [⟨.failure, context⟩]⟩ := by
  rw [raiseIfCommitted, announce,
    Comp.bind_returned (show Comp.announce _ context = ⟨.returned (), context, _⟩ from rfl),
    Comp.bind_returned (show Comp.read id context = ⟨.returned context, context, []⟩ from rfl)]
  unfold Comp.onlyIf
  split_ifs <;> rfl

theorem finish_failed (unbounded : maxRep < 0) (node : NodePtr) (count last : Nat)
    (context : Context CharT) :
    SameEnd (repeatFinish maxRep node ⟨count, true, last⟩ context)
      (if context.cut = true then
        ⟨.thrown (.parseError context.errors.furthestFailurePos context.errors.expected),
          rewound node count last context, []⟩
      else ⟨.returned ⟨true, some node⟩, markEnd node (rewound node count last context), []⟩) := by
  have rewinds : (Comp.onlyIf ((⟨count, true, last⟩ : LoopExit).exitedViaFailure = true)
      (Comp.modify fun context => rewound node count last context) context :
        Run (Moment CharT) _ Exn _) = ⟨.returned (), rewound node count last context, []⟩ := rfl
  have checks : (Comp.onlyIf (maxRep < 0 ∧ (⟨count, true, last⟩ : LoopExit).exitedViaFailure = true)
      raiseIfCommitted : Parser CharT Unit) = raiseIfCommitted := if_pos ⟨unbounded, rfl⟩
  have raised := raise_run (rewound node count last context)
  have cut : (rewound node count last context).cut = context.cut := rfl
  rw [repeatFinish, checks]
  refine (bind_end rewinds).trans ?_
  rw [cut] at raised
  split_ifs at raised ⊢ with committed
  · rw [Comp.bind_thrown raised]
    exact ⟨rfl, rfl⟩
  · exact bind_end raised

theorem finish_uncommitted (maxRep : Int) (node : NodePtr) (count last : Nat)
    {context : Context CharT} (uncommitted : context.cut = false) :
    SameEnd (repeatFinish maxRep node ⟨count, true, last⟩ context)
      ⟨.returned ⟨true, some node⟩, markEnd node (rewound node count last context), []⟩ := by
  have rewinds : (Comp.onlyIf ((⟨count, true, last⟩ : LoopExit).exitedViaFailure = true)
      (Comp.modify fun context => rewound node count last context) context :
        Run (Moment CharT) _ Exn _) = ⟨.returned (), rewound node count last context, []⟩ := rfl
  have raised := raise_run (rewound node count last context)
  have cut : (rewound node count last context).cut = context.cut := rfl
  rw [cut, uncommitted, if_neg Bool.false_ne_true] at raised
  rw [repeatFinish]
  refine (bind_end rewinds).trans ?_
  by_cases checked : maxRep < 0 ∧ (⟨count, true, last⟩ : LoopExit).exitedViaFailure = true
  · rw [Comp.onlyIf, if_pos checked]
    exact bind_end raised
  · rw [Comp.onlyIf, if_neg checked]
    exact ⟨rfl, rfl⟩

theorem finish_stopped (maxRep : Int) (node : NodePtr) (count last : Nat) (context : Context CharT) :
    SameEnd (repeatFinish maxRep node ⟨count, false, last⟩ context)
      ⟨.returned ⟨true, some node⟩, markEnd node context, []⟩ := by
  have checked : ¬(maxRep < 0 ∧ (⟨count, false, last⟩ : LoopExit).exitedViaFailure = true) :=
    fun both => nomatch both.2
  rw [repeatFinish]
  have rewinds : (Comp.onlyIf ((⟨count, false, last⟩ : LoopExit).exitedViaFailure = true)
      (Comp.modify fun context => rewound node count last context) context :
        Run (Moment CharT) _ Exn _) = ⟨.returned (), context, []⟩ := rfl
  refine (bind_end rewinds).trans ?_
  rw [Comp.onlyIf, if_neg checked]
  exact ⟨rfl, rfl⟩

end Peglib.Repetitions
