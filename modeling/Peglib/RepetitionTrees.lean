import Mathlib.Data.List.ReduceOption
import Peglib.ChildLists
import Peglib.Repetitions

/-!
# The children of a repetition

The node of a repetition gets the trees of its iterations in order. An iteration
may match without a tree; when the loop ends by a failure, `resize` cuts the
children back to the number of iterations and pads with null where there are fewer.
-/

namespace Peglib.RepetitionTrees

open Peglib.TracedComputation Peglib.ParseError Peglib.ParseContext Peglib.Expressions
open Peglib.Rules Peglib.Repetitions Peglib.ChildLists Peglib.Preservation

set_option autoImplicit false

variable {CharT NodeType : Type} {skip : Parser CharT Unit} {child : Parser CharT ParseResult}
  {maxRep : Int} {node : NodePtr}

/-- The loop of a repetition without a budget: the trees that its successful
iterations returned, how it ends and in which context. -/
inductive Repeats (skip : Parser CharT Unit) (child : Parser CharT ParseResult) (maxRep : Int)
    (node : NodePtr) : Nat → Nat → Context CharT → List (Option NodePtr) → LoopExit →
      Context CharT → Prop
  | failed {count last here start after result} :
      Iteration skip child count here start after result → result.success = false →
      Repeats skip child maxRep node count last here [] ⟨count, true, last⟩ after
  | stopped {count last here start after result} :
      Iteration skip child count here start after result → result.success = true →
      (boundReached maxRep (count + 1) || decide (after.position = start.position)) = true →
      Repeats skip child maxRep node count last here [result.tree]
        ⟨count + 1, false, after.position⟩ (pushChild node result.tree after)
  | again {count last here start after result trees ended final} :
      Iteration skip child count here start after result → result.success = true →
      (boundReached maxRep (count + 1) || decide (after.position = start.position)) = false →
      Repeats skip child maxRep node (count + 1) after.position
        (pushChild node result.tree after) trees ended final →
      Repeats skip child maxRep node count last here (result.tree :: trees) ended final

/-- A loop that returns has gone through iterations. -/
theorem loop_repeats {fuel count last : Nat} {here : Context CharT} {ended : LoopExit}
    (returned : (repeatLoop skip child maxRep node fuel count last here).outcome =
      .returned ended) :
    ∃ trees, Repeats skip child maxRep node count last here trees ended
      (repeatLoop skip child maxRep node fuel count last here).state := by
  induction fuel generalizing count last here with
  | zero => cases returned
  | succ fuel induction =>
      have unfolded := returned
      rw [repeatLoop] at unfolded
      obtain ⟨_, start, log, skipped, unfolded⟩ := Comp.returned_of_bind unfolded
      obtain ⟨_, _, _, ⟨⟩, unfolded⟩ := Comp.returned_of_bind unfolded
      obtain ⟨_, _, _, ⟨⟩, unfolded⟩ := Comp.returned_of_bind unfolded
      obtain ⟨result, after, log', parsed, -⟩ := Comp.returned_of_bind unfolded
      have iteration : Iteration skip child count here start after result :=
        ⟨⟨log, skipped⟩, ⟨log', parsed⟩⟩
      cases success : result.success with
      | false =>
          obtain ⟨outcome, state⟩ := @loop_fails _ skip child maxRep node fuel count last _ _ _ _
            iteration success
          rw [outcome] at returned
          cases returned
          rw [state]
          exact ⟨[], .failed iteration success⟩
      | true =>
          cases stop : boundReached maxRep (count + 1) || decide (after.position = start.position) with
          | true =>
              obtain ⟨outcome, state⟩ := @loop_stops _ skip child maxRep node fuel count last _ _ _ _
                iteration success stop
              rw [outcome] at returned
              cases returned
              rw [state]
              exact ⟨[result.tree], .stopped iteration success stop⟩
          | false =>
              obtain ⟨outcome, state⟩ := @loop_continues _ skip child maxRep node fuel count last
                _ _ _ _ iteration success stop
              rw [outcome] at returned
              obtain ⟨trees, repeats⟩ := induction returned
              rw [state]
              exact ⟨result.tree :: trees, .again iteration success stop repeats⟩

section Children

theorem iteration_spares (skipSparing : Sparing (node + 1) skip)
    (childSparing : Sparing (node + 1) child) {count : Nat} {here start after : Context CharT}
    {result : ParseResult} (iteration : Iteration skip child count here start after result)
    (made : node < here.nodeArena.length) :
    node < after.nodeArena.length ∧ childrenOf after node = childrenOf here node := by
  obtain ⟨log, skipped⟩ := iteration.skipped
  obtain ⟨log', parsed⟩ := iteration.parsed
  have first : Spares (node + 1) here start := by
    have step := (preserves_onlyIf fun _ => skipSparing :
      Sparing (node + 1) (Comp.onlyIf (0 < count) skip)).returned (congrArg Run.outcome skipped)
    rwa [skipped] at step
  have third : Spares (node + 1) (start.setCut false) after := by
    have step := childSparing.returned (congrArg Run.outcome parsed)
    rwa [parsed] at step
  have whole := spares_trans _ _ _ first
    (spares_trans _ _ _ (spares_arena (set_cut_arena false start)) third)
  obtain ⟨there, kept⟩ := whole made
  exact ⟨there, kept node (Nat.lt_succ_self node)⟩

theorem children_push (tree : Option NodePtr) (context : Context CharT) :
    childrenOf (pushChild node tree context) node =
      (childrenOf context node).map (· ++ tree.toList.map some) := by
  cases tree with
  | none =>
      cases held : childrenOf context node <;> simp [pushChild, held]
  | some found =>
      unfold pushChild
      rw [children_update, if_pos rfl]
      unfold childrenOf
      rw [Option.map_map]
      rfl

theorem Repeats.children {count last : Nat} {here final : Context CharT}
    {trees : List (Option NodePtr)} {ended : LoopExit} (skipSparing : Sparing (node + 1) skip)
    (childSparing : Sparing (node + 1) child)
    (repeats : Repeats skip child maxRep node count last here trees ended final)
    (made : node < here.nodeArena.length) :
    ended.loopCount = count + trees.length ∧
      childrenOf final node = (childrenOf here node).map (· ++ trees.reduceOption.map some) := by
  induction repeats with
  | failed iteration _ =>
      obtain ⟨-, kept⟩ := iteration_spares skipSparing childSparing iteration made
      exact ⟨rfl, by simp [kept]⟩
  | @stopped count last here start after result iteration _ _ =>
      obtain ⟨-, kept⟩ := iteration_spares skipSparing childSparing iteration made
      refine ⟨rfl, ?_⟩
      rw [children_push, kept]
      cases result.tree <;> rfl
  | @again count last here start after result trees ended final iteration _ _ _ induction =>
      obtain ⟨made', kept⟩ := iteration_spares skipSparing childSparing iteration made
      have madePushed : node < (pushChild node result.tree after).nodeArena.length := by
        cases result.tree with
        | none => exact made'
        | some found => simpa [pushChild, Context.updateNode] using made'
      obtain ⟨total, appended⟩ := induction madePushed
      refine ⟨by rw [total, List.length_cons]; omega, ?_⟩
      rw [appended, children_push, kept]
      cases result.tree <;> cases childrenOf here node <;> simp

theorem Repeats.counts {count last : Nat} {here final : Context CharT}
    {trees : List (Option NodePtr)} {ended : LoopExit}
    (repeats : Repeats skip child maxRep node count last here trees ended final) :
    count ≤ ended.loopCount := by
  induction repeats with
  | failed _ _ => exact Nat.le_refl _
  | stopped _ _ _ => exact Nat.le_succ _
  | again _ _ _ _ induction => exact Nat.le_of_succ_le induction

end Children

section Finish

theorem finish_bounded (bounded : ¬maxRep < 0) (node : NodePtr) (count last : Nat)
    (context : Context CharT) :
    SameEnd (repeatFinish maxRep node ⟨count, true, last⟩ context)
      ⟨.returned ⟨true, some node⟩, markEnd node (rewound node count last context), []⟩ := by
  have checked : ¬(maxRep < 0 ∧ (⟨count, true, last⟩ : LoopExit).exitedViaFailure = true) :=
    fun both => bounded both.1
  have rewinds : (Comp.onlyIf ((⟨count, true, last⟩ : LoopExit).exitedViaFailure = true)
      (Comp.modify fun context => rewound node count last context) context :
        Run (Moment CharT) _ Exn _) = ⟨.returned (), rewound node count last context, []⟩ := rfl
  rw [repeatFinish]
  refine (bind_end rewinds).trans ?_
  rw [Comp.onlyIf, if_neg checked]
  exact ⟨rfl, rfl⟩

/-- A repetition that returns after a failure has cut its node back. -/
theorem finish_returned {count last : Nat} {context : Context CharT} {result : ParseResult}
    (returned : (repeatFinish maxRep node ⟨count, true, last⟩ context).outcome = .returned result) :
    SameEnd (repeatFinish maxRep node ⟨count, true, last⟩ context)
      ⟨.returned ⟨true, some node⟩, markEnd node (rewound node count last context), []⟩ := by
  by_cases unbounded : maxRep < 0
  · have failed := finish_failed unbounded node count last context
    cases committed : context.cut with
    | false => exact finish_uncommitted maxRep node count last committed
    | true =>
        rw [if_pos committed] at failed
        rw [failed.1] at returned
        cases returned
  · exact finish_bounded unbounded node count last context

theorem children_mark_end (context : Context CharT) :
    childrenOf (markEnd node context) node = childrenOf context node := by
  unfold markEnd
  rw [children_update, if_pos rfl]
  rfl

theorem children_rewound (count last : Nat) (context : Context CharT) :
    childrenOf (rewound node count last context) node =
      (childrenOf context node).map fun children =>
        children.take count ++ List.replicate (count - children.length) none := by
  unfold rewound
  rw [children_update, if_pos rfl]
  unfold childrenOf
  rw [Option.map_map]
  rfl

theorem finish_ends (maxRep : Int) (node : NodePtr) (ended : LoopExit) (context : Context CharT) :
    (repeatFinish maxRep node ended context).outcome ≠ .exhausted := by
  obtain ⟨count, viaFailure, last⟩ := ended
  cases viaFailure with
  | false =>
      rw [(finish_stopped maxRep node count last context).1]
      exact nofun
  | true =>
      by_cases unbounded : maxRep < 0
      · rw [(finish_failed unbounded node count last context).1]
        split_ifs <;> exact nofun
      · rw [(finish_bounded unbounded node count last context).1]
        exact nofun

theorem finish_children {ended : LoopExit} {context : Context CharT} {result : ParseResult}
    (returned : (repeatFinish maxRep node ended context).outcome = .returned result) :
    result.tree = some node ∧
      childrenOf (repeatFinish maxRep node ended context).state node =
        (childrenOf context node).map fun children =>
          if ended.exitedViaFailure = true then
            children.take ended.loopCount ++
              List.replicate (ended.loopCount - children.length) none
          else children := by
  obtain ⟨count, viaFailure, last⟩ := ended
  cases viaFailure with
  | false =>
      have stopped := finish_stopped maxRep node count last context
      rw [stopped.1] at returned
      cases returned
      rw [stopped.2]
      refine ⟨rfl, (children_mark_end context).trans ?_⟩
      cases childrenOf context node <;> rfl
  | true =>
      have cutBack := finish_returned returned
      rw [cutBack.1] at returned
      cases returned
      rw [cutBack.2]
      exact ⟨rfl, (children_mark_end _).trans (children_rewound count last context)⟩

/-- Where no tree is missing the children are the trees. -/
theorem padded_iff (trees : List (Option NodePtr)) :
    ((trees.reduceOption.map some).take trees.length ++
        List.replicate (trees.length - (trees.reduceOption.map some).length) none =
      trees.reduceOption.map some) ↔ none ∉ trees := by
  have shorter : (trees.reduceOption.map some).length ≤ trees.length := by
    rw [List.length_map]
    exact trees.reduceOption_length_le
  have full : trees.length - (trees.reduceOption.map some).length = 0 ↔
      trees.reduceOption.length = trees.length := by
    rw [List.length_map] at shorter ⊢
    omega
  rw [List.take_of_length_le shorter, List.append_right_eq_self, List.replicate_eq_nil_iff, full,
    List.reduceOption_length_eq_iff]
  constructor
  · exact fun each missing => absurd (each none missing) Bool.false_ne_true
  · intro none_out tree member
    cases tree with
    | none => exact absurd member none_out
    | some _ => rfl

theorem guarded_returned {Value : Type} {body : Parser CharT Value}
    {cleanup : Context CharT → Context CharT} {context : Context CharT} {value : Value}
    (returned : (Comp.guarded body cleanup context).outcome = .returned value) :
    (body context).outcome = .returned value := by
  unfold Comp.guarded at returned
  rcases run : body context with ⟨outcome, last, log⟩
  rw [run] at returned
  cases outcome with
  | returned found => exact returned
  | thrown exn => cases returned
  | exhausted => cases returned

theorem loop_of_repetition {fuel minRep : Nat} {context : Context CharT} {result : ParseResult}
    (returned : (repeatParseImpl fuel skip child minRep maxRep context).outcome = .returned result) :
    ∃ ended last log, repeatLoop skip child maxRep context.initCut.makeNode.1 fuel 0
      context.position (entered context) = ⟨.returned ended, last, log⟩ := by
  rw [repeatParseImpl] at returned
  obtain ⟨_, _, _, ⟨⟩, returned⟩ := Comp.returned_of_bind returned
  have body := guarded_returned returned
  obtain ⟨_, _, _, ⟨⟩, body⟩ := Comp.returned_of_bind body
  obtain ⟨_, _, _, ⟨⟩, body⟩ := Comp.returned_of_bind body
  obtain ⟨_, _, _, ⟨⟩, body⟩ := Comp.returned_of_bind body
  obtain ⟨ended, last, log, run, -⟩ := Comp.returned_of_bind body
  exact ⟨ended, last, log, run⟩

end Finish

section Exactness

variable [PegValue CharT]

/-- The children of a repetition that matches are the trees of its successful
iterations in order, unless the loop ends by a failure after an iteration that
matched without a tree. -/
theorem repetition_children_iff (grammar : Grammar CharT NodeType) (kind : RepKind)
    (expr : Expr CharT) {fuel : Nat} {context : Context CharT} {result : ParseResult}
    (returned : (grammar.eval fuel (.repetition kind expr) context).outcome = .returned result)
    (success : result.success = true) :
    ∃ node trees ended last, result.tree = some node ∧
      Repeats (runSkipper (grammar.apply fuel)) (grammar.eval fuel expr) kind.maxRep node 0
        context.position (entered context) trees ended last ∧
      (childrenOf (grammar.eval fuel (.repetition kind expr) context).state node =
          some (trees.reduceOption.map some) ↔
        ¬(ended.exitedViaFailure = true ∧ none ∈ trees)) := by
  have parsed : grammar.eval fuel (.repetition kind expr) =
      repeatParseImpl fuel (runSkipper (grammar.apply fuel)) (grammar.eval fuel expr) kind.minRep
        kind.maxRep := rfl
  rw [parsed] at returned ⊢
  obtain ⟨ended, last, log, run⟩ := loop_of_repetition returned
  obtain ⟨trees, repeats⟩ := loop_repeats (congrArg Run.outcome run)
  rw [run] at repeats
  have made : context.initCut.makeNode.1 < (entered context).nodeArena.length := by
    simp [entered, markStart, Context.updateNode, Context.makeNode]
  have empty : childrenOf (entered context) context.initCut.makeNode.1 = some [] := by
    simp [entered, markStart, childrenOf, Context.updateNode, Context.makeNode]
  obtain ⟨count, children⟩ := repeats.children (skip_sparing (apply_sparing grammar fuel))
    (eval_sparing grammar fuel expr) made
  rw [empty, Option.map_some, List.nil_append] at children
  have loop : SameEnd (repeatLoop (runSkipper (grammar.apply fuel)) (grammar.eval fuel expr)
      kind.maxRep context.initCut.makeNode.1 fuel 0 context.position (entered context))
      ⟨.returned ended, last, []⟩ := by
    rw [run]
    exact ⟨rfl, rfl⟩
  have after := @repeat_after_loop _ _ _ _ _ kind.minRep context last ended loop
  unfold repeatEnd at after
  by_cases few : ended.loopCount < kind.minRep
  · rw [if_pos few] at after
    have failed := (after (by rintro ⟨⟩)).1
    rw [returned] at failed
    cases failed
    cases success
  · rw [if_neg few] at after
    obtain ⟨outcome, state⟩ := after (finish_ends _ _ _ _)
    rw [returned] at outcome
    obtain ⟨tree, left⟩ := finish_children outcome.symm
    refine ⟨_, trees, ended, last, tree, repeats, ?_⟩
    have kept : childrenOf (repeatParseImpl fuel (runSkipper (grammar.apply fuel))
        (grammar.eval fuel expr) kind.minRep kind.maxRep context).state context.initCut.makeNode.1 =
        childrenOf (repeatFinish kind.maxRep context.initCut.makeNode.1 ended last).state
          context.initCut.makeNode.1 := by
      rw [state]
      unfold childrenOf
      rw [remove_cut_arena]
    rw [kept, left, children, Option.map_some, Option.some_inj]
    cases ended.exitedViaFailure with
    | false => simp
    | true =>
        rw [if_pos rfl, count, Nat.zero_add, padded_iff]
        simp

end Exactness

def noRules : Grammar UInt8 Unit where
  rules := []

/-- A terminal matches without a tree, and so the child list holds a null. -/
theorem null_child :
    let run := noRules.eval 3 (.repetition .zeroOrMore (.terminal (.value 97))) (Context.fresh [97])
    run.outcome.value? = some ⟨true, some 0⟩ ∧ childrenOf run.state 0 = some [none] := by
  decide +kernel

/-- Tokens have trees. -/
theorem token_children :
    let run := noRules.eval 4 (.repetition .oneOrMore (.token (.value 97))) (Context.fresh [97, 97])
    ∃ node trees ended last,
      Repeats (runSkipper (noRules.apply 4)) (noRules.eval 4 (.token (.value 97))) (-1) node 0 0
        (entered (Context.fresh [97, 97])) trees ended last ∧
      (childrenOf run.state node = some (trees.reduceOption.map some) ↔
        ¬(ended.exitedViaFailure = true ∧ none ∈ trees)) := by
  obtain ⟨node, trees, ended, last, -, repeats, exact_iff⟩ :=
    repetition_children_iff noRules .oneOrMore (.token (.value 97))
      (Outcome.value_eq_some.mp (by decide +kernel :
        (noRules.eval 4 (.repetition .oneOrMore (.token (.value 97)))
          (Context.fresh [97, 97])).outcome.value? = some ⟨true, some 0⟩)) rfl
  exact ⟨node, trees, ended, last, repeats, exact_iff⟩

end Peglib.RepetitionTrees
