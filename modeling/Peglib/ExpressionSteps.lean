import Peglib.Preservation
import Peglib.Rules

/-!
# Relations kept by every expression

A relation between contexts that the incidental steps, the cut scopes and the
toggling of the skip flag keep is kept by every expression whose rule
applications keep it.
-/

namespace Peglib.ExpressionSteps

open Peglib.TracedComputation Peglib.WeakestPrecondition Peglib.Preservation
open Peglib.ParseError Peglib.ParseError.Errors Peglib.ParseContext Peglib.Expressions

set_option autoImplicit false

variable {CharT : Type}

/-- An expression part that refers to rules of the set only and is no cut. -/
def Sealed (reach : RuleId → Prop) : Expr CharT → Prop
  | .rule id => reach id
  | .cut => False
  | _ => True

/-- A step that touches the position, the arena and the error record only. -/
structure Incidental (before after : Context CharT) : Prop where
  input : after.input = before.input
  mem : after.mem = before.mem
  cutStack : after.cutStack = before.cutStack
  lrStack : after.lrStack = before.lrStack
  growingHead : after.growingHead = before.growingHead
  skipper : after.skipper = before.skipper
  skipEnabled : after.skipEnabled = before.skipEnabled
  errors : before.errors.hasError = true → after.errors.hasError = true

theorem Incidental.refl (context : Context CharT) : Incidental context context :=
  ⟨rfl, rfl, rfl, rfl, rfl, rfl, rfl, id⟩

/-- A relation that contains the incidental steps that record nothing. -/
class UnrecordedClosed (kept : Context CharT → Context CharT → Prop) : Prop where
  unrecorded : ∀ before after, Incidental before after → after.errors = before.errors →
    kept before after

class IncidentalClosed (kept : Context CharT → Context CharT → Prop) : Prop where
  incidental : ∀ before after, Incidental before after → kept before after

instance {kept : Context CharT → Context CharT → Prop} [closed : IncidentalClosed kept] :
    UnrecordedClosed kept where
  unrecorded before after step _ := closed.incidental before after step

/-- A relation that contains the single steps of expressions. -/
class StepClosed (kept : Context CharT → Context CharT → Prop) : Prop
    extends IncidentalClosed kept where
  commits : ∀ context committed, kept context (context.setCut committed)

/-- What a pair of relations owes to be kept by expressions. -/
class ExprClosed (kept thrown : Context CharT → Context CharT → Prop) : Prop
    extends Composable kept thrown, StepClosed kept where
  enclosed : ∀ context last, kept context.initCut last → kept context last.removeCut
  unwound : ∀ context last, thrown context.initCut last → thrown context last.removeCut
  muted : ∀ context last, kept { context with skipEnabled := false } last →
    kept context { last with skipEnabled := context.skipEnabled }
  unmuted : ∀ context last, thrown { context with skipEnabled := false } last →
    thrown context { last with skipEnabled := context.skipEnabled }
  silenced : ∀ context last, thrown { context with skipEnabled := false } last →
    thrown context last
  raised : ∀ context, thrown context context

section Steps

variable {kept : Context CharT → Context CharT → Prop} [closed : UnrecordedClosed kept]

theorem reset_kept (pos : Nat) (context : Context CharT) : kept context (context.reset pos) :=
  closed.unrecorded _ _ ⟨rfl, rfl, rfl, rfl, rfl, rfl, rfl, id⟩ rfl

theorem next_kept (context : Context CharT) : kept context context.next := by
  unfold Context.next
  split_ifs
  · exact closed.unrecorded _ _ ⟨rfl, rfl, rfl, rfl, rfl, rfl, rfl, id⟩ rfl
  · exact closed.unrecorded _ _ (.refl context) rfl

theorem make_node_kept (context : Context CharT) : kept context context.makeNode.2 :=
  closed.unrecorded _ _ ⟨rfl, rfl, rfl, rfl, rfl, rfl, rfl, id⟩ rfl

theorem update_node_kept (node : NodePtr) (update : ParseTreeNode → ParseTreeNode)
    (context : Context CharT) : kept context (context.updateNode node update) :=
  closed.unrecorded _ _ ⟨rfl, rfl, rfl, rfl, rfl, rfl, rfl, id⟩ rfl

theorem push_child_kept (node : NodePtr) (tree : Option NodePtr) (context : Context CharT) :
    kept context (pushChild node tree context) := by
  cases tree with
  | none => exact closed.unrecorded _ _ (.refl context) rfl
  | some child => exact update_node_kept node _ context

theorem stamp_winner_kept (tree : Option NodePtr) (index : Nat) (context : Context CharT) :
    kept context (stampWinner tree index context) := by
  cases tree with
  | none => exact closed.unrecorded _ _ (.refl context) rfl
  | some node => exact update_node_kept node _ context

omit closed in
theorem record_failure_kept [closed : IncidentalClosed kept] (pos : Nat) (item : ExpectedItem)
    (context : Context CharT) : kept context (context.recordFailure pos item) :=
  closed.incidental _ _ ⟨rfl, rfl, rfl, rfl, rfl, rfl, rfl, fun _ =>
    record_failure_has_error _ pos item⟩

end Steps

section Leaves

variable {kept thrown : Context CharT → Context CharT → Prop} [Composable kept thrown]

section Silent

variable [UnrecordedClosed kept]

theorem matcher_kept (fn : Context CharT → Span → Option Span) :
    Preserves kept thrown (MatcherExpr.parse fn) := by
  refine preserves_bind (preserves_read _) fun context => ?_
  split
  · refine preserves_bind (preserves_modify (reset_kept _)) fun _ => ?_
    refine preserves_bind (preserves_modifyGet make_node_kept) fun node => ?_
    exact preserves_bind (preserves_modify (update_node_kept _ _)) fun _ => preserves_pure _
  · exact preserves_pure _

theorem match_values_kept [PegValue CharT] (values : List CharT) :
    Preserves kept thrown (TerminalSeqExpr.matchValues values) := by
  induction values with
  | nil => exact preserves_pure true
  | cons value rest induction =>
      refine preserves_bind (preserves_read _) fun matched => preserves_ite (fun _ => ?_) fun _ => ?_
      · exact preserves_bind (preserves_modify next_kept) fun _ => induction
      · exact preserves_pure false

end Silent

variable [IncidentalClosed kept] [PegValue CharT]

theorem terminal_kept (value : TerminalValue CharT) :
    Preserves kept thrown (TerminalExpr.parse value) := by
  refine preserves_bind (preserves_read _) fun matched => preserves_ite (fun _ => ?_) fun _ => ?_
  · exact preserves_bind (preserves_modify next_kept) fun _ => preserves_pure _
  · exact preserves_bind (preserves_modify fun _ => record_failure_kept _ _ _) fun _ => preserves_pure _

theorem terminal_seq_kept (values : List CharT) :
    Preserves kept thrown (TerminalSeqExpr.parse values) := by
  refine preserves_bind (preserves_read _) fun initState => ?_
  refine preserves_bind (match_values_kept values) fun matched =>
    preserves_ite (fun _ => preserves_pure _) fun _ => ?_
  refine preserves_bind (preserves_modify (reset_kept _)) fun _ => ?_
  exact preserves_bind (preserves_modify fun _ => record_failure_kept _ _ _) fun _ => preserves_pure _

theorem token_kept (value : TerminalValue CharT) : Preserves kept thrown (TokenExpr.parse value) := by
  refine preserves_bind (preserves_read _) fun matched => preserves_ite (fun _ => ?_) fun _ => ?_
  · refine preserves_bind (preserves_modify next_kept) fun _ => ?_
    refine preserves_bind (preserves_modifyGet make_node_kept) fun node => ?_
    exact preserves_bind (preserves_modify fun _ => update_node_kept _ _ _) fun _ => preserves_pure _
  · exact preserves_bind (preserves_modify fun _ => record_failure_kept _ _ _) fun _ => preserves_pure _

end Leaves

section Combinators

variable {kept thrown : Context CharT → Context CharT → Prop} [closed : ExprClosed kept thrown]

theorem skip_kept {apply : RuleId → Parser CharT ParseResult}
    (applies : ∀ rule, Preserves kept thrown (apply rule)) : Preserves kept thrown (runSkipper apply) := by
  refine preserves_iff_wp.mpr fun state => ?_
  rw [runSkipper, wp_bind, wp_read]
  dsimp only [id]
  split
  · next skipper enabled configured =>
      rw [wp_bind, wp_modify, wp_bind]
      refine wp_mono (preserves_iff_wp.mp (applies skipper) _) (fun _ => id) (fun _ _ => id)
        (fun _ last => closed.silenced state last) fun result last step => ?_
      rw [wp_modify]
      exact closed.muted state last step
  · exact closed.refl state

theorem parse_seq_kept {skip : Parser CharT Unit} (skipKept : Preserves kept thrown skip)
    (node : NodePtr) (children : List (Parser CharT ParseResult))
    (each : ∀ child ∈ children, Preserves kept thrown child) (index : Nat) :
    Preserves kept thrown (SequenceExpr.parseSeq skip node index children) := by
  induction children generalizing index with
  | nil => exact preserves_pure true
  | cons child rest induction =>
      refine preserves_bind (preserves_onlyIf fun _ => skipKept) fun _ => ?_
      refine preserves_bind (each child (by simp)) fun result => ?_
      refine preserves_ite (fun _ => ?_) fun _ => preserves_pure false
      refine preserves_bind (preserves_modify (push_child_kept node _)) fun _ => ?_
      exact induction (fun other member => each other (by simp [member])) (index + 1)

theorem sequence_kept {skip : Parser CharT Unit} (skipKept : Preserves kept thrown skip)
    (children : List (Parser CharT ParseResult)) (each : ∀ child ∈ children, Preserves kept thrown child) :
    Preserves kept thrown (SequenceExpr.parse skip children) := by
  refine preserves_bind (preserves_read _) fun state => ?_
  refine preserves_bind (preserves_modifyGet make_node_kept) fun node => ?_
  refine preserves_bind (preserves_modify fun _ => update_node_kept _ _ _) fun _ => ?_
  refine preserves_bind (parse_seq_kept skipKept node children each 0) fun matched => ?_
  refine preserves_ite (fun _ => ?_) fun _ => ?_
  · exact preserves_bind (preserves_modify fun _ => update_node_kept _ _ _) fun _ => preserves_pure _
  · exact preserves_bind (preserves_modify (reset_kept _)) fun _ => preserves_pure _

theorem raise_kept : Preserves kept thrown (raiseIfCommitted : Parser CharT Unit) := by
  refine preserves_bind (preserves_announce _) fun _ => preserves_bind (preserves_read _) fun context => ?_
  exact preserves_onlyIf fun _ => preserves_throw closed.raised _

theorem cut_scope_kept {body : Parser CharT ParseResult} (bodyKept : Preserves kept thrown body) :
    Preserves kept thrown
      (Comp.modify Context.initCut >>= fun _ => Comp.guarded body Context.removeCut) :=
  preserves_scope bodyKept closed.enclosed closed.unwound

theorem parse_alt_kept (children : List (Parser CharT ParseResult))
    (each : ∀ child ∈ children, Preserves kept thrown child) (index : Nat) :
    Preserves kept thrown (AlternationExpr.parseAlt index children) := by
  induction children generalizing index with
  | nil => exact preserves_pure _
  | cons child rest induction =>
      refine preserves_bind (each child (by simp)) fun result => preserves_ite (fun _ => ?_) fun _ => ?_
      · exact preserves_bind (preserves_modify (stamp_winner_kept _ _)) fun _ => preserves_pure _
      · refine preserves_bind raise_kept fun _ => ?_
        exact induction (fun other member => each other (by simp [member])) (index + 1)

theorem repeat_loop_kept {skip : Parser CharT Unit} (skipKept : Preserves kept thrown skip)
    {parseChild : Parser CharT ParseResult} (childKept : Preserves kept thrown parseChild) (maxRep : Int)
    (node : NodePtr) (fuel loopCount lastSuccessState : Nat) :
    Preserves kept thrown (repeatLoop skip parseChild maxRep node fuel loopCount lastSuccessState) := by
  induction fuel generalizing loopCount lastSuccessState with
  | zero => exact preserves_exhaust
  | succ fuel induction =>
      refine preserves_bind (preserves_onlyIf fun _ => skipKept) fun _ => ?_
      refine preserves_bind (preserves_read _) fun startState => ?_
      refine preserves_bind (preserves_modify fun _ => closed.commits _ false) fun _ => ?_
      refine preserves_bind childKept fun result => preserves_ite (fun _ => ?_) fun _ => preserves_pure _
      refine preserves_bind (preserves_read _) fun here => ?_
      refine preserves_bind (preserves_modify (push_child_kept node _)) fun _ => ?_
      exact preserves_ite (fun _ => preserves_pure _) fun _ => induction _ _

theorem repeat_finish_kept (maxRep : Int) (node : NodePtr) (ended : LoopExit) :
    Preserves kept thrown (repeatFinish maxRep node ended : Parser CharT ParseResult) := by
  refine preserves_bind (preserves_onlyIf fun _ => preserves_modify fun _ => ?_) fun _ => ?_
  · exact closed.incidental _ _ ⟨rfl, rfl, rfl, rfl, rfl, rfl, rfl, id⟩
  · refine preserves_bind (preserves_onlyIf fun _ => raise_kept) fun _ => ?_
    exact preserves_bind (preserves_modify fun _ => update_node_kept _ _ _) fun _ => preserves_pure _

theorem repeat_kept (fuel : Nat) {skip : Parser CharT Unit} (skipKept : Preserves kept thrown skip)
    {parseChild : Parser CharT ParseResult} (childKept : Preserves kept thrown parseChild) (minRep : Nat)
    (maxRep : Int) : Preserves kept thrown (repeatParseImpl fuel skip parseChild minRep maxRep) := by
  refine cut_scope_kept (preserves_bind (preserves_read _) fun initState => ?_)
  refine preserves_bind (preserves_modifyGet make_node_kept) fun node => ?_
  refine preserves_bind (preserves_modify fun _ => update_node_kept _ _ _) fun _ => ?_
  refine preserves_bind (repeat_loop_kept skipKept childKept maxRep node fuel 0 _) fun ended => ?_
  refine preserves_ite (fun _ => ?_) fun _ => repeat_finish_kept maxRep node ended
  exact preserves_bind (preserves_modify (reset_kept _)) fun _ => preserves_pure _

theorem predicate_kept {parseChild : Parser CharT ParseResult} (childKept : Preserves kept thrown parseChild)
    (negate : Bool) : Preserves kept thrown (predicateParseImpl parseChild negate) := by
  refine preserves_bind (preserves_read _) fun initState => preserves_bind childKept fun result => ?_
  exact preserves_bind (preserves_modify (reset_kept _)) fun _ => preserves_pure _

theorem lexeme_kept {parseChild : Parser CharT ParseResult} (childKept : Preserves kept thrown parseChild) :
    Preserves kept thrown (LexemeExpr.parse parseChild) := by
  refine preserves_iff_wp.mpr fun state => ?_
  rw [LexemeExpr.parse, wp_bind, wp_read, wp_bind, wp_modify, wp_guarded]
  refine wp_mono (preserves_iff_wp.mp childKept _) (fun _ => id) (fun _ _ => id)
    (fun _ last => closed.unmuted state last) fun result last step => ?_
  exact closed.muted state last step

variable [PegValue CharT]

theorem expr_kept {apply : RuleId → Parser CharT ParseResult}
    (applies : ∀ rule, Preserves kept thrown (apply rule)) (fuel : Nat) (expr : Expr CharT) :
    Preserves kept thrown (expr.parse apply fuel) := by
  have all : ∀ children : List (Expr CharT),
      (∀ child ∈ children, Preserves kept thrown (child.parse apply fuel)) →
      ∀ parser ∈ Expr.parseAll apply fuel children, Preserves kept thrown parser := by
    intro children each parser member
    rw [Expr.parse_all_eq_map] at member
    obtain ⟨child, inChildren, rfl⟩ := List.mem_map.mp member
    exact each child inChildren
  induction expr using Expr.induct with
  | terminal value => exact terminal_kept value
  | terminalSeq values => exact terminal_seq_kept values
  | token value => exact token_kept value
  | matcher fn => exact matcher_kept fn
  | empty => exact preserves_pure _
  | cut => exact preserves_bind (preserves_modify fun _ => closed.commits _ true) fun _ => preserves_pure _
  | sequence children induction =>
      exact sequence_kept (skip_kept applies) _ (all children induction)
  | alternation children induction =>
      exact cut_scope_kept (parse_alt_kept _ (all children induction) 0)
  | repetition kind child induction =>
      exact repeat_kept fuel (skip_kept applies) induction kind.minRep kind.maxRep
  | not child induction => exact predicate_kept induction true
  | and child induction => exact predicate_kept induction false
  | lexeme child induction => exact lexeme_kept induction
  | rule id => exact applies id

end Combinators

end Peglib.ExpressionSteps
