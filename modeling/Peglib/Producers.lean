import Peglib.CommittedNodes
import Peglib.Preservation

/-!
# Nodes that no typed rule produced

A rule with a typed action stamps the node it makes, and a rule without one the
node it adopts, if that has no producer yet. So a node that stands for an
expression is never handed to the fold of a rule with a typed action.
-/

namespace Peglib.Producers

open Peglib.TracedComputation Peglib.WeakestPrecondition Peglib.Preservation
open Peglib.ParseError Peglib.ParseContext Peglib.Expressions Peglib.Rules Peglib.CommittedNodes

set_option autoImplicit false

variable {CharT NodeType : Type}

/-- A node whose producer, if it has one, carries no typed action. -/
def Untyped (grammar : Grammar CharT NodeType) (arena : List ParseTreeNode) (node : NodePtr) : Prop :=
  ∃ fields, arena[node]? = some fields ∧
    ∀ rule, fields.producer = some rule → (grammar.nonTerminal rule).typedFold = none

def KeepsUntyped (grammar : Grammar CharT NodeType) (before after : Context CharT) : Prop :=
  ∀ node, Untyped grammar before.nodeArena node → Untyped grammar after.nodeArena node

/-- A parser that leaves untyped nodes untyped, as long as it does not throw. -/
abbrev LeavesUntyped (grammar : Grammar CharT NodeType) {Value : Type} (parser : Parser CharT Value) :
    Prop :=
  Preserves (KeepsUntyped grammar) (fun _ _ => True) parser

instance (grammar : Grammar CharT NodeType) :
    Composable (KeepsUntyped grammar) fun (_ _ : Context CharT) => True where
  refl _ _ := id
  trans _ _ _ left right node untyped := right node (left node untyped)
  before _ _ _ _ _ := trivial

section Steps

variable {grammar : Grammar CharT NodeType}

theorem arena_kept {before after : Context CharT} (same : after.nodeArena = before.nodeArena) :
    KeepsUntyped grammar before after := by
  intro node untyped
  rw [same]
  exact untyped

theorem make_kept (context : Context CharT) : KeepsUntyped grammar context context.makeNode.2 := by
  rintro node ⟨fields, held, untyped⟩
  refine ⟨fields, ?_, untyped⟩
  have inside := (List.getElem?_eq_some_iff.mp held).1
  simpa [Context.makeNode, List.getElem?_append_left inside] using held

theorem write_kept {node : NodePtr} {update : ParseTreeNode → ParseTreeNode} (context : Context CharT)
    (writes : ∀ fields, context.nodeArena[node]? = some fields →
      (update fields).producer = fields.producer ∨ ∃ rule, (update fields).producer = some rule ∧
        (grammar.nonTerminal rule).typedFold = none) :
    KeepsUntyped grammar context (context.updateNode node update) := by
  rintro other ⟨fields, held, untyped⟩
  refine ⟨_, modify_read context.nodeArena node other update held, fun rule produced => ?_⟩
  split_ifs at produced with same
  · subst same
    rcases writes fields held with kept | ⟨stamped, named, plain⟩
    · exact untyped rule (kept ▸ produced)
    · rw [named] at produced
      exact Option.some.inj produced ▸ plain
  · exact untyped rule produced

theorem fields_kept {node : NodePtr} {update : ParseTreeNode → ParseTreeNode}
    (blind : ∀ fields, (update fields).producer = fields.producer) (context : Context CharT) :
    KeepsUntyped grammar context (context.updateNode node update) :=
  write_kept context fun fields _ => Or.inl (blind fields)

theorem push_child_kept (node : NodePtr) (tree : Option NodePtr) (context : Context CharT) :
    KeepsUntyped grammar context (pushChild node tree context) := by
  cases tree with
  | none => exact arena_kept rfl
  | some child => exact fields_kept (fun _ => by rfl) context

theorem stamp_winner_kept (tree : Option NodePtr) (index : Nat) (context : Context CharT) :
    KeepsUntyped grammar context (stampWinner tree index context) := by
  cases tree with
  | none => exact arena_kept rfl
  | some node => exact fields_kept (fun _ => by rfl) context

theorem next_kept (context : Context CharT) : KeepsUntyped grammar context context.next :=
  arena_kept (next_arena context).1

theorem reset_kept (pos : Nat) (context : Context CharT) : KeepsUntyped grammar context (context.reset pos) :=
  arena_kept rfl

end Steps

section Expressions

variable {grammar : Grammar CharT NodeType}

theorem matcher_untyped (fn : Context CharT → Span → Option Span) :
    LeavesUntyped grammar (MatcherExpr.parse fn) := by
  refine preserves_bind (preserves_read _) fun context => ?_
  split
  · refine preserves_bind (preserves_modify (reset_kept _)) fun _ => ?_
    refine preserves_bind (preserves_modifyGet make_kept) fun node => ?_
    exact preserves_bind (preserves_modify (fields_kept fun _ => by rfl)) fun _ => preserves_pure _
  · exact preserves_pure _

theorem skip_untyped {apply : RuleId → Parser CharT ParseResult}
    (applies : ∀ rule, LeavesUntyped grammar (apply rule)) :
    LeavesUntyped grammar (runSkipper apply) := by
  refine preserves_bind (preserves_read _) fun context => ?_
  split
  · refine preserves_bind (preserves_modify fun _ => arena_kept rfl) fun _ => ?_
    refine preserves_bind (applies _) fun _ => ?_
    exact preserves_modify fun _ => arena_kept rfl
  · exact preserves_pure ()

theorem parse_seq_untyped {skip : Parser CharT Unit} (skips : LeavesUntyped grammar skip)
    (node : NodePtr) (children : List (Parser CharT ParseResult))
    (each : ∀ child ∈ children, LeavesUntyped grammar child) (index : Nat) :
    LeavesUntyped grammar (SequenceExpr.parseSeq skip node index children) := by
  induction children generalizing index with
  | nil => exact preserves_pure true
  | cons child rest induction =>
      refine preserves_bind (preserves_onlyIf fun _ => skips) fun _ => ?_
      refine preserves_bind (each child (by simp)) fun result => ?_
      refine preserves_ite (fun _ => ?_) fun _ => preserves_pure false
      refine preserves_bind (preserves_modify (push_child_kept node _)) fun _ => ?_
      exact induction (fun other member => each other (by simp [member])) (index + 1)

theorem sequence_untyped {skip : Parser CharT Unit} (skips : LeavesUntyped grammar skip)
    (children : List (Parser CharT ParseResult))
    (each : ∀ child ∈ children, LeavesUntyped grammar child) :
    LeavesUntyped grammar (SequenceExpr.parse skip children) := by
  refine preserves_bind (preserves_read _) fun state => ?_
  refine preserves_bind (preserves_modifyGet make_kept) fun node => ?_
  refine preserves_bind (preserves_modify fun context => fields_kept (fun _ => by rfl) context) fun _ => ?_
  refine preserves_bind (parse_seq_untyped skips node children each 0) fun matched => ?_
  refine preserves_ite (fun _ => ?_) fun _ => ?_
  · exact preserves_bind (preserves_modify fun context => fields_kept (fun _ => by rfl) context)
      fun _ => preserves_pure _
  · exact preserves_bind (preserves_modify (reset_kept _)) fun _ => preserves_pure _

theorem raise_untyped : LeavesUntyped grammar (raiseIfCommitted : Parser CharT Unit) := by
  refine preserves_bind (preserves_announce _) fun _ => preserves_bind (preserves_read _) fun context => ?_
  exact preserves_onlyIf fun _ => preserves_throw (fun _ => trivial) _

theorem cut_scope_untyped {body : Parser CharT ParseResult} (keeps : LeavesUntyped grammar body) :
    LeavesUntyped grammar
      (Comp.modify Context.initCut >>= fun _ => Comp.guarded body Context.removeCut) := by
  refine preserves_scope keeps (fun context last kept node untyped => ?_) fun _ _ _ => trivial
  rw [(remove_cut_arena last).1]
  exact kept node untyped

theorem parse_alt_untyped (children : List (Parser CharT ParseResult))
    (each : ∀ child ∈ children, LeavesUntyped grammar child) (index : Nat) :
    LeavesUntyped grammar (AlternationExpr.parseAlt index children) := by
  induction children generalizing index with
  | nil => exact preserves_pure _
  | cons child rest induction =>
      refine preserves_bind (each child (by simp)) fun result => preserves_ite (fun _ => ?_) fun _ => ?_
      · exact preserves_bind (preserves_modify (stamp_winner_kept _ _)) fun _ => preserves_pure _
      · refine preserves_bind raise_untyped fun _ => ?_
        exact induction (fun other member => each other (by simp [member])) (index + 1)

theorem repeat_loop_untyped {skip : Parser CharT Unit} (skips : LeavesUntyped grammar skip)
    {parseChild : Parser CharT ParseResult} (child : LeavesUntyped grammar parseChild) (maxRep : Int)
    (node : NodePtr) (fuel loopCount lastSuccessState : Nat) :
    LeavesUntyped grammar
      (repeatLoop skip parseChild maxRep node fuel loopCount lastSuccessState) := by
  induction fuel generalizing loopCount lastSuccessState with
  | zero => exact preserves_exhaust
  | succ fuel induction =>
      refine preserves_bind (preserves_onlyIf fun _ => skips) fun _ => ?_
      refine preserves_bind (preserves_read _) fun startState => ?_
      refine preserves_bind (preserves_modify fun context =>
        arena_kept (set_cut_arena context false).1) fun _ => ?_
      refine preserves_bind child fun result => preserves_ite (fun _ => ?_) fun _ => preserves_pure _
      refine preserves_bind (preserves_read _) fun here => ?_
      refine preserves_bind (preserves_modify (push_child_kept node _)) fun _ => ?_
      exact preserves_ite (fun _ => preserves_pure _) fun _ => induction _ _

theorem repeat_finish_untyped (maxRep : Int) (node : NodePtr) (ended : LoopExit) :
    LeavesUntyped grammar (repeatFinish maxRep node ended : Parser CharT ParseResult) := by
  refine preserves_bind (preserves_onlyIf fun _ => preserves_modify fun context => ?_) fun _ => ?_
  · exact fields_kept (fun _ => by rfl) (context.reset _)
  · refine preserves_bind (preserves_onlyIf fun _ => raise_untyped) fun _ => ?_
    exact preserves_bind (preserves_modify fun context => fields_kept (fun _ => by rfl) context)
      fun _ => preserves_pure _

theorem repeat_untyped (fuel : Nat) {skip : Parser CharT Unit} (skips : LeavesUntyped grammar skip)
    {parseChild : Parser CharT ParseResult} (child : LeavesUntyped grammar parseChild) (minRep : Nat)
    (maxRep : Int) : LeavesUntyped grammar (repeatParseImpl fuel skip parseChild minRep maxRep) := by
  refine cut_scope_untyped (preserves_bind (preserves_read _) fun initState => ?_)
  refine preserves_bind (preserves_modifyGet make_kept) fun node => ?_
  refine preserves_bind (preserves_modify fun context => fields_kept (fun _ => by rfl) context) fun _ => ?_
  refine preserves_bind (repeat_loop_untyped skips child maxRep node fuel 0 _) fun ended => ?_
  refine preserves_ite (fun _ => ?_) fun _ => repeat_finish_untyped maxRep node ended
  exact preserves_bind (preserves_modify (reset_kept _)) fun _ => preserves_pure _

theorem predicate_untyped {parseChild : Parser CharT ParseResult}
    (child : LeavesUntyped grammar parseChild) (negate : Bool) :
    LeavesUntyped grammar (predicateParseImpl parseChild negate) := by
  refine preserves_bind (preserves_read _) fun initState => preserves_bind child fun result => ?_
  exact preserves_bind (preserves_modify (reset_kept _)) fun _ => preserves_pure _

theorem lexeme_untyped {parseChild : Parser CharT ParseResult}
    (child : LeavesUntyped grammar parseChild) : LeavesUntyped grammar (LexemeExpr.parse parseChild) := by
  refine preserves_bind (preserves_read _) fun prev => ?_
  exact preserves_scope child (fun _ _ kept => kept) fun _ _ _ => trivial

variable [PegValue CharT]

theorem terminal_untyped (value : TerminalValue CharT) :
    LeavesUntyped grammar (TerminalExpr.parse value) := by
  refine preserves_bind (preserves_read _) fun matched => preserves_ite (fun _ => ?_) fun _ => ?_
  · exact preserves_bind (preserves_modify next_kept) fun _ => preserves_pure _
  · exact preserves_bind (preserves_modify fun _ => arena_kept rfl) fun _ => preserves_pure _

theorem match_values_untyped (values : List CharT) :
    LeavesUntyped grammar (TerminalSeqExpr.matchValues values) := by
  induction values with
  | nil => exact preserves_pure true
  | cons value rest induction =>
      refine preserves_bind (preserves_read _) fun matched => preserves_ite (fun _ => ?_) fun _ => ?_
      · exact preserves_bind (preserves_modify next_kept) fun _ => induction
      · exact preserves_pure false

theorem terminal_seq_untyped (values : List CharT) :
    LeavesUntyped grammar (TerminalSeqExpr.parse values) := by
  refine preserves_bind (preserves_read _) fun initState => ?_
  refine preserves_bind (match_values_untyped values) fun matched =>
    preserves_ite (fun _ => preserves_pure _) fun _ => ?_
  refine preserves_bind (preserves_modify (reset_kept _)) fun _ => ?_
  exact preserves_bind (preserves_modify fun _ => arena_kept rfl) fun _ => preserves_pure _

theorem token_untyped (value : TerminalValue CharT) : LeavesUntyped grammar (TokenExpr.parse value) := by
  refine preserves_bind (preserves_read _) fun matched => preserves_ite (fun _ => ?_) fun _ => ?_
  · refine preserves_bind (preserves_modify next_kept) fun _ => ?_
    refine preserves_bind (preserves_modifyGet make_kept) fun node => ?_
    exact preserves_bind (preserves_modify fun context => fields_kept (fun _ => by rfl) context)
      fun _ => preserves_pure _
  · exact preserves_bind (preserves_modify fun _ => arena_kept rfl) fun _ => preserves_pure _

theorem expr_untyped {apply : RuleId → Parser CharT ParseResult}
    (applies : ∀ rule, LeavesUntyped grammar (apply rule)) (fuel : Nat) (expr : Expr CharT) :
    LeavesUntyped grammar (expr.parse apply fuel) := by
  have all : ∀ children : List (Expr CharT),
      (∀ child ∈ children, LeavesUntyped grammar (child.parse apply fuel)) →
      ∀ parser ∈ Expr.parseAll apply fuel children, LeavesUntyped grammar parser := by
    intro children each parser member
    rw [Expr.parse_all_eq_map] at member
    obtain ⟨child, inChildren, rfl⟩ := List.mem_map.mp member
    exact each child inChildren
  induction expr using Expr.induct with
  | terminal value => exact terminal_untyped value
  | terminalSeq values => exact terminal_seq_untyped values
  | token value => exact token_untyped value
  | matcher fn => exact matcher_untyped fn
  | empty => exact preserves_pure _
  | cut =>
      exact preserves_bind (preserves_modify fun context => arena_kept (set_cut_arena context true).1)
        fun _ => preserves_pure _
  | sequence children induction =>
      exact sequence_untyped (skip_untyped applies) _ (all children induction)
  | alternation children induction =>
      exact cut_scope_untyped (parse_alt_untyped _ (all children induction) 0)
  | repetition kind child induction =>
      exact repeat_untyped fuel (skip_untyped applies) induction kind.minRep kind.maxRep
  | not child induction => exact predicate_untyped induction true
  | and child induction => exact predicate_untyped induction false
  | lexeme child induction => exact lexeme_untyped induction
  | rule id => exact applies id

end Expressions

section RuleApplication

variable {grammar : Grammar CharT NodeType}

theorem store_untyped (rule : RuleId) (pos : Nat) (entry : RuleState) :
    LeavesUntyped grammar (NonTerminal.store rule pos entry : Parser CharT Bool) := by
  refine preserves_bind (preserves_modifyGet fun context => ?_) fun _ => ?_
  · refine arena_kept ?_
    unfold Context.updateRuleState
    split <;> rfl
  · exact preserves_bind (preserves_announce _) fun _ => preserves_pure _

theorem grow_loop_untyped (rule : RuleId) (startPos : Nat) {parseBody : Parser CharT ParseResult}
    (body : LeavesUntyped grammar parseBody) (fuel : Nat) (best : ParseResult) (ruleState : RuleState) :
    LeavesUntyped grammar (NonTerminal.growLoop rule startPos parseBody fuel best ruleState) := by
  induction fuel generalizing best ruleState with
  | zero => exact preserves_exhaust
  | succ fuel induction =>
      refine preserves_bind (preserves_modify (reset_kept _)) fun _ => ?_
      refine preserves_bind (preserves_read _) fun before => ?_
      refine preserves_bind (preserves_onlyIf fun _ => preserves_modify fun _ => arena_kept rfl)
        fun _ => ?_
      refine preserves_bind body fun result => preserves_bind (preserves_read _) fun after => ?_
      refine preserves_ite (fun _ => preserves_ite (fun _ => ?_) fun _ => ?_) fun _ => ?_
      · refine preserves_bind (preserves_modify fun _ => arena_kept rfl) fun _ => ?_
        refine preserves_bind (store_untyped _ _ _) fun present => ?_
        exact preserves_ite (fun _ => induction _ _) fun _ => preserves_pure _
      · exact preserves_bind (store_untyped _ _ _) fun _ => preserves_pure _
      · exact preserves_pure _

theorem invoke_untyped (rule : RuleId) (startPos : Nat) {body : Option (Parser CharT ParseResult)}
    (keeps : ∀ parser ∈ body, LeavesUntyped grammar parser) (fuel : Nat) :
    LeavesUntyped grammar (NonTerminal.invoke rule startPos body fuel) := by
  refine preserves_bind (preserves_modify fun _ => arena_kept rfl) fun _ => ?_
  refine preserves_bind ?_ fun grown => preserves_bind (preserves_modify fun context => ?_)
    fun _ => preserves_pure _
  · cases body with
    | none => exact preserves_throw (fun _ => trivial) _
    | some parseBody =>
        refine preserves_bind (store_untyped _ _ _) fun _ => ?_
        refine preserves_bind (grow_loop_untyped rule startPos (keeps _ rfl) fuel _ _) fun grown => ?_
        exact preserves_bind (preserves_modify fun _ => arena_kept rfl) fun _ => preserves_pure _
  · refine arena_kept ?_
    unfold NonTerminal.leave
    split_ifs <;> rfl

theorem build_node_untyped (rule : RuleId) (startPos : Nat) (inner : Option NodePtr) :
    LeavesUntyped grammar
      (NonTerminal.buildNode (grammar.nonTerminal rule) rule startPos inner) := by
  unfold NonTerminal.buildNode
  cases typed : (grammar.nonTerminal rule).typedFold with
  | some action =>
      refine preserves_iff_wp.mpr fun context => ?_
      simp only [wp_bind, wp_modify, wp_modifyGet, wp_pure]
      rintro node ⟨fields, held, untyped⟩
      have inside := (List.getElem?_eq_some_iff.mp held).1
      refine push_child_kept _ inner _ node ?_
      refine ⟨_, modify_read context.makeNode.2.nodeArena context.makeNode.1 node _
        (by simpa [Context.makeNode, List.getElem?_append_left inside] using held), ?_⟩
      rw [if_neg (by simpa [Context.makeNode] using (Nat.ne_of_lt inside).symm)]
      exact untyped
  | none =>
      refine preserves_bind ?_ fun node => ?_
      · cases inner with
        | none => exact preserves_modifyGet make_kept
        | some node => exact preserves_pure node
      · refine preserves_bind (preserves_modify fun context => ?_) fun _ => preserves_pure _
        refine write_kept context fun fields _ => ?_
        cases produced : fields.producer with
        | none => exact Or.inr ⟨rule, by simp, typed⟩
        | some other => exact Or.inl (by simp)

theorem finish_failure_untyped (nonTerminal : NonTerminal CharT NodeType) (rule : RuleId)
    (startPos : Nat) (ruleState : RuleState) :
    LeavesUntyped grammar (NonTerminal.finishFailure nonTerminal rule startPos ruleState) := by
  refine preserves_bind (preserves_modify fun context => ?_) fun _ => ?_
  · refine arena_kept ?_
    unfold NonTerminal.recordRuleFailure
    split_ifs <;> rfl
  · refine preserves_bind (preserves_read _) fun context => ?_
    split
    · refine preserves_bind (preserves_modify fun _ => arena_kept rfl) fun _ => ?_
      exact preserves_bind (store_untyped _ _ _) fun _ => preserves_pure _
    · exact preserves_bind (store_untyped _ _ _) fun _ => preserves_pure _

theorem replay_untyped (rule : RuleId) (startPos : Nat) (ruleState : RuleState) :
    LeavesUntyped grammar
      (NonTerminal.replay rule startPos ruleState : Parser CharT ParseResult) := by
  have jump : ∀ (target : Context CharT → Nat) (result : ParseResult),
      LeavesUntyped grammar (Comp.modify (fun context => context.reset (target context)) >>= fun _ =>
        (pure result : Parser CharT ParseResult)) := fun target result =>
    preserves_bind (preserves_modify fun _ => arena_kept rfl) fun _ => preserves_pure result
  refine preserves_bind (preserves_read _) fun context => preserves_ite (fun _ => ?_) fun _ => ?_
  · refine preserves_bind (preserves_modify fun context => arena_kept ?_) fun _ => jump _ _
    unfold Context.markHead
    split
    · split_ifs <;> rfl
    · rfl
  · split
    · exact preserves_ite (fun _ => jump _ _) fun _ => jump _ _
    · exact jump _ _

variable [PegValue CharT]

theorem apply_untyped (grammar : Grammar CharT NodeType) (fuel : Nat) (rule : RuleId) :
    LeavesUntyped grammar (grammar.apply fuel rule) := by
  induction fuel generalizing rule with
  | zero => exact preserves_exhaust
  | succ fuel induction =>
      refine preserves_bind (preserves_announce _) fun _ => preserves_bind (preserves_read _)
        fun startPos => ?_
      refine preserves_bind (preserves_modifyGet fun context => ?_) fun row => ?_
      · refine arena_kept ?_
        unfold Context.ruleState
        split <;> rfl
      refine preserves_ite (fun _ => ?_) fun _ => replay_untyped rule startPos _
      refine preserves_bind (invoke_untyped rule startPos (fun parser member => ?_) fuel) fun grown => ?_
      · obtain ⟨expr, -, rfl⟩ := Option.map_eq_some_iff.mp member
        exact expr_untyped induction fuel expr
      refine preserves_ite (fun _ => ?_) fun _ => finish_failure_untyped _ _ _ _
      refine preserves_bind (build_node_untyped rule _ _) fun node => ?_
      exact preserves_bind (store_untyped _ _ _) fun _ => preserves_pure _

end RuleApplication

end Peglib.Producers
