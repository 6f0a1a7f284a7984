import Peglib.Preservation
import Peglib.Rules

/-!
# Who writes a list of children

A parser appends children to the nodes that it makes itself. The nodes made before
it was called may get other offsets, a name or a winning branch from it, but they
keep their children.
-/

namespace Peglib.ChildLists

open Peglib.TracedComputation Peglib.WeakestPrecondition Peglib.Preservation
open Peglib.ParseError Peglib.ParseContext Peglib.Expressions Peglib.Rules

set_option autoImplicit false

variable {CharT NodeType : Type}

def childrenOf (context : Context CharT) (node : NodePtr) : Option (List (Option NodePtr)) :=
  context.nodeArena[node]?.map ParseTreeNode.children

/-- The nodes below a mark keep their children. -/
def Spares (mark : NodePtr) (before after : Context CharT) : Prop :=
  mark ≤ before.nodeArena.length →
    mark ≤ after.nodeArena.length ∧ ∀ node < mark, childrenOf after node = childrenOf before node

theorem spares_trans {mark : NodePtr} (first second third : Context CharT)
    (left : Spares mark first second) (right : Spares mark second third) :
    Spares mark first third := by
  intro made
  obtain ⟨made', kept⟩ := left made
  obtain ⟨made'', kept'⟩ := right made'
  exact ⟨made'', fun node below => (kept' node below).trans (kept node below)⟩

instance (mark : NodePtr) : Composable (@Spares CharT mark) (fun _ _ => True) where
  refl _ made := ⟨made, fun _ _ => rfl⟩
  trans := spares_trans
  before _ _ _ _ _ := trivial

abbrev Sparing {Value : Type} (mark : NodePtr) (parser : Parser CharT Value) : Prop :=
  Preserves (Spares mark) (fun _ _ => True) parser

section Steps

variable {mark : NodePtr}

theorem spares_arena {before after : Context CharT} (same : after.nodeArena = before.nodeArena) :
    Spares mark before after := by
  intro made
  refine ⟨same ▸ made, fun node _ => ?_⟩
  unfold childrenOf
  rw [same]

theorem children_update (context : Context CharT) (target node : NodePtr)
    (update : ParseTreeNode → ParseTreeNode) :
    childrenOf (context.updateNode target update) node =
      if target = node then context.nodeArena[node]?.map fun fields => (update fields).children
      else childrenOf context node := by
  unfold childrenOf Context.updateNode
  rw [List.getElem?_modify]
  cases context.nodeArena[node]? with
  | none => split_ifs <;> rfl
  | some fields => split_ifs <;> simp

theorem spares_own {node : NodePtr} (own : mark ≤ node) (update : ParseTreeNode → ParseTreeNode)
    (context : Context CharT) : Spares mark context (context.updateNode node update) := by
  intro made
  refine ⟨by simpa [Context.updateNode] using made, fun other below => ?_⟩
  have apart : node ≠ other := Nat.ne_of_gt (Nat.lt_of_lt_of_le below own)
  rw [children_update, if_neg apart]

theorem spares_fields {update : ParseTreeNode → ParseTreeNode}
    (same : ∀ fields, (update fields).children = fields.children) (node : NodePtr)
    (context : Context CharT) : Spares mark context (context.updateNode node update) := by
  intro made
  refine ⟨by simpa [Context.updateNode] using made, fun other _ => ?_⟩
  rw [children_update]
  split_ifs
  · simp only [same]
    rfl
  · rfl

theorem spares_make (context : Context CharT) : Spares mark context context.makeNode.2 := by
  intro made
  have longer : context.makeNode.2.nodeArena.length = context.nodeArena.length + 1 :=
    List.length_append
  refine ⟨longer ▸ Nat.le_succ_of_le made, fun node below => ?_⟩
  have inside : node < context.nodeArena.length := Nat.lt_of_lt_of_le below made
  unfold childrenOf Context.makeNode
  rw [List.getElem?_append_left inside]

theorem spares_push {node : NodePtr} (own : mark ≤ node) (tree : Option NodePtr)
    (context : Context CharT) : Spares mark context (pushChild node tree context) := by
  cases tree with
  | none => exact spares_arena rfl
  | some child => exact spares_own own _ context

theorem spares_next (context : Context CharT) : Spares mark context context.next := by
  refine spares_arena ?_
  unfold Context.next
  split_ifs <;> rfl

theorem sparing_make {Value : Type} {next : NodePtr → Parser CharT Value}
    (later : ∀ node, mark ≤ node → Sparing mark (next node)) :
    Sparing mark (Comp.modifyGet Context.makeNode >>= next) := by
  intro context
  by_cases made : mark ≤ context.nodeArena.length
  · have step := later context.makeNode.1 made context.makeNode.2
    have run : (Comp.modifyGet Context.makeNode context : Run (Moment CharT) _ Exn _) =
        ⟨.returned context.makeNode.1, context.makeNode.2, []⟩ := rfl
    rw [Comp.bind_returned run]
    dsimp only
    cases ended : (next context.makeNode.1 context.makeNode.2).outcome with
    | returned value =>
        rw [ended] at step
        exact spares_trans _ _ _ (spares_make context) step
    | thrown _ | exhausted => trivial
  · cases ((Comp.modifyGet Context.makeNode >>= next : Parser CharT Value) context).outcome with
    | returned value => exact fun reached => absurd reached made
    | thrown _ | exhausted => trivial

theorem sparing_scope {Value : Type} {body : Parser CharT Value}
    {opening closing : Context CharT → Context CharT} (bodySparing : Sparing mark body)
    (opened : ∀ context, (opening context).nodeArena = context.nodeArena)
    (closed : ∀ context, (closing context).nodeArena = context.nodeArena) :
    Sparing mark (Comp.modify opening >>= fun _ => Comp.guarded body closing) :=
  preserves_scope bodySparing
    (fun context last step => spares_trans _ _ _ (spares_arena (opened context))
      (spares_trans _ _ _ step (spares_arena (closed last))))
    fun _ _ _ => trivial

theorem remove_cut_arena (context : Context CharT) :
    context.removeCut.nodeArena = context.nodeArena := by
  unfold Context.removeCut
  split
  · rfl
  · split_ifs <;> rfl

theorem set_cut_arena (committed : Bool) (context : Context CharT) :
    (context.setCut committed).nodeArena = context.nodeArena := by
  unfold Context.setCut
  split <;> rfl

end Steps

section Combinators

variable {mark : NodePtr}

theorem matcher_sparing (fn : Context CharT → Span → Option Span) :
    Sparing mark (MatcherExpr.parse fn) := by
  refine preserves_bind (preserves_read _) fun context => ?_
  split
  · refine preserves_bind (preserves_modify fun _ => spares_arena rfl) fun _ => ?_
    refine sparing_make fun node own => ?_
    exact preserves_bind (preserves_modify (spares_own own _)) fun _ => preserves_pure _
  · exact preserves_pure _

theorem skip_sparing {apply : RuleId → Parser CharT ParseResult}
    (applies : ∀ rule, Sparing mark (apply rule)) : Sparing mark (runSkipper apply) := by
  refine preserves_bind (preserves_read _) fun context => ?_
  split
  · refine preserves_bind (preserves_modify fun _ => spares_arena rfl) fun _ => ?_
    refine preserves_bind (applies _) fun _ => ?_
    exact preserves_modify fun _ => spares_arena rfl
  · exact preserves_pure _

theorem seq_sparing {skip : Parser CharT Unit} (skipSparing : Sparing mark skip) {node : NodePtr}
    (own : mark ≤ node) {children : List (Parser CharT ParseResult)}
    (each : ∀ child ∈ children, Sparing mark child) (index : Nat) :
    Sparing mark (SequenceExpr.parseSeq skip node index children) := by
  induction children generalizing index with
  | nil => exact preserves_pure true
  | cons child rest induction =>
      refine preserves_bind (preserves_onlyIf fun _ => skipSparing) fun _ => ?_
      refine preserves_bind (each child List.mem_cons_self) fun result => ?_
      refine preserves_ite (fun _ => ?_) fun _ => preserves_pure false
      refine preserves_bind (preserves_modify (spares_push own _)) fun _ => ?_
      exact induction (fun other member => each other (List.mem_cons_of_mem _ member)) (index + 1)

theorem sequence_sparing {skip : Parser CharT Unit} (skipSparing : Sparing mark skip)
    {children : List (Parser CharT ParseResult)} (each : ∀ child ∈ children, Sparing mark child) :
    Sparing mark (SequenceExpr.parse skip children) := by
  refine preserves_bind (preserves_read _) fun state => sparing_make fun node own => ?_
  refine preserves_bind (preserves_modify fun context => spares_own own _ context) fun _ => ?_
  refine preserves_bind (seq_sparing skipSparing own each 0) fun matched => ?_
  refine preserves_ite (fun _ => ?_) fun _ => ?_
  · exact preserves_bind (preserves_modify fun context => spares_own own _ context) fun _ =>
      preserves_pure _
  · exact preserves_bind (preserves_modify fun _ => spares_arena rfl) fun _ => preserves_pure _

theorem raise_sparing : Sparing mark (raiseIfCommitted : Parser CharT Unit) := by
  refine preserves_bind (preserves_announce _) fun _ => preserves_bind (preserves_read _) fun _ => ?_
  exact preserves_onlyIf fun _ => preserves_throw (fun _ => trivial) _

theorem alt_sparing {children : List (Parser CharT ParseResult)}
    (each : ∀ child ∈ children, Sparing mark child) (index : Nat) :
    Sparing mark (AlternationExpr.parseAlt index children) := by
  induction children generalizing index with
  | nil => exact preserves_pure _
  | cons child rest induction =>
      refine preserves_bind (each child List.mem_cons_self) fun result =>
        preserves_ite (fun _ => ?_) fun _ => ?_
      · refine preserves_bind (preserves_modify fun context => ?_) fun _ => preserves_pure _
        cases result.tree with
        | none => exact spares_arena rfl
        | some node =>
            exact @spares_fields _ mark (fun fields => { fields with altWinner := some index })
              (fun _ => rfl) node context
      · refine preserves_bind raise_sparing fun _ => ?_
        exact induction (fun other member => each other (List.mem_cons_of_mem _ member)) (index + 1)

theorem repeat_loop_sparing {skip : Parser CharT Unit} (skipSparing : Sparing mark skip)
    {child : Parser CharT ParseResult} (childSparing : Sparing mark child) (maxRep : Int)
    {node : NodePtr} (own : mark ≤ node) (fuel loopCount lastSuccessState : Nat) :
    Sparing mark (repeatLoop skip child maxRep node fuel loopCount lastSuccessState) := by
  induction fuel generalizing loopCount lastSuccessState with
  | zero => exact preserves_exhaust
  | succ fuel induction =>
      refine preserves_bind (preserves_onlyIf fun _ => skipSparing) fun _ => ?_
      refine preserves_bind (preserves_read _) fun startState => ?_
      refine preserves_bind (preserves_modify fun context =>
        spares_arena (set_cut_arena false context)) fun _ => ?_
      refine preserves_bind childSparing fun result =>
        preserves_ite (fun _ => ?_) fun _ => preserves_pure _
      refine preserves_bind (preserves_read _) fun here => ?_
      refine preserves_bind (preserves_modify (spares_push own _)) fun _ => ?_
      exact preserves_ite (fun _ => preserves_pure _) fun _ => induction _ _

theorem repeat_sparing (fuel : Nat) {skip : Parser CharT Unit} (skipSparing : Sparing mark skip)
    {child : Parser CharT ParseResult} (childSparing : Sparing mark child) (minRep : Nat)
    (maxRep : Int) : Sparing mark (repeatParseImpl fuel skip child minRep maxRep) := by
  refine sparing_scope ?_ (fun _ => rfl) remove_cut_arena
  refine preserves_bind (preserves_read _) fun initState => sparing_make fun node own => ?_
  refine preserves_bind (preserves_modify fun context => spares_own own _ context) fun _ => ?_
  refine preserves_bind (repeat_loop_sparing skipSparing childSparing maxRep own fuel 0 _) fun ended => ?_
  refine preserves_ite (fun _ => ?_) fun _ => ?_
  · exact preserves_bind (preserves_modify fun _ => spares_arena rfl) fun _ => preserves_pure _
  · refine preserves_bind (preserves_onlyIf fun _ => preserves_modify fun context => ?_) fun _ => ?_
    · exact spares_trans _ _ _ (spares_arena rfl) (spares_own own _ _)
    · refine preserves_bind (preserves_onlyIf fun _ => raise_sparing) fun _ => ?_
      exact preserves_bind (preserves_modify fun context => spares_own own _ context) fun _ =>
        preserves_pure _

theorem predicate_sparing {child : Parser CharT ParseResult} (childSparing : Sparing mark child)
    (negate : Bool) : Sparing mark (predicateParseImpl child negate) := by
  refine preserves_bind (preserves_read _) fun initState => preserves_bind childSparing fun _ => ?_
  exact preserves_bind (preserves_modify fun _ => spares_arena rfl) fun _ => preserves_pure _

theorem lexeme_sparing {child : Parser CharT ParseResult} (childSparing : Sparing mark child) :
    Sparing mark (LexemeExpr.parse child) :=
  preserves_bind (preserves_read _) fun _ =>
    sparing_scope childSparing (fun _ => rfl) fun _ => rfl

variable [PegValue CharT]

theorem terminal_sparing (value : TerminalValue CharT) : Sparing mark (TerminalExpr.parse value) := by
  refine preserves_bind (preserves_read _) fun matched => preserves_ite (fun _ => ?_) fun _ => ?_
  · exact preserves_bind (preserves_modify spares_next) fun _ => preserves_pure _
  · exact preserves_bind (preserves_modify fun _ => spares_arena rfl) fun _ => preserves_pure _

theorem match_values_sparing (values : List CharT) :
    Sparing mark (TerminalSeqExpr.matchValues values) := by
  induction values with
  | nil => exact preserves_pure true
  | cons value rest induction =>
      refine preserves_bind (preserves_read _) fun matched => preserves_ite (fun _ => ?_) fun _ => ?_
      · exact preserves_bind (preserves_modify spares_next) fun _ => induction
      · exact preserves_pure false

theorem terminal_seq_sparing (values : List CharT) : Sparing mark (TerminalSeqExpr.parse values) := by
  refine preserves_bind (preserves_read _) fun initState => ?_
  refine preserves_bind (match_values_sparing values) fun matched =>
    preserves_ite (fun _ => preserves_pure _) fun _ => ?_
  refine preserves_bind (preserves_modify fun _ => spares_arena rfl) fun _ => ?_
  exact preserves_bind (preserves_modify fun _ => spares_arena rfl) fun _ => preserves_pure _

theorem token_sparing (value : TerminalValue CharT) : Sparing mark (TokenExpr.parse value) := by
  refine preserves_bind (preserves_read _) fun matched => preserves_ite (fun _ => ?_) fun _ => ?_
  · refine preserves_bind (preserves_modify spares_next) fun _ => sparing_make fun node own => ?_
    exact preserves_bind (preserves_modify fun context => spares_own own _ context) fun _ =>
      preserves_pure _
  · exact preserves_bind (preserves_modify fun _ => spares_arena rfl) fun _ => preserves_pure _

theorem expr_sparing {apply : RuleId → Parser CharT ParseResult}
    (applies : ∀ rule, Sparing mark (apply rule)) (fuel : Nat) (expr : Expr CharT) :
    Sparing mark (expr.parse apply fuel) := by
  have all : ∀ children : List (Expr CharT),
      (∀ child ∈ children, Sparing mark (child.parse apply fuel)) →
      ∀ parser ∈ Expr.parseAll apply fuel children, Sparing mark parser := by
    intro children each parser member
    rw [Expr.parse_all_eq_map] at member
    obtain ⟨child, inChildren, rfl⟩ := List.mem_map.mp member
    exact each child inChildren
  induction expr using Expr.induct with
  | terminal value => exact terminal_sparing value
  | terminalSeq values => exact terminal_seq_sparing values
  | token value => exact token_sparing value
  | matcher fn => exact matcher_sparing fn
  | empty => exact preserves_pure _
  | cut =>
      exact preserves_bind (preserves_modify fun context =>
        spares_arena (set_cut_arena true context)) fun _ => preserves_pure _
  | sequence children induction => exact sequence_sparing (skip_sparing applies) (all children induction)
  | alternation children induction =>
      exact sparing_scope (alt_sparing (all children induction) 0) (fun _ => rfl) remove_cut_arena
  | repetition kind child induction =>
      exact repeat_sparing fuel (skip_sparing applies) induction kind.minRep kind.maxRep
  | not child induction => exact predicate_sparing induction true
  | and child induction => exact predicate_sparing induction false
  | lexeme child induction => exact lexeme_sparing induction
  | rule id => exact applies id

end Combinators

section Rules

variable {mark : NodePtr}

theorem store_sparing (rule : RuleId) (pos : Nat) (entry : RuleState) :
    Sparing mark (NonTerminal.store rule pos entry : Parser CharT Bool) := by
  refine preserves_bind (preserves_modifyGet fun context => spares_arena ?_) fun _ => ?_
  · unfold Context.updateRuleState
    split <;> rfl
  · exact preserves_bind (preserves_announce _) fun _ => preserves_pure _

theorem build_node_sparing (nonTerminal : NonTerminal CharT NodeType) (rule : RuleId)
    (startPos : Nat) (inner : Option NodePtr) :
    Sparing mark (NonTerminal.buildNode nonTerminal rule startPos inner) := by
  unfold NonTerminal.buildNode
  split
  · refine sparing_make fun node own => ?_
    refine preserves_bind (preserves_modify fun context => spares_own own _ context) fun _ => ?_
    exact preserves_bind (preserves_modify (spares_push own _)) fun _ => preserves_pure _
  · refine preserves_bind ?_ fun node => ?_
    · cases inner with
      | none => exact preserves_modifyGet spares_make
      | some node => exact preserves_pure node
    · refine preserves_bind (preserves_modify fun context => ?_) fun _ => preserves_pure _
      exact @spares_fields _ mark (fun fields =>
        { fields with
          name := nonTerminal.name
          producer := if fields.producer.isNone then some rule else fields.producer
          startOffset := startPos
          endOffset := context.position }) (fun _ => rfl) node context

theorem mark_head_arena (rule : RuleId) (pos : Nat) (context : Context CharT) :
    (context.markHead rule pos).nodeArena = context.nodeArena := by
  unfold Context.markHead
  split
  · split_ifs <;> rfl
  · rfl

theorem replay_sparing (rule : RuleId) (startPos : Nat) (ruleState : RuleState) :
    Sparing mark (NonTerminal.replay rule startPos ruleState : Parser CharT ParseResult) := by
  have jump : ∀ (target : Context CharT → Nat) (result : ParseResult),
      Sparing mark (Comp.modify (fun context => context.reset (target context)) >>= fun _ =>
        (pure result : Parser CharT ParseResult)) := fun target result =>
    preserves_bind (preserves_modify fun _ => spares_arena rfl) fun _ => preserves_pure result
  refine preserves_bind (preserves_read _) fun context => preserves_ite (fun _ => ?_) fun _ => ?_
  · exact preserves_bind (preserves_modify fun context =>
      spares_arena (mark_head_arena rule startPos context)) fun _ => jump _ _
  · split
    · exact preserves_ite (fun _ => jump _ _) fun _ => jump _ _
    · exact jump _ _

theorem grow_loop_sparing (rule : RuleId) (startPos : Nat) {parseBody : Parser CharT ParseResult}
    (bodySparing : Sparing mark parseBody) (fuel : Nat) (best : ParseResult) (ruleState : RuleState) :
    Sparing mark (NonTerminal.growLoop rule startPos parseBody fuel best ruleState) := by
  induction fuel generalizing best ruleState with
  | zero => exact preserves_exhaust
  | succ fuel induction =>
      refine preserves_bind (preserves_modify fun _ => spares_arena rfl) fun _ => ?_
      refine preserves_bind (preserves_read _) fun before => ?_
      refine preserves_bind (preserves_onlyIf fun _ =>
        preserves_modify fun _ => spares_arena rfl) fun _ => ?_
      refine preserves_bind bodySparing fun result => preserves_bind (preserves_read _) fun after => ?_
      refine preserves_ite (fun _ => preserves_ite (fun _ => ?_) fun _ => ?_) fun _ => preserves_pure _
      · refine preserves_bind (preserves_modify fun _ => spares_arena rfl) fun _ => ?_
        refine preserves_bind (store_sparing _ _ _) fun present => ?_
        exact preserves_ite (fun _ => induction _ _) fun _ => preserves_pure _
      · exact preserves_bind (store_sparing _ _ _) fun _ => preserves_pure _

theorem invoke_sparing (rule : RuleId) (startPos : Nat)
    {body : Option (Parser CharT ParseResult)} (bodySparing : ∀ parser ∈ body, Sparing mark parser)
    (fuel : Nat) : Sparing mark (NonTerminal.invoke rule startPos body fuel) := by
  refine preserves_bind (preserves_modify fun _ => spares_arena rfl) fun _ => ?_
  refine preserves_bind ?_ fun grown => ?_
  · cases body with
    | none => exact preserves_throw (fun _ => trivial) _
    | some parseBody =>
        refine preserves_bind (store_sparing _ _ _) fun _ => ?_
        refine preserves_bind (grow_loop_sparing rule startPos (bodySparing parseBody rfl) fuel _ _)
          fun grown => ?_
        exact preserves_bind (preserves_modify fun _ => spares_arena rfl) fun _ => preserves_pure _
  · refine preserves_bind (preserves_modify fun context => spares_arena ?_) fun _ => preserves_pure _
    unfold NonTerminal.leave
    split_ifs <;> rfl

theorem failure_sparing (nonTerminal : NonTerminal CharT NodeType) (rule : RuleId) (startPos : Nat)
    (ruleState : RuleState) :
    Sparing mark (NonTerminal.finishFailure nonTerminal rule startPos ruleState) := by
  refine preserves_bind (preserves_modify fun context => spares_arena ?_) fun _ => ?_
  · unfold NonTerminal.recordRuleFailure
    split_ifs <;> rfl
  refine preserves_bind (preserves_read _) fun context => ?_
  split
  · refine preserves_bind (preserves_modify fun _ => spares_arena rfl) fun _ => ?_
    exact preserves_bind (store_sparing _ _ _) fun _ => preserves_pure _
  · exact preserves_bind (store_sparing _ _ _) fun _ => preserves_pure _

theorem rule_sparing (nonTerminal : NonTerminal CharT NodeType) (rule : RuleId)
    {body : Option (Parser CharT ParseResult)} (bodySparing : ∀ parser ∈ body, Sparing mark parser)
    (fuel : Nat) : Sparing mark (NonTerminal.parse nonTerminal rule body fuel) := by
  refine preserves_bind (preserves_announce _) fun _ => preserves_bind (preserves_read _) fun startPos => ?_
  refine preserves_bind (preserves_modifyGet fun context => spares_arena ?_) fun row => ?_
  · unfold Context.ruleState
    split <;> rfl
  refine preserves_ite (fun _ => ?_) fun _ => replay_sparing _ _ _
  refine preserves_bind (invoke_sparing rule startPos bodySparing fuel) fun grown => ?_
  refine preserves_ite (fun _ => ?_) fun _ => failure_sparing _ _ _ _
  refine preserves_bind (build_node_sparing _ _ _ _) fun node => ?_
  exact preserves_bind (store_sparing _ _ _) fun _ => preserves_pure _

variable [PegValue CharT]

theorem apply_sparing (grammar : Grammar CharT NodeType) (fuel : Nat) (rule : RuleId) :
    Sparing mark (grammar.apply fuel rule) := by
  induction fuel generalizing rule with
  | zero => exact preserves_exhaust
  | succ fuel induction =>
      refine rule_sparing _ rule (fun parser member => ?_) fuel
      obtain ⟨body, -, rfl⟩ := Option.map_eq_some_iff.mp member
      exact expr_sparing induction fuel body

theorem eval_sparing (grammar : Grammar CharT NodeType) (fuel : Nat) (expr : Expr CharT) :
    Sparing mark (grammar.eval fuel expr) :=
  expr_sparing (apply_sparing grammar fuel) fuel expr

end Rules

end Peglib.ChildLists
