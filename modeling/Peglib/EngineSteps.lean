import Peglib.EntryPoints
import Peglib.Lockstep
import Peglib.LoggedSteps

/-!
# Steps of the engine

A relation between contexts that contains the single moves of the engine, each
with what it announces, is kept by every rule application. The rules applied
stay in a set that is closed under references and holds the skipper.
-/

namespace Peglib.EngineSteps

open Peglib.TracedComputation Peglib.LoggedSteps
open Peglib.ParseError Peglib.ParseContext Peglib.Expressions Peglib.Rules Peglib.ControlDiscipline
open Peglib.EntryPoints (boundary)

set_option autoImplicit false

variable {CharT NodeType : Type}

/-- A part of an expression that refers to rules of the set only; cuts may be ruled out. -/
def Confined (reach : RuleId → Prop) (commits : Prop) : Expr CharT → Prop
  | .rule id => reach id
  | .cut => commits
  | _ => True

def ClosedUnder (grammar : Grammar CharT NodeType) (reach : RuleId → Prop) (commits : Prop) : Prop :=
  ∀ rule body, reach rule → grammar.body rule = some body → body.Every (Confined reach commits)

def SkipsWithin (reach : RuleId → Prop) (context : Context CharT) : Prop :=
  ∀ skipper, context.skipper = some skipper → reach skipper

/-- A move of the position, the arena, the error record and the skip flag. -/
structure Aside (before after : Context CharT) : Prop where
  input : after.input = before.input
  mem : after.mem = before.mem
  cutStack : after.cutStack = before.cutStack
  lrStack : after.lrStack = before.lrStack
  growingHead : after.growingHead = before.growingHead
  skipper : after.skipper = before.skipper
  checked : after.outOfRange = false → before.outOfRange = false
  inside : after.outOfRange = false → before.position ≤ before.inputSize →
    after.position ≤ before.inputSize

theorem Aside.refl (context : Context CharT) : Aside context context :=
  ⟨rfl, rfl, rfl, rfl, rfl, rfl, id, fun _ inside => inside⟩

theorem reset_aside (pos : Nat) (context : Context CharT) : Aside context (context.reset pos) := by
  refine ⟨rfl, rfl, rfl, rfl, rfl, rfl, ?_, ?_⟩
  · simp +contextual [Context.reset]
  · simp +contextual [Context.reset]

theorem next_aside (context : Context CharT) : Aside context context.next := by
  unfold Context.next
  split_ifs with inside
  · exact ⟨rfl, rfl, rfl, rfl, rfl, rfl, id, fun _ _ => inside⟩
  · exact .refl context

theorem same_aside {before after : Context CharT} (input : after.input = before.input)
    (mem : after.mem = before.mem) (cutStack : after.cutStack = before.cutStack)
    (lrStack : after.lrStack = before.lrStack) (growingHead : after.growingHead = before.growingHead)
    (skipper : after.skipper = before.skipper) (position : after.position = before.position)
    (outOfRange : after.outOfRange = before.outOfRange) : Aside before after :=
  ⟨input, mem, cutStack, lrStack, growingHead, skipper, by simp [outOfRange], by simp [position]⟩

theorem update_node_aside (node : NodePtr) (update : ParseTreeNode → ParseTreeNode)
    (context : Context CharT) : Aside context (context.updateNode node update) :=
  same_aside rfl rfl rfl rfl rfl rfl rfl rfl

theorem push_child_aside (node : NodePtr) (tree : Option NodePtr) (context : Context CharT) :
    Aside context (pushChild node tree context) := by
  cases tree with
  | none => exact .refl context
  | some child => exact update_node_aside node _ context

theorem stamp_winner_aside (tree : Option NodePtr) (index : Nat) (context : Context CharT) :
    Aside context (stampWinner tree index context) := by
  cases tree with
  | none => exact .refl context
  | some node => exact update_node_aside node _ context

theorem record_rule_failure_aside (nonTerminal : NonTerminal CharT NodeType) (startPos : Nat)
    (context : Context CharT) :
    Aside context (NonTerminal.recordRuleFailure nonTerminal startPos context) := by
  unfold NonTerminal.recordRuleFailure
  split_ifs
  · exact same_aside rfl rfl rfl rfl rfl rfl rfl rfl
  · exact same_aside rfl rfl rfl rfl rfl rfl rfl rfl
  · exact .refl context

/-- A rule whose row is present makes the live frame a head, if there is one. -/
def recognise (rule : RuleId) (context : Context CharT) : Context CharT :=
  if context.lrInProgress rule context.position then context.markHead rule context.position
  else context

/-- A rule whose row is absent gets one, and a frame. -/
def embark (rule : RuleId) (context : Context CharT) : Context CharT :=
  ({ context with mem := context.mem.write context.position rule {} }).lrPush
    ⟨rule, context.position, context.position, false⟩

/-- The moves of the engine that concern no particular rule. -/
class Grounded (step : Context CharT → List (Moment CharT) → Context CharT → Prop) : Prop
    extends Chained step where
  aside : ∀ before after, Aside before after → step before [] after
  opened : ∀ context, step context [] context.initCut
  closed : ∀ context, step context [] context.removeCut
  reopened : ∀ context, step context [] (context.setCut false)
  failed : ∀ context, step context [⟨.failure, context⟩] context
  stored : ∀ rule pos entry context,
    step context [⟨.store rule pos, (context.updateRuleState rule pos entry).2⟩]
      (context.updateRuleState rule pos entry).2
  grew : ∀ pos context, step context [] (NonTerminal.setFrameLastPos pos context)
  cleared : ∀ rule pos context, (NonTerminal.frame context).isHead = true →
    step context [] (context.clearSiblingsAt pos rule)
  left : ∀ pos context, step context [] (NonTerminal.leave pos context)

/-- All moves of the engine, for the rules of a set. -/
structure EngineRules (reach : RuleId → Prop) (commits : Prop)
    (step : Context CharT → List (Moment CharT) → Context CharT → Prop) : Prop where
  committed : commits → ∀ context, step context [] (context.setCut true)
  met : ∀ rule context, reach rule → (context.mem context.position rule).isSome = true →
    step context [⟨.apply rule, context⟩] (recognise rule context)
  entered : ∀ rule context, reach rule → context.mem context.position rule = none →
    step context [⟨.apply rule, context⟩] (embark rule context)

/-- The relation, kept together with the skipper. -/
structure Skipping (step : Context CharT → List (Moment CharT) → Context CharT → Prop)
    (before : Context CharT) (log : List (Moment CharT)) (after : Context CharT) : Prop where
  kept : step before log after
  skipper : after.skipper = before.skipper

instance {step : Context CharT → List (Moment CharT) → Context CharT → Prop} [chained : Chained step] :
    Chained (Skipping step) where
  refl context := ⟨chained.refl context, rfl⟩
  trans _ _ _ _ _ early late :=
    ⟨chained.trans _ _ _ _ _ early.kept late.kept, late.skipper.trans early.skipper⟩

theorem SkipsWithin.kept {reach : RuleId → Prop}
    {step : Context CharT → List (Moment CharT) → Context CharT → Prop} {before after : Context CharT}
    {log : List (Moment CharT)} (within : SkipsWithin reach before)
    (moved : Skipping step before log after) : SkipsWithin reach after := by
  rw [SkipsWithin, moved.skipper]
  exact within

/-- Every run of the parser keeps the relation, from a skipper in the set. -/
def Moves {Value : Type} (reach : RuleId → Prop)
    (step : Context CharT → List (Moment CharT) → Context CharT → Prop) (raises : Exn → Prop)
    (parser : Parser CharT Value) : Prop :=
  ∀ context, SkipsWithin reach context → Follows (Skipping step) raises parser context

structure MayRaise (grammar : Grammar CharT NodeType) (reach : RuleId → Prop) (raises : Exn → Prop) :
    Prop where
  committed : ∀ position expected, raises (.parseError position expected)
  undefined : ∀ rule, reach rule → grammar.body rule = none → raises .assertion

section Sequencing

variable {Value Other : Type} {reach : RuleId → Prop} {raises : Exn → Prop}
  {step : Context CharT → List (Moment CharT) → Context CharT → Prop}

theorem moves_modify {update : Context CharT → Context CharT}
    (moves : ∀ context, Skipping step context [] (update context)) :
    Moves reach step raises (Comp.modify update) :=
  fun context _ => follows_modify (moves context)

theorem moves_ite {condition : Prop} [Decidable condition] {first second : Parser CharT Value}
    (whenTrue : Moves reach step raises first) (whenFalse : Moves reach step raises second) :
    Moves reach step raises (if condition then first else second) :=
  fun context within =>
    follows_ite (fun _ => whenTrue context within) fun _ => whenFalse context within

variable [chained : Chained step]

theorem moves_pure (value : Value) : Moves reach step raises (pure value) :=
  fun _ _ => follows_pure value

theorem moves_bind {first : Parser CharT Value} {next : Value → Parser CharT Other}
    (leading : Moves reach step raises first) (rest : ∀ value, Moves reach step raises (next value)) :
    Moves reach step raises (first >>= next) := by
  intro context within
  exact follows_bind (leading context within) fun value middle log _ moved =>
    rest value middle (within.kept moved)

theorem moves_read {view : Context CharT → Value} {next : Value → Parser CharT Other}
    (rest : ∀ value, Moves reach step raises (next value)) :
    Moves reach step raises (Comp.read view >>= next) :=
  fun context within => follows_read (rest _ context within)

theorem moves_update {update : Context CharT → Context CharT} {next : Unit → Parser CharT Other}
    (moves : ∀ context, Skipping step context [] (update context))
    (rest : Moves reach step raises (next ())) :
    Moves reach step raises (Comp.modify update >>= next) :=
  moves_bind (moves_modify moves) fun _ => rest

theorem moves_onlyIf {condition : Prop} [Decidable condition] {body : Parser CharT Unit}
    (whenTrue : Moves reach step raises body) :
    Moves reach step raises (Comp.onlyIf condition body) :=
  moves_ite whenTrue (moves_pure ())

theorem moves_guarded {body : Parser CharT Value} {cleanup : Context CharT → Context CharT}
    (inside : Moves reach step raises body)
    (closing : ∀ last, Skipping step last [] (cleanup last)) :
    Moves reach step raises (Comp.guarded body cleanup) :=
  fun context within => follows_guarded (inside context within) closing

end Sequencing

section Expressions

variable {reach : RuleId → Prop} {raises : Exn → Prop}
  {step : Context CharT → List (Moment CharT) → Context CharT → Prop} [rules : Grounded step]

theorem aside_skipping {before after : Context CharT} (aside : Aside before after) :
    Skipping step before [] after :=
  ⟨rules.aside before after aside, aside.skipper⟩

theorem moves_aside {Other : Type} {update : Context CharT → Context CharT}
    {next : Unit → Parser CharT Other} (aside : ∀ context, Aside context (update context))
    (rest : Moves reach step raises (next ())) :
    Moves reach step raises (Comp.modify update >>= next) :=
  moves_update (fun context => aside_skipping (aside context)) rest

theorem moves_make {Other : Type} {next : NodePtr → Parser CharT Other}
    (rest : ∀ node, Moves reach step raises (next node)) :
    Moves reach step raises (Comp.modifyGet Context.makeNode >>= next) := by
  refine moves_bind (fun context _ => follows_modifyGet (aside_skipping ?_)) rest
  exact same_aside rfl rfl rfl rfl rfl rfl rfl rfl

theorem matcher_moves (fn : Context CharT → Span → Option Span) :
    Moves reach step raises (MatcherExpr.parse fn) := by
  refine moves_read fun context => ?_
  split
  · refine moves_aside (reset_aside _) (moves_make fun node => ?_)
    exact moves_aside (update_node_aside _ _) (moves_pure _)
  · exact moves_pure _

theorem cut_scope_skipping (context : Context CharT) :
    Skipping step context [] context.initCut ∧ Skipping step context [] context.removeCut := by
  refine ⟨⟨rules.opened context, rfl⟩, rules.closed context, ?_⟩
  unfold Context.removeCut
  split
  · rfl
  · split_ifs <;> rfl

theorem set_cut_skipper (committed : Bool) (context : Context CharT) :
    (context.setCut committed).skipper = context.skipper := by
  unfold Context.setCut
  split <;> rfl

theorem raise_moves (committed : ∀ position expected, raises (.parseError position expected)) :
    Moves reach step raises raiseIfCommitted := by
  refine moves_bind (fun context _ => follows_announce ⟨rules.failed context, rfl⟩) fun _ => ?_
  refine moves_read fun context => moves_onlyIf fun _ _ => ?_
  exact follows_throw (committed _ _)

theorem sequence_moves {skip : Parser CharT Unit} (skips : Moves reach step raises skip)
    {children : List (Parser CharT ParseResult)}
    (each : ∀ child ∈ children, Moves reach step raises child) :
    Moves reach step raises (SequenceExpr.parse skip children) := by
  have tail : ∀ node index, Moves reach step raises (SequenceExpr.parseSeq skip node index children) := by
    intro node
    induction children with
    | nil => exact fun index => moves_pure _
    | cons child rest induction =>
        intro index
        refine moves_bind (moves_onlyIf skips) fun _ => moves_bind (each child (by simp)) fun result => ?_
        refine moves_ite (moves_aside (push_child_aside node _) ?_) (moves_pure _)
        exact induction (fun other member => each other (by simp [member])) (index + 1)
  refine moves_read fun state => moves_make fun node => moves_aside (fun _ => update_node_aside _ _ _) ?_
  refine moves_bind (tail node 0) fun matched => moves_ite ?_ ?_
  · exact moves_aside (fun _ => update_node_aside _ _ _) (moves_pure _)
  · exact moves_aside (reset_aside _) (moves_pure _)

theorem alternation_moves (committed : ∀ position expected, raises (.parseError position expected))
    {children : List (Parser CharT ParseResult)}
    (each : ∀ child ∈ children, Moves reach step raises child) :
    Moves reach step raises (AlternationExpr.parse children) := by
  have branches : ∀ index, Moves reach step raises (AlternationExpr.parseAlt index children) := by
    induction children with
    | nil => exact fun index => moves_pure _
    | cons child rest induction =>
        intro index
        refine moves_bind (each child (by simp)) fun result => moves_ite ?_ ?_
        · exact moves_aside (stamp_winner_aside _ _) (moves_pure _)
        · refine moves_bind (raise_moves committed) fun _ => ?_
          exact induction (fun other member => each other (by simp [member])) (index + 1)
  exact moves_update (fun context => (cut_scope_skipping context).1)
    (moves_guarded (branches 0) fun last => (cut_scope_skipping last).2)

theorem repeat_moves (committed : ∀ position expected, raises (.parseError position expected))
    (fuel : Nat) {skip : Parser CharT Unit} (skips : Moves reach step raises skip)
    {parseChild : Parser CharT ParseResult} (child : Moves reach step raises parseChild)
    (minRep : Nat) (maxRep : Int) :
    Moves reach step raises (repeatParseImpl fuel skip parseChild minRep maxRep) := by
  have loop : ∀ node budget loopCount lastSuccessState, Moves reach step raises
      (repeatLoop skip parseChild maxRep node budget loopCount lastSuccessState) := by
    intro node budget
    induction budget with
    | zero => exact fun _ _ _ _ => follows_exhaust
    | succ budget induction =>
        intro loopCount lastSuccessState
        refine moves_bind (moves_onlyIf skips) fun _ => moves_read fun startState => ?_
        refine moves_update (fun context => ⟨rules.reopened context, set_cut_skipper false context⟩) ?_
        refine moves_bind child fun result => moves_ite (moves_read fun here => ?_) (moves_pure _)
        exact moves_aside (push_child_aside node _) (moves_ite (moves_pure _) (induction _ _))
  have finish : ∀ node ended, Moves reach step raises (repeatFinish maxRep node ended) := by
    intro node ended
    refine moves_bind (moves_onlyIf (moves_modify fun context => aside_skipping ?_)) fun _ => ?_
    · have back := reset_aside ended.lastSuccessState context
      exact ⟨back.input, back.mem, back.cutStack, back.lrStack, back.growingHead, back.skipper,
        back.checked, back.inside⟩
    · refine moves_bind (moves_onlyIf (raise_moves committed)) fun _ => ?_
      exact moves_aside (fun _ => update_node_aside _ _ _) (moves_pure _)
  refine moves_update (fun context => (cut_scope_skipping context).1)
    (moves_guarded ?_ fun last => (cut_scope_skipping last).2)
  refine moves_read fun initState => moves_make fun node => moves_aside (fun _ => update_node_aside _ _ _) ?_
  refine moves_bind (loop node fuel 0 initState) fun ended => moves_ite ?_ (finish node ended)
  exact moves_aside (reset_aside _) (moves_pure _)

theorem predicate_moves {parseChild : Parser CharT ParseResult}
    (child : Moves reach step raises parseChild) (negate : Bool) :
    Moves reach step raises (predicateParseImpl parseChild negate) :=
  moves_read fun _ => moves_bind child fun _ => moves_aside (reset_aside _) (moves_pure _)

theorem flag_aside (enabled : Bool) (context : Context CharT) :
    Aside context { context with skipEnabled := enabled } :=
  same_aside rfl rfl rfl rfl rfl rfl rfl rfl

theorem lexeme_moves {parseChild : Parser CharT ParseResult}
    (child : Moves reach step raises parseChild) :
    Moves reach step raises (LexemeExpr.parse parseChild) :=
  moves_read fun _ => moves_aside (flag_aside false)
    (moves_guarded child fun last => aside_skipping (flag_aside _ last))

theorem skipper_moves {apply : RuleId → Parser CharT ParseResult}
    (applies : ∀ rule, reach rule → Moves reach step raises (apply rule)) :
    Moves reach step raises (runSkipper apply) := by
  intro context within
  refine follows_read ?_
  dsimp only [id]
  split
  · next skipper enabled configured =>
      have inside := within skipper configured
      exact moves_aside (flag_aside false) (moves_bind (applies skipper inside) fun _ =>
        moves_modify fun last => aside_skipping (flag_aside _ last)) context within
  · exact follows_pure ()

section Terminals

variable [PegValue CharT]

theorem terminal_moves (value : TerminalValue CharT) :
    Moves reach step raises (TerminalExpr.parse value) := by
  refine moves_read fun matched => moves_ite (moves_aside next_aside (moves_pure _)) ?_
  exact moves_aside (fun _ => same_aside rfl rfl rfl rfl rfl rfl rfl rfl) (moves_pure _)

theorem terminal_seq_moves (values : List CharT) :
    Moves reach step raises (TerminalSeqExpr.parse values) := by
  have matches_ : ∀ rest : List CharT, Moves reach step raises (TerminalSeqExpr.matchValues rest) := by
    intro rest
    induction rest with
    | nil => exact moves_pure _
    | cons value rest induction =>
        exact moves_read fun _ => moves_ite (moves_aside next_aside induction) (moves_pure _)
  refine moves_read fun initState => moves_bind (matches_ values) fun matched => ?_
  refine moves_ite (moves_pure _) (moves_aside (reset_aside _) ?_)
  exact moves_aside (fun _ => same_aside rfl rfl rfl rfl rfl rfl rfl rfl) (moves_pure _)

theorem token_moves (value : TerminalValue CharT) :
    Moves reach step raises (TokenExpr.parse value) := by
  refine moves_read fun matched => moves_ite (moves_aside next_aside (moves_make fun node => ?_)) ?_
  · exact moves_aside (fun _ => update_node_aside _ _ _) (moves_pure _)
  · exact moves_aside (fun _ => same_aside rfl rfl rfl rfl rfl rfl rfl rfl) (moves_pure _)

theorem expr_moves {commits : Prop} (engine : EngineRules reach commits step)
    (committed : ∀ position expected, raises (.parseError position expected))
    {apply : RuleId → Parser CharT ParseResult}
    (applies : ∀ rule, reach rule → Moves reach step raises (apply rule)) (fuel : Nat)
    {expr : Expr CharT} (confined : expr.Every (Confined reach commits)) :
    Moves reach step raises (expr.parse apply fuel) := by
  have all : ∀ children : List (Expr CharT), Expr.EveryAll (Confined reach commits) children →
      (∀ child ∈ children, child.Every (Confined reach commits) →
        Moves reach step raises (child.parse apply fuel)) →
      ∀ parser ∈ Expr.parseAll apply fuel children, Moves reach step raises parser := by
    intro children every each parser member
    rw [Expr.parse_all_eq_map] at member
    obtain ⟨child, inChildren, rfl⟩ := List.mem_map.mp member
    exact each child inChildren (Expr.every_all_iff.mp every child inChildren)
  induction expr using Expr.induct with
  | terminal value => exact terminal_moves value
  | terminalSeq values => exact terminal_seq_moves values
  | token value => exact token_moves value
  | matcher fn => exact matcher_moves fn
  | empty => exact moves_pure _
  | cut =>
      refine moves_update (fun context => ⟨?_, set_cut_skipper true context⟩) (moves_pure _)
      exact engine.committed confined.here context
  | sequence children induction =>
      unfold Expr.Every at confined
      exact sequence_moves (skipper_moves applies) (all children confined.2 induction)
  | alternation children induction =>
      unfold Expr.Every at confined
      exact alternation_moves committed (all children confined.2 induction)
  | repetition kind child induction =>
      unfold Expr.Every at confined
      exact repeat_moves committed fuel (skipper_moves applies) (induction confined.2) _ _
  | not child induction =>
      unfold Expr.Every at confined
      exact predicate_moves (induction confined.2) true
  | and child induction =>
      unfold Expr.Every at confined
      exact predicate_moves (induction confined.2) false
  | lexeme child induction =>
      unfold Expr.Every at confined
      exact lexeme_moves (induction confined.2)
  | rule id => exact applies id confined.here

end Terminals

end Expressions

section RuleApplication

variable {reach : RuleId → Prop} {raises : Exn → Prop}
  {step : Context CharT → List (Moment CharT) → Context CharT → Prop} [rules : Grounded step]

theorem store_moves (rule : RuleId) (pos : Nat) (entry : RuleState) (context : Context CharT) :
    Follows (Skipping step) raises (NonTerminal.store rule pos entry) context := by
  have same : (context.updateRuleState rule pos entry).2.skipper = context.skipper := by
    unfold Context.updateRuleState
    split <;> rfl
  exact ⟨⟨rules.stored rule pos entry context, same⟩, by
    simp [NonTerminal.store, announce, Comp.bind_eq, Comp.bind, Comp.modifyGet, Comp.announce,
      Comp.pure_eq, Comp.pure]⟩

theorem grow_loop_moves (rule : RuleId) (startPos : Nat) {parseBody : Parser CharT ParseResult}
    (body : Moves reach step raises parseBody) (fuel : Nat) (best : ParseResult)
    (ruleState : RuleState) :
    Moves reach step raises (NonTerminal.growLoop rule startPos parseBody fuel best ruleState) := by
  induction fuel generalizing best ruleState with
  | zero => exact fun _ _ => follows_exhaust
  | succ fuel induction =>
      refine moves_aside (reset_aside startPos) fun context within => follows_read ?_
      -- Siblings are cleared only where the frame read just before is a head.
      refine follows_bind (follows_onlyIf fun head =>
        follows_modify ⟨rules.cleared rule startPos context head.1, rfl⟩) fun _ middle _ _ cleared => ?_
      refine moves_bind body (fun result => moves_read fun after => moves_ite (moves_ite ?_ ?_) ?_)
        middle (within.kept cleared)
      · refine moves_update (fun context => ⟨rules.grew _ context, rfl⟩) ?_
        refine moves_bind (fun context _ => store_moves _ _ _ context) fun present => ?_
        exact moves_ite (induction _ _) (moves_pure _)
      · exact moves_bind (fun context _ => store_moves _ _ _ context) fun _ => moves_pure _
      · exact moves_pure _

theorem parse_impl_moves (rule : RuleId) (startPos : Nat)
    {body : Option (Parser CharT ParseResult)} (defined : ∀ parser ∈ body, Moves reach step raises parser)
    (undefined : body = none → raises .assertion) (fuel : Nat) :
    Moves reach step raises (NonTerminal.parseImpl rule startPos body fuel) := by
  cases body with
  | none => exact fun _ _ => follows_throw (undefined rfl)
  | some parseBody =>
      refine moves_bind (fun context _ => store_moves _ _ _ context) fun _ => ?_
      refine moves_bind (grow_loop_moves rule startPos (defined _ rfl) fuel _ _) fun grown => ?_
      exact moves_aside (fun context => reset_aside _ context) (moves_pure _)

theorem build_node_moves (nonTerminal : NonTerminal CharT NodeType) (rule : RuleId)
    (startPos : Nat) (inner : Option NodePtr) :
    Moves reach step raises (NonTerminal.buildNode nonTerminal rule startPos inner) := by
  have adopts : ∀ (update : Context CharT → ParseTreeNode → ParseTreeNode) (node : NodePtr),
      Moves reach step raises (Comp.modify (fun context => context.updateNode node (update context)) >>=
        fun _ => pure node) :=
    fun update node => moves_aside (fun _ => update_node_aside _ _ _) (moves_pure _)
  unfold NonTerminal.buildNode
  split
  · refine moves_make fun node => moves_aside (fun _ => update_node_aside _ _ _) ?_
    exact moves_aside (push_child_aside node _) (moves_pure _)
  · cases inner with
    | none => exact moves_make fun node => adopts _ node
    | some node => exact moves_bind (moves_pure node) fun node => adopts _ node

theorem finish_moves (nonTerminal : NonTerminal CharT NodeType) (rule : RuleId) (startPos : Nat)
    (grown : ParseResult × RuleState) :
    Moves reach step raises
      (if grown.1.success then NonTerminal.finishSuccess nonTerminal rule startPos grown.1 grown.2
      else NonTerminal.finishFailure nonTerminal rule startPos grown.2) := by
  refine moves_ite ?_ ?_
  · refine moves_bind (build_node_moves nonTerminal rule startPos _) fun node => ?_
    exact moves_bind (fun context _ => store_moves _ _ _ context) fun _ => moves_pure _
  · refine moves_aside (record_rule_failure_aside nonTerminal startPos) (moves_read fun context => ?_)
    split
    · refine moves_aside (fun context => ?_) ?_
      · have back := @reset_aside CharT
        exact ⟨rfl, rfl, rfl, rfl, rfl, rfl, (back _ context).checked, (back _ context).inside⟩
      · exact moves_bind (fun context _ => store_moves _ _ _ context) fun _ => moves_pure _
    · exact moves_bind (fun context _ => store_moves _ _ _ context) fun _ => moves_pure _

end RuleApplication

section Application

/-- What is left to do once the row and the frame of a rule are there. -/
def voyage (nonTerminal : NonTerminal CharT NodeType) (rule : RuleId)
    (body : Option (Parser CharT ParseResult)) (fuel startPos : Nat) : Parser CharT ParseResult := do
  let grown ← NonTerminal.parseImpl rule startPos body fuel
  Comp.modify (NonTerminal.leave startPos)
  if grown.1.success then NonTerminal.finishSuccess nonTerminal rule startPos grown.1 grown.2
  else NonTerminal.finishFailure nonTerminal rule startPos grown.2

theorem parse_miss (nonTerminal : NonTerminal CharT NodeType) {rule : RuleId}
    (body : Option (Parser CharT ParseResult)) (fuel : Nat) {context : Context CharT}
    (absent : context.mem context.position rule = none) :
    NonTerminal.parse nonTerminal rule body fuel context =
      ⟨(voyage nonTerminal rule body fuel context.position (embark rule context)).outcome,
        (voyage nonTerminal rule body fuel context.position (embark rule context)).state,
        ⟨.apply rule, context⟩ ::
          (voyage nonTerminal rule body fuel context.position (embark rule context)).trace⟩ := by
  have announced : (announce (.apply rule) context : Run _ _ _ _) =
      ⟨.returned (), context, [⟨.apply rule, context⟩]⟩ := rfl
  have started : (Comp.read Context.position context : Run (Moment CharT) _ Exn _) =
      ⟨.returned context.position, context, []⟩ := rfl
  have inserted : (Comp.modifyGet (fun here => here.ruleState rule context.position) context :
      Run (Moment CharT) (Context CharT) Exn (Bool × RuleState)) =
      ⟨.returned (true, {}),
        { context with mem := context.mem.write context.position rule {} }, []⟩ := by
    simp [Comp.modifyGet, Context.ruleState, absent]
  rw [NonTerminal.parse, Comp.bind_returned announced, Comp.bind_returned started,
    Comp.bind_returned inserted, if_pos rfl, NonTerminal.invoke]
  simp only [bind_assoc, pure_bind]
  rfl

variable [PegValue CharT] {reach : RuleId → Prop} {raises : Exn → Prop}
  {step : Context CharT → List (Moment CharT) → Context CharT → Prop} [rules : Grounded step]

/-- Every application of a rule of the set keeps the relation. -/
theorem apply_moves {commits : Prop} (engine : EngineRules reach commits step)
    {grammar : Grammar CharT NodeType} (closed : ClosedUnder grammar reach commits)
    (raising : MayRaise grammar reach raises) (fuel : Nat) (rule : RuleId) (inside : reach rule) :
    Moves reach step raises (grammar.apply fuel rule) := by
  induction fuel generalizing rule with
  | zero => exact fun _ _ => follows_exhaust
  | succ fuel induction =>
      intro context within
      rw [Grammar.apply, Follows]
      cases held : context.mem context.position rule with
      | some row =>
          have met := engine.met rule context inside (by simp [held])
          rw [parse_hit _ _ _ held, PlantedSeeds.replay_run held]
          have back := rules.trans _ _ _ _ _ met (rules.aside _ _ (reset_aside row.lastPos _))
          rw [List.append_nil] at back
          refine ⟨⟨back, ?_⟩, by simp⟩
          change (recognise rule context).skipper = context.skipper
          unfold recognise Context.markHead
          split_ifs
          · split
            · split_ifs <;> rfl
            · rfl
          · rfl
      | none =>
          have entered := engine.entered rule context inside held
          rw [parse_miss _ _ _ held]
          have body : ∀ parser ∈ (grammar.body rule).map (Expr.parse (grammar.apply fuel) fuel),
              Moves reach step raises parser := by
            intro parser member
            obtain ⟨expr, assigned, rfl⟩ := Option.map_eq_some_iff.mp member
            exact expr_moves engine raising.committed induction fuel (closed rule expr inside assigned)
          have undefined : (grammar.body rule).map (Expr.parse (grammar.apply fuel) fuel) = none →
              raises .assertion :=
            fun missing => raising.undefined rule inside (Option.map_eq_none_iff.mp missing)
          have onward : Moves reach step raises (voyage (grammar.nonTerminal rule) rule
              ((grammar.body rule).map (Expr.parse (grammar.apply fuel) fuel)) fuel
              context.position) := by
            refine moves_bind (parse_impl_moves rule _ body undefined fuel) fun grown => ?_
            refine moves_update (fun here => ⟨rules.left _ here, ?_⟩) (finish_moves _ _ _ _)
            unfold NonTerminal.leave
            split_ifs <;> rfl
          have followed := onward (embark rule context) within
          refine ⟨⟨?_, followed.steps.skipper⟩, followed.raised⟩
          exact rules.trans _ _ _ _ _ entered followed.steps.kept

theorem boundary_moves {commits : Prop} (engine : EngineRules reach commits step)
    {grammar : Grammar CharT NodeType} (closed : ClosedUnder grammar reach commits)
    (raising : MayRaise grammar reach raises) (fuel : Nat) {start : RuleId} (inside : reach start)
    (skips : ∀ skipper, grammar.skipper = some skipper → reach skipper) {Value : Type}
    (view : ParseResult → Value) (fallback : Value) (context : Context CharT) :
    RunFollows (Skipping step) raises { context with skipper := grammar.skipper }
      (boundary grammar fuel start view fallback context) := by
  have applies := apply_moves engine closed raising fuel
  have guarded : Moves reach step raises (Comp.catching (do
      let result ← grammar.apply fuel start
      pure (view result)) (Grammar.onParseError fallback)) := by
    intro here within
    have entered := moves_bind (applies start inside) (fun result => moves_pure (view result)) here within
    exact follows_catching entered fun exn allowed _ => allowed
  have whole := moves_bind (skipper_moves applies) (fun _ => guarded)
    { context with skipper := grammar.skipper } skips
  unfold boundary
  rw [Grammar.leadingSkip, bind_assoc]
  exact whole

theorem parse_moves {commits : Prop} (engine : EngineRules reach commits step)
    {grammar : Grammar CharT NodeType} (closed : ClosedUnder grammar reach commits)
    (raising : MayRaise grammar reach raises) (fuel : Nat) {name : Str} {start : RuleId}
    (found : grammar.find name = some start) (inside : reach start)
    (skips : ∀ skipper, grammar.skipper = some skipper → reach skipper) (context : Context CharT) :
    RunFollows (Skipping step) raises { context with skipper := grammar.skipper }
      (grammar.parse fuel name context) := by
  unfold Grammar.parse
  rw [found]
  exact boundary_moves engine closed raising fuel inside skips ParseResult.success false context

end Application

end Peglib.EngineSteps
