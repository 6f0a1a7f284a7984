import Mathlib.Algebra.Group.Nat.Defs
import Peglib.TracedComputation
import Peglib.ParseContext

/-!
# Parsing expressions

Transcription of `ParserFwd.h`, `Terminals.h` and `Combinators.h`. A parse is a
traced computation over the context. The rule application and the loop budget
are parameters here; `NonTerminal` ties the knot. The log announces each entry
of `NonTerminal::parse`, each answer written to the memo, each failed choice
branch or unbounded repetition just before the commit flag is read, and each
call of an `on_match` hook.
-/

namespace Peglib.Expressions

open Peglib.TracedComputation Peglib.ParseError Peglib.ParseContext

set_option autoImplicit false

inductive Exn where
  | parseError (position : Nat) (expected : ExpectedSet)
  | outOfRange (what : Str)
  | logicError (what : Str)
  | assertion
  | nullPointer
deriving DecidableEq

inductive Event where
  | apply (rule : RuleId)
  | store (rule : RuleId) (pos : Nat)
  | failure
  | onMatch (rule : RuleId) (node : NodePtr)
deriving DecidableEq

structure Moment (CharT : Type) where
  event : Event
  context : Context CharT

abbrev Parser (CharT Value : Type) : Type := Comp (Moment CharT) (Context CharT) Exn Value

section Leaves

variable {CharT : Type}

def announce (event : Event) : Parser CharT Unit := Comp.announce fun context => ⟨event, context⟩

/-- What a terminal or a token compares with: a value, a set in ascending
order, a range, or a predicate. -/
inductive TerminalValue (CharT : Type) where
  | value (letter : CharT)
  | set (letters : List CharT)
  | range (low high : CharT)
  | predicate (accepts : CharT → Bool)

variable [PegValue CharT]

def symbolConsumable (letter : CharT) : TerminalValue CharT → Bool
  | .value value => PegValue.equal letter value
  | .set values =>
      values.any fun value => !PegValue.less letter value && !PegValue.less value letter
  | .range low high => PegValue.lessEqual low letter && PegValue.lessEqual letter high
  | .predicate accepts => accepts letter

/-- `!context.ended() && symbolConsumable(context.current(), value)`. -/
def consumable (value : TerminalValue CharT) (context : Context CharT) : Bool :=
  !context.ended && context.current.any fun letter => symbolConsumable letter value

/-- The item of `record_terminal_expected`. -/
def terminalExpected (fallback : Str) : TerminalValue CharT → ExpectedItem
  | .value value => ⟨.literal, PegValue.escapeCharForExpected value⟩
  | .range low high =>
      ⟨.range, PegValue.escapeCharForExpected low ++ ascii ".." ++
        PegValue.escapeCharForExpected high⟩
  | .set values =>
      ⟨.range, ((values.map PegValue.escapeCharForExpected).intersperse (ascii ", ")).flatten⟩
  | .predicate _ => ⟨.literal, fallback⟩

def recordTerminalExpected (value : TerminalValue CharT) (fallback : Str)
    (context : Context CharT) : Context CharT :=
  context.recordFailureLazy context.position fun _ => terminalExpected fallback value

def TerminalExpr.parse (value : TerminalValue CharT) : Parser CharT ParseResult := do
  if ← Comp.read (consumable value) then
    Comp.modify Context.next
    pure ⟨true, none⟩
  else
    Comp.modify (recordTerminalExpected value (ascii "<terminal>"))
    pure ⟨false, none⟩

/-- The loop of `TerminalSeqExpr::parse`; false as soon as an element differs. -/
def TerminalSeqExpr.matchValues : List CharT → Parser CharT Bool
  | [] => pure true
  | value :: rest => do
      if ← Comp.read (consumable (.value value)) then
        Comp.modify Context.next
        TerminalSeqExpr.matchValues rest
      else pure false

def TerminalSeqExpr.recordExpected (values : List CharT) (context : Context CharT) :
    Context CharT :=
  context.recordFailureLazy context.position fun _ =>
    ⟨.literal, escapeStringForExpected (values.flatMap PegValue.toDisplay)⟩

def TerminalSeqExpr.parse (values : List CharT) : Parser CharT ParseResult := do
  let initState ← Comp.read Context.position
  if ← TerminalSeqExpr.matchValues values then
    pure ⟨true, none⟩
  else
    Comp.modify fun context => context.reset initState
    Comp.modify (TerminalSeqExpr.recordExpected values)
    pure ⟨false, none⟩

def TokenExpr.parse (value : TerminalValue CharT) : Parser CharT ParseResult := do
  if ← Comp.read (consumable value) then
    Comp.modify Context.next
    let node ← Comp.modifyGet Context.makeNode
    Comp.modify fun context => context.updateNode node fun fields =>
      { fields with startOffset := context.position - 1, endOffset := context.position }
    pure ⟨true, some node⟩
  else
    Comp.modify (recordTerminalExpected value (ascii "<token>"))
    pure ⟨false, none⟩

end Leaves

section Combinators

variable {CharT : Type}

def MatcherExpr.parse (fn : Context CharT → Span → Option Span) : Parser CharT ParseResult := do
  let context ← Comp.read id
  match fn context ⟨context.position, context.position⟩ with
  | some consumed =>
      Comp.modify fun context => context.reset consumed.stop
      let node ← Comp.modifyGet Context.makeNode
      Comp.modify fun after => after.updateNode node fun fields =>
        { fields with startOffset := context.position, endOffset := consumed.stop }
      pure ⟨true, some node⟩
  | none => pure ⟨false, none⟩

def EmptyExpr.parse : Parser CharT ParseResult := pure ⟨true, none⟩

def CutExpr.parse : Parser CharT ParseResult := do
  Comp.modify fun context => context.setCut true
  pure ⟨true, none⟩

/-- `Context::run_skipper`, given the application of a rule. -/
def runSkipper (apply : RuleId → Parser CharT ParseResult) : Parser CharT Unit := do
  let context ← Comp.read id
  match context.skipEnabled, context.skipper with
  | true, some skipper =>
      Comp.modify fun context => { context with skipEnabled := false }
      let _ ← apply skipper
      Comp.modify fun after => { after with skipEnabled := context.skipEnabled }
  | _, _ => pure ()

/-- `if (result.tree) node->children.push_back(result.tree)`. -/
def pushChild (node : NodePtr) (tree : Option NodePtr) (context : Context CharT) :
    Context CharT :=
  match tree with
  | some child => context.updateNode node fun fields =>
      { fields with children := fields.children ++ [some child] }
  | none => context

def markStart (node : NodePtr) (context : Context CharT) : Context CharT :=
  context.updateNode node fun fields => { fields with startOffset := context.position }

def markEnd (node : NodePtr) (context : Context CharT) : Context CharT :=
  context.updateNode node fun fields => { fields with endOffset := context.position }

/-- The skipper runs between adjacent children only. -/
def SequenceExpr.parseSeq (skip : Parser CharT Unit) (node : NodePtr) :
    Nat → List (Parser CharT ParseResult) → Parser CharT Bool
  | _, [] => pure true
  | index, child :: rest => do
      Comp.onlyIf (0 < index) skip
      let result ← child
      if result.success then
        Comp.modify (pushChild node result.tree)
        SequenceExpr.parseSeq skip node (index + 1) rest
      else pure false

def SequenceExpr.parse (skip : Parser CharT Unit) (children : List (Parser CharT ParseResult)) :
    Parser CharT ParseResult := do
  let state ← Comp.read Context.position
  let node ← Comp.modifyGet Context.makeNode
  Comp.modify (markStart node)
  if ← SequenceExpr.parseSeq skip node 0 children then
    Comp.modify (markEnd node)
    pure ⟨true, some node⟩
  else
    Comp.modify fun context => context.reset state
    pure ⟨false, none⟩

/-- `if (context.cut()) throw ParseError{...}`, announced. -/
def raiseIfCommitted : Parser CharT Unit := do
  announce .failure
  let context ← Comp.read id
  Comp.onlyIf (context.cut = true)
    (Comp.throw (.parseError context.errors.furthestFailurePos context.errors.expected))

/-- `if (result.tree) result.tree->alt_winner = Index`. -/
def stampWinner (tree : Option NodePtr) (index : Nat) (context : Context CharT) :
    Context CharT :=
  match tree with
  | some node => context.updateNode node fun fields => { fields with altWinner := some index }
  | none => context

def AlternationExpr.parseAlt : Nat → List (Parser CharT ParseResult) → Parser CharT ParseResult
  | _, [] => pure ⟨false, none⟩
  | index, child :: rest => do
      let result ← child
      if result.success then
        Comp.modify (stampWinner result.tree index)
        pure result
      else
        raiseIfCommitted
        AlternationExpr.parseAlt (index + 1) rest

def AlternationExpr.parse (children : List (Parser CharT ParseResult)) :
    Parser CharT ParseResult := do
  Comp.modify Context.initCut
  Comp.guarded (AlternationExpr.parseAlt 0 children) Context.removeCut

/-- The four subclasses of `Repetition`. -/
inductive RepKind where
  | zeroOrMore
  | oneOrMore
  | nTimes (count : Nat)
  | optional
deriving DecidableEq

def RepKind.minRep : RepKind → Nat
  | .zeroOrMore => 0
  | .oneOrMore => 1
  | .nTimes count => count
  | .optional => 0

/-- `-1` where unbounded; the count of `n*e` is cast from `size_t` to `int64_t`. -/
def RepKind.maxRep : RepKind → Int
  | .zeroOrMore => -1
  | .oneOrMore => -1
  | .nTimes count => Int.bmod count (2 ^ 64)
  | .optional => 1

/-- The locals of `repeat_parse_impl` when its loop has ended. -/
structure LoopExit where
  loopCount : Nat
  exitedViaFailure : Bool
  lastSuccessState : Nat

/-- `(max_rep > 0) && (loopCount >= max_rep)`. -/
def boundReached (maxRep : Int) (loopCount : Nat) : Bool :=
  decide (0 < maxRep) && decide (maxRep.toNat ≤ loopCount)

def repeatLoop (skip : Parser CharT Unit) (parseChild : Parser CharT ParseResult) (maxRep : Int)
    (node : NodePtr) : Nat → Nat → Nat → Parser CharT LoopExit
  | 0, _, _ => Comp.exhaust
  | fuel + 1, loopCount, lastSuccessState => do
      Comp.onlyIf (0 < loopCount) skip
      let startState ← Comp.read Context.position
      Comp.modify fun context => context.setCut false
      let result ← parseChild
      if result.success then
        let here ← Comp.read Context.position
        Comp.modify (pushChild node result.tree)
        if boundReached maxRep (loopCount + 1) || decide (here = startState) then
          pure ⟨loopCount + 1, false, here⟩
        else repeatLoop skip parseChild maxRep node fuel (loopCount + 1) here
      else pure ⟨loopCount, true, lastSuccessState⟩

/-- `children.resize(count)`: truncates, or pads with null. -/
def resizeChildren (count : Nat) (fields : ParseTreeNode) : ParseTreeNode :=
  { fields with
    children := fields.children.take count ++
      List.replicate (count - fields.children.length) none }

/-- What follows the minimum check of `repeat_parse_impl`. -/
def repeatFinish (maxRep : Int) (node : NodePtr) (ended : LoopExit) :
    Parser CharT ParseResult := do
  Comp.onlyIf (ended.exitedViaFailure = true) (Comp.modify fun context =>
    (context.reset ended.lastSuccessState).updateNode node (resizeChildren ended.loopCount))
  Comp.onlyIf (maxRep < 0 ∧ ended.exitedViaFailure = true) raiseIfCommitted
  Comp.modify (markEnd node)
  pure ⟨true, some node⟩

def repeatParseImpl (fuel : Nat) (skip : Parser CharT Unit) (parseChild : Parser CharT ParseResult)
    (minRep : Nat) (maxRep : Int) : Parser CharT ParseResult := do
  Comp.modify Context.initCut
  Comp.guarded (do
    let initState ← Comp.read Context.position
    let node ← Comp.modifyGet Context.makeNode
    Comp.modify (markStart node)
    let ended ← repeatLoop skip parseChild maxRep node fuel 0 initState
    if ended.loopCount < minRep then
      Comp.modify fun context => context.reset initState
      pure ⟨false, none⟩
    else repeatFinish maxRep node ended) Context.removeCut

def predicateParseImpl (parseChild : Parser CharT ParseResult) (negate : Bool) :
    Parser CharT ParseResult := do
  let initState ← Comp.read Context.position
  let result ← parseChild
  Comp.modify fun context => context.reset initState
  pure ⟨if negate then !result.success else result.success, none⟩

def LexemeExpr.parse (parseChild : Parser CharT ParseResult) : Parser CharT ParseResult := do
  let prev ← Comp.read Context.skipEnabled
  Comp.modify fun context => { context with skipEnabled := false }
  Comp.guarded parseChild fun context => { context with skipEnabled := prev }

end Combinators

inductive Expr (CharT : Type) where
  | terminal (value : TerminalValue CharT)
  | terminalSeq (values : List CharT)
  | token (value : TerminalValue CharT)
  | matcher (fn : Context CharT → Span → Option Span)
  | empty
  | cut
  | sequence (children : List (Expr CharT))
  | alternation (children : List (Expr CharT))
  | repetition (kind : RepKind) (child : Expr CharT)
  | not (child : Expr CharT)
  | and (child : Expr CharT)
  | lexeme (child : Expr CharT)
  | rule (id : RuleId)

namespace Expr

variable {CharT : Type}

@[elab_as_elim]
theorem induct {motive : Expr CharT → Prop}
    (terminal : ∀ value, motive (.terminal value))
    (terminalSeq : ∀ values, motive (.terminalSeq values))
    (token : ∀ value, motive (.token value))
    (matcher : ∀ fn, motive (.matcher fn))
    (empty : motive .empty)
    (cut : motive .cut)
    (sequence : ∀ children, (∀ child ∈ children, motive child) → motive (.sequence children))
    (alternation : ∀ children, (∀ child ∈ children, motive child) →
      motive (.alternation children))
    (repetition : ∀ kind child, motive child → motive (.repetition kind child))
    (not : ∀ child, motive child → motive (.not child))
    (and : ∀ child, motive child → motive (.and child))
    (lexeme : ∀ child, motive child → motive (.lexeme child))
    (rule : ∀ id, motive (.rule id)) (expr : Expr CharT) : motive expr :=
  @Expr.rec CharT motive (fun children => ∀ child ∈ children, motive child)
    terminal terminalSeq token matcher empty cut sequence alternation repetition not and lexeme
    rule (by simp) (fun _ _ first rest => by simpa using ⟨first, rest⟩) expr

mutual

/-- A property of every expression in the tree. -/
def Every (holds : Expr CharT → Prop) : Expr CharT → Prop
  | .sequence children => holds (.sequence children) ∧ EveryAll holds children
  | .alternation children => holds (.alternation children) ∧ EveryAll holds children
  | .repetition kind child => holds (.repetition kind child) ∧ Every holds child
  | .not child => holds (.not child) ∧ Every holds child
  | .and child => holds (.and child) ∧ Every holds child
  | .lexeme child => holds (.lexeme child) ∧ Every holds child
  | leaf => holds leaf

def EveryAll (holds : Expr CharT → Prop) : List (Expr CharT) → Prop
  | [] => True
  | child :: rest => Every holds child ∧ EveryAll holds rest

end

theorem every_all_iff {holds : Expr CharT → Prop} {children : List (Expr CharT)} :
    EveryAll holds children ↔ ∀ child ∈ children, Every holds child := by
  induction children with
  | nil => simp [EveryAll]
  | cons child rest induction => rw [EveryAll, induction, List.forall_mem_cons]

theorem Every.here {holds : Expr CharT → Prop} {expr : Expr CharT} (every : expr.Every holds) :
    holds expr := by
  cases expr <;> unfold Every at every <;> first | exact every.1 | exact every

theorem every_of_all {holds : Expr CharT → Prop} (all : ∀ expr, holds expr) (expr : Expr CharT) :
    expr.Every holds := by
  induction expr using Expr.induct with
  | sequence children induction | alternation children induction =>
      unfold Every
      exact ⟨all _, every_all_iff.mpr induction⟩
  | repetition _ child induction | not child induction | and child induction
  | lexeme child induction =>
      unfold Every
      exact ⟨all _, induction⟩
  | terminal _ | terminalSeq _ | token _ | matcher _ | empty | cut | rule _ =>
      unfold Every
      exact all _

theorem Every.mono {holds holds' : Expr CharT → Prop} (weaker : ∀ expr, holds expr → holds' expr)
    {expr : Expr CharT} (every : expr.Every holds) : expr.Every holds' := by
  induction expr using Expr.induct with
  | sequence children induction | alternation children induction =>
      unfold Every at every ⊢
      refine ⟨weaker _ every.1, every_all_iff.mpr fun child member => ?_⟩
      exact induction child member (every_all_iff.mp every.2 child member)
  | repetition _ child induction | not child induction | and child induction
  | lexeme child induction =>
      unfold Every at every ⊢
      exact ⟨weaker _ every.1, induction every.2⟩
  | terminal _ | terminalSeq _ | token _ | matcher _ | empty | cut | rule _ =>
      unfold Every at every ⊢
      exact weaker _ every

theorem Every.and {holds holds' : Expr CharT → Prop} {expr : Expr CharT}
    (left : expr.Every holds) (right : expr.Every holds') :
    expr.Every fun part => holds part ∧ holds' part := by
  induction expr using Expr.induct with
  | sequence children induction | alternation children induction =>
      unfold Every at left right ⊢
      refine ⟨⟨left.1, right.1⟩, every_all_iff.mpr fun child member => ?_⟩
      exact induction child member (every_all_iff.mp left.2 child member)
        (every_all_iff.mp right.2 child member)
  | repetition _ child induction | not child induction | and child induction
  | lexeme child induction =>
      unfold Every at left right ⊢
      exact ⟨⟨left.1, right.1⟩, induction left.2 right.2⟩
  | terminal _ | terminalSeq _ | token _ | matcher _ | empty | cut | rule _ =>
      unfold Every at left right ⊢
      exact ⟨left, right⟩

variable [PegValue CharT]

mutual

/-- The `parse` of each expression class, given the application of a rule and
a budget for the loops. -/
def parse (apply : RuleId → Parser CharT ParseResult) (fuel : Nat) :
    Expr CharT → Parser CharT ParseResult
  | .terminal value => TerminalExpr.parse value
  | .terminalSeq values => TerminalSeqExpr.parse values
  | .token value => TokenExpr.parse value
  | .matcher fn => MatcherExpr.parse fn
  | .empty => EmptyExpr.parse
  | .cut => CutExpr.parse
  | .sequence children => SequenceExpr.parse (runSkipper apply) (parseAll apply fuel children)
  | .alternation children => AlternationExpr.parse (parseAll apply fuel children)
  | .repetition kind child =>
      repeatParseImpl fuel (runSkipper apply) (parse apply fuel child) kind.minRep kind.maxRep
  | .not child => predicateParseImpl (parse apply fuel child) true
  | .and child => predicateParseImpl (parse apply fuel child) false
  | .lexeme child => LexemeExpr.parse (parse apply fuel child)
  | .rule id => apply id

def parseAll (apply : RuleId → Parser CharT ParseResult) (fuel : Nat) :
    List (Expr CharT) → List (Parser CharT ParseResult)
  | [] => []
  | child :: rest => parse apply fuel child :: parseAll apply fuel rest

end

theorem parse_all_eq_map (apply : RuleId → Parser CharT ParseResult) (fuel : Nat)
    (children : List (Expr CharT)) :
    parseAll apply fuel children = children.map (parse apply fuel) := by
  induction children with
  | nil => rfl
  | cons child rest induction => rw [parseAll, induction, List.map_cons]

end Expr

end Peglib.Expressions
