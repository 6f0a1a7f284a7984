import Peglib.Expressions

/-!
# Rules and grammars

Transcription of `NonTerminal.h` and of the parsing entry points of
`Grammar.h`. A grammar lists its rules; the position of a rule in the list is
its identity. Each rule application spends one unit of budget, so that a run
that needs an unbounded C++ stack exhausts every budget.
-/

namespace Peglib.Rules

open Peglib.TracedComputation Peglib.ParseError Peglib.ParseContext Peglib.Expressions

set_option autoImplicit false

/-- `RecoverSpec`; `configured()` is the presence of the predicate. -/
structure RecoverSpec (CharT : Type) where
  isSyncToken : Option (CharT → Bool) := none
  label : Str := []

/-- The values that typed actions receive and return: elements, nodes, and the
tuples, vectors and optionals built from them. -/
inductive Val (CharT NodeType : Type) where
  | element (letter : CharT)
  | node (value : NodeType)
  | tuple (values : List (Val CharT NodeType))
  | vector (values : List (Val CharT NodeType))
  | optional (value : Option (Val CharT NodeType))

/-- A typed action `f(ctx, span, args...)`. -/
abbrev Action (CharT NodeType : Type) : Type :=
  Context CharT → Span → List (Val CharT NodeType) → NodeType

/-- `typedFold` is the action that `set_action` wraps into the typed fold, and
`onMatch` says whether a hook is set. -/
structure NonTerminal (CharT NodeType : Type) where
  body : Option (Expr CharT) := none
  name : Str := []
  label : Str := []
  recover : RecoverSpec CharT := {}
  typedFold : Option (Action CharT NodeType) := none
  onMatch : Bool := false

namespace NonTerminal

variable {CharT NodeType : Type}

/-- The call's own frame, on top of the invocation stack while its body is
evaluated. -/
def frame (context : Context CharT) : LRFrame := context.lrStack.headD ⟨0, 0, 0, false⟩

def setFrameLastPos (pos : Nat) (context : Context CharT) : Context CharT :=
  { context with
    lrStack := match context.lrStack with
      | [] => []
      | top :: rest => { top with lastPos := pos } :: rest }

def store (rule : RuleId) (pos : Nat) (entry : RuleState) : Parser CharT Bool := do
  let present ← Comp.modifyGet fun context => context.updateRuleState rule pos entry
  announce (.store rule pos)
  pure present

/-- The `while (true)` loop of `parseImpl`: the best result and the local rule
state at its end. -/
def growLoop (rule : RuleId) (startPos : Nat) (parseBody : Parser CharT ParseResult) :
    Nat → ParseResult → RuleState → Parser CharT (ParseResult × RuleState)
  | 0, _, _ => Comp.exhaust
  | fuel + 1, best, ruleState => do
      Comp.modify fun context => context.reset startPos
      let before ← Comp.read id
      Comp.onlyIf ((frame before).isHead = true ∧ best.success = true)
        (Comp.modify fun context => context.clearSiblingsAt startPos rule)
      let result ← parseBody
      let after ← Comp.read id
      if result.success then
        if (frame after).lastPos < after.position then
          Comp.modify (setFrameLastPos after.position)
          if ← store rule startPos ⟨after.position, result⟩ then
            growLoop rule startPos parseBody fuel result ⟨after.position, result⟩
          else pure (result, ⟨after.position, result⟩)
        else
          -- Fixed point: a zero-width first match is adopted, a regressed one is not.
          let kept := if best.success then best else result
          let _ ← store rule startPos ⟨(frame after).lastPos, kept⟩
          pure (kept, ⟨(frame after).lastPos, kept⟩)
      else pure (best, ruleState)

def parseImpl (rule : RuleId) (startPos : Nat) (body : Option (Parser CharT ParseResult))
    (fuel : Nat) : Parser CharT (ParseResult × RuleState) :=
  match body with
  | none => Comp.throw .assertion
  | some parseBody => do
      let _ ← store rule startPos ⟨startPos, {}⟩
      let grown ← growLoop rule startPos parseBody fuel {} ⟨startPos, {}⟩
      Comp.modify fun context => context.reset (frame context).lastPos
      pure grown

/-- The first position from `scan` on that holds a sync token, or the end. -/
def scanSync (isSyncToken : CharT → Bool) (context : Context CharT) (scan : Nat) : Nat :=
  scan + ((context.input.drop scan).takeWhile fun letter => !isSyncToken letter).length

def recordRuleFailure (nonTerminal : NonTerminal CharT NodeType) (startPos : Nat)
    (context : Context CharT) : Context CharT :=
  if nonTerminal.label ≠ [] then context.recordFailure startPos ⟨.ruleLabel, nonTerminal.label⟩
  else if nonTerminal.name ≠ [] then context.recordFailure startPos ⟨.ruleName, nonTerminal.name⟩
  else context

theorem record_rule_failure_frame (nonTerminal : NonTerminal CharT NodeType) (startPos : Nat)
    (context : Context CharT) :
    ∃ errors, recordRuleFailure nonTerminal startPos context = { context with errors := errors } := by
  unfold recordRuleFailure
  split_ifs <;> exact ⟨_, rfl⟩

/-- What `parse` does with a failed body. -/
def finishFailure (nonTerminal : NonTerminal CharT NodeType) (rule : RuleId) (startPos : Nat)
    (ruleState : RuleState) : Parser CharT ParseResult := do
  Comp.modify (recordRuleFailure nonTerminal startPos)
  let context ← Comp.read id
  match nonTerminal.recover.isSyncToken, context.cut with
  | some isSyncToken, false =>
      let scan := scanSync isSyncToken context startPos
      let resumeAt := if scan < context.inputSize then scan + 1 else context.inputSize
      let label :=
        if nonTerminal.recover.label = [] then nonTerminal.name else nonTerminal.recover.label
      Comp.modify fun context =>
        (context.reset resumeAt).recordDiagnostic ⟨startPos, [⟨.ruleLabel, label⟩]⟩
      let _ ← store rule startPos ⟨resumeAt, ⟨true, none⟩⟩
      pure ⟨true, none⟩
  | _, _ =>
      let _ ← store rule startPos ⟨ruleState.lastPos, ⟨false, none⟩⟩
      pure ⟨false, none⟩

/-- Wraps the body node of a rule with a typed action, adopts it otherwise. -/
def buildNode (nonTerminal : NonTerminal CharT NodeType) (rule : RuleId) (startPos : Nat)
    (inner : Option NodePtr) : Parser CharT NodePtr :=
  match nonTerminal.typedFold with
  | some _ => do
      let node ← Comp.modifyGet Context.makeNode
      Comp.modify fun context => context.updateNode node fun fields =>
        { fields with
          name := nonTerminal.name
          producer := some rule
          startOffset := startPos
          endOffset := context.position }
      Comp.modify (pushChild node inner)
      pure node
  | none => do
      let node ← inner.elim (Comp.modifyGet Context.makeNode) pure
      Comp.modify fun context => context.updateNode node fun fields =>
        { fields with
          name := nonTerminal.name
          producer := if fields.producer.isNone then some rule else fields.producer
          startOffset := startPos
          endOffset := context.position }
      pure node

/-- The answers of a row that is already present: the live seed of a rule in
progress, the live row of a rule involved in another head's growth, or an
ordinary memo hit. -/
def replay (rule : RuleId) (startPos : Nat) (ruleState : RuleState) : Parser CharT ParseResult := do
  let context ← Comp.read id
  if context.lrInProgress rule startPos then
    Comp.modify fun context => context.markHead rule startPos
    Comp.modify fun context => context.reset (context.memoGet rule startPos).lastPos
    pure (context.memoGet rule startPos).cachedResult
  else
    match context.growingHead startPos with
    | some head =>
        if head ≠ rule then
          Comp.modify fun context => context.reset (context.memoGet rule startPos).lastPos
          pure (context.memoGet rule startPos).cachedResult
        else
          Comp.modify fun context => context.reset ruleState.lastPos
          pure ruleState.cachedResult
    | none =>
        Comp.modify fun context => context.reset ruleState.lastPos
        pure ruleState.cachedResult

/-- `lr_pop`, and `clear_growing_head` if the popped frame was a head. -/
def leave (startPos : Nat) (context : Context CharT) : Context CharT :=
  if (frame context).isHead then context.lrPop.clearGrowingHead startPos else context.lrPop

/-- The first-time parse: the rule is on the invocation stack while its body is
evaluated. A throw leaves it there. -/
def invoke (rule : RuleId) (startPos : Nat) (body : Option (Parser CharT ParseResult))
    (fuel : Nat) : Parser CharT (ParseResult × RuleState) := do
  Comp.modify fun context => context.lrPush ⟨rule, startPos, startPos, false⟩
  let grown ← parseImpl rule startPos body fuel
  Comp.modify (leave startPos)
  pure grown

def finishSuccess (nonTerminal : NonTerminal CharT NodeType) (rule : RuleId) (startPos : Nat)
    (inner : ParseResult) (ruleState : RuleState) : Parser CharT ParseResult := do
  let node ← buildNode nonTerminal rule startPos inner.tree
  let _ ← store rule startPos ⟨ruleState.lastPos, ⟨true, some node⟩⟩
  pure ⟨true, some node⟩

/-- `NonTerminal::parse`, given the parser of the body. -/
def parse (nonTerminal : NonTerminal CharT NodeType) (rule : RuleId)
    (body : Option (Parser CharT ParseResult)) (fuel : Nat) : Parser CharT ParseResult := do
  announce (.apply rule)
  let startPos ← Comp.read Context.position
  let row ← Comp.modifyGet fun context => context.ruleState rule startPos
  if row.1 then
    let grown ← invoke rule startPos body fuel
    if grown.1.success then finishSuccess nonTerminal rule startPos grown.1 grown.2
    else finishFailure nonTerminal rule startPos grown.2
  else replay rule startPos row.2

end NonTerminal

/-- The rules in the order of `m_rules`, each under its key. -/
structure Grammar (CharT NodeType : Type) where
  rules : List (Str × NonTerminal CharT NodeType)
  start : Str := []
  skipper : Option RuleId := none

namespace Grammar

variable {CharT NodeType : Type}

def nonTerminal (grammar : Grammar CharT NodeType) (rule : RuleId) : NonTerminal CharT NodeType :=
  (grammar.rules[rule]?.map Prod.snd).getD {}

/-- The expression a rule was assigned, if any. -/
def body (grammar : Grammar CharT NodeType) (rule : RuleId) : Option (Expr CharT) :=
  (grammar.nonTerminal rule).body

def find (grammar : Grammar CharT NodeType) (name : Str) : Option RuleId :=
  grammar.rules.findIdx? fun entry => entry.1 == name

variable [PegValue CharT]

def apply (grammar : Grammar CharT NodeType) : Nat → RuleId → Parser CharT ParseResult
  | 0, _ => Comp.exhaust
  | fuel + 1, rule =>
      NonTerminal.parse (grammar.nonTerminal rule) rule
        ((grammar.body rule).map (Expr.parse (apply grammar fuel) fuel)) fuel

/-- An expression evaluated against the grammar. -/
def eval (grammar : Grammar CharT NodeType) (fuel : Nat) (expr : Expr CharT) :
    Parser CharT ParseResult :=
  expr.parse (grammar.apply fuel) fuel

/-- The leading skip of every entry point, outside its handler. -/
def leadingSkip (grammar : Grammar CharT NodeType) (fuel : Nat) : Parser CharT Unit := do
  Comp.modify fun context => { context with skipper := grammar.skipper }
  runSkipper (grammar.apply fuel)

/-- `catch (const ParseError&)`. -/
def onParseError {Value : Type} (value : Value) : Exn → Option Value
  | .parseError _ _ => some value
  | _ => none

def notFound (entry name : Str) : Exn :=
  .outOfRange (ascii "Grammar::" ++ entry ++ ascii ": rule '" ++ name ++ ascii "' not found")

def parse (grammar : Grammar CharT NodeType) (fuel : Nat) (name : Str) : Parser CharT Bool :=
  match grammar.find name with
  | none => Comp.throw (notFound (ascii "parse") name)
  | some rule => do
      grammar.leadingSkip fuel
      Comp.catching (do
        let result ← grammar.apply fuel rule
        pure result.success) (onParseError false)

def parseTree (grammar : Grammar CharT NodeType) (fuel : Nat) (name : Str) :
    Parser CharT (Option NodePtr) :=
  match grammar.find name with
  | none => Comp.throw (notFound (ascii "parse_tree") name)
  | some rule => do
      grammar.leadingSkip fuel
      Comp.catching (do
        let result ← grammar.apply fuel rule
        pure result.tree) (onParseError none)

/-- `parse(ctx)`, from the start rule. -/
def parseStart (grammar : Grammar CharT NodeType) (fuel : Nat) : Parser CharT Bool :=
  if grammar.start = [] then
    Comp.throw (.logicError (ascii "Grammar::parse: no start rule set"))
  else grammar.parse fuel grammar.start

end Grammar

end Peglib.Rules
