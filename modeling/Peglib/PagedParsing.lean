import Peglib.PagedInput
import Peglib.Rules

/-!
# Parsing paged input

Transcription of the parts of `Context.h`, `Terminals.h`, `Combinators.h`,
`NonTerminal.h` and `Grammar.h` that a parse runs through, for a context over a
`FileSource`. Every item is read through the source, which a read may refill and
a closing cut scope may clear. A read outside the file fails its assertion. The
log shows the content of the file in place of the source.
-/

namespace Peglib.PagedParsing

open Peglib.TracedComputation Peglib.ParseError Peglib.ParseContext Peglib.Expressions
open Peglib.Rules Peglib.PagedInput

set_option autoImplicit false

/-- The function of a matcher, as the items it asks the context for and the
answer it gives in the end. -/
inductive Reading (CharT Answer : Type) where
  | answer (value : Answer)
  | itemAt (pos : Nat) (next : CharT → Reading CharT Answer)

/-- The answer over contiguous input; there is none if a read is outside it. -/
def Reading.over {CharT Answer : Type} (input : List CharT) :
    Reading CharT Answer → Option Answer
  | .answer value => some value
  | .itemAt pos next => input[pos]?.bind fun item => (next item).over input

/-- `members` holds every member but the input, of which it knows nothing;
`inputSize` is read once, when the context is built. -/
structure PagedContext (CharT : Type) where
  members : Context CharT
  inputSize : Nat
  source : FileSource CharT

abbrev PagedParser (CharT Value : Type) : Type :=
  Comp (Moment CharT) (PagedContext CharT) Exn Value

namespace PagedContext

variable {CharT : Type} (paged : PagedContext CharT)

/-- An update of the other members. -/
def update (change : Context CharT → Context CharT) : PagedContext CharT :=
  { paged with members := change paged.members }

def updateGet {Value : Type} (change : Context CharT → Value × Context CharT) :
    Value × PagedContext CharT :=
  ((change paged.members).1, { paged with members := (change paged.members).2 })

def position : Nat := paged.members.position

def ended : Bool := decide (paged.inputSize ≤ paged.position)

def next : PagedContext CharT :=
  if paged.position < paged.inputSize then
    paged.update fun context => { context with position := context.position + 1 }
  else paged

def reset (pos : Nat) : PagedContext CharT :=
  paged.update fun context =>
    { context with
      position := pos
      outOfRange := context.outOfRange || decide (paged.inputSize < pos) }

/-- Closing a committed scope also releases the pages before the cut. -/
def removeCut : PagedContext CharT :=
  match paged.members.cutStack with
  | [] => paged
  | scope :: _ =>
      if scope.cut then
        { paged with
          members := paged.members.removeCut
          source := paged.source.releaseBefore scope.pos }
      else paged.update Context.removeCut

end PagedContext

/-- The context that takes the source over. -/
def PagedContext.fresh {CharT : Type} (source : FileSource CharT) : PagedContext CharT :=
  { members := Context.fresh [], inputSize := source.size, source := source.move.1 }

variable {CharT NodeType : Type} (file : File CharT) (page : PageSize)

section Leaves

def announce (event : Event) : PagedParser CharT Unit :=
  Comp.announce fun paged => ⟨event, { paged.members with input := file.items }⟩

/-- `Context::at`. -/
def itemAt (pos : Nat) : PagedParser CharT CharT := do
  let found ← Comp.modifyGet fun paged : PagedContext CharT =>
    ((paged.source.itemAt file page pos).1,
      { paged with source := (paged.source.itemAt file page pos).2 })
  match found with
  | some item => pure item
  | none => Comp.throw .assertion

def current : PagedParser CharT CharT := do
  let pos ← Comp.read PagedContext.position
  itemAt file page pos

variable [PegValue CharT]

def consumable (value : TerminalValue CharT) : PagedParser CharT Bool := do
  if ← Comp.read PagedContext.ended then pure false
  else
    let letter ← current file page
    pure (symbolConsumable letter value)

def parseTerminal (value : TerminalValue CharT) : PagedParser CharT ParseResult := do
  if ← consumable file page value then
    Comp.modify PagedContext.next
    pure ⟨true, none⟩
  else
    Comp.modify fun paged => paged.update (recordTerminalExpected value (ascii "<terminal>"))
    pure ⟨false, none⟩

def matchValues : List CharT → PagedParser CharT Bool
  | [] => pure true
  | value :: rest => do
      if ← consumable file page (.value value) then
        Comp.modify PagedContext.next
        matchValues rest
      else pure false

def parseTerminalSeq (values : List CharT) : PagedParser CharT ParseResult := do
  let initState ← Comp.read PagedContext.position
  if ← matchValues file page values then
    pure ⟨true, none⟩
  else
    Comp.modify fun paged => paged.reset initState
    Comp.modify fun paged => paged.update (TerminalSeqExpr.recordExpected values)
    pure ⟨false, none⟩

def parseToken (value : TerminalValue CharT) : PagedParser CharT ParseResult := do
  if ← consumable file page value then
    Comp.modify PagedContext.next
    let node ← Comp.modifyGet fun paged : PagedContext CharT => paged.updateGet Context.makeNode
    Comp.modify fun paged => paged.update fun context => context.updateNode node fun fields =>
      { fields with startOffset := context.position - 1, endOffset := context.position }
    pure ⟨true, some node⟩
  else
    Comp.modify fun paged => paged.update (recordTerminalExpected value (ascii "<token>"))
    pure ⟨false, none⟩

end Leaves

section Combinators

/-- The items a matcher asks for are read one after the other. -/
def ask {Answer : Type} : Reading CharT Answer → PagedParser CharT Answer
  | .answer value => pure value
  | .itemAt pos next => do
      let item ← itemAt file page pos
      ask (next item)

/-- What a matcher does with a context, the size of its input and a span. -/
abbrev Matcher (Item : Type) : Type :=
  Context Item → Nat → Span → Reading Item (Option Span)

def parseMatcher (fn : Matcher CharT) : PagedParser CharT ParseResult := do
  let paged ← Comp.read id
  let start := paged.position
  match ← ask file page (fn paged.members paged.inputSize ⟨start, start⟩) with
  | some consumed =>
      Comp.modify fun paged => paged.reset consumed.stop
      let node ← Comp.modifyGet fun paged : PagedContext CharT => paged.updateGet Context.makeNode
      Comp.modify fun paged => paged.update fun context => context.updateNode node fun fields =>
        { fields with startOffset := start, endOffset := consumed.stop }
      pure ⟨true, some node⟩
  | none => pure ⟨false, none⟩

def runSkipper (apply : RuleId → PagedParser CharT ParseResult) : PagedParser CharT Unit := do
  let context ← Comp.read PagedContext.members
  match context.skipEnabled, context.skipper with
  | true, some skipper =>
      Comp.modify fun paged => paged.update fun context => { context with skipEnabled := false }
      let _ ← apply skipper
      Comp.modify fun paged => paged.update fun after =>
        { after with skipEnabled := context.skipEnabled }
  | _, _ => pure ()

def parseSeq (skip : PagedParser CharT Unit) (node : NodePtr) :
    Nat → List (PagedParser CharT ParseResult) → PagedParser CharT Bool
  | _, [] => pure true
  | index, child :: rest => do
      Comp.onlyIf (0 < index) skip
      let result ← child
      if result.success then
        Comp.modify fun paged => paged.update (pushChild node result.tree)
        parseSeq skip node (index + 1) rest
      else pure false

def parseSequence (skip : PagedParser CharT Unit)
    (children : List (PagedParser CharT ParseResult)) : PagedParser CharT ParseResult := do
  let state ← Comp.read PagedContext.position
  let node ← Comp.modifyGet fun paged : PagedContext CharT => paged.updateGet Context.makeNode
  Comp.modify fun paged => paged.update (markStart node)
  if ← parseSeq skip node 0 children then
    Comp.modify fun paged => paged.update (markEnd node)
    pure ⟨true, some node⟩
  else
    Comp.modify fun paged => paged.reset state
    pure ⟨false, none⟩

def raiseIfCommitted : PagedParser CharT Unit := do
  announce file .failure
  let context ← Comp.read PagedContext.members
  Comp.onlyIf (context.cut = true)
    (Comp.throw (.parseError context.errors.furthestFailurePos context.errors.expected))

def parseAlt : Nat → List (PagedParser CharT ParseResult) → PagedParser CharT ParseResult
  | _, [] => pure ⟨false, none⟩
  | index, child :: rest => do
      let result ← child
      if result.success then
        Comp.modify fun paged => paged.update (stampWinner result.tree index)
        pure result
      else
        raiseIfCommitted file
        parseAlt (index + 1) rest

def parseAlternation (children : List (PagedParser CharT ParseResult)) :
    PagedParser CharT ParseResult := do
  Comp.modify fun paged => paged.update Context.initCut
  Comp.guarded (parseAlt file 0 children) PagedContext.removeCut

def repeatLoop (skip : PagedParser CharT Unit) (parseChild : PagedParser CharT ParseResult)
    (maxRep : Int) (node : NodePtr) : Nat → Nat → Nat → PagedParser CharT LoopExit
  | 0, _, _ => Comp.exhaust
  | fuel + 1, loopCount, lastSuccessState => do
      Comp.onlyIf (0 < loopCount) skip
      let startState ← Comp.read PagedContext.position
      Comp.modify fun paged => paged.update fun context => context.setCut false
      let result ← parseChild
      if result.success then
        let here ← Comp.read PagedContext.position
        Comp.modify fun paged => paged.update (pushChild node result.tree)
        if boundReached maxRep (loopCount + 1) || decide (here = startState) then
          pure ⟨loopCount + 1, false, here⟩
        else repeatLoop skip parseChild maxRep node fuel (loopCount + 1) here
      else pure ⟨loopCount, true, lastSuccessState⟩

def repeatFinish (maxRep : Int) (node : NodePtr) (ended : LoopExit) :
    PagedParser CharT ParseResult := do
  Comp.onlyIf (ended.exitedViaFailure = true) (Comp.modify fun paged =>
    (paged.reset ended.lastSuccessState).update fun context =>
      context.updateNode node (resizeChildren ended.loopCount))
  Comp.onlyIf (maxRep < 0 ∧ ended.exitedViaFailure = true) (raiseIfCommitted file)
  Comp.modify fun paged => paged.update (markEnd node)
  pure ⟨true, some node⟩

def repeatParseImpl (fuel : Nat) (skip : PagedParser CharT Unit)
    (parseChild : PagedParser CharT ParseResult) (minRep : Nat) (maxRep : Int) :
    PagedParser CharT ParseResult := do
  Comp.modify fun paged => paged.update Context.initCut
  Comp.guarded (do
    let initState ← Comp.read PagedContext.position
    let node ← Comp.modifyGet fun paged : PagedContext CharT => paged.updateGet Context.makeNode
    Comp.modify fun paged => paged.update (markStart node)
    let ended ← repeatLoop skip parseChild maxRep node fuel 0 initState
    if ended.loopCount < minRep then
      Comp.modify fun paged => paged.reset initState
      pure ⟨false, none⟩
    else repeatFinish file maxRep node ended) PagedContext.removeCut

def predicateParseImpl (parseChild : PagedParser CharT ParseResult) (negate : Bool) :
    PagedParser CharT ParseResult := do
  let initState ← Comp.read PagedContext.position
  let result ← parseChild
  Comp.modify fun paged => paged.reset initState
  pure ⟨if negate then !result.success else result.success, none⟩

def parseLexeme (parseChild : PagedParser CharT ParseResult) : PagedParser CharT ParseResult := do
  let prev ← Comp.read fun paged : PagedContext CharT => paged.members.skipEnabled
  Comp.modify fun paged => paged.update fun context => { context with skipEnabled := false }
  Comp.guarded parseChild fun paged =>
    paged.update fun context => { context with skipEnabled := prev }

def parseCut : PagedParser CharT ParseResult := do
  Comp.modify fun paged => paged.update fun context => context.setCut true
  pure ⟨true, none⟩

end Combinators

section Expressions

variable [PegValue CharT]

mutual

/-- The `parse` of each expression class. `reads` says how a matcher comes to
its answers. -/
def parseExpr (reads : (Context CharT → Span → Option Span) → Matcher CharT)
    (apply : RuleId → PagedParser CharT ParseResult) (fuel : Nat) :
    Expr CharT → PagedParser CharT ParseResult
  | .terminal value => parseTerminal file page value
  | .terminalSeq values => parseTerminalSeq file page values
  | .token value => parseToken file page value
  | .matcher fn => parseMatcher file page (reads fn)
  | .empty => pure ⟨true, none⟩
  | .cut => parseCut
  | .sequence children => parseSequence (runSkipper apply) (parseAll reads apply fuel children)
  | .alternation children => parseAlternation file (parseAll reads apply fuel children)
  | .repetition kind child =>
      repeatParseImpl file fuel (runSkipper apply) (parseExpr reads apply fuel child) kind.minRep
        kind.maxRep
  | .not child => predicateParseImpl (parseExpr reads apply fuel child) true
  | .and child => predicateParseImpl (parseExpr reads apply fuel child) false
  | .lexeme child => parseLexeme (parseExpr reads apply fuel child)
  | .rule id => apply id

def parseAll (reads : (Context CharT → Span → Option Span) → Matcher CharT)
    (apply : RuleId → PagedParser CharT ParseResult) (fuel : Nat) :
    List (Expr CharT) → List (PagedParser CharT ParseResult)
  | [] => []
  | child :: rest => parseExpr reads apply fuel child :: parseAll reads apply fuel rest

end

end Expressions

section Rules

def store (rule : RuleId) (pos : Nat) (entry : RuleState) : PagedParser CharT Bool := do
  let present ← Comp.modifyGet fun paged : PagedContext CharT =>
    paged.updateGet fun context => context.updateRuleState rule pos entry
  announce file (.store rule pos)
  pure present

def growLoop (rule : RuleId) (startPos : Nat) (parseBody : PagedParser CharT ParseResult) :
    Nat → ParseResult → RuleState → PagedParser CharT (ParseResult × RuleState)
  | 0, _, _ => Comp.exhaust
  | fuel + 1, best, ruleState => do
      Comp.modify fun paged => paged.reset startPos
      let before ← Comp.read PagedContext.members
      Comp.onlyIf ((NonTerminal.frame before).isHead = true ∧ best.success = true)
        (Comp.modify fun paged => paged.update fun context => context.clearSiblingsAt startPos rule)
      let result ← parseBody
      let after ← Comp.read PagedContext.members
      if result.success then
        if (NonTerminal.frame after).lastPos < after.position then
          Comp.modify fun paged => paged.update (NonTerminal.setFrameLastPos after.position)
          if ← store file rule startPos ⟨after.position, result⟩ then
            growLoop rule startPos parseBody fuel result ⟨after.position, result⟩
          else pure (result, ⟨after.position, result⟩)
        else
          let kept := if best.success then best else result
          let _ ← store file rule startPos ⟨(NonTerminal.frame after).lastPos, kept⟩
          pure (kept, ⟨(NonTerminal.frame after).lastPos, kept⟩)
      else pure (best, ruleState)

def parseImpl (rule : RuleId) (startPos : Nat) (body : Option (PagedParser CharT ParseResult))
    (fuel : Nat) : PagedParser CharT (ParseResult × RuleState) :=
  match body with
  | none => Comp.throw .assertion
  | some parseBody => do
      let _ ← store file rule startPos ⟨startPos, {}⟩
      let grown ← growLoop file rule startPos parseBody fuel {} ⟨startPos, {}⟩
      Comp.modify fun paged => paged.reset (NonTerminal.frame paged.members).lastPos
      pure grown

/-- The loop over the items from `scan` on, `left` of them before the end. -/
def scanSync (isSyncToken : CharT → Bool) : Nat → Nat → PagedParser CharT Nat
  | scan, 0 => pure scan
  | scan, left + 1 => do
      let letter ← itemAt file page scan
      if isSyncToken letter then pure scan else scanSync isSyncToken (scan + 1) left

def finishFailure (nonTerminal : NonTerminal CharT NodeType) (rule : RuleId) (startPos : Nat)
    (ruleState : RuleState) : PagedParser CharT ParseResult := do
  Comp.modify fun paged => paged.update (NonTerminal.recordRuleFailure nonTerminal startPos)
  let paged ← Comp.read id
  match nonTerminal.recover.isSyncToken, paged.members.cut with
  | some isSyncToken, false =>
      let scan ← scanSync file page isSyncToken startPos (paged.inputSize - startPos)
      let resumeAt := if scan < paged.inputSize then scan + 1 else paged.inputSize
      let label :=
        if nonTerminal.recover.label = [] then nonTerminal.name else nonTerminal.recover.label
      Comp.modify fun paged => (paged.reset resumeAt).update fun context =>
        context.recordDiagnostic ⟨startPos, [⟨.ruleLabel, label⟩]⟩
      let _ ← store file rule startPos ⟨resumeAt, ⟨true, none⟩⟩
      pure ⟨true, none⟩
  | _, _ =>
      let _ ← store file rule startPos ⟨ruleState.lastPos, ⟨false, none⟩⟩
      pure ⟨false, none⟩

def buildNode (nonTerminal : NonTerminal CharT NodeType) (rule : RuleId) (startPos : Nat)
    (inner : Option NodePtr) : PagedParser CharT NodePtr :=
  match nonTerminal.typedFold with
  | some _ => do
      let node ← Comp.modifyGet fun paged : PagedContext CharT => paged.updateGet Context.makeNode
      Comp.modify fun paged => paged.update fun context => context.updateNode node fun fields =>
        { fields with
          name := nonTerminal.name
          producer := some rule
          startOffset := startPos
          endOffset := context.position }
      Comp.modify fun paged => paged.update (pushChild node inner)
      pure node
  | none => do
      let node ← inner.elim
        (Comp.modifyGet fun paged : PagedContext CharT => paged.updateGet Context.makeNode) pure
      Comp.modify fun paged => paged.update fun context => context.updateNode node fun fields =>
        { fields with
          name := nonTerminal.name
          producer := if fields.producer.isNone then some rule else fields.producer
          startOffset := startPos
          endOffset := context.position }
      pure node

def replay (rule : RuleId) (startPos : Nat) (ruleState : RuleState) :
    PagedParser CharT ParseResult := do
  let context ← Comp.read PagedContext.members
  if context.lrInProgress rule startPos then
    Comp.modify fun paged => paged.update fun context => context.markHead rule startPos
    Comp.modify fun paged => paged.reset (paged.members.memoGet rule startPos).lastPos
    pure (context.memoGet rule startPos).cachedResult
  else
    match context.growingHead startPos with
    | some head =>
        if head ≠ rule then
          Comp.modify fun paged => paged.reset (paged.members.memoGet rule startPos).lastPos
          pure (context.memoGet rule startPos).cachedResult
        else
          Comp.modify fun paged => paged.reset ruleState.lastPos
          pure ruleState.cachedResult
    | none =>
        Comp.modify fun paged => paged.reset ruleState.lastPos
        pure ruleState.cachedResult

def invoke (rule : RuleId) (startPos : Nat) (body : Option (PagedParser CharT ParseResult))
    (fuel : Nat) : PagedParser CharT (ParseResult × RuleState) := do
  Comp.modify fun paged => paged.update fun context =>
    context.lrPush ⟨rule, startPos, startPos, false⟩
  let grown ← parseImpl file rule startPos body fuel
  Comp.modify fun paged => paged.update (NonTerminal.leave startPos)
  pure grown

def finishSuccess (nonTerminal : NonTerminal CharT NodeType) (rule : RuleId) (startPos : Nat)
    (inner : ParseResult) (ruleState : RuleState) : PagedParser CharT ParseResult := do
  let node ← buildNode nonTerminal rule startPos inner.tree
  let _ ← store file rule startPos ⟨ruleState.lastPos, ⟨true, some node⟩⟩
  pure ⟨true, some node⟩

def parseRule (nonTerminal : NonTerminal CharT NodeType) (rule : RuleId)
    (body : Option (PagedParser CharT ParseResult)) (fuel : Nat) :
    PagedParser CharT ParseResult := do
  announce file (.apply rule)
  let startPos ← Comp.read PagedContext.position
  let row ← Comp.modifyGet fun paged : PagedContext CharT =>
    paged.updateGet fun context => context.ruleState rule startPos
  if row.1 then
    let grown ← invoke file rule startPos body fuel
    if grown.1.success then finishSuccess file nonTerminal rule startPos grown.1 grown.2
    else finishFailure file page nonTerminal rule startPos grown.2
  else replay rule startPos row.2

end Rules

section Entry

variable [PegValue CharT] (reads : (Context CharT → Span → Option Span) → Matcher CharT)
  (grammar : Grammar CharT NodeType)

def apply : Nat → RuleId → PagedParser CharT ParseResult
  | 0, _ => Comp.exhaust
  | fuel + 1, rule =>
      parseRule file page (grammar.nonTerminal rule) rule
        ((grammar.body rule).map (parseExpr file page reads (apply fuel) fuel)) fuel

def leadingSkip (fuel : Nat) : PagedParser CharT Unit := do
  Comp.modify fun paged => paged.update fun context => { context with skipper := grammar.skipper }
  runSkipper (apply file page reads grammar fuel)

def parse (fuel : Nat) (name : Str) : PagedParser CharT Bool :=
  match grammar.find name with
  | none => Comp.throw (Grammar.notFound (ascii "parse") name)
  | some rule => do
      leadingSkip file page reads grammar fuel
      Comp.catching (do
        let result ← apply file page reads grammar fuel rule
        pure result.success) (Grammar.onParseError false)

def parseTree (fuel : Nat) (name : Str) : PagedParser CharT (Option NodePtr) :=
  match grammar.find name with
  | none => Comp.throw (Grammar.notFound (ascii "parse_tree") name)
  | some rule => do
      leadingSkip file page reads grammar fuel
      Comp.catching (do
        let result ← apply file page reads grammar fuel rule
        pure result.tree) (Grammar.onParseError none)

end Entry

end Peglib.PagedParsing
