import Peglib.ParseError

/-!
# The parse context

Transcription of `Context.h`. Pointers are indices: a `NonTerminal*` is the
position of the rule in its grammar, a `ParseTreeNode*` the position of the
node in the context's arena. The two-level memo map is a partial function of
position and rule, an empty inner map being the same as a missing one. The
call's own `LRFrame` objects are the elements of the invocation stack.
Releasing input pages has no effect that a parse can observe and is left out.
-/

namespace Peglib.ParseContext

open Peglib.ParseError

set_option autoImplicit false

/-- `const NonTerminal*`. -/
abbrev RuleId : Type := Nat

/-- `ParseTreeNode*`. -/
abbrev NodePtr : Type := Nat

structure Span where
  start : Nat
  stop : Nat
deriving DecidableEq

structure ParseTreeNode where
  name : Str := []
  startOffset : Nat := 0
  endOffset : Nat := 0
  children : List (Option NodePtr) := []
  producer : Option RuleId := none
  altWinner : Option Nat := none
deriving DecidableEq

structure ParseResult where
  success : Bool := false
  tree : Option NodePtr := none
deriving DecidableEq

structure RuleState where
  lastPos : Nat := 0
  cachedResult : ParseResult := {}
deriving DecidableEq

/-- In the source a frame is a local of `NonTerminal::parse`. One that a `ParseError` leaves on the
list dangles there, so what later parses on such a Context do is beyond this model, which keeps
the frame. -/
structure LRFrame where
  rule : RuleId
  pos : Nat
  lastPos : Nat
  isHead : Bool
deriving DecidableEq

def LRFrame.isOf (rule : RuleId) (pos : Nat) (frame : LRFrame) : Bool :=
  decide (frame.pos = pos) && decide (frame.rule = rule)

structure CutRecord where
  pos : Nat
  cut : Bool
deriving DecidableEq

/-- `m_mem`: the answers held for each position and rule. -/
abbrev Memo : Type := Nat → RuleId → Option RuleState

structure Context (CharT : Type) where
  input : List CharT
  position : Nat := 0
  lastCut : Nat := 0
  nodeArena : List ParseTreeNode := []
  mem : Memo := fun _ _ => none
  cutStack : List CutRecord := []
  lrStack : List LRFrame := []
  growingHead : Nat → Option RuleId := fun _ => none
  errors : Errors := {}
  skipper : Option RuleId := none
  skipEnabled : Bool := true
  outOfRange : Bool := false

/-- The context that a constructor over `input` builds. -/
def Context.fresh {CharT : Type} (input : List CharT) : Context CharT := { input := input }

def Memo.write (mem : Memo) (pos : Nat) (rule : RuleId) (entry : RuleState) : Memo :=
  fun pos' rule' => if pos' = pos ∧ rule' = rule then some entry else mem pos' rule'

theorem Memo.write_eq_some {mem : Memo} {pos pos' : Nat} {rule rule' : RuleId}
    {entry found : RuleState} (held : mem.write pos rule entry pos' rule' = some found) :
    (pos' = pos ∧ rule' = rule ∧ found = entry) ∨
      (¬(pos' = pos ∧ rule' = rule) ∧ mem pos' rule' = some found) := by
  unfold Memo.write at held
  split_ifs at held with same
  · exact Or.inl ⟨same.1, same.2, (Option.some.inj held).symm⟩
  · exact Or.inr ⟨same, held⟩

namespace Context

variable {CharT : Type} (context : Context CharT)

def inputSize : Nat := context.input.length

def ended : Bool := decide (context.inputSize ≤ context.position)

/-- `current()`, read only where `ended()` is false. -/
def current : Option CharT := context.input[context.position]?

def makeNode : NodePtr × Context CharT :=
  (context.nodeArena.length, { context with nodeArena := context.nodeArena ++ [{}] })

/-- A write through a node pointer. -/
def updateNode (node : NodePtr) (update : ParseTreeNode → ParseTreeNode) : Context CharT :=
  { context with nodeArena := context.nodeArena.modify node update }

def next : Context CharT :=
  if context.position < context.inputSize then
    { context with position := context.position + 1 }
  else context

/-- `outOfRange` remembers whether the assertion `pos <= m_input_size` ever failed. -/
def reset (pos : Nat) : Context CharT :=
  { context with
    position := pos
    outOfRange := context.outOfRange || decide (context.inputSize < pos) }

/-- `emplace`: reports whether the row was inserted, and the row. -/
def ruleState (rule : RuleId) (pos : Nat) : (Bool × RuleState) × Context CharT :=
  match context.mem pos rule with
  | some entry => ((false, entry), context)
  | none => ((true, {}), { context with mem := context.mem.write pos rule {} })

/-- Writes the row only where one is present, and reports whether it was. -/
def updateRuleState (rule : RuleId) (pos : Nat) (entry : RuleState) : Bool × Context CharT :=
  match context.mem pos rule with
  | some _ => (true, { context with mem := context.mem.write pos rule entry })
  | none => (false, context)

def memoGet (rule : RuleId) (pos : Nat) : RuleState := (context.mem pos rule).getD {}

def lrPush (frame : LRFrame) : Context CharT :=
  { context with lrStack := frame :: context.lrStack }

def lrPop : Context CharT := { context with lrStack := context.lrStack.tail }

def lrInProgress (rule : RuleId) (pos : Nat) : Bool :=
  context.lrStack.any (LRFrame.isOf rule pos)

def clearGrowingHead (pos : Nat) : Context CharT :=
  { context with growingHead := fun pos' => if pos' = pos then none else context.growingHead pos' }

/-- `is_head = true` on the innermost frame of the rule at the position. -/
def markFrame (rule : RuleId) (pos : Nat) : List LRFrame → List LRFrame
  | [] => []
  | frame :: rest =>
      if LRFrame.isOf rule pos frame then { frame with isHead := true } :: rest
      else frame :: markFrame rule pos rest

/-- The loop of the left-recursive re-entry: the frame found becomes a head,
and the growing head of the position is set if it was none before. -/
def markHead (rule : RuleId) (pos : Nat) : Context CharT :=
  match context.lrStack.find? (LRFrame.isOf rule pos) with
  | some frame =>
      if frame.isHead then context
      else
        { context with
          lrStack := markFrame rule pos context.lrStack
          growingHead := fun pos' => if pos' = pos then some rule else context.growingHead pos' }
  | none => context

def clearSiblingsAt (pos : Nat) (keep : RuleId) : Context CharT :=
  { context with
    mem := fun pos' rule =>
      if pos' = pos ∧ ¬(rule = keep ∨ context.lrInProgress rule pos = true) then none
      else context.mem pos' rule }

/-- `cut(bool)`: dropped where no scope is open. -/
def setCut (committed : Bool) : Context CharT :=
  match context.cutStack with
  | [] => context
  | _ :: outer => { context with cutStack := ⟨context.position, committed⟩ :: outer }

def cut : Bool :=
  match context.cutStack with
  | [] => false
  | scope :: _ => scope.cut

def initCut : Context CharT :=
  { context with cutStack := ⟨context.position, false⟩ :: context.cutStack }

/-- Closing a committed scope erases every memo row before the cut. -/
def removeCut : Context CharT :=
  match context.cutStack with
  | [] => context
  | scope :: outer =>
      if scope.cut then
        { context with
          lastCut := scope.pos
          mem := fun pos rule => if pos < scope.pos then none else context.mem pos rule
          cutStack := outer }
      else { context with cutStack := outer }

def recordFailure (pos : Nat) (item : ExpectedItem) : Context CharT :=
  { context with errors := context.errors.recordFailure pos item }

def recordFailureLazy (pos : Nat) (producer : Unit → ExpectedItem) : Context CharT :=
  { context with errors := context.errors.recordFailureLazy pos producer }

def recordDiagnostic (diagnostic : Diagnostic) : Context CharT :=
  { context with errors := context.errors.recordDiagnostic diagnostic }

end Context

end Peglib.ParseContext
