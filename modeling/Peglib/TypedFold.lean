import Peglib.Rules

/-!
# The typed fold

Transcription of `ResultType.h` and of `Grammar::parse_ast`. The compile-time
result types become a function of the expression. A value of void type is
`none`. Actions are functions of the context, the span and the arguments, and
the calls of the `on_match` hooks are announced.
-/

namespace Peglib.TypedFold

open Peglib.TracedComputation Peglib.ParseError Peglib.ParseContext Peglib.Expressions
open Peglib.Rules

set_option autoImplicit false

inductive ResultType where
  | void
  | element
  | node
  | tuple (parts : List ResultType)
  | vector (part : ResultType)
  | optional (part : ResultType)

def ResultType.isVoid : ResultType → Bool
  | .void => true
  | _ => false

/-- `collapse`: no part is void, one part is itself, more are a tuple. -/
def collapse : List ResultType → ResultType
  | [] => .void
  | [part] => part
  | parts => .tuple parts

variable {CharT NodeType : Type}

mutual

def resultOf : Expr CharT → ResultType
  | .token _ => .element
  | .rule _ => .node
  | .lexeme child => resultOf child
  | .sequence children => collapse ((resultOfAll children).filter fun part => !part.isVoid)
  | .alternation children => (resultOfAll children).headD .void
  | .repetition kind child =>
      if (resultOf child).isVoid then .void
      else if kind = .optional then .optional (resultOf child)
      else .vector (resultOf child)
  | .terminal _ | .terminalSeq _ | .matcher _ | .empty | .cut | .not _ | .and _ => .void

def resultOfAll : List (Expr CharT) → List ResultType
  | [] => []
  | child :: rest => resultOf child :: resultOfAll rest

end

def isVoid (expr : Expr CharT) : Bool := (resultOf expr).isVoid

/-- The static guess of the fold: only a matcher is void and pushes a node. -/
def pushesNode : Expr CharT → Bool
  | .matcher _ => true
  | _ => false

def deref (context : Context CharT) (node : Option NodePtr) : Outcome Exn ParseTreeNode :=
  match node.bind fun pointer => context.nodeArena[pointer]? with
  | some fields => .returned fields
  | none => .thrown .nullPointer

def elementAt (context : Context CharT) (offset : Nat) : Outcome Exn CharT :=
  match context.input[offset]? with
  | some letter => .returned letter
  | none => .thrown .assertion

/-- `node->children.at(index)`. -/
def childAt (fields : ParseTreeNode) (index : Nat) : Outcome Exn (Option NodePtr) :=
  match fields.children[index]? with
  | some child => .returned child
  | none => .thrown (.outOfRange (ascii "vector::at"))

/-- The loop of `fold_rep`. -/
def foldEach (fold : Option NodePtr → Outcome Exn (Option (Val CharT NodeType))) :
    List (Option NodePtr) → Outcome Exn (List (Val CharT NodeType))
  | [] => pure []
  | child :: rest => do
      let value ← fold child
      let values ← foldEach fold rest
      pure (value.toList ++ values)

/-- The end of a sequence's fold: a tuple of one is unwrapped. -/
def collapseValues : List (Val CharT NodeType) → Option (Val CharT NodeType)
  | [] => none
  | [value] => some value
  | values => some (.tuple values)

section Fold

variable (foldRule : Option NodePtr → Outcome Exn NodeType) (context : Context CharT)

mutual

/-- `fold_expr_impl` for each expression class. -/
def foldExpr : Expr CharT → Option NodePtr → Nat → Outcome Exn (Option (Val CharT NodeType))
  | .token _, node, _ => do
      let fields ← deref context node
      let letter ← elementAt context fields.startOffset
      pure (some (.element letter))
  | .rule _, node, _ => do
      let value ← foldRule node
      pure (some (.node value))
  | .lexeme child, node, cursor => foldExpr child node cursor
  | .alternation children, node, cursor => foldAlt 0 children node cursor
  | .sequence children, node, cursor => do
      if (children.all isVoid) then pure none
      else
        let fields ← deref context node
        let values ← foldSeq children fields cursor
        pure (collapseValues values)
  | .repetition kind child, node, cursor => do
      if isVoid child then pure none
      else if kind = .optional then
        let fields ← deref context node
        match fields.children[cursor]? with
        | some (some below) =>
            let value ← foldExpr child (some below) 0
            pure (some (.optional value))
        | _ => pure (some (.optional none))
      else
        let fields ← deref context node
        let values ← foldEach (fun below => foldExpr child below 0) (fields.children.drop cursor)
        pure (some (.vector values))
  | .terminal _, _, _ | .terminalSeq _, _, _ | .matcher _, _, _ | .empty, _, _ | .cut, _, _
  | .not _, _, _ | .and _, _, _ => pure none

/-- `altimpl::dispatch`: the last branch is taken without a look at the winner. -/
def foldAlt : Nat → List (Expr CharT) → Option NodePtr → Nat →
    Outcome Exn (Option (Val CharT NodeType))
  | _, [], _, _ => pure none
  | _, [last], node, cursor => foldExpr last node cursor
  | index, head :: tail, node, cursor => do
      let fields ← deref context node
      if fields.altWinner = some index then foldExpr head node cursor
      else foldAlt (index + 1) tail node cursor

/-- `seqimpl::step`. -/
def foldSeq : List (Expr CharT) → ParseTreeNode → Nat →
    Outcome Exn (List (Val CharT NodeType))
  | [], _, _ => pure []
  | child :: rest, fields, cursor =>
      if isVoid child then foldSeq rest fields (if pushesNode child then cursor + 1 else cursor)
      else do
        let below ← childAt fields cursor
        let value ← foldExpr child below 0
        let values ← foldSeq rest fields (cursor + 1)
        pure (value.toList ++ values)

end

end Fold

/-- The arguments a value is unpacked into (`flat_args`). -/
def arguments : ResultType → Option (Val CharT NodeType) → List (Val CharT NodeType)
  | .tuple _, some (.tuple values) => values
  | _, value => value.toList

def foldAndInvoke (grammar : Grammar CharT NodeType) (context : Context CharT)
    (foldRule : Option NodePtr → Outcome Exn NodeType) (rule : RuleId)
    (action : Action CharT NodeType) (node : Option NodePtr) : Outcome Exn NodeType := do
  let fields ← deref context node
  let span : Span := ⟨fields.startOffset, fields.endOffset⟩
  match grammar.body rule with
  | none => .thrown .assertion
  | some body =>
      if isVoid body then pure (action context span [])
      else
        let value ← foldExpr foldRule context body (fields.children.headD node) 0
        pure (action context span (arguments (resultOf body) value))

variable [Inhabited NodeType]

/-- `fold_rule`: the typed fold of the node's producer. -/
def foldRule (grammar : Grammar CharT NodeType) (context : Context CharT) :
    Nat → Option NodePtr → Outcome Exn NodeType
  | 0, _ => .exhausted
  | fuel + 1, node => do
      let fields ← deref context node
      match fields.producer with
      | none => pure default
      | some producer =>
          match (grammar.nonTerminal producer).typedFold with
          | none => pure default
          | some action =>
              foldAndInvoke grammar context (foldRule grammar context fuel) producer action node

/-- `fold_start`: the root is folded by the start rule. -/
def foldStart (grammar : Grammar CharT NodeType) (fuel : Nat) (start : RuleId)
    (node : NodePtr) (context : Context CharT) : Outcome Exn NodeType :=
  match (grammar.nonTerminal start).typedFold with
  | some action =>
      foldAndInvoke grammar context (foldRule grammar context fuel) start action (some node)
  | none => foldRule grammar context fuel (some node)

/-- The rule whose hook a node fires. -/
def hookOf (grammar : Grammar CharT NodeType) (start : Option RuleId) (fields : ParseTreeNode) :
    Option RuleId :=
  let hooked := fun rule : RuleId => (grammar.nonTerminal rule).onMatch
  (start.filter hooked).or (fields.producer.filter hooked)

mutual

/-- `fire_on_match`: a pre-order walk. -/
def fireOnMatch (grammar : Grammar CharT NodeType) :
    Nat → Option RuleId → Option NodePtr → Parser CharT Unit
  | _, _, none => pure ()
  | 0, _, _ => Comp.exhaust
  | fuel + 1, start, some node => do
      let fields ← Comp.ask fun context => deref context (some node)
      match hookOf grammar start fields with
      | some rule => announce (.onMatch rule node)
      | none => pure ()
      fireAll grammar fuel fields.children

def fireAll (grammar : Grammar CharT NodeType) :
    Nat → List (Option NodePtr) → Parser CharT Unit
  | _, [] => pure ()
  | 0, _ => Comp.exhaust
  | fuel + 1, child :: rest => do
      fireOnMatch grammar fuel none child
      fireAll grammar fuel rest

end

variable [PegValue CharT]

def parseAst (grammar : Grammar CharT NodeType) (fuel : Nat) (name : Str) :
    Parser CharT (Option NodeType) :=
  match grammar.find name with
  | none => Comp.throw (Grammar.notFound (ascii "parse_ast") name)
  | some rule => do
      match ← grammar.parseTree fuel name with
      | none => pure none
      | some node =>
          fireOnMatch grammar fuel (some rule) (some node)
          let value ← Comp.ask (foldStart grammar fuel rule node)
          pure (some value)

end Peglib.TypedFold
