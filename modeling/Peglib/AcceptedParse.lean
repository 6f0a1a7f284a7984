import Peglib.Annotation
import Peglib.Rules

/-!
# The parse that is accepted

The engine once more, with the derivation of every success noted next to it: in
the values returned, and for each memo row of a success. A rule that is answered
by its seed during growth stands for the derivation of the seed. Recoveries,
cuts and attempts that fail are noted as they happen. Trees say less than
derivations: a recovered rule has none, an alias has none of its own, and a seed
is not wrapped yet.
-/

namespace Peglib.AcceptedParse

open Peglib.TracedComputation Peglib.Annotation
open Peglib.ParseError Peglib.ParseContext Peglib.Expressions Peglib.Rules

set_option autoImplicit false

/-- `parts` are the children of a sequence or the iterations of a repetition. A
lexeme stands for its child, a predicate matches as a leaf. -/
inductive Deriv where
  | leaf (span : Span)
  | parts (span : Span) (below : List Deriv)
  | branch (index : Nat) (below : Deriv)
  | applied (rule : RuleId) (span : Span) (below : Deriv)
  | recovered (rule : RuleId) (span : Span)

structure RecoveryPoint where
  rule : RuleId
  pos : Nat
deriving DecidableEq

/-- A cut, and how many scopes were open when it was executed. -/
structure CutPoint where
  pos : Nat
  depth : Nat
deriving DecidableEq

/-- An attempt that failed: at a terminal, a string or a token, or of a rule that
has a name or a label. -/
structure MissPoint where
  rule : Option RuleId
  pos : Nat
deriving DecidableEq

/-- The derivations that the rows of successes stand for, and the recoveries, the
cuts and the failed attempts so far. -/
structure Notes where
  stands : Nat → RuleId → Deriv := fun _ _ => .leaf ⟨0, 0⟩
  recoveries : List RecoveryPoint := []
  cuts : List CutPoint := []
  misses : List MissPoint := []

def Notes.miss (notes : Notes) (rule : Option RuleId) (pos : Nat) : Notes :=
  { notes with misses := notes.misses ++ [⟨rule, pos⟩] }

def Notes.stand (notes : Notes) (rule : RuleId) (pos : Nat) (deriv : Deriv) : Notes :=
  { notes with
    stands := fun pos' rule' =>
      if pos' = pos ∧ rule' = rule then deriv else notes.stands pos' rule' }

abbrev Observer (CharT Value : Type) : Type :=
  Comp (Moment CharT) (Annotated (Context CharT) Notes) Exn Value

/-- A result with what it stands for; a failure stands for nothing. -/
abbrev Observed : Type := ParseResult × Deriv

variable {CharT : Type}

def observedFailure : Observed := (⟨false, none⟩, .leaf ⟨0, 0⟩)

def observeLeaf (parser : Parser CharT ParseResult) : Observer CharT Observed := do
  let start ← Comp.read fun state => state.plain.position
  let result ← lift parser
  let stop ← Comp.read fun state => state.plain.position
  pure (result, .leaf ⟨start, stop⟩)

/-- A leaf that looks for something definite in the input. -/
def observeAttempt (parser : Parser CharT ParseResult) : Observer CharT Observed := do
  let start ← lift (Comp.read Context.position)
  let found ← observeLeaf parser
  Comp.onlyIf (found.1.success = false) (annotate fun notes => notes.miss none start)
  pure found

def observeCut : Observer CharT Observed := do
  let context ← lift (Comp.read id)
  annotate fun notes =>
    { notes with cuts := notes.cuts ++ [⟨context.position, context.cutStack.length⟩] }
  observeLeaf CutExpr.parse

def observeSkipper (apply : RuleId → Observer CharT Observed) : Observer CharT Unit := do
  let context ← lift (Comp.read id)
  match context.skipEnabled, context.skipper with
  | true, some skipper =>
      lift (Comp.modify fun context => { context with skipEnabled := false })
      let _ ← apply skipper
      lift (Comp.modify fun after => { after with skipEnabled := context.skipEnabled })
  | _, _ => pure ()

def SequenceExpr.observeSeq (skip : Observer CharT Unit) (node : NodePtr) :
    Nat → List (Observer CharT Observed) → Observer CharT (Bool × List Deriv)
  | _, [] => pure (true, [])
  | index, child :: rest => do
      Comp.onlyIf (0 < index) skip
      let found ← child
      if found.1.success then
        lift (Comp.modify (pushChild node found.1.tree))
        let later ← SequenceExpr.observeSeq skip node (index + 1) rest
        pure (later.1, found.2 :: later.2)
      else pure (false, [])

def SequenceExpr.observe (skip : Observer CharT Unit) (children : List (Observer CharT Observed)) :
    Observer CharT Observed := do
  let state ← lift (Comp.read Context.position)
  let node ← lift (Comp.modifyGet Context.makeNode)
  lift (Comp.modify (markStart node))
  let found ← SequenceExpr.observeSeq skip node 0 children
  if found.1 then
    let stop ← Comp.read fun state => state.plain.position
    lift (Comp.modify (markEnd node))
    pure (⟨true, some node⟩, .parts ⟨state, stop⟩ found.2)
  else
    lift (Comp.modify fun context => context.reset state)
    pure observedFailure

def AlternationExpr.observeAlt : Nat → List (Observer CharT Observed) → Observer CharT Observed
  | _, [] => pure observedFailure
  | index, child :: rest => do
      let found ← child
      if found.1.success then
        lift (Comp.modify (stampWinner found.1.tree index))
        pure (found.1, .branch index found.2)
      else
        lift raiseIfCommitted
        AlternationExpr.observeAlt (index + 1) rest

def AlternationExpr.observe (children : List (Observer CharT Observed)) :
    Observer CharT Observed := do
  lift (Comp.modify Context.initCut)
  Comp.guarded (AlternationExpr.observeAlt 0 children) (onPlain Context.removeCut)

def observeLoop (skip : Observer CharT Unit) (observeChild : Observer CharT Observed) (maxRep : Int)
    (node : NodePtr) : Nat → Nat → Nat → Observer CharT (LoopExit × List Deriv)
  | 0, _, _ => Comp.exhaust
  | fuel + 1, loopCount, lastSuccessState => do
      Comp.onlyIf (0 < loopCount) skip
      let startState ← lift (Comp.read Context.position)
      lift (Comp.modify fun context => context.setCut false)
      let found ← observeChild
      if found.1.success then
        let here ← lift (Comp.read Context.position)
        lift (Comp.modify (pushChild node found.1.tree))
        if boundReached maxRep (loopCount + 1) || decide (here = startState) then
          pure (⟨loopCount + 1, false, here⟩, [found.2])
        else
          let later ← observeLoop skip observeChild maxRep node fuel (loopCount + 1) here
          pure (later.1, found.2 :: later.2)
      else pure (⟨loopCount, true, lastSuccessState⟩, [])

def observeRepeat (fuel : Nat) (skip : Observer CharT Unit) (observeChild : Observer CharT Observed)
    (minRep : Nat) (maxRep : Int) : Observer CharT Observed := do
  lift (Comp.modify Context.initCut)
  Comp.guarded (do
    let initState ← lift (Comp.read Context.position)
    let node ← lift (Comp.modifyGet Context.makeNode)
    lift (Comp.modify (markStart node))
    let found ← observeLoop skip observeChild maxRep node fuel 0 initState
    if found.1.loopCount < minRep then
      lift (Comp.modify fun context => context.reset initState)
      pure observedFailure
    else
      let result ← lift (repeatFinish maxRep node found.1)
      let stop ← Comp.read fun state => state.plain.position
      pure (result, .parts ⟨initState, stop⟩ found.2)) (onPlain Context.removeCut)

def observePredicate (observeChild : Observer CharT Observed) (negate : Bool) :
    Observer CharT Observed := do
  let initState ← lift (Comp.read Context.position)
  let found ← observeChild
  lift (Comp.modify fun context => context.reset initState)
  pure (⟨if negate then !found.1.success else found.1.success, none⟩, .leaf ⟨initState, initState⟩)

def LexemeExpr.observe (observeChild : Observer CharT Observed) : Observer CharT Observed := do
  let prev ← lift (Comp.read Context.skipEnabled)
  lift (Comp.modify fun context => { context with skipEnabled := false })
  Comp.guarded observeChild (onPlain fun context => { context with skipEnabled := prev })

section Expressions

variable [PegValue CharT]

mutual

def observeExpr (apply : RuleId → Observer CharT Observed) (fuel : Nat) :
    Expr CharT → Observer CharT Observed
  | .terminal value => observeAttempt (TerminalExpr.parse value)
  | .terminalSeq values => observeAttempt (TerminalSeqExpr.parse values)
  | .token value => observeAttempt (TokenExpr.parse value)
  | .matcher fn => observeLeaf (MatcherExpr.parse fn)
  | .empty => observeLeaf EmptyExpr.parse
  | .cut => observeCut
  | .sequence children =>
      SequenceExpr.observe (observeSkipper apply) (observeAll apply fuel children)
  | .alternation children => AlternationExpr.observe (observeAll apply fuel children)
  | .repetition kind child =>
      observeRepeat fuel (observeSkipper apply) (observeExpr apply fuel child) kind.minRep kind.maxRep
  | .not child => observePredicate (observeExpr apply fuel child) true
  | .and child => observePredicate (observeExpr apply fuel child) false
  | .lexeme child => LexemeExpr.observe (observeExpr apply fuel child)
  | .rule id => apply id

def observeAll (apply : RuleId → Observer CharT Observed) (fuel : Nat) :
    List (Expr CharT) → List (Observer CharT Observed)
  | [] => []
  | child :: rest => observeExpr apply fuel child :: observeAll apply fuel rest

end

end Expressions

namespace NonTerminal

variable {NodeType : Type}

/-- A row is written together with what it stands for. -/
def observeStore (rule : RuleId) (pos : Nat) (entry : RuleState) (deriv : Deriv) :
    Observer CharT Bool := do
  annotate fun notes => notes.stand rule pos deriv
  lift (NonTerminal.store rule pos entry)

def observeGrowth (rule : RuleId) (startPos : Nat) (observeBody : Observer CharT Observed) :
    Nat → ParseResult → RuleState → Deriv → Observer CharT ((ParseResult × RuleState) × Deriv)
  | 0, _, _, _ => Comp.exhaust
  | fuel + 1, best, ruleState, grown => do
      lift (Comp.modify fun context => context.reset startPos)
      let before ← lift (Comp.read id)
      lift (Comp.onlyIf ((NonTerminal.frame before).isHead = true ∧ best.success = true)
        (Comp.modify fun context => context.clearSiblingsAt startPos rule))
      let found ← observeBody
      let after ← lift (Comp.read id)
      if found.1.success then
        if (NonTerminal.frame after).lastPos < after.position then
          lift (Comp.modify (NonTerminal.setFrameLastPos after.position))
          if ← observeStore rule startPos ⟨after.position, found.1⟩
              (.applied rule ⟨startPos, after.position⟩ found.2) then
            observeGrowth rule startPos observeBody fuel found.1 ⟨after.position, found.1⟩
              (.applied rule ⟨startPos, after.position⟩ found.2)
          else
            pure ((found.1, ⟨after.position, found.1⟩),
              .applied rule ⟨startPos, after.position⟩ found.2)
        else
          let kept := if best.success then best else found.1
          let adopted :=
            if best.success then grown else .applied rule ⟨startPos, after.position⟩ found.2
          let _ ← observeStore rule startPos ⟨(NonTerminal.frame after).lastPos, kept⟩ adopted
          pure ((kept, ⟨(NonTerminal.frame after).lastPos, kept⟩), adopted)
      else pure ((best, ruleState), grown)

def observeImpl (rule : RuleId) (startPos : Nat) (body : Option (Observer CharT Observed))
    (fuel : Nat) : Observer CharT ((ParseResult × RuleState) × Deriv) :=
  match body with
  | none => Comp.throw .assertion
  | some observeBody => do
      let _ ← observeStore rule startPos ⟨startPos, {}⟩ observedFailure.2
      let grown ← observeGrowth rule startPos observeBody fuel {} ⟨startPos, {}⟩ observedFailure.2
      lift (Comp.modify fun context => context.reset (NonTerminal.frame context).lastPos)
      pure grown

def observeInvoke (rule : RuleId) (startPos : Nat) (body : Option (Observer CharT Observed))
    (fuel : Nat) : Observer CharT ((ParseResult × RuleState) × Deriv) := do
  lift (Comp.modify fun context => context.lrPush ⟨rule, startPos, startPos, false⟩)
  let grown ← observeImpl rule startPos body fuel
  lift (Comp.modify (NonTerminal.leave startPos))
  pure grown

/-- A rule that has a name or a label to report. -/
def Reports (nonTerminal : NonTerminal CharT NodeType) : Prop :=
  nonTerminal.label ≠ [] ∨ nonTerminal.name ≠ []

instance (nonTerminal : NonTerminal CharT NodeType) : Decidable (Reports nonTerminal) :=
  inferInstanceAs (Decidable (_ ∨ _))

/-- A failure is recorded under the name or the label of the rule. -/
def observeMiss (nonTerminal : NonTerminal CharT NodeType) (rule : RuleId) (startPos : Nat) :
    Observer CharT Unit := do
  Comp.onlyIf (Reports nonTerminal) (annotate fun notes => notes.miss (some rule) startPos)
  lift (Comp.modify (NonTerminal.recordRuleFailure nonTerminal startPos))

def observeFailure (nonTerminal : NonTerminal CharT NodeType) (rule : RuleId) (startPos : Nat)
    (ruleState : RuleState) : Observer CharT Observed := do
  observeMiss nonTerminal rule startPos
  let context ← lift (Comp.read id)
  match nonTerminal.recover.isSyncToken, context.cut with
  | some isSyncToken, false =>
      let scan := NonTerminal.scanSync isSyncToken context startPos
      let resumeAt := if scan < context.inputSize then scan + 1 else context.inputSize
      let label :=
        if nonTerminal.recover.label = [] then nonTerminal.name else nonTerminal.recover.label
      annotate fun notes => { notes with recoveries := notes.recoveries ++ [⟨rule, startPos⟩] }
      lift (Comp.modify fun context =>
        (context.reset resumeAt).recordDiagnostic ⟨startPos, [⟨.ruleLabel, label⟩]⟩)
      let _ ← observeStore rule startPos ⟨resumeAt, ⟨true, none⟩⟩ (.recovered rule ⟨startPos, resumeAt⟩)
      pure (⟨true, none⟩, .recovered rule ⟨startPos, resumeAt⟩)
  | _, _ =>
      let _ ← observeStore rule startPos ⟨ruleState.lastPos, ⟨false, none⟩⟩ observedFailure.2
      pure observedFailure

def observeSuccess (nonTerminal : NonTerminal CharT NodeType) (rule : RuleId) (startPos : Nat)
    (inner : ParseResult) (ruleState : RuleState) (grown : Deriv) : Observer CharT Observed := do
  let node ← lift (NonTerminal.buildNode nonTerminal rule startPos inner.tree)
  let _ ← observeStore rule startPos ⟨ruleState.lastPos, ⟨true, some node⟩⟩ grown
  pure (⟨true, some node⟩, grown)

def observeReplay (rule : RuleId) (startPos : Nat) (ruleState : RuleState) :
    Observer CharT Observed := do
  let deriv ← Comp.read fun state => state.notes.stands startPos rule
  let result ← lift (NonTerminal.replay rule startPos ruleState)
  pure (result, deriv)

def observe (nonTerminal : NonTerminal CharT NodeType) (rule : RuleId)
    (body : Option (Observer CharT Observed)) (fuel : Nat) : Observer CharT Observed := do
  lift (announce (.apply rule))
  let startPos ← lift (Comp.read Context.position)
  let row ← lift (Comp.modifyGet fun context => context.ruleState rule startPos)
  if row.1 then
    let grown ← observeInvoke rule startPos body fuel
    if grown.1.1.success then
      observeSuccess nonTerminal rule startPos grown.1.1 grown.1.2 grown.2
    else observeFailure nonTerminal rule startPos grown.1.2
  else observeReplay rule startPos row.2

end NonTerminal

section Grammars

variable {NodeType : Type} [PegValue CharT]

def observe (grammar : Grammar CharT NodeType) : Nat → RuleId → Observer CharT Observed
  | 0, _ => Comp.exhaust
  | fuel + 1, rule =>
      NonTerminal.observe (grammar.nonTerminal rule) rule
        ((grammar.body rule).map (observeExpr (observe grammar fuel) fuel)) fuel

def observeLeadingSkip (grammar : Grammar CharT NodeType) (fuel : Nat) : Observer CharT Unit := do
  lift (Comp.modify fun context => { context with skipper := grammar.skipper })
  observeSkipper (observe grammar fuel)

/-- The leading skip and the start rule, as the entry points run them. -/
def observeStart (grammar : Grammar CharT NodeType) (fuel : Nat) (rule : RuleId) :
    Observer CharT Observed := do
  observeLeadingSkip grammar fuel
  observe grammar fuel rule

end Grammars

section Adequacy

theorem quiet_note (condition : Prop) [Decidable condition] (update : Notes → Notes)
    (state : Annotated (Context CharT) Notes) :
    ∃ value notes, Comp.onlyIf condition (annotate update : Observer CharT Unit) state =
      ⟨.returned value, ⟨state.plain, notes⟩, []⟩ := by
  unfold Comp.onlyIf
  split_ifs
  · exact ⟨(), update state.notes, rfl⟩
  · exact ⟨(), state.notes, rfl⟩

theorem observe_leaf_follows (parser : Parser CharT ParseResult) :
    Follows Prod.fst (observeLeaf parser) parser := by
  refine follows_read _ fun start => follows_after (follows_lift parser) fun result => ?_
  exact follows_read _ fun stop => follows_pure rfl

theorem observe_attempt_follows (parser : Parser CharT ParseResult) :
    Follows Prod.fst (observeAttempt parser) parser := by
  refine follows_aside (fun state => ⟨_, state.notes, rfl⟩) fun start => ?_
  refine follows_after (observe_leaf_follows parser) fun found => ?_
  exact follows_aside (quiet_note _ _) fun _ => follows_pure rfl

theorem observe_cut_follows :
    Follows Prod.fst (observeCut : Observer CharT Observed) CutExpr.parse :=
  follows_aside (fun state => ⟨state.plain, state.notes, rfl⟩) fun _ =>
    follows_annotate _ (observe_leaf_follows _)

theorem observe_skipper_follows {observes : RuleId → Observer CharT Observed}
    {apply : RuleId → Parser CharT ParseResult}
    (follows : ∀ rule, Follows Prod.fst (observes rule) (apply rule)) :
    Follows id (observeSkipper observes) (runSkipper apply) := by
  refine follows_bind (follows_lift _) fun context => ?_
  dsimp only [id]
  cases context.skipEnabled with
  | false => exact follows_pure rfl
  | true =>
      cases context.skipper with
      | none => exact follows_pure rfl
      | some skipper =>
          refine follows_bind (follows_lift _) fun _ => ?_
          exact follows_bind (follows skipper) fun _ => follows_lift _

theorem observe_seq_follows {skip : Observer CharT Unit} {plainSkip : Parser CharT Unit}
    (skips : Follows id skip plainSkip) (node : NodePtr)
    {children : List (Observer CharT Observed)} {parsers : List (Parser CharT ParseResult)}
    (each : List.Forall₂ (Follows Prod.fst) children parsers) (index : Nat) :
    Follows Prod.fst (SequenceExpr.observeSeq skip node index children)
      (SequenceExpr.parseSeq plainSkip node index parsers) := by
  induction each generalizing index with
  | nil => exact follows_pure rfl
  | cons child _ induction =>
      refine follows_bind (follows_onlyIf skips) fun _ => follows_bind child fun found => ?_
      refine follows_ite (fun _ => ?_) fun _ => follows_pure rfl
      refine follows_bind (follows_lift _) fun _ => follows_after (induction (index + 1)) fun _ => ?_
      exact follows_pure rfl

theorem sequence_follows {skip : Observer CharT Unit} {plainSkip : Parser CharT Unit}
    (skips : Follows id skip plainSkip) {children : List (Observer CharT Observed)}
    {parsers : List (Parser CharT ParseResult)}
    (each : List.Forall₂ (Follows Prod.fst) children parsers) :
    Follows Prod.fst (SequenceExpr.observe skip children) (SequenceExpr.parse plainSkip parsers) := by
  refine follows_bind (follows_lift _) fun state => follows_bind (follows_lift _) fun node => ?_
  refine follows_bind (follows_lift _) fun _ => ?_
  refine follows_bind (observe_seq_follows skips node each 0) fun found => ?_
  refine follows_ite (fun _ => follows_read _ fun stop => ?_) fun _ => ?_
  · exact follows_bind (follows_lift _) fun _ => follows_pure rfl
  · exact follows_bind (follows_lift _) fun _ => follows_pure rfl

theorem observe_alt_follows {children : List (Observer CharT Observed)}
    {parsers : List (Parser CharT ParseResult)}
    (each : List.Forall₂ (Follows Prod.fst) children parsers) (index : Nat) :
    Follows Prod.fst (AlternationExpr.observeAlt index children)
      (AlternationExpr.parseAlt index parsers) := by
  induction each generalizing index with
  | nil => exact follows_pure rfl
  | cons child _ induction =>
      refine follows_bind child fun found => follows_ite (fun _ => ?_) fun _ => ?_
      · exact follows_bind (follows_lift _) fun _ => follows_pure rfl
      · exact follows_bind (follows_lift _) fun _ => induction (index + 1)

theorem alternation_follows {children : List (Observer CharT Observed)}
    {parsers : List (Parser CharT ParseResult)}
    (each : List.Forall₂ (Follows Prod.fst) children parsers) :
    Follows Prod.fst (AlternationExpr.observe children) (AlternationExpr.parse parsers) :=
  follows_bind (follows_lift _) fun _ => follows_guarded (observe_alt_follows each 0) _

theorem observe_loop_follows {skip : Observer CharT Unit} {plainSkip : Parser CharT Unit}
    (skips : Follows id skip plainSkip) {child : Observer CharT Observed}
    {parser : Parser CharT ParseResult} (follows : Follows Prod.fst child parser) (maxRep : Int)
    (node : NodePtr) (fuel loopCount lastSuccessState : Nat) :
    Follows Prod.fst (observeLoop skip child maxRep node fuel loopCount lastSuccessState)
      (repeatLoop plainSkip parser maxRep node fuel loopCount lastSuccessState) := by
  induction fuel generalizing loopCount lastSuccessState with
  | zero => exact follows_exhaust
  | succ fuel induction =>
      refine follows_bind (follows_onlyIf skips) fun _ => ?_
      refine follows_bind (follows_lift _) fun startState => follows_bind (follows_lift _) fun _ => ?_
      refine follows_bind follows fun found => follows_ite (fun _ => ?_) fun _ => follows_pure rfl
      refine follows_bind (follows_lift _) fun here => follows_bind (follows_lift _) fun _ => ?_
      refine follows_ite (fun _ => follows_pure rfl) fun _ => ?_
      exact follows_after (induction _ _) fun later => follows_pure rfl

theorem repeat_follows (fuel : Nat) {skip : Observer CharT Unit} {plainSkip : Parser CharT Unit}
    (skips : Follows id skip plainSkip) {child : Observer CharT Observed}
    {parser : Parser CharT ParseResult} (follows : Follows Prod.fst child parser) (minRep : Nat)
    (maxRep : Int) :
    Follows Prod.fst (observeRepeat fuel skip child minRep maxRep)
      (repeatParseImpl fuel plainSkip parser minRep maxRep) := by
  refine follows_bind (follows_lift _) fun _ => follows_guarded ?_ _
  refine follows_bind (follows_lift _) fun initState => follows_bind (follows_lift _) fun node => ?_
  refine follows_bind (follows_lift _) fun _ => ?_
  refine follows_bind (observe_loop_follows skips follows maxRep node fuel 0 _) fun found => ?_
  refine follows_ite (fun _ => ?_) fun _ => ?_
  · exact follows_bind (follows_lift _) fun _ => follows_pure rfl
  · refine follows_after (follows_lift _) fun result => follows_read _ fun stop => ?_
    exact follows_pure rfl

theorem predicate_follows {child : Observer CharT Observed} {parser : Parser CharT ParseResult}
    (follows : Follows Prod.fst child parser) (negate : Bool) :
    Follows Prod.fst (observePredicate child negate) (predicateParseImpl parser negate) := by
  refine follows_bind (follows_lift _) fun initState => follows_bind follows fun found => ?_
  exact follows_bind (follows_lift _) fun _ => follows_pure rfl

theorem lexeme_follows {child : Observer CharT Observed} {parser : Parser CharT ParseResult}
    (follows : Follows Prod.fst child parser) :
    Follows Prod.fst (LexemeExpr.observe child) (LexemeExpr.parse parser) :=
  follows_bind (follows_lift _) fun _ => follows_bind (follows_lift _) fun _ =>
    follows_guarded follows _

theorem expr_follows [PegValue CharT] {observes : RuleId → Observer CharT Observed}
    {apply : RuleId → Parser CharT ParseResult}
    (follows : ∀ rule, Follows Prod.fst (observes rule) (apply rule)) (fuel : Nat)
    (expr : Expr CharT) :
    Follows Prod.fst (observeExpr observes fuel expr) (expr.parse apply fuel) := by
  have skips := observe_skipper_follows follows
  have each : ∀ children : List (Expr CharT),
      (∀ child ∈ children, Follows Prod.fst (observeExpr observes fuel child)
        (child.parse apply fuel)) →
      List.Forall₂ (Follows Prod.fst) (observeAll observes fuel children)
        (Expr.parseAll apply fuel children) := by
    intro children
    induction children with
    | nil => exact fun _ => .nil
    | cons child rest induction =>
        intro all
        exact .cons (all child List.mem_cons_self)
          (induction fun other member => all other (List.mem_cons_of_mem _ member))
  induction expr using Expr.induct with
  | terminal value => exact observe_attempt_follows _
  | terminalSeq values => exact observe_attempt_follows _
  | token value => exact observe_attempt_follows _
  | matcher fn => exact observe_leaf_follows _
  | empty => exact observe_leaf_follows _
  | cut => exact observe_cut_follows
  | sequence children induction => exact sequence_follows skips (each children induction)
  | alternation children induction => exact alternation_follows (each children induction)
  | repetition kind child induction => exact repeat_follows fuel skips induction _ _
  | not child induction => exact predicate_follows induction true
  | and child induction => exact predicate_follows induction false
  | lexeme child induction => exact lexeme_follows induction
  | rule id => exact follows id

theorem store_follows (rule : RuleId) (pos : Nat) (entry : RuleState) (deriv : Deriv) :
    Follows id (NonTerminal.observeStore rule pos entry deriv)
      (NonTerminal.store rule pos entry : Parser CharT Bool) :=
  follows_annotate _ (follows_lift _)

theorem growth_follows (rule : RuleId) (startPos : Nat) {body : Observer CharT Observed}
    {parser : Parser CharT ParseResult} (follows : Follows Prod.fst body parser) (fuel : Nat)
    (best : ParseResult) (ruleState : RuleState) (grown : Deriv) :
    Follows Prod.fst (NonTerminal.observeGrowth rule startPos body fuel best ruleState grown)
      (NonTerminal.growLoop rule startPos parser fuel best ruleState) := by
  induction fuel generalizing best ruleState grown with
  | zero => exact follows_exhaust
  | succ fuel induction =>
      refine follows_bind (follows_lift _) fun _ => follows_bind (follows_lift _) fun before => ?_
      refine follows_bind (follows_lift _) fun _ => follows_bind follows fun found => ?_
      refine follows_bind (follows_lift _) fun after => follows_ite (fun _ => ?_) fun _ => ?_
      · refine follows_ite (fun _ => ?_) fun _ => ?_
        · refine follows_bind (follows_lift _) fun _ => ?_
          refine follows_bind (store_follows _ _ _ _) fun present => ?_
          exact follows_ite (fun _ => induction _ _ _) fun _ => follows_pure rfl
        · exact follows_bind (store_follows _ _ _ _) fun _ => follows_pure rfl
      · exact follows_pure rfl

theorem invoke_follows (rule : RuleId) (startPos : Nat) {body : Option (Observer CharT Observed)}
    {parser : Option (Parser CharT ParseResult)}
    (follows : Option.Rel (Follows Prod.fst) body parser) (fuel : Nat) :
    Follows Prod.fst (NonTerminal.observeInvoke rule startPos body fuel)
      (NonTerminal.invoke rule startPos parser fuel) := by
  refine follows_bind (follows_lift _) fun _ => ?_
  have grown : Follows Prod.fst (NonTerminal.observeImpl rule startPos body fuel)
      (NonTerminal.parseImpl rule startPos parser fuel) := by
    cases follows with
    | none => exact follows_throw _
    | some follows =>
        refine follows_bind (store_follows _ _ _ _) fun _ => ?_
        refine follows_bind (growth_follows rule startPos follows fuel _ _ _) fun grown => ?_
        exact follows_bind (follows_lift _) fun _ => follows_pure rfl
  exact follows_bind grown fun _ => follows_bind (follows_lift _) fun _ => follows_pure rfl

variable {NodeType : Type}

theorem observe_miss_follows (nonTerminal : NonTerminal CharT NodeType) (rule : RuleId)
    (startPos : Nat) :
    Follows id (NonTerminal.observeMiss nonTerminal rule startPos)
      (Comp.modify (NonTerminal.recordRuleFailure nonTerminal startPos)) :=
  follows_aside (quiet_note _ _) fun _ => follows_lift _

theorem finish_failure_follows (nonTerminal : NonTerminal CharT NodeType) (rule : RuleId)
    (startPos : Nat) (ruleState : RuleState) :
    Follows Prod.fst (NonTerminal.observeFailure nonTerminal rule startPos ruleState)
      (NonTerminal.finishFailure nonTerminal rule startPos ruleState) := by
  refine follows_bind (observe_miss_follows nonTerminal rule startPos) fun _ => ?_
  refine follows_bind (follows_lift _) fun context => ?_
  dsimp only [id]
  cases nonTerminal.recover.isSyncToken with
  | none => exact follows_bind (store_follows _ _ _ _) fun _ => follows_pure rfl
  | some isSyncToken =>
      cases context.cut with
      | true => exact follows_bind (store_follows _ _ _ _) fun _ => follows_pure rfl
      | false =>
          refine follows_annotate _ (follows_bind (follows_lift _) fun _ => ?_)
          exact follows_bind (store_follows _ _ _ _) fun _ => follows_pure rfl

theorem parse_follows (nonTerminal : NonTerminal CharT NodeType) (rule : RuleId)
    {body : Option (Observer CharT Observed)} {parser : Option (Parser CharT ParseResult)}
    (follows : Option.Rel (Follows Prod.fst) body parser) (fuel : Nat) :
    Follows Prod.fst (NonTerminal.observe nonTerminal rule body fuel)
      (NonTerminal.parse nonTerminal rule parser fuel) := by
  refine follows_bind (follows_lift _) fun _ => follows_bind (follows_lift _) fun startPos => ?_
  refine follows_bind (follows_lift _) fun row => follows_ite (fun _ => ?_) fun _ => ?_
  · refine follows_bind (invoke_follows rule startPos follows fuel) fun grown => ?_
    refine follows_ite (fun _ => ?_) fun _ => finish_failure_follows nonTerminal rule startPos _
    refine follows_bind (follows_lift _) fun node => ?_
    exact follows_bind (store_follows _ _ _ _) fun _ => follows_pure rfl
  · exact follows_read _ fun deriv => follows_after (follows_lift _) fun result => follows_pure rfl

variable [PegValue CharT] (grammar : Grammar CharT NodeType)

theorem observe_follows (fuel : Nat) (rule : RuleId) :
    Follows Prod.fst (observe grammar fuel rule) (grammar.apply fuel rule) := by
  induction fuel generalizing rule with
  | zero => exact follows_exhaust
  | succ fuel induction =>
      refine parse_follows (grammar.nonTerminal rule) rule ?_ fuel
      cases grammar.body rule with
      | none => exact .none
      | some body => exact .some (expr_follows induction fuel body)

theorem observe_start_follows (fuel : Nat) (rule : RuleId) :
    Follows Prod.fst (observeStart grammar fuel rule)
      (grammar.leadingSkip fuel >>= fun _ => grammar.apply fuel rule) := by
  have skipped : Follows id (observeLeadingSkip grammar fuel) (grammar.leadingSkip fuel) :=
    follows_bind (follows_lift _) fun _ => observe_skipper_follows (observe_follows grammar fuel)
  exact follows_bind skipped fun _ => observe_follows grammar fuel rule

end Adequacy

end Peglib.AcceptedParse
