import Peglib.EngineSteps
import Peglib.Tandem

/-!
# A grammar refitted

Two grammars whose rules correspond under a renaming of identities, for a set of
rules that is closed under references and holds the skipper, parse in step: the
same answers, positions and exceptions, and the same log, up to the renaming.
What is attached to the rules may differ. The trees correspond where the same
rules are typed and the names are kept, the error reports where names and labels
are kept. The rules outside the set need not correspond.
-/

namespace Peglib.Refitting

open Peglib.TracedComputation Peglib.Tandem Peglib.EngineSteps
open Peglib.ParseError Peglib.ParseContext Peglib.Expressions Peglib.Rules
open Peglib.ControlDiscipline

set_option autoImplicit false

variable {CharT NodeType NodeType' : Type}

/-- How two grammars compare: the new identities, the rules concerned, and whether the trees and
the error reports are compared as well. -/
structure Fit where
  rename : RuleId → RuleId
  reach : RuleId → Prop
  trees : Prop
  reports : Prop

def renameNode (rename : RuleId → RuleId) (fields : ParseTreeNode) : ParseTreeNode :=
  { fields with producer := fields.producer.map rename }

def renameFrame (rename : RuleId → RuleId) (frame : LRFrame) : LRFrame :=
  { frame with rule := rename frame.rule }

def renameEvent (rename : RuleId → RuleId) : Event → Event
  | .apply rule => .apply (rename rule)
  | .store rule pos => .store (rename rule) pos
  | .failure => .failure
  | .onMatch rule node => .onMatch (rename rule) node

section Agreement

variable (fit : Fit)

def NodesAgree (node node' : NodePtr) : Prop := fit.trees → node' = node

structure TreesAgree (tree tree' : Option NodePtr) : Prop where
  present : tree'.isSome = tree.isSome
  same : fit.trees → tree' = tree

structure ResultsAgree (result result' : ParseResult) : Prop where
  success : result'.success = result.success
  tree : TreesAgree fit result.tree result'.tree

structure EntriesAgree (entry entry' : RuleState) : Prop where
  lastPos : entry'.lastPos = entry.lastPos
  cachedResult : ResultsAgree fit entry.cachedResult entry'.cachedResult

/-- What a `ParseError` reports may differ where the reports are not compared. -/
inductive ExnsAgree : Exn → Exn → Prop where
  | same (exn : Exn) : ExnsAgree exn exn
  | parseError (position position' : Nat) (expected expected' : ExpectedSet)
      (silent : ¬fit.reports) :
      ExnsAgree (.parseError position expected) (.parseError position' expected')

/-- One context is the other one under the renaming. Only the memo may hold rows of rules
outside the set. -/
structure Refitted (near far : Context CharT) : Prop where
  input : far.input = near.input
  position : far.position = near.position
  lastCut : far.lastCut = near.lastCut
  nodeArena : fit.trees → far.nodeArena = near.nodeArena.map (renameNode fit.rename)
  mem : ∀ pos rule, fit.reach rule →
    Option.Rel (EntriesAgree fit) (near.mem pos rule) (far.mem pos (fit.rename rule))
  cutStack : far.cutStack = near.cutStack
  lrStack : far.lrStack = near.lrStack.map (renameFrame fit.rename)
  frames : ∀ frame ∈ near.lrStack, fit.reach frame.rule
  growingHead : ∀ pos, far.growingHead pos = (near.growingHead pos).map fit.rename
  heads : ∀ pos head, near.growingHead pos = some head → fit.reach head
  errors : fit.reports → far.errors = near.errors
  skipper : far.skipper = near.skipper.map fit.rename
  skips : ∀ skipper, near.skipper = some skipper → fit.reach skipper
  skipEnabled : far.skipEnabled = near.skipEnabled
  outOfRange : far.outOfRange = near.outOfRange

structure RefittedMoment (near far : Moment CharT) : Prop where
  event : far.event = renameEvent fit.rename near.event
  context : Refitted fit near.context far.context

/-- From corresponding contexts the two parsers run in the same way. -/
abbrev Corresponds {Value Value' : Type} (agree : Value → Value' → Prop)
    (left : Parser CharT Value) (right : Parser CharT Value') : Prop :=
  InTandem (Refitted fit) (RefittedMoment fit) (ExnsAgree fit) agree left right

end Agreement

section Steps

variable {fit : Fit} {near far : Context CharT}

theorem NodesAgree.tree {node node' : NodePtr} (nodes : NodesAgree fit node node') :
    TreesAgree fit (some node) (some node') :=
  ⟨rfl, fun shown => congrArg some (nodes shown)⟩

theorem success_agrees {node node' : NodePtr} (nodes : NodesAgree fit node node') :
    ResultsAgree fit ⟨true, some node⟩ ⟨true, some node'⟩ :=
  ⟨rfl, nodes.tree⟩

theorem bare_agrees (success : Bool) : ResultsAgree fit ⟨success, none⟩ ⟨success, none⟩ :=
  ⟨rfl, rfl, fun _ => rfl⟩

theorem ResultsAgree.success_iff {result result' : ParseResult}
    (results : ResultsAgree fit result result') :
    result.success = true ↔ result'.success = true := by
  rw [results.success]

theorem Refitted.size (alike : Refitted fit near far) : far.inputSize = near.inputSize :=
  congrArg List.length alike.input

theorem Refitted.reset (alike : Refitted fit near far) (pos : Nat) :
    Refitted fit (near.reset pos) (far.reset pos) :=
  { alike with
    position := rfl
    outOfRange := by
      change (far.outOfRange || decide (far.inputSize < pos)) =
        (near.outOfRange || decide (near.inputSize < pos))
      rw [alike.outOfRange, alike.size] }

theorem Refitted.next (alike : Refitted fit near far) : Refitted fit near.next far.next := by
  have same : far.position < far.inputSize ↔ near.position < near.inputSize := by
    rw [alike.position, alike.size]
  unfold Context.next
  by_cases inside : near.position < near.inputSize
  · rw [if_pos inside, if_pos (same.mpr inside)]
    exact { alike with position := congrArg (· + 1) alike.position }
  · rw [if_neg inside, if_neg fun beyond => inside (same.mp beyond)]
    exact alike

theorem map_modify {Item : Type} (view : Item → Item) {update update' : Item → Item}
    (commutes : ∀ item, update' (view item) = view (update item)) (items : List Item) (index : Nat) :
    (items.map view).modify index update' = (items.modify index update).map view := by
  induction items generalizing index with
  | nil => simp
  | cons item rest induction =>
      cases index with
      | zero => simp [commutes]
      | succ index => simp [induction]

theorem Refitted.redrawn (alike : Refitted fit near far) {arena arena' : List ParseTreeNode}
    (same : fit.trees → arena' = arena.map (renameNode fit.rename)) :
    Refitted fit { near with nodeArena := arena } { far with nodeArena := arena' } :=
  { alike with nodeArena := same }

theorem Refitted.node (alike : Refitted fit near far) {node node' : NodePtr}
    (nodes : NodesAgree fit node node') {update update' : ParseTreeNode → ParseTreeNode}
    (commutes : fit.trees →
      ∀ fields, update' (renameNode fit.rename fields) = renameNode fit.rename (update fields)) :
    Refitted fit (near.updateNode node update) (far.updateNode node' update') := by
  refine alike.redrawn fun shown => ?_
  rw [alike.nodeArena shown, nodes shown]
  exact map_modify _ (commutes shown) _ _

theorem Refitted.make (alike : Refitted fit near far) :
    NodesAgree fit near.makeNode.1 far.makeNode.1 ∧ Refitted fit near.makeNode.2 far.makeNode.2 := by
  refine ⟨fun shown => ?_, alike.redrawn fun shown => ?_⟩
  · simp [Context.makeNode, alike.nodeArena shown]
  · simp [alike.nodeArena shown, renameNode]

theorem Refitted.pushed (alike : Refitted fit near far) {node node' : NodePtr}
    (nodes : NodesAgree fit node node') {tree tree' : Option NodePtr}
    (trees : TreesAgree fit tree tree') :
    Refitted fit (pushChild node tree near) (pushChild node' tree' far) := by
  have present := trees.present
  have same := trees.same
  cases tree with
  | none =>
      obtain rfl : tree' = none := by simpa using present
      exact alike
  | some child =>
      obtain ⟨child', rfl⟩ : ∃ child', tree' = some child' := Option.isSome_iff_exists.mp present
      refine alike.node nodes fun shown fields => ?_
      rw [Option.some.inj (same shown)]
      rfl

theorem Refitted.stamped (alike : Refitted fit near far) {tree tree' : Option NodePtr}
    (trees : TreesAgree fit tree tree') (index : Nat) :
    Refitted fit (stampWinner tree index near) (stampWinner tree' index far) := by
  have present := trees.present
  have same := trees.same
  cases tree with
  | none =>
      obtain rfl : tree' = none := by simpa using present
      exact alike
  | some node =>
      obtain ⟨node', rfl⟩ : ∃ node', tree' = some node' := Option.isSome_iff_exists.mp present
      exact alike.node (fun shown => Option.some.inj (same shown)) fun _ _ => rfl

theorem Refitted.noted_down (alike : Refitted fit near far) {errors errors' : Errors}
    (same : fit.reports → errors' = errors) :
    Refitted fit { near with errors := errors } { far with errors := errors' } :=
  { alike with errors := same }

theorem Refitted.recorded (alike : Refitted fit near far) (pos : Nat) (item : ExpectedItem) :
    Refitted fit (near.recordFailure pos item) (far.recordFailure pos item) :=
  { alike with errors := fun shown => by simp [Context.recordFailure, alike.errors shown] }

theorem Refitted.opened (alike : Refitted fit near far) : Refitted fit near.initCut far.initCut :=
  { alike with cutStack := by simp [Context.initCut, alike.cutStack, alike.position] }

theorem Refitted.set_cut (alike : Refitted fit near far) (committed : Bool) :
    Refitted fit (near.setCut committed) (far.setCut committed) := by
  unfold Context.setCut
  rw [alike.cutStack]
  cases near.cutStack with
  | nil => exact alike
  | cons scope outer => exact { alike with cutStack := by simp [alike.position] }

theorem Refitted.closed (alike : Refitted fit near far) :
    Refitted fit near.removeCut far.removeCut := by
  unfold Context.removeCut
  rw [alike.cutStack]
  cases near.cutStack with
  | nil => exact alike
  | cons scope outer =>
      dsimp only
      split_ifs
      · refine { alike with cutStack := rfl, lastCut := rfl, mem := fun pos rule inside => ?_ }
        dsimp only
        split_ifs
        · exact .none
        · exact alike.mem pos rule inside
      · exact { alike with cutStack := rfl }

theorem Refitted.flagged (alike : Refitted fit near far) (enabled : Bool) :
    Refitted fit { near with skipEnabled := enabled } { far with skipEnabled := enabled } :=
  { alike with skipEnabled := rfl }

theorem Refitted.cut_eq (alike : Refitted fit near far) : near.cut = far.cut := by
  simp [Context.cut, alike.cutStack]

theorem Refitted.noted (alike : Refitted fit near far) (event : Event) :
    RefittedMoment fit ⟨event, near⟩ ⟨renameEvent fit.rename event, far⟩ :=
  ⟨rfl, alike⟩

end Steps


section Expressions

variable {fit : Fit}

/-- A matcher that takes no notice of what a refitted context may differ in. -/
def FitBlind (fit : Fit) : Expr CharT → Prop
  | .matcher fn => ∀ near far : Context CharT, Refitted fit near far →
      ∀ span, fn far span = fn near span
  | _ => True

mutual

/-- The expression over the renamed rules. -/
def renameExpr (rename : RuleId → RuleId) : Expr CharT → Expr CharT
  | .rule id => .rule (rename id)
  | .sequence children => .sequence (renameAll rename children)
  | .alternation children => .alternation (renameAll rename children)
  | .repetition kind child => .repetition kind (renameExpr rename child)
  | .not child => .not (renameExpr rename child)
  | .and child => .and (renameExpr rename child)
  | .lexeme child => .lexeme (renameExpr rename child)
  | .terminal value => .terminal value
  | .terminalSeq values => .terminalSeq values
  | .token value => .token value
  | .matcher fn => .matcher fn
  | .empty => .empty
  | .cut => .cut

def renameAll (rename : RuleId → RuleId) : List (Expr CharT) → List (Expr CharT)
  | [] => []
  | child :: rest => renameExpr rename child :: renameAll rename rest

end

theorem rename_all_eq_map (rename : RuleId → RuleId) (children : List (Expr CharT)) :
    renameAll rename children = children.map (renameExpr rename) := by
  induction children with
  | nil => rfl
  | cons child rest induction => rw [renameAll, induction, List.map_cons]

variable {Other Other' : Type} {agree : Other → Other' → Prop}

theorem reset_corresponds (pos : Nat) {next : Unit → Parser CharT Other}
    {next' : Unit → Parser CharT Other'} (rest : Corresponds fit agree (next ()) (next' ())) :
    Corresponds fit agree (Comp.modify (fun context => context.reset pos) >>= next)
      (Comp.modify (fun context => context.reset pos) >>= next') :=
  tandem_update (fun _ _ alike => alike.reset pos) rest

theorem make_corresponds {next : NodePtr → Parser CharT Other} {next' : NodePtr → Parser CharT Other'}
    (rest : ∀ node node', NodesAgree fit node node' → Corresponds fit agree (next node) (next' node')) :
    Corresponds fit agree (Comp.modifyGet Context.makeNode >>= next)
      (Comp.modifyGet Context.makeNode >>= next') :=
  tandem_bind (tandem_modifyGet fun _ _ alike => alike.make) rest

theorem position_corresponds {next : Nat → Parser CharT Other} {next' : Nat → Parser CharT Other'}
    (rest : ∀ pos, Corresponds fit agree (next pos) (next' pos)) :
    Corresponds fit agree (Comp.read Context.position >>= next)
      (Comp.read Context.position >>= next') :=
  tandem_read (fun _ _ alike => alike.position.symm) rest

theorem bare_corresponds (success : Bool) :
    Corresponds fit (ResultsAgree fit) (pure ⟨success, none⟩ : Parser CharT ParseResult)
      (pure ⟨success, none⟩) :=
  tandem_pure (bare_agrees success)

theorem matcher_corresponds {fn : Context CharT → Span → Option Span}
    (blind : FitBlind fit (.matcher fn)) :
    Corresponds fit (ResultsAgree fit) (MatcherExpr.parse fn) (MatcherExpr.parse fn) := by
  refine tandem_look fun near far alike => ?_
  dsimp only [id]
  rw [blind near far alike, alike.position]
  cases fn near ⟨near.position, near.position⟩ with
  | none => exact bare_corresponds false near far alike
  | some consumed =>
      refine reset_corresponds _ (make_corresponds fun node node' nodes => ?_) near far alike
      exact tandem_update (fun _ _ here => here.node nodes fun _ _ => rfl)
        (tandem_pure (success_agrees nodes))

section Terminals

variable [PegValue CharT]

theorem consumable_same {near far : Context CharT} (alike : Refitted fit near far)
    (value : TerminalValue CharT) : consumable value near = consumable value far := by
  have ended : far.ended = near.ended := by
    unfold Context.ended
    rw [alike.size, alike.position]
  have current : far.current = near.current := by
    unfold Context.current
    rw [alike.input, alike.position]
  rw [consumable, consumable, ended, current]

omit [PegValue CharT] in
theorem record_corresponds (producer : Unit → ExpectedItem) {next : Unit → Parser CharT Other}
    {next' : Unit → Parser CharT Other'} (rest : Corresponds fit agree (next ()) (next' ())) :
    Corresponds fit agree
      (Comp.modify (fun context => context.recordFailureLazy context.position producer) >>= next)
      (Comp.modify (fun context => context.recordFailureLazy context.position producer) >>= next') := by
  refine tandem_update (fun near far alike => ?_) rest
  rw [alike.position]
  exact alike.recorded near.position (producer ())

theorem terminal_corresponds (value : TerminalValue CharT) :
    Corresponds fit (ResultsAgree fit) (TerminalExpr.parse value) (TerminalExpr.parse value) := by
  refine tandem_read (fun _ _ alike => consumable_same alike value) fun matched =>
    tandem_ite Iff.rfl ?_ ?_
  · exact tandem_update (fun _ _ alike => alike.next) (bare_corresponds true)
  · exact record_corresponds _ (bare_corresponds false)

theorem terminal_seq_corresponds (values : List CharT) :
    Corresponds fit (ResultsAgree fit) (TerminalSeqExpr.parse values)
      (TerminalSeqExpr.parse values) := by
  have matching : ∀ rest : List CharT, Corresponds fit Eq (TerminalSeqExpr.matchValues rest)
      (TerminalSeqExpr.matchValues rest) := by
    intro rest
    induction rest with
    | nil => exact tandem_pure rfl
    | cons value rest induction =>
        refine tandem_read (fun _ _ alike => consumable_same alike _) fun matched => ?_
        exact tandem_ite Iff.rfl (tandem_update (fun _ _ alike => alike.next) induction)
          (tandem_pure rfl)
  refine position_corresponds fun initState => tandem_then (matching values) fun matched => ?_
  refine tandem_ite Iff.rfl (bare_corresponds true) (reset_corresponds _ ?_)
  exact record_corresponds _ (bare_corresponds false)

theorem token_corresponds (value : TerminalValue CharT) :
    Corresponds fit (ResultsAgree fit) (TokenExpr.parse value) (TokenExpr.parse value) := by
  refine tandem_read (fun _ _ alike => consumable_same alike value) fun matched =>
    tandem_ite Iff.rfl ?_ ?_
  · refine tandem_update (fun _ _ alike => alike.next) (make_corresponds fun node node' nodes => ?_)
    refine tandem_update (fun near far alike => alike.node nodes fun _ fields => ?_)
      (tandem_pure (success_agrees nodes))
    rw [alike.position]
    rfl
  · exact record_corresponds _ (bare_corresponds false)

end Terminals

theorem mark_corresponds {node node' : NodePtr} (nodes : NodesAgree fit node node')
    {mark : Nat → ParseTreeNode → ParseTreeNode}
    (commutes : ∀ pos fields, mark pos (renameNode fit.rename fields) =
      renameNode fit.rename (mark pos fields))
    {next : Unit → Parser CharT Other} {next' : Unit → Parser CharT Other'}
    (rest : Corresponds fit agree (next ()) (next' ())) :
    Corresponds fit agree
      (Comp.modify (fun context => context.updateNode node (mark context.position)) >>= next)
      (Comp.modify (fun context => context.updateNode node' (mark context.position)) >>= next') := by
  refine tandem_update (fun near far alike => ?_) rest
  rw [alike.position]
  exact alike.node nodes fun _ => commutes near.position

theorem mark_start_corresponds {node node' : NodePtr} (nodes : NodesAgree fit node node')
    {next : Unit → Parser CharT Other} {next' : Unit → Parser CharT Other'}
    (rest : Corresponds fit agree (next ()) (next' ())) :
    Corresponds fit agree (Comp.modify (markStart node) >>= next)
      (Comp.modify (markStart node') >>= next') :=
  @mark_corresponds _ fit _ _ agree _ _ nodes (fun pos fields => { fields with startOffset := pos })
    (fun _ _ => rfl) _ _ rest

theorem mark_end_corresponds {node node' : NodePtr} (nodes : NodesAgree fit node node')
    {next : Unit → Parser CharT Other} {next' : Unit → Parser CharT Other'}
    (rest : Corresponds fit agree (next ()) (next' ())) :
    Corresponds fit agree (Comp.modify (markEnd node) >>= next)
      (Comp.modify (markEnd node') >>= next') :=
  @mark_corresponds _ fit _ _ agree _ _ nodes (fun pos fields => { fields with endOffset := pos })
    (fun _ _ => rfl) _ _ rest

theorem raise_agrees {near far : Context CharT} (alike : Refitted fit near far) :
    ExnsAgree fit (.parseError near.errors.furthestFailurePos near.errors.expected)
      (.parseError far.errors.furthestFailurePos far.errors.expected) := by
  by_cases shown : fit.reports
  · rw [alike.errors shown]
    exact .same _
  · exact .parseError _ _ _ _ shown

theorem raise_corresponds :
    Corresponds fit Eq (raiseIfCommitted : Parser CharT Unit) raiseIfCommitted := by
  refine tandem_then (tandem_announce fun _ _ alike => alike.noted .failure) fun _ => ?_
  refine tandem_look fun near far alike => ?_
  dsimp only [id]
  rw [alike.cut_eq]
  exact tandem_onlyIf Iff.rfl (tandem_throw (raise_agrees alike)) near far alike

theorem sequence_corresponds {skip skip' : Parser CharT Unit} (skips : Corresponds fit Eq skip skip')
    {children children' : List (Parser CharT ParseResult)}
    (each : List.Forall₂ (Corresponds fit (ResultsAgree fit)) children children') :
    Corresponds fit (ResultsAgree fit) (SequenceExpr.parse skip children)
      (SequenceExpr.parse skip' children') := by
  have tail : ∀ node node', NodesAgree fit node node' → ∀ index, Corresponds fit Eq
      (SequenceExpr.parseSeq skip node index children)
      (SequenceExpr.parseSeq skip' node' index children') := by
    intro node node' nodes
    induction each with
    | nil => exact fun index => tandem_pure rfl
    | cons child rest induction =>
        intro index
        refine tandem_then (tandem_onlyIf Iff.rfl skips) fun _ => tandem_bind child ?_
        intro result result' results
        refine tandem_ite results.success_iff ?_ (tandem_pure rfl)
        exact tandem_update (fun _ _ alike => alike.pushed nodes results.tree) (induction (index + 1))
  refine position_corresponds fun state => make_corresponds fun node node' nodes =>
    mark_start_corresponds nodes (tandem_then (tail node node' nodes 0) fun matched => ?_)
  refine tandem_ite Iff.rfl ?_ (reset_corresponds _ (bare_corresponds false))
  exact mark_end_corresponds nodes (tandem_pure (success_agrees nodes))

theorem scope_corresponds {body body' : Parser CharT ParseResult}
    (bodies : Corresponds fit (ResultsAgree fit) body body') :
    Corresponds fit (ResultsAgree fit)
      (Comp.modify Context.initCut >>= fun _ => Comp.guarded body Context.removeCut)
      (Comp.modify Context.initCut >>= fun _ => Comp.guarded body' Context.removeCut) :=
  tandem_update (fun _ _ alike => alike.opened)
    (tandem_guarded bodies fun _ _ alike => alike.closed)

theorem alternation_corresponds {children children' : List (Parser CharT ParseResult)}
    (each : List.Forall₂ (Corresponds fit (ResultsAgree fit)) children children') :
    Corresponds fit (ResultsAgree fit) (AlternationExpr.parse children)
      (AlternationExpr.parse children') := by
  have branches : ∀ index, Corresponds fit (ResultsAgree fit) (AlternationExpr.parseAlt index children)
      (AlternationExpr.parseAlt index children') := by
    induction each with
    | nil => exact fun index => bare_corresponds false
    | cons child rest induction =>
        intro index
        refine tandem_bind child fun result result' results => tandem_ite results.success_iff ?_ ?_
        · exact tandem_update (fun _ _ alike => alike.stamped results.tree index) (tandem_pure results)
        · exact tandem_then raise_corresponds fun _ => induction (index + 1)
  exact scope_corresponds (branches 0)

theorem repeat_corresponds (fuel : Nat) {skip skip' : Parser CharT Unit}
    (skips : Corresponds fit Eq skip skip') {parseChild parseChild' : Parser CharT ParseResult}
    (child : Corresponds fit (ResultsAgree fit) parseChild parseChild') (minRep : Nat) (maxRep : Int) :
    Corresponds fit (ResultsAgree fit) (repeatParseImpl fuel skip parseChild minRep maxRep)
      (repeatParseImpl fuel skip' parseChild' minRep maxRep) := by
  have loop : ∀ node node', NodesAgree fit node node' → ∀ budget loopCount lastSuccessState,
      Corresponds fit Eq (repeatLoop skip parseChild maxRep node budget loopCount lastSuccessState)
        (repeatLoop skip' parseChild' maxRep node' budget loopCount lastSuccessState) := by
    intro node node' nodes budget
    induction budget with
    | zero => exact fun _ _ => tandem_exhaust
    | succ budget induction =>
        intro loopCount lastSuccessState
        refine tandem_then (tandem_onlyIf Iff.rfl skips) fun _ => position_corresponds fun startState => ?_
        refine tandem_update (fun _ _ alike => alike.set_cut false) (tandem_bind child ?_)
        intro result result' results
        refine tandem_ite results.success_iff (position_corresponds fun here => ?_) (tandem_pure rfl)
        refine tandem_update (fun _ _ alike => alike.pushed nodes results.tree) ?_
        exact tandem_ite Iff.rfl (tandem_pure rfl) (induction _ _)
  have finish : ∀ node node', NodesAgree fit node node' → ∀ ended, Corresponds fit (ResultsAgree fit)
      (repeatFinish maxRep node ended : Parser CharT ParseResult) (repeatFinish maxRep node' ended) := by
    intro node node' nodes ended
    refine tandem_then (tandem_onlyIf Iff.rfl (tandem_modify fun _ _ alike => ?_)) fun _ => ?_
    · exact (alike.reset ended.lastSuccessState).node nodes fun _ _ => rfl
    · refine tandem_then (tandem_onlyIf Iff.rfl raise_corresponds) fun _ => ?_
      exact mark_end_corresponds nodes (tandem_pure (success_agrees nodes))
  refine scope_corresponds (position_corresponds fun initState =>
    make_corresponds fun node node' nodes => mark_start_corresponds nodes ?_)
  refine tandem_then (loop node node' nodes fuel 0 initState) fun ended => ?_
  exact tandem_ite Iff.rfl (reset_corresponds _ (bare_corresponds false)) (finish node node' nodes ended)

theorem predicate_corresponds {parseChild parseChild' : Parser CharT ParseResult}
    (child : Corresponds fit (ResultsAgree fit) parseChild parseChild') (negate : Bool) :
    Corresponds fit (ResultsAgree fit) (predicateParseImpl parseChild negate)
      (predicateParseImpl parseChild' negate) := by
  refine position_corresponds fun _ => tandem_bind child fun result result' results => ?_
  rw [results.success]
  exact reset_corresponds _ (bare_corresponds _)

theorem lexeme_corresponds {parseChild parseChild' : Parser CharT ParseResult}
    (child : Corresponds fit (ResultsAgree fit) parseChild parseChild') :
    Corresponds fit (ResultsAgree fit) (LexemeExpr.parse parseChild) (LexemeExpr.parse parseChild') :=
  tandem_read (fun _ _ alike => alike.skipEnabled.symm) fun _ =>
    tandem_update (fun _ _ alike => alike.flagged false)
      (tandem_guarded child fun _ _ alike => alike.flagged _)

theorem skipper_corresponds {apply apply' : RuleId → Parser CharT ParseResult}
    (applies : ∀ rule, fit.reach rule →
      Corresponds fit (ResultsAgree fit) (apply rule) (apply' (fit.rename rule))) :
    Corresponds fit Eq (runSkipper apply) (runSkipper apply') := by
  refine tandem_look fun near far alike => ?_
  dsimp only [id]
  rw [alike.skipEnabled, alike.skipper]
  cases enabled : near.skipEnabled with
  | false => exact tandem_pure rfl near far alike
  | true =>
      cases configured : near.skipper with
      | none => exact tandem_pure rfl near far alike
      | some skipper =>
          have skipped := applies skipper (alike.skips skipper configured)
          exact tandem_update (fun _ _ here => here.flagged false) (tandem_bind skipped fun _ _ _ =>
            tandem_modify fun _ _ here => here.flagged _) near far alike

theorem expr_corresponds [PegValue CharT] {apply apply' : RuleId → Parser CharT ParseResult}
    (applies : ∀ rule, fit.reach rule →
      Corresponds fit (ResultsAgree fit) (apply rule) (apply' (fit.rename rule)))
    (fuel : Nat) {expr : Expr CharT} (confined : expr.Every (Confined fit.reach True))
    (blind : expr.Every (FitBlind fit)) :
    Corresponds fit (ResultsAgree fit) (expr.parse apply fuel)
      ((renameExpr fit.rename expr).parse apply' fuel) := by
  have all : ∀ children : List (Expr CharT), Expr.EveryAll (Confined fit.reach True) children →
      Expr.EveryAll (FitBlind fit) children →
      (∀ child ∈ children, child.Every (Confined fit.reach True) → child.Every (FitBlind fit) →
        Corresponds fit (ResultsAgree fit) (child.parse apply fuel)
          ((renameExpr fit.rename child).parse apply' fuel)) →
      List.Forall₂ (Corresponds fit (ResultsAgree fit)) (Expr.parseAll apply fuel children)
        (Expr.parseAll apply' fuel (renameAll fit.rename children)) := by
    intro children within blinds each
    rw [Expr.parse_all_eq_map, Expr.parse_all_eq_map, rename_all_eq_map, List.forall₂_map_left_iff,
      List.map_map, List.forall₂_map_right_iff, List.forall₂_same]
    exact fun child member => each child member (Expr.every_all_iff.mp within child member)
      (Expr.every_all_iff.mp blinds child member)
  induction expr using Expr.induct with
  | terminal value => exact terminal_corresponds value
  | terminalSeq values => exact terminal_seq_corresponds values
  | token value => exact token_corresponds value
  | matcher fn => exact matcher_corresponds blind.here
  | empty => exact bare_corresponds true
  | cut => exact tandem_update (fun _ _ alike => alike.set_cut true) (bare_corresponds true)
  | sequence children induction =>
      unfold Expr.Every at confined blind
      exact sequence_corresponds (skipper_corresponds applies) (all children confined.2 blind.2 induction)
  | alternation children induction =>
      unfold Expr.Every at confined blind
      exact alternation_corresponds (all children confined.2 blind.2 induction)
  | repetition kind child induction =>
      unfold Expr.Every at confined blind
      exact repeat_corresponds fuel (skipper_corresponds applies) (induction confined.2 blind.2) _ _
  | not child induction =>
      unfold Expr.Every at confined blind
      exact predicate_corresponds (induction confined.2 blind.2) true
  | and child induction =>
      unfold Expr.Every at confined blind
      exact predicate_corresponds (induction confined.2 blind.2) false
  | lexeme child induction =>
      unfold Expr.Every at confined blind
      exact lexeme_corresponds (induction confined.2 blind.2)
  | rule id => exact applies id confined.here

end Expressions

section Frames

variable {fit : Fit} {near far : Context CharT}

/-- The renaming keeps the rules of the set apart. -/
def KeepsApart (fit : Fit) : Prop :=
  ∀ rule other, fit.reach rule → fit.reach other →
    (fit.rename rule = fit.rename other ↔ rule = other)

theorem is_of_renamed (apart : KeepsApart fit) {rule : RuleId} (inside : fit.reach rule) (pos : Nat)
    {frame : LRFrame} (framed : fit.reach frame.rule) :
    LRFrame.isOf (fit.rename rule) pos (renameFrame fit.rename frame) = LRFrame.isOf rule pos frame := by
  exact congrArg (decide (frame.pos = pos) && ·)
    (decide_eq_decide.mpr (apart frame.rule rule framed inside))

theorem Refitted.in_progress (alike : Refitted fit near far) (apart : KeepsApart fit)
    {rule : RuleId} (inside : fit.reach rule) (pos : Nat) :
    far.lrInProgress (fit.rename rule) pos = near.lrInProgress rule pos := by
  unfold Context.lrInProgress
  rw [alike.lrStack, List.any_map, Bool.eq_iff_iff, List.any_eq_true, List.any_eq_true]
  refine exists_congr fun frame => and_congr_right fun member => ?_
  rw [Function.comp_apply, is_of_renamed apart inside pos (alike.frames frame member)]

theorem Refitted.frame (alike : Refitted fit near far) :
    (NonTerminal.frame far).isHead = (NonTerminal.frame near).isHead ∧
      (NonTerminal.frame far).lastPos = (NonTerminal.frame near).lastPos := by
  unfold NonTerminal.frame
  rw [alike.lrStack]
  cases near.lrStack <;> simp [renameFrame]

theorem Refitted.stacked (alike : Refitted fit near far) {stack : List LRFrame}
    (framed : ∀ frame ∈ stack, fit.reach frame.rule) :
    Refitted fit { near with lrStack := stack }
      { far with lrStack := stack.map (renameFrame fit.rename) } :=
  { alike with lrStack := rfl, frames := framed }

theorem Refitted.written (alike : Refitted fit near far) (apart : KeepsApart fit) {rule : RuleId}
    (inside : fit.reach rule) (pos : Nat) {entry entry' : RuleState}
    (entries : EntriesAgree fit entry entry') :
    Refitted fit { near with mem := near.mem.write pos rule entry }
      { far with mem := far.mem.write pos (fit.rename rule) entry' } := by
  refine { alike with mem := fun pos' rule' inside' => ?_ }
  simp only [Memo.write, apart rule' rule inside' inside]
  split_ifs
  · exact .some entries
  · exact alike.mem pos' rule' inside'

theorem Refitted.cleared (alike : Refitted fit near far) (apart : KeepsApart fit) {rule : RuleId}
    (inside : fit.reach rule) (pos : Nat) :
    Refitted fit (near.clearSiblingsAt pos rule) (far.clearSiblingsAt pos (fit.rename rule)) := by
  refine { alike with mem := fun pos' rule' inside' => ?_ }
  simp only [Context.clearSiblingsAt, apart rule' rule inside' inside, alike.in_progress apart inside']
  split_ifs
  · exact .none
  · exact alike.mem pos' rule' inside'

theorem Refitted.popped (alike : Refitted fit near far) : Refitted fit near.lrPop far.lrPop := by
  refine { alike with lrStack := ?_, frames := fun frame member => ?_ }
  · simp [Context.lrPop, alike.lrStack]
  · exact alike.frames frame (List.mem_of_mem_tail member)

theorem Refitted.left (alike : Refitted fit near far) (pos : Nat) :
    Refitted fit (NonTerminal.leave pos near) (NonTerminal.leave pos far) := by
  unfold NonTerminal.leave
  rw [alike.frame.1]
  split_ifs
  · refine { alike.popped with growingHead := fun pos' => ?_, heads := fun pos' head => ?_ }
    · simp only [Context.clearGrowingHead, Context.lrPop, alike.growingHead]
      split_ifs <;> rfl
    · simp only [Context.clearGrowingHead, Context.lrPop]
      split_ifs
      · simp
      · exact alike.heads pos' head
  · exact alike.popped

theorem Refitted.framed (alike : Refitted fit near far) (pos : Nat) :
    Refitted fit (NonTerminal.setFrameLastPos pos near) (NonTerminal.setFrameLastPos pos far) := by
  unfold NonTerminal.setFrameLastPos
  rw [alike.lrStack]
  have frames := alike.frames
  cases stack : near.lrStack with
  | nil => exact alike.stacked (by simp)
  | cons top rest =>
      rw [stack] at frames
      have framed : ∀ frame ∈ { top with lastPos := pos } :: rest, fit.reach frame.rule := by
        simpa using frames
      exact alike.stacked framed

theorem mark_frame_renamed (apart : KeepsApart fit) {rule : RuleId} (inside : fit.reach rule)
    (pos : Nat) {stack : List LRFrame} (framed : ∀ frame ∈ stack, fit.reach frame.rule) :
    Context.markFrame (fit.rename rule) pos (stack.map (renameFrame fit.rename)) =
      (Context.markFrame rule pos stack).map (renameFrame fit.rename) := by
  induction stack with
  | nil => rfl
  | cons frame rest induction =>
      rw [List.map_cons, Context.markFrame, Context.markFrame,
        is_of_renamed apart inside pos (framed frame (by simp)),
        induction fun other member => framed other (by simp [member])]
      split_ifs <;> rfl

theorem mark_frame_framed {rule : RuleId} {pos : Nat} {stack : List LRFrame}
    (framed : ∀ frame ∈ stack, fit.reach frame.rule) :
    ∀ frame ∈ Context.markFrame rule pos stack, fit.reach frame.rule := by
  induction stack with
  | nil => simp [Context.markFrame]
  | cons frame rest induction =>
      have others := induction fun other member => framed other (by simp [member])
      have first := framed frame (by simp)
      unfold Context.markFrame
      split_ifs
      · exact List.forall_mem_cons.mpr ⟨first, fun other member => framed other (by simp [member])⟩
      · exact List.forall_mem_cons.mpr ⟨first, others⟩

theorem find_frame_renamed (apart : KeepsApart fit) {rule : RuleId} (inside : fit.reach rule)
    (pos : Nat) {stack : List LRFrame} (framed : ∀ frame ∈ stack, fit.reach frame.rule) :
    (stack.map (renameFrame fit.rename)).find? (LRFrame.isOf (fit.rename rule) pos) =
      (stack.find? (LRFrame.isOf rule pos)).map (renameFrame fit.rename) := by
  induction stack with
  | nil => rfl
  | cons frame rest induction =>
      have others := induction fun other member => framed other (by simp [member])
      rw [List.map_cons, List.find?_cons, List.find?_cons, others,
        is_of_renamed apart inside pos (framed frame (by simp))]
      cases LRFrame.isOf rule pos frame <;> rfl

theorem Refitted.marked (alike : Refitted fit near far) (apart : KeepsApart fit) {rule : RuleId}
    (inside : fit.reach rule) (pos : Nat) :
    Refitted fit (near.markHead rule pos) (far.markHead (fit.rename rule) pos) := by
  unfold Context.markHead
  rw [alike.lrStack, find_frame_renamed apart inside pos alike.frames]
  cases near.lrStack.find? (LRFrame.isOf rule pos) with
  | none => exact alike
  | some frame =>
      simp only [Option.map_some, renameFrame]
      split_ifs
      · exact alike
      · refine { alike with
          lrStack := mark_frame_renamed apart inside pos alike.frames
          frames := mark_frame_framed alike.frames
          growingHead := fun pos' => ?_
          heads := fun pos' head => ?_ }
        · dsimp only
          rw [alike.growingHead]
          split_ifs <;> rfl
        · dsimp only
          split_ifs
          · rintro ⟨⟩
            exact inside
          · exact alike.heads pos' head

end Frames

section RuleApplication

variable {fit : Fit}

/-- The second rule has the body of the first one over the renamed rules, and the same sync tokens.
What names, labels and actions have to share depends on what is compared. -/
structure Refit (fit : Fit) (nonTerminal : NonTerminal CharT NodeType)
    (nonTerminal' : NonTerminal CharT NodeType') : Prop where
  body : nonTerminal'.body = nonTerminal.body.map (renameExpr fit.rename)
  syncs : nonTerminal'.recover.isSyncToken = nonTerminal.recover.isSyncToken
  drawn : fit.trees → nonTerminal'.name = nonTerminal.name ∧
    nonTerminal'.typedFold.isSome = nonTerminal.typedFold.isSome
  reported : fit.reports → nonTerminal'.name = nonTerminal.name ∧
    nonTerminal'.label = nonTerminal.label ∧ nonTerminal'.recover.label = nonTerminal.recover.label

def renameRule (rename : RuleId → RuleId) (nonTerminal : NonTerminal CharT NodeType) :
    NonTerminal CharT NodeType :=
  { nonTerminal with body := nonTerminal.body.map (renameExpr rename) }

theorem rename_rule_refit (fit : Fit) (nonTerminal : NonTerminal CharT NodeType) :
    Refit fit nonTerminal (renameRule fit.rename nonTerminal) :=
  ⟨rfl, rfl, fun _ => ⟨rfl, rfl⟩, fun _ => ⟨rfl, rfl, rfl⟩⟩

variable {nonTerminal : NonTerminal CharT NodeType} {nonTerminal' : NonTerminal CharT NodeType'}

theorem store_corresponds (apart : KeepsApart fit) {rule : RuleId} (inside : fit.reach rule)
    (pos : Nat) {entry entry' : RuleState} (entries : EntriesAgree fit entry entry') :
    Corresponds fit Eq (NonTerminal.store rule pos entry : Parser CharT Bool)
      (NonTerminal.store (fit.rename rule) pos entry') := by
  have stored : ∀ near far : Context CharT, Refitted fit near far →
      (near.updateRuleState rule pos entry).1 = (far.updateRuleState (fit.rename rule) pos entry').1 ∧
        Refitted fit (near.updateRuleState rule pos entry).2
          (far.updateRuleState (fit.rename rule) pos entry').2 := by
    intro near far alike
    have rows := alike.mem pos rule inside
    unfold Context.updateRuleState
    generalize near.mem pos rule = row at rows ⊢
    generalize far.mem pos (fit.rename rule) = row' at rows ⊢
    cases rows with
    | none => exact ⟨rfl, alike⟩
    | some _ => exact ⟨rfl, alike.written apart inside pos entries⟩
  refine tandem_then (tandem_modifyGet stored) fun present => ?_
  exact tandem_then (tandem_announce fun _ _ alike => alike.noted (.store rule pos)) fun _ =>
    tandem_pure rfl

structure GrownAgree (fit : Fit) (grown grown' : ParseResult × RuleState) : Prop where
  result : ResultsAgree fit grown.1 grown'.1
  entry : EntriesAgree fit grown.2 grown'.2

theorem grow_loop_corresponds (apart : KeepsApart fit) {rule : RuleId} (inside : fit.reach rule)
    (startPos : Nat) {parseBody parseBody' : Parser CharT ParseResult}
    (body : Corresponds fit (ResultsAgree fit) parseBody parseBody') (fuel : Nat)
    {best best' : ParseResult} (bests : ResultsAgree fit best best') {ruleState ruleState' : RuleState}
    (entries : EntriesAgree fit ruleState ruleState') :
    Corresponds fit (GrownAgree fit) (NonTerminal.growLoop rule startPos parseBody fuel best ruleState)
      (NonTerminal.growLoop (fit.rename rule) startPos parseBody' fuel best' ruleState') := by
  induction fuel generalizing best best' ruleState ruleState' with
  | zero => exact tandem_exhaust
  | succ fuel induction =>
      refine reset_corresponds startPos (tandem_look fun near far alike => ?_)
      dsimp only [id]
      rw [alike.frame.1]
      refine tandem_then (tandem_onlyIf (and_congr_right fun _ => bests.success_iff)
        (tandem_modify fun _ _ here => here.cleared apart inside startPos))
        (fun _ => tandem_bind body fun result result' results => ?_) near far alike
      refine tandem_look fun near far alike => ?_
      dsimp only [id]
      rw [alike.frame.2, alike.position]
      have kept : ResultsAgree fit (if best.success then best else result)
          (if best'.success then best' else result') := by
        rw [bests.success]
        split_ifs
        · exact bests
        · exact results
      refine tandem_ite results.success_iff (tandem_ite Iff.rfl ?_ ?_) (tandem_pure ⟨bests, entries⟩)
        near far alike
      · have grown : EntriesAgree fit ⟨near.position, result⟩ ⟨near.position, result'⟩ :=
          ⟨rfl, results⟩
        refine tandem_update (fun _ _ here => here.framed _) ?_
        exact tandem_then (store_corresponds apart inside _ grown) fun present =>
          tandem_ite Iff.rfl (induction results grown) (tandem_pure ⟨results, grown⟩)
      · exact tandem_then (store_corresponds apart inside _ ⟨rfl, kept⟩) fun _ =>
          tandem_pure ⟨kept, rfl, kept⟩

theorem parse_impl_corresponds (apart : KeepsApart fit) {rule : RuleId} (inside : fit.reach rule)
    (startPos : Nat) {body body' : Option (Parser CharT ParseResult)}
    (bodies : Option.Rel (Corresponds fit (ResultsAgree fit)) body body') (fuel : Nat) :
    Corresponds fit (GrownAgree fit) (NonTerminal.parseImpl rule startPos body fuel)
      (NonTerminal.parseImpl (fit.rename rule) startPos body' fuel) := by
  have seed : EntriesAgree fit ⟨startPos, {}⟩ ⟨startPos, {}⟩ := ⟨rfl, bare_agrees false⟩
  cases bodies with
  | none => exact tandem_throw (.same _)
  | some body =>
      refine tandem_then (store_corresponds apart inside _ seed) fun _ => ?_
      refine tandem_bind (grow_loop_corresponds apart inside startPos body fuel (bare_agrees false) seed)
        fun grown grown' both => tandem_update (fun near far alike => ?_) (tandem_pure both)
      rw [alike.frame.2]
      exact alike.reset _

theorem build_node_run (nonTerminal : NonTerminal CharT NodeType) (rule : RuleId) (startPos : Nat)
    (inner : Option NodePtr) (context : Context CharT) :
    ∃ node arena, NonTerminal.buildNode nonTerminal rule startPos inner context =
      ⟨.returned node, { context with nodeArena := arena }, []⟩ := by
  unfold NonTerminal.buildNode
  cases nonTerminal.typedFold <;> cases inner <;> exact ⟨_, _, rfl⟩

theorem adopted_corresponds {rule : RuleId} (startPos : Nat) (name : Str) {node node' : NodePtr}
    (nodes : NodesAgree fit node node') :
    Corresponds fit (NodesAgree fit)
      (Comp.modify (fun context : Context CharT => context.updateNode node fun fields =>
        { fields with
          name := name
          producer := if fields.producer.isNone then some rule else fields.producer
          startOffset := startPos
          endOffset := context.position }) >>= fun _ => (pure node : Parser CharT NodePtr))
      (Comp.modify (fun context : Context CharT => context.updateNode node' fun fields =>
        { fields with
          name := name
          producer := if fields.producer.isNone then some (fit.rename rule) else fields.producer
          startOffset := startPos
          endOffset := context.position }) >>= fun _ => (pure node' : Parser CharT NodePtr)) := by
  refine tandem_update (fun near far alike => alike.node nodes fun _ fields => ?_) (tandem_pure nodes)
  rw [alike.position]
  cases produced : fields.producer <;> simp [renameNode, produced]

theorem build_node_corresponds (refit : Refit fit nonTerminal nonTerminal') (rule : RuleId)
    (startPos : Nat) {inner inner' : Option NodePtr} (inners : TreesAgree fit inner inner') :
    Corresponds fit (NodesAgree fit) (NonTerminal.buildNode nonTerminal rule startPos inner)
      (NonTerminal.buildNode nonTerminal' (fit.rename rule) startPos inner') := by
  by_cases shown : fit.trees
  · obtain rfl : inner' = inner := inners.same shown
    obtain ⟨named, typed⟩ := refit.drawn shown
    unfold NonTerminal.buildNode
    rw [named]
    cases acts : nonTerminal.typedFold with
    | some action =>
        obtain ⟨action', acts'⟩ : ∃ action', nonTerminal'.typedFold = some action' := by
          rw [← Option.isSome_iff_exists, typed, acts]
          rfl
        rw [acts']
        refine make_corresponds fun node node' nodes => ?_
        refine tandem_update (fun near far alike => alike.node nodes fun _ fields => ?_) ?_
        · rw [alike.position]
          rfl
        · exact tandem_update (fun _ _ alike => alike.pushed nodes inners) (tandem_pure nodes)
    | none =>
        have plain : nonTerminal'.typedFold = none := by
          rw [acts] at typed
          simpa using typed
        rw [plain]
        cases inner' with
        | none => exact make_corresponds fun _ _ => adopted_corresponds startPos _
        | some node =>
            exact tandem_bind (tandem_pure fun _ => rfl) fun _ _ => adopted_corresponds startPos _
  · -- Where no tree is compared, any two nodes will do.
    intro near far alike
    obtain ⟨node, arena, run⟩ := build_node_run nonTerminal rule startPos inner near
    obtain ⟨node', arena', run'⟩ := build_node_run nonTerminal' (fit.rename rule) startPos inner' far
    rw [run, run']
    have nodes : NodesAgree fit node node' := fun drawn => absurd drawn shown
    exact ⟨.returned nodes, alike.redrawn fun drawn => absurd drawn shown, .nil⟩

theorem finish_success_corresponds (apart : KeepsApart fit) (refit : Refit fit nonTerminal nonTerminal')
    {rule : RuleId} (inside : fit.reach rule) (startPos : Nat) {grown grown' : ParseResult × RuleState}
    (both : GrownAgree fit grown grown') :
    Corresponds fit (ResultsAgree fit)
      (NonTerminal.finishSuccess nonTerminal rule startPos grown.1 grown.2)
      (NonTerminal.finishSuccess nonTerminal' (fit.rename rule) startPos grown'.1 grown'.2) := by
  refine tandem_bind (build_node_corresponds refit rule startPos both.result.tree) ?_
  intro node node' nodes
  have answers := success_agrees nodes
  exact tandem_then (store_corresponds apart inside _ ⟨both.entry.lastPos, answers⟩) fun _ =>
    tandem_pure answers

theorem rule_failure_corresponds (refit : Refit fit nonTerminal nonTerminal') (startPos : Nat)
    {near far : Context CharT} (alike : Refitted fit near far) :
    Refitted fit (NonTerminal.recordRuleFailure nonTerminal startPos near)
      (NonTerminal.recordRuleFailure nonTerminal' startPos far) := by
  by_cases shown : fit.reports
  · obtain ⟨named, labelled, -⟩ := refit.reported shown
    unfold NonTerminal.recordRuleFailure
    rw [named, labelled]
    split_ifs
    · exact alike.recorded startPos _
    · exact alike.recorded startPos _
    · exact alike
  · unfold NonTerminal.recordRuleFailure
    split_ifs <;> exact alike.noted_down fun reported => absurd reported shown

theorem finish_failure_corresponds (apart : KeepsApart fit) (refit : Refit fit nonTerminal nonTerminal')
    {rule : RuleId} (inside : fit.reach rule) (startPos : Nat) {ruleState ruleState' : RuleState}
    (entries : EntriesAgree fit ruleState ruleState') :
    Corresponds fit (ResultsAgree fit)
      (NonTerminal.finishFailure nonTerminal rule startPos ruleState)
      (NonTerminal.finishFailure nonTerminal' (fit.rename rule) startPos ruleState') := by
  have failed : Corresponds fit (ResultsAgree fit)
      (do
        let _ ← NonTerminal.store rule startPos ⟨ruleState.lastPos, ⟨false, none⟩⟩
        pure ⟨false, none⟩ : Parser CharT ParseResult)
      (do
        let _ ← NonTerminal.store (fit.rename rule) startPos ⟨ruleState'.lastPos, ⟨false, none⟩⟩
        pure ⟨false, none⟩ : Parser CharT ParseResult) :=
    tandem_then (store_corresponds apart inside _ ⟨entries.lastPos, bare_agrees false⟩) fun _ =>
      bare_corresponds false
  refine tandem_update (fun _ _ alike => rule_failure_corresponds refit startPos alike)
    (tandem_look fun near far alike => ?_)
  dsimp only [id]
  rw [← alike.cut_eq, refit.syncs]
  cases configured : nonTerminal.recover.isSyncToken with
  | none => exact failed near far alike
  | some isSyncToken =>
      cases committed : near.cut with
      | true => exact failed near far alike
      | false =>
          have scanned : NonTerminal.scanSync isSyncToken far startPos =
              NonTerminal.scanSync isSyncToken near startPos := by
            unfold NonTerminal.scanSync
            rw [alike.input]
          dsimp only
          rw [scanned, alike.size]
          generalize (if NonTerminal.scanSync isSyncToken near startPos < near.inputSize then
            NonTerminal.scanSync isSyncToken near startPos + 1 else near.inputSize) = resumeAt
          have resumed : EntriesAgree fit ⟨resumeAt, ⟨true, none⟩⟩ ⟨resumeAt, ⟨true, none⟩⟩ :=
            ⟨rfl, bare_agrees true⟩
          refine tandem_update (fun _ _ here => ?_)
            (tandem_then (store_corresponds apart inside _ resumed) fun _ => bare_corresponds true)
            near far alike
          have back := here.reset resumeAt
          refine back.noted_down fun shown => ?_
          obtain ⟨named, -, labelled⟩ := refit.reported shown
          rw [named, labelled, back.errors shown]

/-- The same answer, and contexts that stay refitted. -/
theorem parse_corresponds (apart : KeepsApart fit) (refit : Refit fit nonTerminal nonTerminal')
    {rule : RuleId} (inside : fit.reach rule) {body body' : Option (Parser CharT ParseResult)}
    (bodies : Option.Rel (Corresponds fit (ResultsAgree fit)) body body') (fuel : Nat) :
    Corresponds fit (ResultsAgree fit) (NonTerminal.parse nonTerminal rule body fuel)
      (NonTerminal.parse nonTerminal' (fit.rename rule) body' fuel) := by
  intro near far alike
  have started := alike.noted (.apply rule)
  have rows := alike.mem near.position rule inside
  cases row : near.mem near.position rule with
  | some entry =>
      rw [row] at rows
      cases row' : far.mem near.position (fit.rename rule) with
      | none =>
          rw [row'] at rows
          cases rows
      | some entry' =>
          rw [row'] at rows
          rw [← alike.position] at row'
          cases rows with
          | some entries =>
              rw [parse_hit _ _ _ row, parse_hit _ _ _ row', PlantedSeeds.replay_run row,
                PlantedSeeds.replay_run row', alike.position, alike.in_progress apart inside, entries.lastPos]
              refine ⟨.returned entries.cachedResult, ?_, .cons started .nil⟩
              dsimp only
              split_ifs
              · exact (alike.marked apart inside _).reset _
              · exact alike.reset _
  | none =>
      rw [row] at rows
      cases row' : far.mem near.position (fit.rename rule) with
      | some entry' =>
          rw [row'] at rows
          cases rows
      | none =>
          rw [← alike.position] at row'
          rw [parse_miss _ _ _ row, parse_miss _ _ _ row', alike.position]
          have embarked : Refitted fit (embark rule near) (embark (fit.rename rule) far) := by
            have written := alike.written apart inside near.position
              (⟨rfl, bare_agrees false⟩ : EntriesAgree fit {} {})
            unfold embark Context.lrPush
            rw [alike.position]
            exact { written with
              position := rfl
              lrStack := by simp [alike.lrStack, renameFrame]
              frames := List.forall_mem_cons.mpr ⟨inside, alike.frames⟩ }
          have onward : Corresponds fit (ResultsAgree fit)
              (voyage nonTerminal rule body fuel near.position)
              (voyage nonTerminal' (fit.rename rule) body' fuel near.position) := by
            refine tandem_bind (parse_impl_corresponds apart inside _ bodies fuel) ?_
            intro grown grown' both
            refine tandem_update (fun _ _ here => here.left _)
              (tandem_ite both.result.success_iff ?_ ?_)
            · exact finish_success_corresponds apart refit inside _ both
            · exact finish_failure_corresponds apart refit inside _ both.entry
          have later := onward _ _ embarked
          exact ⟨later.outcome, later.states, .cons started later.logs⟩

end RuleApplication

section Grammars

variable [PegValue CharT] {fit : Fit}

/-- The rules of the set stand in the second grammar under their new identities; the set is
closed under references and holds the skipper. -/
structure Embeds (fit : Fit) (grammar : Grammar CharT NodeType) (grammar' : Grammar CharT NodeType') :
    Prop where
  apart : KeepsApart fit
  closed : ClosedUnder grammar fit.reach True
  rules : ∀ rule, fit.reach rule →
    Refit fit (grammar.nonTerminal rule) (grammar'.nonTerminal (fit.rename rule))
  matchers : ∀ rule body, fit.reach rule → grammar.body rule = some body → body.Every (FitBlind fit)
  skipper : grammar'.skipper = grammar.skipper.map fit.rename
  skips : ∀ skipper, grammar.skipper = some skipper → fit.reach skipper

variable {grammar : Grammar CharT NodeType} {grammar' : Grammar CharT NodeType'}

theorem apply_corresponds (embeds : Embeds fit grammar grammar') (fuel : Nat) {rule : RuleId}
    (inside : fit.reach rule) :
    Corresponds fit (ResultsAgree fit) (grammar.apply fuel rule)
      (grammar'.apply fuel (fit.rename rule)) := by
  induction fuel generalizing rule with
  | zero => exact tandem_exhaust
  | succ fuel induction =>
      have refit := embeds.rules rule inside
      have renamed : grammar'.body (fit.rename rule) =
          (grammar.body rule).map (renameExpr fit.rename) := refit.body
      rw [Grammar.apply, Grammar.apply, renamed, Option.map_map]
      refine parse_corresponds embeds.apart refit inside ?_ fuel
      cases assigned : grammar.body rule with
      | none => exact .none
      | some body =>
          refine .some (expr_corresponds (fun other within => induction within) fuel ?_ ?_)
          · exact embeds.closed rule body inside assigned
          · exact embeds.matchers rule body inside assigned

variable {name name' : Str} {start : RuleId}

theorem leading_skip_corresponds (embeds : Embeds fit grammar grammar') (fuel : Nat) :
    Corresponds fit Eq (grammar.leadingSkip fuel) (grammar'.leadingSkip fuel) := by
  have installed : ∀ near far : Context CharT, Refitted fit near far →
      Refitted fit { near with skipper := grammar.skipper }
        { far with skipper := grammar'.skipper } :=
    fun _ _ here => { here with skipper := embeds.skipper, skips := embeds.skips }
  exact tandem_update installed (skipper_corresponds fun rule within =>
    apply_corresponds embeds fuel within)

theorem handled_agrees {Value Value' : Type} {agree : Value → Value' → Prop} {value : Value}
    {value' : Value'} (same : agree value value') (exn exn' : Exn) (exns : ExnsAgree fit exn exn') :
    Option.Rel agree (Grammar.onParseError value exn) (Grammar.onParseError value' exn') := by
  cases exns with
  | parseError => exact .some same
  | same exn =>
      cases exn with
      | parseError => exact .some same
      | outOfRange | logicError | assertion | nullPointer => exact .none

theorem entry_corresponds (embeds : Embeds fit grammar grammar') (inside : fit.reach start)
    (found : grammar.find name = some start) (found' : grammar'.find name' = some (fit.rename start))
    (fuel : Nat) : Corresponds fit Eq (grammar.parse fuel name) (grammar'.parse fuel name') := by
  unfold Grammar.parse
  rw [found, found']
  refine tandem_then (leading_skip_corresponds embeds fuel) fun _ => ?_
  refine tandem_catching (tandem_bind (apply_corresponds embeds fuel inside) ?_) (handled_agrees rfl)
  exact fun result result' results => tandem_pure results.success.symm

theorem tree_entry_corresponds (embeds : Embeds fit grammar grammar') (inside : fit.reach start)
    (found : grammar.find name = some start) (found' : grammar'.find name' = some (fit.rename start))
    (fuel : Nat) :
    Corresponds fit (TreesAgree fit) (grammar.parseTree fuel name) (grammar'.parseTree fuel name') := by
  unfold Grammar.parseTree
  rw [found, found']
  refine tandem_then (leading_skip_corresponds embeds fuel) fun _ => ?_
  refine tandem_catching (tandem_bind (apply_corresponds embeds fuel inside) ?_)
    (handled_agrees ⟨rfl, fun _ => rfl⟩)
  exact fun result result' results => tandem_pure results.tree

omit [PegValue CharT] in
theorem fresh_refitted (input : List CharT) :
    Refitted fit (Context.fresh input) (Context.fresh input) := by
  constructor <;> simp [Context.fresh]

end Grammars

end Peglib.Refitting
