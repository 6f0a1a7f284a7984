import Peglib.Coupling
import Peglib.Termination

/-!
# Position discipline

The engine is run once more with an assertion around every evaluation of an
expression or a rule: the position is inside the input before and after, a
failure leaves it where it was, a success does not move it back, a predicate
does not move it at all, and no `reset` inside went past the end. The asserted
run is the same run.
-/

namespace Peglib.PositionDiscipline

open Peglib.TracedComputation Peglib.WeakestPrecondition Peglib.Coupling
open Peglib.ParseError Peglib.ParseContext Peglib.Expressions Peglib.Rules
open Peglib.ControlDiscipline Peglib.PegSemantics Peglib.Evaluation Peglib.SuccessfulAnswers
open Peglib.Termination

set_option autoImplicit false

variable {CharT NodeType : Type}

section Asserted

def isPredicate : Expr CharT → Bool
  | .not _ | .and _ => true
  | _ => false

/-- Where a result may leave the position. -/
def Disciplined (predicate : Bool) (start stop : Nat) (result : ParseResult) : Prop :=
  if result.success then start ≤ stop ∧ (predicate = true → stop = start) else stop = start

instance (predicate : Bool) (start stop : Nat) (result : ParseResult) :
    Decidable (Disciplined predicate start stop result) :=
  inferInstanceAs (Decidable (if result.success then start ≤ stop ∧ (predicate = true → stop = start)
    else stop = start))

/-- What every evaluation owes, however it ends. -/
structure Obeys (predicate : Bool) (before : Context CharT)
    (run : Run (Moment CharT) (Context CharT) Exn ParseResult) : Prop where
  entered : before.position ≤ before.inputSize
  left : run.state.position ≤ before.inputSize
  inRange : run.state.outOfRange = before.outOfRange
  disciplined : ∀ result ∈ run.outcome.value?,
    Disciplined predicate before.position run.state.position result

instance (predicate : Bool) (before : Context CharT)
    (run : Run (Moment CharT) (Context CharT) Exn ParseResult) :
    Decidable (Obeys predicate before run) :=
  decidable_of_iff (before.position ≤ before.inputSize ∧ run.state.position ≤ before.inputSize ∧
      run.state.outOfRange = before.outOfRange ∧ ∀ result ∈ run.outcome.value?,
        Disciplined predicate before.position run.state.position result)
    ⟨fun ⟨entered, left, inRange, disciplined⟩ => ⟨entered, left, inRange, disciplined⟩,
      fun ⟨entered, left, inRange, disciplined⟩ => ⟨entered, left, inRange, disciplined⟩⟩

/-- An evaluation that ends in a failed assertion unless it obeys. -/
def asserted (predicate : Bool) (parser : Parser CharT ParseResult) : Parser CharT ParseResult :=
  fun context =>
    if Obeys predicate context (parser context) then parser context
    else ⟨.thrown .assertion, (parser context).state, (parser context).trace⟩

variable [PegValue CharT]

mutual

/-- `Expr.parse` with every evaluation asserted. -/
def assertedParse (apply : RuleId → Parser CharT ParseResult) (fuel : Nat) :
    Expr CharT → Parser CharT ParseResult
  | .sequence children =>
      asserted false
        (SequenceExpr.parse (runSkipper apply) (assertedParseAll apply fuel children))
  | .alternation children =>
      asserted false (AlternationExpr.parse (assertedParseAll apply fuel children))
  | .repetition kind child =>
      asserted false (repeatParseImpl fuel (runSkipper apply) (assertedParse apply fuel child)
        kind.minRep kind.maxRep)
  | .not child => asserted true (predicateParseImpl (assertedParse apply fuel child) true)
  | .and child => asserted true (predicateParseImpl (assertedParse apply fuel child) false)
  | .lexeme child => asserted false (LexemeExpr.parse (assertedParse apply fuel child))
  | .terminal value => asserted false (TerminalExpr.parse value)
  | .terminalSeq values => asserted false (TerminalSeqExpr.parse values)
  | .token value => asserted false (TokenExpr.parse value)
  | .matcher fn => asserted false (MatcherExpr.parse fn)
  | .empty => asserted false EmptyExpr.parse
  | .cut => asserted false CutExpr.parse
  | .rule id => asserted false (apply id)

def assertedParseAll (apply : RuleId → Parser CharT ParseResult) (fuel : Nat) :
    List (Expr CharT) → List (Parser CharT ParseResult)
  | [] => []
  | child :: rest => assertedParse apply fuel child :: assertedParseAll apply fuel rest

end

def assertedApply (grammar : Grammar CharT NodeType) : Nat → RuleId → Parser CharT ParseResult
  | 0, _ => Comp.exhaust
  | fuel + 1, rule =>
      asserted false (NonTerminal.parse (grammar.nonTerminal rule) rule
        ((grammar.body rule).map (assertedParse (assertedApply grammar fuel) fuel)) fuel)

def assertedSkip (grammar : Grammar CharT NodeType) (fuel : Nat) : Parser CharT Unit := do
  Comp.modify fun context => { context with skipper := grammar.skipper }
  runSkipper (assertedApply grammar fuel)

def assertedEntry (grammar : Grammar CharT NodeType) (fuel : Nat) (name : Str) :
    Parser CharT Bool :=
  match grammar.find name with
  | none => Comp.throw (Grammar.notFound (ascii "parse") name)
  | some rule => do
      assertedSkip grammar fuel
      Comp.catching (do
        let result ← assertedApply grammar fuel rule
        pure result.success) (Grammar.onParseError false)

theorem asserted_parse_all_eq_map (apply : RuleId → Parser CharT ParseResult) (fuel : Nat)
    (children : List (Expr CharT)) :
    assertedParseAll apply fuel children = children.map (assertedParse apply fuel) := by
  induction children with
  | nil => rfl
  | cons child rest induction => rw [assertedParseAll, induction, List.map_cons]

end Asserted

/-- Since `origin` no assertion of `reset` has failed, and no failure has been
recorded outside the input. -/
def Clean (input : List CharT) (origin far : Context CharT) : Prop :=
  far.outOfRange = origin.outOfRange ∧
    (origin.errors.Inside input.length → far.errors.Inside input.length)

theorem Clean.refl (input : List CharT) (context : Context CharT) : Clean input context context :=
  ⟨rfl, id⟩

/-- One state, over the input, and clean. -/
structure Intact (input : List CharT) (origin near far : Context CharT) : Prop where
  same : near = far
  source : far.input = input
  clean : Clean input origin far

theorem Intact.moved {input : List CharT} {origin near far near' far' : Context CharT}
    (intact : Intact input origin near far) (same : near' = far') (source : far'.input = far.input)
    (clean : Clean input origin far → Clean input origin far') : Intact input origin near' far' :=
  ⟨same, source.trans intact.source, clean intact.clean⟩

/-- Both parsers run in the same way from the context; a run that breaks off
does so inside the input. -/
abbrev SameRun {Value : Type} (input : List CharT) (origin : Context CharT) (left right : Parser CharT Value)
    (post : Value → Context CharT → Prop) (context : Context CharT) : Prop :=
  Alike (fun near far => Intact input origin near far ∧ far.position ≤ input.length) left right
    (fun value near far => Intact input origin near far ∧ post value far) context context

/-- An asserted parser that runs as the plain one does, which advances. -/
def Coupled {Value : Type} (input : List CharT) (skipper : Option RuleId) (origin : Context CharT)
    (pending : List (RuleId × Nat)) (left right : Parser CharT Value) : Prop :=
  ∀ context, Ready input skipper pending context → Clean input origin context →
    SameRun input origin left right (fun _ last => Ready input skipper pending last ∧
      context.position ≤ last.position ∧
      last.lrStack.map frameCore = context.lrStack.map frameCore) context

section Constructs

variable {input : List CharT} {skipper : Option RuleId} {origin : Context CharT}
  {pending : List (RuleId × Nat)} {Value Other : Type}

theorem Coupled.bind {left right : Parser CharT Value} {next next' : Value → Parser CharT Other}
    {post : Other → Context CharT → Prop}
    (coupled : Coupled input skipper origin pending left right) {context : Context CharT}
    (ready : Ready input skipper pending context) (clean : Clean input origin context)
    (rest : ∀ value middle, Ready input skipper pending middle → Clean input origin middle →
      context.position ≤ middle.position →
      middle.lrStack.map frameCore = context.lrStack.map frameCore →
      SameRun input origin (next value) (next' value) post middle) :
    SameRun input origin (left >>= next) (right >>= next') post context := by
  refine alike_bind _ (coupled context ready clean) ?_
  rintro value near far ⟨⟨rfl, -, kept⟩, atMiddle, forward, frames⟩
  exact rest value near atMiddle kept forward frames

theorem onlyIf_coupled {condition : Prop} [Decidable condition] {left right : Parser CharT Unit}
    (coupled : Coupled input skipper origin pending left right) :
    Coupled input skipper origin pending (Comp.onlyIf condition left)
      (Comp.onlyIf condition right) := by
  intro context ready inRange
  refine alike_onlyIf (fun _ => coupled context ready inRange) fun _ => ?_
  exact ⟨⟨rfl, ready.sound.source, inRange⟩, ready, Nat.le_refl _, rfl⟩

theorem Clean.reset {context : Context CharT} {pos : Nat} (clean : Clean input origin context)
    (source : context.input = input) (inside : pos ≤ input.length) :
    Clean input origin (context.reset pos) := by
  have size : context.inputSize = input.length := congrArg List.length source
  have inRange : (context.reset pos).outOfRange = context.outOfRange := by
    simp only [Context.reset, size, Nat.not_lt.mpr inside, decide_false, Bool.or_false]
  exact ⟨inRange.trans clean.1, clean.2⟩

theorem Clean.recorded {context : Context CharT} {pos : Nat} (clean : Clean input origin context)
    (inside : pos ≤ input.length) (item : ExpectedItem) :
    Clean input origin (context.recordFailure pos item) :=
  ⟨clean.1, fun started => (clean.2 started).recorded inside item⟩

theorem Clean.pushed {context : Context CharT} (clean : Clean input origin context) (node : NodePtr)
    (tree : Option NodePtr) : Clean input origin (pushChild node tree context) := by
  cases tree <;> exact clean

theorem set_cut_ready {context : Context CharT} (ready : Ready input skipper pending context)
    (clean : Clean input origin context) (committed : Bool) :
    Ready input skipper pending (context.setCut committed) ∧
      Clean input origin (context.setCut committed) ∧
      (context.setCut committed).position = context.position := by
  unfold Context.setCut
  split
  · exact ⟨ready, clean, rfl⟩
  · exact ⟨ready.moved rfl rfl rfl rfl ready.inside, clean, rfl⟩

theorem raise_same {context : Context CharT} (source : context.input = input)
    (inside : context.position ≤ input.length) (clean : Clean input origin context) :
    SameRun input origin raiseIfCommitted raiseIfCommitted (fun _ last => last = context) context := by
  have intact : Intact input origin context context := ⟨rfl, source, clean⟩
  refine alike_bind (fun _ near far => near = context ∧ far = context) ?_ ?_
  · exact alike_announce rfl ⟨rfl, rfl⟩
  · rintro ⟨⟩ near far ⟨rfl, rfl⟩
    refine alike_read rfl (alike_onlyIf (fun _ => ?_) fun _ => ⟨intact, rfl⟩)
    exact alike_throw ⟨intact, inside⟩ _

theorem parse_seq_same {skip skip' : Parser CharT Unit}
    (skips : Coupled input skipper origin pending skip skip') (node : NodePtr)
    {children children' : List (Parser CharT ParseResult)}
    (each : List.Forall₂ (Coupled input skipper origin pending) children children') (index : Nat)
    {context : Context CharT} (ready : Ready input skipper pending context)
    (clean : Clean input origin context) :
    SameRun input origin (SequenceExpr.parseSeq skip node index children)
      (SequenceExpr.parseSeq skip' node index children') (fun _ _ => True) context := by
  induction each generalizing index context with
  | nil => exact alike_pure ⟨⟨rfl, ready.sound.source, clean⟩, trivial⟩
  | cons child rest induction =>
      refine (onlyIf_coupled skips).bind ready clean fun _ skipped atSkip kept _ _ => ?_
      refine child.bind atSkip kept fun result here atHere keptHere _ _ => ?_
      refine alike_ite (fun _ => alike_modify ?_) fun _ => ?_
      · exact induction (index + 1) (push_child_ready atHere node result.tree)
          (keptHere.pushed node result.tree)
      · exact alike_pure ⟨⟨rfl, atHere.sound.source, keptHere⟩, trivial⟩

theorem sequence_same {skip skip' : Parser CharT Unit}
    (skips : Coupled input skipper origin pending skip skip')
    {children children' : List (Parser CharT ParseResult)}
    (each : List.Forall₂ (Coupled input skipper origin pending) children children')
    {context : Context CharT} (ready : Ready input skipper pending context)
    (clean : Clean input origin context) :
    SameRun input origin (SequenceExpr.parse skip children) (SequenceExpr.parse skip' children')
      (fun _ _ => True) context := by
  refine alike_read rfl (alike_modifyGet rfl (alike_modify ?_))
  have begun : Ready input skipper pending (markStart context.makeNode.1 context.makeNode.2) :=
    ready.moved rfl rfl rfl rfl ready.inside
  refine alike_bind _ (parse_seq_same skips _ each 0 begun clean) ?_
  rintro found near far ⟨⟨rfl, source, kept⟩, -⟩
  refine alike_ite (fun _ => alike_modify (alike_pure ?_)) fun _ => alike_modify (alike_pure ?_)
  · exact ⟨⟨rfl, source, kept⟩, trivial⟩
  · exact ⟨⟨rfl, source, kept.reset source ready.inside⟩, trivial⟩

theorem parse_alt_same {children children' : List (Parser CharT ParseResult)}
    (each : List.Forall₂ (Coupled input skipper origin pending) children children') (index : Nat)
    {context : Context CharT} (ready : Ready input skipper pending context)
    (clean : Clean input origin context) :
    SameRun input origin (AlternationExpr.parseAlt index children)
      (AlternationExpr.parseAlt index children') (fun _ _ => True) context := by
  induction each generalizing index context with
  | nil => exact alike_pure ⟨⟨rfl, ready.sound.source, clean⟩, trivial⟩
  | cons child rest induction =>
      refine child.bind ready clean fun result here atHere kept _ _ => ?_
      refine alike_ite (fun _ => alike_modify (alike_pure ?_)) fun _ => ?_
      · cases result.tree <;> exact ⟨⟨rfl, atHere.sound.source, kept⟩, trivial⟩
      · refine alike_bind _ (raise_same atHere.sound.source atHere.inside kept) ?_
        rintro ⟨⟩ near far ⟨⟨rfl, -, kept'⟩, rfl⟩
        exact induction (index + 1) atHere kept'

theorem remove_cut_intact {near far : Context CharT} (intact : Intact input origin near far) :
    Intact input origin near.removeCut far.removeCut ∧ far.removeCut.position = far.position := by
  obtain rfl := intact.same
  unfold Context.removeCut
  split
  · exact ⟨intact, rfl⟩
  · split_ifs
    · exact ⟨intact.moved rfl rfl id, rfl⟩
    · exact ⟨intact.moved rfl rfl id, rfl⟩

theorem cut_scope_same {left right : Parser CharT ParseResult} {context : Context CharT}
    (bodies : SameRun input origin left right (fun _ _ => True) context.initCut) :
    SameRun input origin (Comp.modify Context.initCut >>= fun _ => Comp.guarded left Context.removeCut)
      (Comp.modify Context.initCut >>= fun _ => Comp.guarded right Context.removeCut)
      (fun _ _ => True) context := by
  refine alike_modify (alike_guarded (alike_post bodies ?_) ?_)
  · exact fun _ near far met => ⟨(remove_cut_intact met.1).1, trivial⟩
  · rintro near far ⟨intact, inside⟩
    have closed := remove_cut_intact intact
    exact ⟨closed.1, by rw [closed.2]; exact inside⟩

theorem repeat_loop_same {maxRep : Int} {node : NodePtr} {skip skip' : Parser CharT Unit}
    (skips : Coupled input skipper origin pending skip skip')
    {child child' : Parser CharT ParseResult}
    (coupled : Coupled input skipper origin pending child child') (fuel loopCount lastSuccessState : Nat)
    (inside : lastSuccessState ≤ input.length) {context : Context CharT}
    (ready : Ready input skipper pending context) (clean : Clean input origin context) :
    SameRun input origin (repeatLoop skip child maxRep node fuel loopCount lastSuccessState)
      (repeatLoop skip' child' maxRep node fuel loopCount lastSuccessState)
      (fun ended last => ended.lastSuccessState ≤ input.length ∧ last.position ≤ input.length)
      context := by
  induction fuel generalizing loopCount lastSuccessState context with
  | zero => exact alike_exhaust ⟨⟨rfl, ready.sound.source, clean⟩, ready.inside⟩
  | succ fuel induction =>
      refine (onlyIf_coupled skips).bind ready clean fun _ skipped atSkip kept _ _ => ?_
      obtain ⟨cleared, clean, -⟩ := set_cut_ready atSkip kept false
      refine alike_read rfl (alike_modify (coupled.bind cleared clean ?_))
      intro result here atHere keptHere _ _
      refine alike_ite (fun _ => alike_read rfl (alike_modify (alike_ite ?_ ?_))) fun _ => ?_
      · intro _
        refine alike_pure ⟨⟨rfl, (push_child_ready atHere node result.tree).sound.source,
          keptHere.pushed node result.tree⟩, atHere.inside, ?_⟩
        exact (push_child_ready atHere node result.tree).inside
      · intro _
        exact induction (loopCount + 1) here.position atHere.inside
          (push_child_ready atHere node result.tree)
          (keptHere.pushed node result.tree)
      · exact alike_pure ⟨⟨rfl, atHere.sound.source, keptHere⟩, inside, atHere.inside⟩

theorem repeat_finish_same (maxRep : Int) (node : NodePtr) (ended : LoopExit)
    (bounded : ended.lastSuccessState ≤ input.length) {context : Context CharT}
    (source : context.input = input) (inside : context.position ≤ input.length)
    (clean : Clean input origin context) :
    SameRun input origin (repeatFinish maxRep node ended) (repeatFinish maxRep node ended)
      (fun _ _ => True) context := by
  refine alike_bind (fun _ near far => Intact input origin near far ∧
    far.position ≤ input.length) ?_ ?_
  · refine alike_onlyIf (fun _ => ⟨rfl, rfl, ⟨rfl, source, ?_⟩, bounded⟩) fun _ => ?_
    · exact clean.reset source bounded
    · exact ⟨⟨rfl, source, clean⟩, inside⟩
  · rintro ⟨⟩ near far ⟨⟨rfl, source', kept⟩, inside'⟩
    refine alike_bind (fun _ near far => Intact input origin near far) ?_ ?_
    · refine alike_onlyIf (fun _ => alike_post (raise_same source' inside' kept) ?_) fun _ => ?_
      · exact fun _ _ _ met => met.1
      · exact ⟨rfl, source', kept⟩
    · rintro ⟨⟩ near' far' ⟨rfl, source'', kept'⟩
      exact alike_modify (alike_pure ⟨⟨rfl, source'', kept'⟩, trivial⟩)

theorem repeat_same {skip skip' : Parser CharT Unit}
    (skips : Coupled input skipper origin pending skip skip')
    {child child' : Parser CharT ParseResult}
    (coupled : Coupled input skipper origin pending child child') (fuel minRep : Nat) (maxRep : Int)
    {context : Context CharT} (ready : Ready input skipper pending context)
    (clean : Clean input origin context) :
    SameRun input origin (repeatParseImpl fuel skip child minRep maxRep)
      (repeatParseImpl fuel skip' child' minRep maxRep) (fun _ _ => True) context := by
  refine cut_scope_same (alike_read rfl (alike_modifyGet rfl (alike_modify ?_)))
  have begun : Ready input skipper pending
      (markStart context.initCut.makeNode.1 context.initCut.makeNode.2) :=
    ready.moved rfl rfl rfl rfl ready.inside
  refine alike_bind _ (repeat_loop_same skips coupled fuel 0 _ ready.inside begun clean) ?_
  rintro ended near far ⟨⟨rfl, source, kept⟩, bounded, inside⟩
  refine alike_ite (fun _ => alike_modify (alike_pure ?_)) fun _ => ?_
  · exact ⟨⟨rfl, source, kept.reset source ready.inside⟩, trivial⟩
  · exact repeat_finish_same maxRep _ ended bounded source inside kept

theorem predicate_same {child child' : Parser CharT ParseResult}
    (coupled : Coupled input skipper origin pending child child') (negate : Bool)
    {context : Context CharT} (ready : Ready input skipper pending context)
    (clean : Clean input origin context) :
    SameRun input origin (predicateParseImpl child negate) (predicateParseImpl child' negate)
      (fun _ last => last.position = context.position) context := by
  refine alike_read rfl (coupled.bind ready clean fun result here atHere kept _ _ => ?_)
  refine alike_modify (alike_pure ⟨⟨rfl, atHere.sound.source, ?_⟩, rfl⟩)
  exact kept.reset atHere.sound.source ready.inside

theorem lexeme_same {child child' : Parser CharT ParseResult}
    (coupled : Coupled input skipper origin pending child child') {context : Context CharT}
    (ready : Ready input skipper pending context) (clean : Clean input origin context) :
    SameRun input origin (LexemeExpr.parse child) (LexemeExpr.parse child') (fun _ _ => True)
      context := by
  refine alike_read rfl (alike_modify (alike_guarded (alike_post
    (coupled _ (ready.moved rfl rfl rfl rfl ready.inside) clean) ?_) ?_))
  · rintro result near far ⟨⟨rfl, source, kept⟩, -⟩
    exact ⟨⟨rfl, source, kept⟩, trivial⟩
  · rintro near far ⟨⟨rfl, source, kept⟩, inside⟩
    exact ⟨⟨rfl, source, kept⟩, inside⟩

theorem skipper_same {apply apply' : RuleId → Parser CharT ParseResult}
    (applies : ∀ rule, Coupled input skipper origin pending (apply rule) (apply' rule))
    {context : Context CharT} (ready : Ready input skipper pending context)
    (clean : Clean input origin context) :
    SameRun input origin (runSkipper apply) (runSkipper apply') (fun _ _ => True) context := by
  refine alike_read rfl ?_
  dsimp only [id]
  split
  · next rule _ _ =>
      refine alike_modify ((applies rule).bind (ready.moved rfl rfl rfl rfl ready.inside) clean ?_)
      intro _ here atHere kept _ _
      exact ⟨rfl, rfl, ⟨rfl, atHere.sound.source, kept⟩, trivial⟩
  · exact alike_pure ⟨⟨rfl, ready.sound.source, clean⟩, trivial⟩

end Constructs

section Leaves

variable [PegValue CharT] {input : List CharT} {origin : Context CharT}

omit [PegValue CharT] in
theorem next_intact {near far : Context CharT} (intact : Intact input origin near far) :
    Intact input origin near.next far.next := by
  obtain rfl := intact.same
  unfold Context.next
  split_ifs
  · exact intact.moved rfl rfl id
  · exact intact

theorem terminal_same (value : TerminalValue CharT) {context : Context CharT}
    (intact : Intact input origin context context) (inside : context.position ≤ input.length) :
    SameRun input origin (TerminalExpr.parse value) (TerminalExpr.parse value) (fun _ _ => True)
      context := by
  refine alike_read rfl (alike_ite (fun _ => alike_modify (alike_pure ?_))
    fun _ => alike_modify (alike_pure ?_))
  · exact ⟨next_intact intact, trivial⟩
  · exact ⟨intact.moved rfl rfl fun clean => clean.recorded inside _, trivial⟩

theorem token_same (value : TerminalValue CharT) {context : Context CharT}
    (intact : Intact input origin context context) (inside : context.position ≤ input.length) :
    SameRun input origin (TokenExpr.parse value) (TokenExpr.parse value) (fun _ _ => True)
      context := by
  refine alike_read rfl (alike_ite (fun _ => alike_modify (alike_modifyGet rfl
    (alike_modify (alike_pure ?_)))) fun _ => alike_modify (alike_pure ?_))
  · exact ⟨(next_intact intact).moved rfl rfl id, trivial⟩
  · exact ⟨intact.moved rfl rfl fun clean => clean.recorded inside _, trivial⟩

theorem match_values_same (values : List CharT) {context : Context CharT}
    (intact : Intact input origin context context) :
    SameRun input origin (TerminalSeqExpr.matchValues values) (TerminalSeqExpr.matchValues values)
      (fun _ _ => True) context := by
  induction values generalizing context with
  | nil => exact alike_pure ⟨intact, trivial⟩
  | cons value rest induction =>
      refine alike_read rfl (alike_ite (fun _ => alike_modify ?_) fun _ => alike_pure ?_)
      · exact induction (next_intact intact)
      · exact ⟨intact, trivial⟩

theorem terminal_seq_same (values : List CharT) {context : Context CharT}
    (intact : Intact input origin context context) (inside : context.position ≤ input.length) :
    SameRun input origin (TerminalSeqExpr.parse values) (TerminalSeqExpr.parse values)
      (fun _ _ => True) context := by
  refine alike_read rfl (alike_bind _ (match_values_same values intact) ?_)
  rintro found near far ⟨⟨rfl, source, kept⟩, -⟩
  refine alike_ite (fun _ => alike_pure ⟨⟨rfl, source, kept⟩, trivial⟩)
    fun _ => alike_modify (alike_modify (alike_pure ⟨⟨rfl, source, ?_⟩, trivial⟩))
  exact (kept.reset source inside).recorded inside _

omit [PegValue CharT] in
theorem matcher_same {fn : Context CharT → Span → Option Span}
    (range : MatcherInRange (.matcher fn)) {context : Context CharT}
    (intact : Intact input origin context context) (inside : context.position ≤ input.length) :
    SameRun input origin (MatcherExpr.parse fn) (MatcherExpr.parse fn) (fun _ _ => True) context := by
  refine alike_read rfl ?_
  dsimp only [id]
  cases found : fn context ⟨context.position, context.position⟩ with
  | none => exact alike_pure ⟨intact, trivial⟩
  | some consumed =>
      have size : context.inputSize = input.length := congrArg List.length intact.source
      have bounds := range context consumed (by rw [size]; exact inside) found
      rw [size] at bounds
      refine alike_modify (alike_modifyGet rfl (alike_modify (alike_pure ⟨?_, trivial⟩)))
      exact intact.moved rfl rfl fun clean => clean.reset intact.source bounds.2

end Leaves

section Expressions

variable {input : List CharT} {skipper : Option RuleId} {origin : Context CharT}
  {pending : List (RuleId × Nat)}

theorem asserted_coupled {predicate : Bool} {left right : Parser CharT ParseResult}
    (same : ∀ context, Ready input skipper pending context → Clean input origin context →
      SameRun input origin left right (fun _ _ => True) context)
    (advances : Advances input skipper pending right)
    (disciplined : ∀ context, Ready input skipper pending context →
      wp (bounding input skipper) right (fun result last =>
        Disciplined predicate context.position last.position result) context) :
    Coupled input skipper origin pending (asserted predicate left) right := by
  intro context ready inRange
  have alike := same context ready inRange
  have plain : left context = right context :=
    alike.eq (fun _ _ met => met.1.same) (fun _ _ _ met => met.1.same)
  have states := (alike_meets alike (advances context ready) (fun _ => trivial)).states
  have size : context.inputSize = input.length := congrArg List.length ready.sound.source
  have obeys : Obeys predicate context (left context) := by
    rw [plain] at states ⊢
    refine ⟨by rw [size]; exact ready.inside, ?_, ?_, fun result ended => ?_⟩
    · rw [size]
      cases run : (right context).outcome with
      | returned value => rw [run] at states; exact states.2.1.inside
      | thrown exn => rw [run] at states; exact states.2
      | exhausted => rw [run] at states; exact states.2
    · rw [inRange.1]
      cases run : (right context).outcome with
      | returned value => rw [run] at states; exact states.1.1.clean.1
      | thrown exn => rw [run] at states; exact states.1.clean.1
      | exhausted => rw [run] at states; exact states.1.clean.1
    · cases run : (right context).outcome with
      | returned value =>
          rw [run] at ended
          obtain rfl := Option.some.inj ended
          exact wp_returned (disciplined context ready) (fun _ _ => trivial) run
      | thrown exn => rw [run] at ended; cases ended
      | exhausted => rw [run] at ended; cases ended
  have run : asserted predicate left context = right context := by
    rw [asserted, if_pos obeys, plain]
  unfold SameRun Alike
  rw [run]
  refine ⟨rfl, rfl, ?_⟩
  rw [plain] at states
  cases ended : (right context).outcome with
  | returned value => rw [ended] at states; exact ⟨states.1.1, states.2⟩
  | thrown exn => rw [ended] at states; exact states
  | exhausted => rw [ended] at states; exact states

theorem disciplined_of_answers {predicate : Bool} {sem : Nat → Option Nat → Prop}
    {start stop : Nat} {result : ParseResult} (answers : Answers sem start result stop)
    (forward : ∀ stop, sem start (some stop) → start ≤ stop)
    (still : predicate = true → ∀ stop, sem start (some stop) → stop = start) :
    Disciplined predicate start stop result := by
  unfold Disciplined
  split_ifs with success
  · exact ⟨forward _ (answers.of_success success), fun pred => still pred _ (answers.of_success success)⟩
  · exact (answers.of_failure success).1

variable [PegValue CharT] {grammar : Grammar CharT NodeType} (inRange : InRange grammar)

omit inRange in
theorem predicate_still {matched : (Context CharT → Span → Option Span) → Nat → Option Nat → Prop}
    {call : Unit → Option RuleId → RuleId → Nat → Option Nat → Prop} {mode : Option RuleId}
    {expr : Expr CharT} {pos stop : Nat} (predicate : isPredicate expr = true)
    (peg : Peg input matched call () mode (.expr expr) pos (some stop)) : stop = pos := by
  generalize ended : some stop = outcome at peg
  cases peg with
  | not _ | and _ =>
      split_ifs at ended
      exact Option.some.inj ended
  | _ => cases predicate

include inRange

theorem eval_disciplined (fuel : Nat) {expr : Expr CharT} (range : expr.Every MatcherInRange)
    (context : Context CharT) (ready : Ready input skipper pending context) :
    wp (bounding input skipper) (grammar.eval fuel expr) (fun result last =>
      Disciplined (isPredicate expr) context.position last.position result) context := by
  have evaluates := expr_evaluates (@sound_invariant _ input skipper (InBounds input))
    (fun rule _ => apply_sound (bounded_reading inRange) fuel rule) (fun _ _ _ _ => trivial) fuel
    (admits_sound (in_range_admits range))
  refine wp_post (evaluates context ready.sound) ?_
  rintro result last ⟨-, -, answers⟩
  refine disciplined_of_answers answers (fun stop peg => ?_) fun predicate stop peg => ?_
  · exact (spanned_within peg ready.inside).1
  · exact predicate_still predicate peg

theorem apply_disciplined (fuel : Nat) (rule : RuleId) (context : Context CharT)
    (ready : Ready input skipper pending context) :
    wp (bounding input skipper) (grammar.apply fuel rule) (fun result last =>
      Disciplined false context.position last.position result) context := by
  refine wp_post (apply_sound (bounded_reading inRange) fuel rule context ready.sound) ?_
  rintro result last ⟨-, -, answers⟩
  exact disciplined_of_answers answers (fun stop held => (held stop rfl ready.inside).1) nofun

theorem skipper_coupled {apply : RuleId → Parser CharT ParseResult} {fuel : Nat}
    (applies : ∀ rule, Coupled input skipper origin pending (apply rule) (grammar.apply fuel rule)) :
    Coupled input skipper origin pending (runSkipper apply) (runSkipper (grammar.apply fuel)) := by
  intro context ready kept
  refine alike_post (alike_meets (skipper_same applies ready kept)
    (skip_advances inRange fuel context ready) fun _ => trivial) ?_
  exact fun _ _ _ met => ⟨met.1.1, met.2⟩

theorem expr_coupled {apply : RuleId → Parser CharT ParseResult} {fuel : Nat}
    (applies : ∀ rule, Coupled input skipper origin pending (apply rule) (grammar.apply fuel rule))
    {expr : Expr CharT} (range : expr.Every MatcherInRange) :
    Coupled input skipper origin pending (assertedParse apply fuel expr) (grammar.eval fuel expr) := by
  have skips := skipper_coupled inRange applies
  have all : ∀ children : List (Expr CharT), (∀ child ∈ children,
      Coupled input skipper origin pending (assertedParse apply fuel child)
        (grammar.eval fuel child)) →
      List.Forall₂ (Coupled input skipper origin pending) (assertedParseAll apply fuel children)
        (Expr.parseAll (grammar.apply fuel) fuel children) := by
    intro children each
    rw [asserted_parse_all_eq_map, Expr.parse_all_eq_map, List.forall₂_map_left_iff,
      List.forall₂_map_right_iff, List.forall₂_same]
    exact each
  have advances := fun {part : Expr CharT} (range : part.Every MatcherInRange) =>
    @eval_advances _ _ input skipper pending _ grammar inRange fuel part range
  have disciplined := fun {part : Expr CharT} (range : part.Every MatcherInRange) =>
    @eval_disciplined _ _ input skipper pending _ grammar inRange fuel part range
  induction expr using Expr.induct with
  | terminal value =>
      refine asserted_coupled (fun context ready kept => ?_) (advances range) (disciplined range)
      exact terminal_same value ⟨rfl, ready.sound.source, kept⟩ ready.inside
  | terminalSeq values =>
      refine asserted_coupled (fun context ready kept => ?_) (advances range) (disciplined range)
      exact terminal_seq_same values ⟨rfl, ready.sound.source, kept⟩ ready.inside
  | token value =>
      refine asserted_coupled (fun context ready kept => ?_) (advances range) (disciplined range)
      exact token_same value ⟨rfl, ready.sound.source, kept⟩ ready.inside
  | matcher fn =>
      refine asserted_coupled (fun context ready kept => ?_) (advances range) (disciplined range)
      exact matcher_same range.here ⟨rfl, ready.sound.source, kept⟩ ready.inside
  | empty =>
      refine asserted_coupled (fun context ready kept => ?_) (advances range) (disciplined range)
      exact alike_pure ⟨⟨rfl, ready.sound.source, kept⟩, trivial⟩
  | cut =>
      refine asserted_coupled (fun context ready kept => ?_) (advances range) (disciplined range)
      obtain ⟨committed, clean, -⟩ := set_cut_ready ready kept true
      exact alike_modify (alike_pure ⟨⟨rfl, committed.sound.source, clean⟩, trivial⟩)
  | sequence children induction =>
      have ranges := range
      unfold Expr.Every at range
      refine asserted_coupled (fun context ready kept => ?_) (advances ranges) (disciplined ranges)
      exact sequence_same skips (all children fun child member =>
        induction child member (Expr.every_all_iff.mp range.2 child member)) ready kept
  | alternation children induction =>
      have ranges := range
      unfold Expr.Every at range
      refine asserted_coupled (fun context ready kept => ?_) (advances ranges) (disciplined ranges)
      exact cut_scope_same (parse_alt_same (all children fun child member =>
        induction child member (Expr.every_all_iff.mp range.2 child member)) 0
        (ready.moved rfl rfl rfl rfl ready.inside) kept)
  | repetition kind child induction =>
      have ranges := range
      unfold Expr.Every at range
      refine asserted_coupled (fun context ready kept => ?_) (advances ranges) (disciplined ranges)
      exact repeat_same skips (induction range.2) fuel kind.minRep kind.maxRep ready kept
  | not child induction =>
      have ranges := range
      unfold Expr.Every at range
      refine asserted_coupled (fun context ready kept => ?_) (advances ranges) (disciplined ranges)
      exact alike_post (predicate_same (induction range.2) true ready kept)
        fun _ _ _ met => ⟨met.1, trivial⟩
  | and child induction =>
      have ranges := range
      unfold Expr.Every at range
      refine asserted_coupled (fun context ready kept => ?_) (advances ranges) (disciplined ranges)
      exact alike_post (predicate_same (induction range.2) false ready kept)
        fun _ _ _ met => ⟨met.1, trivial⟩
  | lexeme child induction =>
      have ranges := range
      unfold Expr.Every at range
      refine asserted_coupled (fun context ready kept => ?_) (advances ranges) (disciplined ranges)
      exact lexeme_same (induction range.2) ready kept
  | rule id =>
      refine asserted_coupled (fun context ready kept => ?_) (advances range) (disciplined range)
      exact alike_post (applies id context ready kept) fun _ _ _ met => ⟨met.1, trivial⟩

end Expressions

section RuleApplication

variable {input : List CharT} {skipper : Option RuleId} {origin : Context CharT}
  {pending : List (RuleId × Nat)}

theorem update_intact {near far : Context CharT} (intact : Intact input origin near far)
    (rule : RuleId) (pos : Nat) (entry : RuleState) :
    Intact input origin (near.updateRuleState rule pos entry).2 (far.updateRuleState rule pos entry).2 := by
  obtain rfl := intact.same
  unfold Context.updateRuleState
  split
  · exact intact.moved rfl rfl id
  · exact intact

theorem store_same (rule : RuleId) (pos : Nat) (entry : RuleState) {context : Context CharT}
    (intact : Intact input origin context context) :
    SameRun input origin (NonTerminal.store rule pos entry) (NonTerminal.store rule pos entry)
      (fun _ last => last = (context.updateRuleState rule pos entry).2) context := by
  refine alike_modifyGet rfl (alike_bind (fun _ near far =>
    near = (context.updateRuleState rule pos entry).2 ∧
      far = (context.updateRuleState rule pos entry).2) ?_ ?_)
  · exact alike_announce rfl ⟨rfl, rfl⟩
  · rintro ⟨⟩ near far ⟨rfl, rfl⟩
    exact alike_pure ⟨update_intact intact rule pos entry, rfl⟩

theorem grow_loop_same {rule : RuleId} {startPos : Nat} (bounded : startPos ≤ input.length)
    {body body' : Parser CharT ParseResult}
    (coupled : Coupled input skipper origin ((rule, startPos) :: pending) body body') (fuel : Nat)
    (best : ParseResult) (ruleState : RuleState) {context : Context CharT}
    (ready : Ready input skipper ((rule, startPos) :: pending) context)
    (clean : Clean input origin context)
    (marked : (NonTerminal.frame context).lastPos ≤ input.length) :
    SameRun input origin (NonTerminal.growLoop rule startPos body fuel best ruleState)
      (NonTerminal.growLoop rule startPos body' fuel best ruleState)
      (fun _ last => (NonTerminal.frame last).lastPos ≤ input.length) context := by
  induction fuel generalizing best ruleState context with
  | zero => exact alike_exhaust ⟨⟨rfl, ready.sound.source, clean⟩, ready.inside⟩
  | succ fuel induction =>
      have kept : Clean input origin (context.reset startPos) :=
        clean.reset ready.sound.source bounded
      refine alike_modify (alike_read rfl ?_)
      dsimp only [id]
      refine alike_bind (fun _ near far => (near = far ∧ Clean input origin far) ∧
        Ready input skipper ((rule, startPos) :: pending) far ∧ far.position = startPos ∧
          far.lrStack = context.lrStack) ?_ ?_
      · refine alike_meets ?_ (clear_ready bounded ready _) fun _ => trivial
        exact alike_onlyIf (fun _ => ⟨rfl, rfl, rfl, kept⟩) fun _ => ⟨rfl, kept⟩
      · rintro ⟨⟩ near here ⟨⟨rfl, keptHere⟩, atHere, samePos, sameStack⟩
        refine coupled.bind atHere keptHere fun result after atAfter keptAfter forward frames => ?_
        have lastAfter : (NonTerminal.frame after).lastPos ≤ input.length := by
          have frames' : after.lrStack.map frameCore = context.lrStack.map frameCore := by
            rw [frames, sameStack]
          rw [frame_last_of_frames frames']
          exact marked
        have intact : Intact input origin after after := ⟨rfl, atAfter.sound.source, keptAfter⟩
        refine alike_read rfl ?_
        dsimp only [id]
        refine alike_ite (fun success => alike_ite (fun _ => alike_modify ?_) fun _ => ?_)
          fun _ => alike_pure ⟨intact, lastAfter⟩
        · obtain ⟨atMarked, markedLast⟩ := set_frame_ready atAfter after.position
          have row : RowSound input (InBounds input) rule startPos ⟨after.position, result⟩ :=
            ⟨fun _ _ => ⟨by rw [← samePos]; exact forward, atAfter.inside⟩,
              fun failure => absurd success failure⟩
          have stored := alike_meets (store_same rule startPos ⟨after.position, result⟩
            (intact.moved rfl rfl id : Intact input origin
              (NonTerminal.setFrameLastPos after.position after) _))
            (store_ready atMarked row) fun _ => trivial
          refine alike_bind _ stored ?_
          rintro present near' last ⟨⟨⟨rfl, source, keptLast⟩, -⟩, atLast, lastStack⟩
          have lastPos : (NonTerminal.frame near').lastPos ≤ input.length := by
            rw [NonTerminal.frame, lastStack]
            exact markedLast.trans_le atAfter.inside
          refine alike_ite (fun _ => ?_) fun _ => alike_pure ⟨⟨rfl, source, keptLast⟩, lastPos⟩
          exact induction result ⟨after.position, result⟩ atLast keptLast lastPos
        · refine alike_bind _ (store_same rule startPos _ intact) ?_
          rintro present near' last ⟨⟨rfl, source, keptLast⟩, rfl⟩
          refine alike_pure ⟨⟨rfl, source, keptLast⟩, ?_⟩
          rw [NonTerminal.frame, (update_framed _ _ _ _).2.1]
          exact lastAfter

theorem build_node_same (nonTerminal : NonTerminal CharT NodeType) (rule : RuleId)
    (startPos : Nat) (inner : Option NodePtr) {context : Context CharT}
    (intact : Intact input origin context context) :
    SameRun input origin (NonTerminal.buildNode nonTerminal rule startPos inner)
      (NonTerminal.buildNode nonTerminal rule startPos inner) (fun _ _ => True) context := by
  unfold NonTerminal.buildNode
  split
  · refine alike_modifyGet rfl (alike_modify (alike_modify (alike_pure ⟨?_, trivial⟩)))
    cases inner <;> exact intact.moved rfl rfl id
  · refine alike_bind (fun _ near far => Intact input origin near far) ?_ ?_
    · cases inner with
      | none => exact ⟨rfl, rfl, intact.moved rfl rfl id⟩
      | some node => exact alike_pure intact
    · rintro node near far ⟨rfl, source, kept⟩
      exact alike_modify (alike_pure ⟨⟨rfl, source, kept⟩, trivial⟩)

theorem finish_success_same (nonTerminal : NonTerminal CharT NodeType) (rule : RuleId)
    (startPos : Nat) (inner : ParseResult) (ruleState : RuleState) {context : Context CharT}
    (intact : Intact input origin context context) :
    SameRun input origin (NonTerminal.finishSuccess nonTerminal rule startPos inner ruleState)
      (NonTerminal.finishSuccess nonTerminal rule startPos inner ruleState) (fun _ _ => True)
      context := by
  refine alike_bind _ (build_node_same nonTerminal rule startPos inner.tree intact) ?_
  rintro node near far ⟨⟨rfl, source, kept⟩, -⟩
  refine alike_bind _ (store_same rule startPos _ ⟨rfl, source, kept⟩) ?_
  rintro present near' far' ⟨intact', -⟩
  exact alike_pure ⟨intact', trivial⟩

theorem finish_failure_same (nonTerminal : NonTerminal CharT NodeType) (rule : RuleId)
    {startPos : Nat} (bounded : startPos ≤ input.length) (ruleState : RuleState)
    {context : Context CharT} (intact : Intact input origin context context) :
    SameRun input origin (NonTerminal.finishFailure nonTerminal rule startPos ruleState)
      (NonTerminal.finishFailure nonTerminal rule startPos ruleState) (fun _ _ => True)
      context := by
  have finish : ∀ (entry : RuleState) (result : ParseResult) (here : Context CharT),
      Intact input origin here here →
      SameRun input origin (NonTerminal.store rule startPos entry >>= fun _ =>
          (pure result : Parser CharT ParseResult))
        (NonTerminal.store rule startPos entry >>= fun _ => pure result) (fun _ _ => True) here := by
    intro entry result here intact
    refine alike_bind _ (store_same rule startPos entry intact) ?_
    rintro present near far ⟨intact', -⟩
    exact alike_pure ⟨intact', trivial⟩
  have recorded : Intact input origin (NonTerminal.recordRuleFailure nonTerminal startPos context)
      (NonTerminal.recordRuleFailure nonTerminal startPos context) := by
    unfold NonTerminal.recordRuleFailure
    split_ifs
    · exact intact.moved rfl rfl fun clean => clean.recorded bounded _
    · exact intact.moved rfl rfl fun clean => clean.recorded bounded _
    · exact intact
  refine alike_modify (alike_read rfl ?_)
  generalize NonTerminal.recordRuleFailure nonTerminal startPos context = failed at recorded ⊢
  dsimp only [id]
  split
  · next isSyncToken _ _ =>
      have size : failed.inputSize = input.length := congrArg List.length recorded.source
      refine alike_modify (finish _ _ _ (recorded.moved rfl rfl fun clean =>
        clean.reset recorded.source ?_))
      split_ifs <;> omega
  · exact finish _ _ _ recorded

theorem replay_same {rule : RuleId} {ruleState : RuleState} {context : Context CharT}
    (ready : Ready input skipper pending context) (clean : Clean input origin context)
    (held : context.mem context.position rule = some ruleState) :
    SameRun input origin (NonTerminal.replay rule context.position ruleState)
      (NonTerminal.replay rule context.position ruleState) (fun _ _ => True) context := by
  have row := ready.sound.rows _ _ _ held
  have bounded : ruleState.lastPos ≤ input.length := by
    by_cases success : ruleState.cachedResult.success = true
    · exact (row.good success ready.inside).2
    · rw [row.failed success]
      exact ready.inside
  have intact : Intact input origin context context := ⟨rfl, ready.sound.source, clean⟩
  have jump : ∀ (target : Context CharT → Nat) (answer : ParseResult) (here : Context CharT),
      Intact input origin here here → target here ≤ input.length →
      SameRun input origin (Comp.modify (fun context => context.reset (target context)) >>= fun _ =>
          (pure answer : Parser CharT ParseResult))
        (Comp.modify (fun context => context.reset (target context)) >>= fun _ => pure answer)
        (fun _ _ => True) here := fun target answer here intact inside =>
    alike_modify (alike_pure
      ⟨intact.moved rfl rfl fun clean => clean.reset intact.source inside, trivial⟩)
  have live : ∀ here : Context CharT, here.mem = context.mem →
      (here.memoGet rule context.position).lastPos ≤ input.length := by
    intro here same
    rw [Context.memoGet, same, held, Option.getD_some]
    exact bounded
  refine alike_read rfl ?_
  dsimp only [id]
  refine alike_ite (fun _ => alike_modify ?_) fun _ => ?_
  · have marked : (context.markHead rule context.position).mem = context.mem ∧
        Intact input origin (context.markHead rule context.position)
          (context.markHead rule context.position) := by
      unfold Context.markHead
      split
      · split_ifs
        · exact ⟨rfl, intact⟩
        · exact ⟨rfl, intact.moved rfl rfl id⟩
      · exact ⟨rfl, intact⟩
    exact jump (fun here => (here.memoGet rule context.position).lastPos) _ _ marked.2
      (live _ marked.1)
  · split
    · exact alike_ite (fun _ => jump (fun here => (here.memoGet rule context.position).lastPos) _ _
        intact (live context rfl)) fun _ => jump (fun _ => ruleState.lastPos) _ _ intact bounded
    · exact jump (fun _ => ruleState.lastPos) _ _ intact bounded

theorem leave_intact (startPos : Nat) {near far : Context CharT}
    (intact : Intact input origin near far) :
    Intact input origin (NonTerminal.leave startPos near) (NonTerminal.leave startPos far) := by
  obtain rfl := intact.same
  unfold NonTerminal.leave
  split_ifs
  · exact intact.moved rfl rfl id
  · exact intact.moved rfl rfl id

theorem invoke_same {rule : RuleId} {body body' : Option (Parser CharT ParseResult)}
    (coupled : ∀ pending, Option.Rel (Coupled input skipper origin pending) body body') (fuel : Nat)
    {context : Context CharT} (ready : Ready input skipper pending context)
    (clean : Clean input origin context) :
    SameRun input origin (NonTerminal.invoke rule context.position body fuel)
      (NonTerminal.invoke rule context.position body' fuel) (fun _ _ => True)
      { context with mem := context.mem.write context.position rule {} } := by
  have intact : Intact input origin (entered rule context) (entered rule context) :=
    ⟨rfl, ready.sound.source, clean⟩
  refine alike_modify (alike_bind (fun _ near far => Intact input origin near far) ?_ ?_)
  · cases coupled ((rule, context.position) :: pending) with
    | none => exact alike_throw ⟨intact, ready.inside⟩ _
    | some bodies =>
        have planted := alike_meets (store_same rule context.position ⟨context.position, {}⟩ intact)
          (plant_ready ready) fun _ => trivial
        refine alike_bind _ planted ?_
        rintro _ near far ⟨⟨⟨rfl, source, kept⟩, -⟩, atFar, stack⟩
        have marked : (NonTerminal.frame near).lastPos ≤ input.length := by
          rw [NonTerminal.frame, stack]
          exact ready.inside
        refine alike_bind _ (grow_loop_same ready.inside bodies fuel _ _ atFar kept marked) ?_
        rintro grown near' far' ⟨⟨rfl, source', kept'⟩, marked'⟩
        refine alike_modify (alike_pure ⟨rfl, source', ?_⟩)
        exact kept'.reset source' marked'
  · intro grown near far intact'
    exact alike_modify (alike_pure ⟨leave_intact context.position intact', trivial⟩)

/-- A rule runs alike if its body does, whatever is in progress. -/
theorem parse_same (nonTerminal : NonTerminal CharT NodeType) (rule : RuleId)
    {body body' : Option (Parser CharT ParseResult)}
    (coupled : ∀ pending, Option.Rel (Coupled input skipper origin pending) body body') (fuel : Nat)
    {context : Context CharT} (ready : Ready input skipper pending context)
    (clean : Clean input origin context) :
    SameRun input origin (NonTerminal.parse nonTerminal rule body fuel)
      (NonTerminal.parse nonTerminal rule body' fuel) (fun _ _ => True) context := by
  refine alike_bind (fun _ near far => near = context ∧ far = context) ?_ ?_
  · exact alike_announce rfl ⟨rfl, rfl⟩
  rintro ⟨⟩ near far ⟨rfl, rfl⟩
  refine alike_read rfl (alike_modifyGet rfl ?_)
  unfold Context.ruleState
  cases held : far.mem far.position rule with
  | some row => exact replay_same ready clean held
  | none =>
      refine alike_bind _ (invoke_same coupled fuel ready clean) ?_
      rintro grown near' far' ⟨⟨rfl, source, kept⟩, -⟩
      refine alike_ite (fun _ => ?_) fun _ => ?_
      · exact finish_success_same nonTerminal rule _ grown.1 grown.2 ⟨rfl, source, kept⟩
      · exact finish_failure_same nonTerminal rule ready.inside grown.2 ⟨rfl, source, kept⟩

variable [PegValue CharT] {grammar : Grammar CharT NodeType} (inRange : InRange grammar)

include inRange

theorem apply_coupled (fuel : Nat) (pending : List (RuleId × Nat)) (rule : RuleId) :
    Coupled input skipper origin pending (assertedApply grammar fuel rule)
      (grammar.apply fuel rule) := by
  induction fuel generalizing pending rule with
  | zero =>
      exact fun context ready kept => alike_exhaust ⟨⟨rfl, ready.sound.source, kept⟩, ready.inside⟩
  | succ fuel induction =>
      refine asserted_coupled (fun context ready kept => ?_) (apply_advances inRange (fuel + 1) rule)
        (apply_disciplined inRange (fuel + 1) rule)
      refine parse_same (grammar.nonTerminal rule) rule (fun pending => ?_) fuel ready kept
      cases assigned : grammar.body rule with
      | none => exact Option.Rel.none
      | some expr =>
          exact Option.Rel.some (expr_coupled inRange (induction pending) (inRange rule expr assigned))

end RuleApplication

section Claim

variable [PegValue CharT] {grammar : Grammar CharT NodeType} {input : List CharT}

/-- A call of `parse` and the asserted call from a context that was visited. -/
theorem entry_same (inRange : InRange grammar) {context : Context CharT}
    (visited : Visited grammar input context) (inside : context.position ≤ input.length)
    (fuel : Nat) {name : Str} {rule : RuleId} (found : grammar.find name = some rule) :
    SameRun input context (assertedEntry grammar fuel name) (grammar.parse fuel name)
      (fun _ _ => True) context := by
  have coupled := fun rule => @apply_coupled _ _ input grammar.skipper context _ grammar inRange fuel
    (active context) rule
  have configured : Visited grammar input { context with skipper := grammar.skipper } :=
    .adjusted visited rfl rfl (Or.inr rfl)
  have sound := (visited_sound (fun _ _ => bounded_reading inRange) configured).2
  unfold assertedEntry Grammar.parse
  rw [found]
  refine alike_bind _ (alike_modify (skipper_coupled inRange coupled _ ⟨sound, inside, rfl⟩
    (Clean.refl input context))) ?_
  rintro _ near far ⟨⟨rfl, -, kept⟩, atNear, -⟩
  refine alike_catching ((coupled rule).bind atNear kept ?_) fun _ _ _ met => ⟨met.1, trivial⟩
  exact fun result last atLast kept' _ _ =>
    alike_pure ⟨⟨rfl, atLast.sound.source, kept'⟩, trivial⟩

/-- With an assertion around every evaluation a run is the same run. -/
theorem position_discipline (inRange : InRange grammar) {context : Context CharT}
    (visited : Visited grammar input context) (inside : context.position ≤ input.length)
    (fuel : Nat) :
    (∀ name, assertedEntry grammar fuel name context = grammar.parse fuel name context) ∧
      ∀ rule, assertedApply grammar fuel rule context = grammar.apply fuel rule context := by
  constructor
  · intro name
    cases found : grammar.find name with
    | none =>
        unfold assertedEntry Grammar.parse
        rw [found]
    | some rule =>
        exact (entry_same inRange visited inside fuel found).eq (fun _ _ met => met.1.same)
          fun _ _ _ met => met.1.same
  · intro rule
    have sound := (visited_sound (fun _ _ => bounded_reading inRange) visited).2
    exact (apply_coupled inRange fuel (active context) rule context ⟨sound, inside, rfl⟩
      (Clean.refl input context)).eq (fun _ _ met => met.1.same) fun _ _ _ met => met.1.same

/-- The left-recursive `A = A >> 'a' | 'a'` on "aa", which is read to its end. -/
theorem left_recursion_disciplined :
    (leftRecursion.apply 5 0 (Context.fresh (ascii "aa"))).state.position = 2 ∧
      (∀ name, assertedEntry leftRecursion 5 name (Context.fresh (ascii "aa")) =
        leftRecursion.parse 5 name (Context.fresh (ascii "aa"))) ∧
      ∀ rule, assertedApply leftRecursion 5 rule (Context.fresh (ascii "aa")) =
        leftRecursion.apply 5 rule (Context.fresh (ascii "aa")) :=
  ⟨by decide +kernel, position_discipline left_recursion_in_range .fresh (Nat.zero_le _) 5⟩

end Claim

end Peglib.PositionDiscipline
