import Peglib.CutScopes

/-!
# Recoveries and their diagnostics

A recovery appends one diagnostic, and nothing else does. No backtracking takes
it back, so the channel lists the recoveries that were performed. A derivation
holds only recoveries that have been performed: the row that answers for a rule
stands for a derivation that was noted when the row was stored.
-/

namespace Peglib.RecoveryReports

open Peglib.TracedComputation Peglib.WeakestPrecondition Peglib.Preservation Peglib.Annotation
open Peglib.ParseError Peglib.ParseContext Peglib.Expressions Peglib.Rules
open Peglib.AcceptedParse
open Peglib.CutScopes (Noted)

set_option autoImplicit false

variable {CharT NodeType : Type}

mutual

/-- The recovered applications of a derivation. -/
def recovered : Deriv → List RecoveryPoint
  | .leaf _ => []
  | .parts _ below => recoveredAll below
  | .branch _ below => recovered below
  | .applied _ _ below => recovered below
  | .recovered rule span => [⟨rule, span.start⟩]

def recoveredAll : List Deriv → List RecoveryPoint
  | [] => []
  | first :: rest => recovered first ++ recoveredAll rest

end

/-- The diagnostic of a recovery: where the rule was applied, and its label or
name. -/
def report (grammar : Grammar CharT NodeType) (point : RecoveryPoint) : Diagnostic :=
  let spec := (grammar.nonTerminal point.rule).recover
  let label := if spec.label = [] then (grammar.nonTerminal point.rule).name else spec.label
  ⟨point.pos, [⟨.ruleLabel, label⟩]⟩

def Performed (notes : Notes) (deriv : Deriv) : Prop :=
  ∀ point ∈ recovered deriv, point ∈ notes.recoveries

/-- The channel lists the recoveries performed, and the rows stand for no others. -/
structure Faithful (grammar : Grammar CharT NodeType) (state : Noted CharT) : Prop where
  channel : state.plain.errors.diagnostics = state.notes.recoveries.map (report grammar)
  rows : ∀ pos rule, Performed state.notes (state.notes.stands pos rule)

structure Later (grammar : Grammar CharT NodeType) (before after : Noted CharT) : Prop where
  faithful : Faithful grammar after
  grown : before.notes.recoveries <+: after.notes.recoveries

/-- A run that returns a value and leaves the record faithful. -/
def Runs {Value : Type} (grammar : Grammar CharT NodeType) (state : Noted CharT)
    (observer : Observer CharT Value) (post : Value → Notes → Prop) : Prop :=
  wp (throwing fun _ => True) observer
    (fun value last => Later grammar state last ∧ post value last.notes) state

/-- An observer whose results hold recoveries that were performed. -/
def Reports (grammar : Grammar CharT NodeType) (observer : Observer CharT Observed) : Prop :=
  ∀ state, Faithful grammar state →
    Runs grammar state observer fun found notes => Performed notes found.2

def Skips (grammar : Grammar CharT NodeType) (skip : Observer CharT Unit) : Prop :=
  ∀ state, Faithful grammar state → Runs grammar state skip fun _ _ => True

/-- A step that is no recovery. -/
def Unreported (before after : Context CharT) : Prop :=
  after.errors.diagnostics = before.errors.diagnostics

instance : Composable (@Unreported CharT) Unreported where
  refl _ := rfl
  trans _ _ _ left right := Eq.trans right left
  before _ _ _ left right := Eq.trans right left

section Steps

variable {grammar : Grammar CharT NodeType} {Value : Type}

theorem recovered_all_mem {point : RecoveryPoint} {below : List Deriv} :
    point ∈ recoveredAll below ↔ ∃ deriv ∈ below, point ∈ recovered deriv := by
  induction below with
  | nil => simp [recoveredAll]
  | cons first rest induction => simp [recoveredAll, induction]

theorem performed_leaf (notes : Notes) (span : Span) : Performed notes (.leaf span) := by
  intro point member
  cases member

theorem Performed.mono {before after : Notes} {deriv : Deriv} (performed : Performed before deriv)
    (grown : before.recoveries <+: after.recoveries) : Performed after deriv :=
  fun point member => grown.subset (performed point member)

theorem performed_parts {notes : Notes} {below : List Deriv} {span : Span}
    (each : ∀ deriv ∈ below, Performed notes deriv) : Performed notes (.parts span below) := by
  intro point member
  obtain ⟨deriv, inside, found⟩ := recovered_all_mem.mp member
  exact each deriv inside point found

theorem Later.refl {state : Noted CharT} (faithful : Faithful grammar state) :
    Later grammar state state :=
  ⟨faithful, List.prefix_rfl⟩

theorem Later.trans {first second third : Noted CharT} (left : Later grammar first second)
    (right : Later grammar second third) : Later grammar first third :=
  ⟨right.faithful, left.grown.trans right.grown⟩

theorem Faithful.moved {state : Noted CharT} (faithful : Faithful grammar state)
    {context : Context CharT} (step : Unreported state.plain context) :
    Later grammar state ⟨context, state.notes⟩ :=
  ⟨⟨Eq.trans step faithful.channel, faithful.rows⟩, List.prefix_rfl⟩

end Steps

section Rules

variable {grammar : Grammar CharT NodeType} {Value Other : Type} {state : Noted CharT}

theorem runs_pure (faithful : Faithful grammar state) {value : Value} {post : Value → Notes → Prop}
    (met : post value state.notes) : Runs grammar state (pure value) post :=
  ⟨.refl faithful, met⟩

theorem runs_bind {first : Observer CharT Value} {next : Value → Observer CharT Other}
    {middle : Value → Notes → Prop} {post : Other → Notes → Prop}
    (leading : Runs grammar state first middle)
    (rest : ∀ value here, Later grammar state here → middle value here.notes →
      Runs grammar here (next value) post) : Runs grammar state (first >>= next) post := by
  unfold Runs
  rw [wp_bind]
  refine wp_post leading ?_
  rintro value here ⟨later, met⟩
  exact wp_post (rest value here later met) fun _ _ found => ⟨later.trans found.1, found.2⟩

theorem runs_post {observer : Observer CharT Value} {post post' : Value → Notes → Prop}
    (runs : Runs grammar state observer post) (posts : ∀ value notes, post value notes →
      post' value notes) : Runs grammar state observer post' :=
  wp_post runs fun _ _ found => ⟨found.1, posts _ _ found.2⟩

theorem runs_lift (faithful : Faithful grammar state) {parser : Parser CharT Value}
    (quiet : Preserves Unreported Unreported parser) :
    Runs grammar state (lift parser) fun _ notes => notes = state.notes := by
  have step := quiet state.plain
  refine (along_unconstrained _ _).mpr ?_
  unfold lift
  cases run : (parser state.plain).outcome with
  | returned value =>
      rw [run] at step
      exact ⟨faithful.moved step, rfl⟩
  | thrown exn => trivial
  | exhausted => trivial

theorem runs_modify (faithful : Faithful grammar state) {update : Context CharT → Context CharT}
    (quiet : ∀ context, Unreported context (update context)) :
    Runs grammar state (lift (Comp.modify update)) fun _ notes => notes = state.notes :=
  runs_lift faithful (preserves_modify quiet)

theorem runs_read (faithful : Faithful grammar state) {view : Noted CharT → Value} :
    Runs grammar state (Comp.read view) fun _ notes => notes = state.notes :=
  ⟨.refl faithful, rfl⟩

theorem runs_look (faithful : Faithful grammar state) {view : Noted CharT → Value} :
    Runs grammar state (Comp.read view) fun value _ => value = view state :=
  ⟨.refl faithful, rfl⟩

theorem runs_annotate {update : Notes → Notes}
    (faithful : Faithful grammar ⟨state.plain, update state.notes⟩)
    (grown : state.notes.recoveries <+: (update state.notes).recoveries) :
    Runs grammar state (annotate update) fun _ _ => True :=
  ⟨⟨faithful, grown⟩, trivial⟩

theorem runs_ite {condition : Prop} [Decidable condition] {first second : Observer CharT Value}
    {post : Value → Notes → Prop} (whenTrue : condition → Runs grammar state first post)
    (whenFalse : ¬condition → Runs grammar state second post) :
    Runs grammar state (if condition then first else second) post := by
  split_ifs with holds
  · exact whenTrue holds
  · exact whenFalse holds

theorem runs_onlyIf (faithful : Faithful grammar state) {condition : Prop} [Decidable condition]
    {body : Observer CharT Unit} (runs : Runs grammar state body fun _ _ => True) :
    Runs grammar state (Comp.onlyIf condition body) fun _ _ => True :=
  runs_ite (fun _ => runs) fun _ => runs_pure faithful trivial

theorem runs_guarded {body : Observer CharT Value} {cleanup : Context CharT → Context CharT}
    {post : Value → Notes → Prop} (quiet : ∀ context, Unreported context (cleanup context))
    (runs : Runs grammar state body post) :
    Runs grammar state (Comp.guarded body (onPlain cleanup)) post := by
  unfold Runs
  rw [wp_guarded]
  refine wp_post runs ?_
  rintro value last ⟨later, met⟩
  exact ⟨later.trans (later.faithful.moved (quiet last.plain)), met⟩

theorem unreported_throw {Value : Type} (exn : Exn) :
    Preserves Unreported Unreported (Comp.throw exn : Parser CharT Value) :=
  preserves_throw (fun context => (rfl : Unreported context context)) exn

end Rules

section Leaves

theorem next_unreported (context : Context CharT) : Unreported context context.next := by
  unfold Context.next
  split_ifs <;> rfl

theorem record_unreported (context : Context CharT) (pos : Nat) (item : ExpectedItem) :
    Unreported context (context.recordFailure pos item) :=
  (Errors.record_failure_noticed context.errors pos item).diagnostics

variable [PegValue CharT]

theorem terminal_unreported (value : TerminalValue CharT) :
    Preserves Unreported Unreported (TerminalExpr.parse value : Parser CharT ParseResult) := by
  refine preserves_bind (preserves_read _) fun matched => preserves_ite (fun _ => ?_) fun _ => ?_
  · exact preserves_bind (preserves_modify next_unreported) fun _ => preserves_pure _
  · exact preserves_bind (preserves_modify fun _ => record_unreported _ _ _) fun _ => preserves_pure _

theorem match_values_unreported (values : List CharT) :
    Preserves Unreported Unreported (TerminalSeqExpr.matchValues values : Parser CharT Bool) := by
  induction values with
  | nil => exact preserves_pure true
  | cons value rest induction =>
      refine preserves_bind (preserves_read _) fun matched => preserves_ite (fun _ => ?_) fun _ => ?_
      · exact preserves_bind (preserves_modify next_unreported) fun _ => induction
      · exact preserves_pure false

theorem terminal_seq_unreported (values : List CharT) :
    Preserves Unreported Unreported (TerminalSeqExpr.parse values : Parser CharT ParseResult) := by
  refine preserves_bind (preserves_read _) fun initState => ?_
  refine preserves_bind (match_values_unreported values) fun matched =>
    preserves_ite (fun _ => preserves_pure _) fun _ => ?_
  refine preserves_bind (preserves_modify fun _ => rfl) fun _ => ?_
  exact preserves_bind (preserves_modify fun _ => record_unreported _ _ _) fun _ => preserves_pure _

theorem token_unreported (value : TerminalValue CharT) :
    Preserves Unreported Unreported (TokenExpr.parse value : Parser CharT ParseResult) := by
  refine preserves_bind (preserves_read _) fun matched => preserves_ite (fun _ => ?_) fun _ => ?_
  · refine preserves_bind (preserves_modify next_unreported) fun _ => ?_
    refine preserves_bind (preserves_modifyGet fun _ => rfl) fun node => ?_
    exact preserves_bind (preserves_modify fun _ => rfl) fun _ => preserves_pure _
  · exact preserves_bind (preserves_modify fun _ => record_unreported _ _ _) fun _ => preserves_pure _

omit [PegValue CharT] in
theorem matcher_unreported (fn : Context CharT → Span → Option Span) :
    Preserves Unreported Unreported (MatcherExpr.parse fn) := by
  refine preserves_bind (preserves_read _) fun context => ?_
  split
  · refine preserves_bind (preserves_modify fun _ => rfl) fun _ => ?_
    refine preserves_bind (preserves_modifyGet fun _ => rfl) fun node => ?_
    exact preserves_bind (preserves_modify fun _ => rfl) fun _ => preserves_pure _
  · exact preserves_pure _

end Leaves

section Combinators

variable {grammar : Grammar CharT NodeType}

theorem observe_leaf_reports {parser : Parser CharT ParseResult}
    (quiet : Preserves Unreported Unreported parser) : Reports grammar (observeLeaf parser) := by
  intro state faithful
  refine runs_bind (runs_read faithful) fun start here later _ => ?_
  refine runs_bind (runs_lift later.faithful quiet) fun result last later _ => ?_
  refine runs_bind (runs_read later.faithful) fun stop final later _ => ?_
  exact runs_pure later.faithful (performed_leaf _ _)

theorem runs_miss {condition : Prop} [Decidable condition] {rule : Option RuleId} {pos : Nat}
    {state : Noted CharT} (faithful : Faithful grammar state) :
    Runs grammar state
      (Comp.onlyIf condition (annotate fun notes => notes.miss rule pos) : Observer CharT Unit)
      fun _ _ => True :=
  runs_onlyIf faithful (runs_annotate ⟨faithful.channel, faithful.rows⟩ List.prefix_rfl)

theorem observe_attempt_reports {parser : Parser CharT ParseResult}
    (quiet : Preserves Unreported Unreported parser) : Reports grammar (observeAttempt parser) := by
  intro state faithful
  refine runs_bind (runs_lift faithful (preserves_read _)) fun start here later _ => ?_
  refine runs_bind (observe_leaf_reports quiet here later.faithful) fun found last later performed => ?_
  refine runs_bind (runs_miss later.faithful) fun _ final after _ => ?_
  exact runs_pure after.faithful (performed.mono after.grown)

theorem push_child_unreported (node : NodePtr) (tree : Option NodePtr) (context : Context CharT) :
    Unreported context (pushChild node tree context) := by
  cases tree <;> rfl

theorem observed_failure_reports {state : Noted CharT} (faithful : Faithful grammar state) :
    Runs grammar state (pure observedFailure : Observer CharT Observed)
      fun found notes => Performed notes found.2 :=
  runs_pure faithful (performed_leaf _ _)

theorem observe_seq_reports {skip : Observer CharT Unit} (skips : Skips grammar skip) (node : NodePtr)
    {children : List (Observer CharT Observed)} (each : ∀ child ∈ children, Reports grammar child)
    (index : Nat) {state : Noted CharT} (faithful : Faithful grammar state) :
    Runs grammar state (SequenceExpr.observeSeq skip node index children)
      fun found notes => ∀ deriv ∈ found.2, Performed notes deriv := by
  induction children generalizing index state with
  | nil => exact runs_pure faithful nofun
  | cons child rest induction =>
      refine runs_bind (runs_onlyIf faithful (skips state faithful)) fun _ here later _ => ?_
      refine runs_bind (each child (by simp) here later.faithful) fun found here later first => ?_
      refine runs_ite (fun _ => ?_) fun _ => runs_pure later.faithful nofun
      refine runs_bind (runs_modify later.faithful (push_child_unreported _ _)) fun _ here' later' same => ?_
      refine runs_bind (induction (fun other member => each other (by simp [member])) (index + 1)
        later'.faithful) fun below last later'' others => ?_
      refine runs_pure later''.faithful fun deriv member => ?_
      rcases List.mem_cons.mp member with rfl | member
      · exact first.mono (later'.trans later'').grown
      · exact others deriv member

theorem observe_sequence_reports {skip : Observer CharT Unit} (skips : Skips grammar skip)
    {children : List (Observer CharT Observed)} (each : ∀ child ∈ children, Reports grammar child) :
    Reports grammar (SequenceExpr.observe skip children) := by
  intro state faithful
  refine runs_bind (runs_lift faithful (preserves_read _)) fun start here later _ => ?_
  refine runs_bind (runs_lift later.faithful (preserves_modifyGet fun _ => rfl)) fun node here later _ => ?_
  refine runs_bind (runs_modify later.faithful fun _ => rfl) fun _ here later _ => ?_
  refine runs_bind (observe_seq_reports skips node each 0 later.faithful) fun found here later parts => ?_
  refine runs_ite (fun _ => ?_) fun _ => ?_
  · refine runs_bind (runs_read later.faithful) fun stop here' later' same => ?_
    refine runs_bind (runs_modify later'.faithful fun _ => rfl) fun _ last later'' same' => ?_
    refine runs_pure later''.faithful (performed_parts ?_)
    rw [same', same]
    exact parts
  · refine runs_bind (runs_modify later.faithful fun _ => rfl) fun _ last later _ => ?_
    exact observed_failure_reports later.faithful

theorem raise_unreported :
    Preserves Unreported Unreported (raiseIfCommitted : Parser CharT Unit) := by
  refine preserves_bind (preserves_announce _) fun _ => preserves_bind (preserves_read _) fun _ => ?_
  exact preserves_onlyIf fun _ => unreported_throw _

theorem observe_alt_reports {children : List (Observer CharT Observed)}
    (each : ∀ child ∈ children, Reports grammar child) (index : Nat) :
    Reports grammar (AlternationExpr.observeAlt index children) := by
  induction children generalizing index with
  | nil => exact fun _ faithful => observed_failure_reports faithful
  | cons child rest induction =>
      intro state faithful
      refine runs_bind (each child (by simp) state faithful) fun found here later performed => ?_
      refine runs_ite (fun _ => ?_) fun _ => ?_
      · refine runs_bind (runs_modify later.faithful fun context => ?_) fun _ last later' same => ?_
        · unfold stampWinner
          split <;> rfl
        · refine runs_pure later'.faithful ?_
          rw [same]
          exact performed
      · refine runs_bind (runs_lift later.faithful raise_unreported) fun _ last later' _ => ?_
        exact induction (fun other member => each other (by simp [member])) (index + 1) last
          later'.faithful

theorem set_cut_unreported (committed : Bool) (context : Context CharT) :
    Unreported context (context.setCut committed) := by
  unfold Context.setCut
  split <;> rfl

theorem remove_cut_unreported (context : Context CharT) : Unreported context context.removeCut := by
  unfold Context.removeCut
  split
  · rfl
  · split_ifs <;> rfl

theorem observe_scope_reports {body : Observer CharT Observed} (reports : Reports grammar body) :
    Reports grammar (lift (Comp.modify Context.initCut) >>= fun _ =>
      Comp.guarded body (onPlain Context.removeCut)) := by
  intro state faithful
  refine runs_bind (runs_modify faithful fun _ => rfl) fun _ here later _ => ?_
  exact runs_guarded remove_cut_unreported (reports here later.faithful)

theorem observe_loop_reports {skip : Observer CharT Unit} (skips : Skips grammar skip)
    {child : Observer CharT Observed} (reports : Reports grammar child) (maxRep : Int) (node : NodePtr)
    (fuel loopCount lastSuccessState : Nat) {state : Noted CharT} (faithful : Faithful grammar state) :
    Runs grammar state (observeLoop skip child maxRep node fuel loopCount lastSuccessState)
      fun found notes => ∀ deriv ∈ found.2, Performed notes deriv := by
  induction fuel generalizing loopCount lastSuccessState state with
  | zero => exact trivial
  | succ fuel induction =>
      refine runs_bind (runs_onlyIf faithful (skips state faithful)) fun _ here later _ => ?_
      refine runs_bind (runs_lift later.faithful (preserves_read _)) fun startState here later _ => ?_
      refine runs_bind (runs_modify later.faithful (set_cut_unreported false)) fun _ here later _ => ?_
      refine runs_bind (reports here later.faithful) fun found here later first => ?_
      refine runs_ite (fun _ => ?_) fun _ => runs_pure later.faithful nofun
      refine runs_bind (runs_lift later.faithful (preserves_read _)) fun stop here' later' same => ?_
      refine runs_bind (runs_modify later'.faithful (push_child_unreported _ _)) fun _ last later'' same' => ?_
      have kept : Performed last.notes found.2 := by
        rw [same', same]
        exact first
      refine runs_ite (fun _ => runs_pure later''.faithful ?_) fun _ => ?_
      · exact fun deriv member => List.mem_singleton.mp member ▸ kept
      · refine runs_bind (induction (loopCount + 1) stop later''.faithful) fun below final ended others => ?_
        refine runs_pure ended.faithful fun deriv member => ?_
        rcases List.mem_cons.mp member with rfl | member
        · exact kept.mono ended.grown
        · exact others deriv member

theorem repeat_finish_unreported (maxRep : Int) (node : NodePtr) (ended : LoopExit) :
    Preserves Unreported Unreported (repeatFinish maxRep node ended : Parser CharT ParseResult) := by
  refine preserves_bind (preserves_onlyIf fun _ => preserves_modify fun _ => rfl) fun _ => ?_
  refine preserves_bind (preserves_onlyIf fun _ => raise_unreported) fun _ => ?_
  exact preserves_bind (preserves_modify fun _ => rfl) fun _ => preserves_pure _

theorem observe_repeat_reports (fuel : Nat) {skip : Observer CharT Unit} (skips : Skips grammar skip)
    {child : Observer CharT Observed} (reports : Reports grammar child) (minRep : Nat) (maxRep : Int) :
    Reports grammar (observeRepeat fuel skip child minRep maxRep) := by
  refine observe_scope_reports fun state faithful => ?_
  refine runs_bind (runs_lift faithful (preserves_read _)) fun initState here later _ => ?_
  refine runs_bind (runs_lift later.faithful (preserves_modifyGet fun _ => rfl)) fun node here later _ => ?_
  refine runs_bind (runs_modify later.faithful fun _ => rfl) fun _ here later _ => ?_
  refine runs_bind (observe_loop_reports skips reports maxRep node fuel 0 initState later.faithful)
    fun found here later parts => ?_
  refine runs_ite (fun _ => ?_) fun _ => ?_
  · refine runs_bind (runs_modify later.faithful fun _ => rfl) fun _ last later _ => ?_
    exact observed_failure_reports later.faithful
  · refine runs_bind (runs_lift later.faithful (repeat_finish_unreported _ _ _))
      fun result here' later' same => ?_
    refine runs_bind (runs_read later'.faithful) fun stop last later'' same' => ?_
    refine runs_pure later''.faithful (performed_parts ?_)
    rw [same', same]
    exact parts

theorem observe_predicate_reports {child : Observer CharT Observed} (reports : Reports grammar child)
    (negate : Bool) : Reports grammar (observePredicate child negate) := by
  intro state faithful
  refine runs_bind (runs_lift faithful (preserves_read _)) fun initState here later _ => ?_
  refine runs_bind (reports here later.faithful) fun found here later _ => ?_
  refine runs_bind (runs_modify later.faithful fun _ => rfl) fun _ last later _ => ?_
  exact runs_pure later.faithful (performed_leaf _ _)

theorem observe_lexeme_reports {child : Observer CharT Observed} (reports : Reports grammar child) :
    Reports grammar (LexemeExpr.observe child) := by
  intro state faithful
  refine runs_bind (runs_lift faithful (preserves_read _)) fun prev here later _ => ?_
  refine runs_bind (runs_modify later.faithful fun _ => rfl) fun _ here later _ => ?_
  exact runs_guarded (fun _ => rfl) (reports here later.faithful)

theorem observe_skipper_reports {observes : RuleId → Observer CharT Observed}
    (reports : ∀ rule, Reports grammar (observes rule)) : Skips grammar (observeSkipper observes) := by
  intro state faithful
  refine runs_bind (runs_lift faithful (preserves_read _)) fun context here later _ => ?_
  split
  · refine runs_bind (runs_modify later.faithful fun _ => rfl) fun _ here later _ => ?_
    refine runs_bind (reports _ here later.faithful) fun _ here later _ => ?_
    exact runs_post (runs_modify later.faithful fun _ => rfl) fun _ _ _ => trivial
  · exact runs_pure later.faithful trivial

variable [PegValue CharT]

theorem observe_expr_reports {observes : RuleId → Observer CharT Observed}
    (reports : ∀ rule, Reports grammar (observes rule)) (fuel : Nat) (expr : Expr CharT) :
    Reports grammar (observeExpr observes fuel expr) := by
  have each : ∀ children : List (Expr CharT),
      (∀ child ∈ children, Reports grammar (observeExpr observes fuel child)) →
      ∀ observer ∈ observeAll observes fuel children, Reports grammar observer := by
    intro children
    induction children with
    | nil => exact fun _ => nofun
    | cons child rest induction =>
        intro all observer member
        rcases List.mem_cons.mp member with rfl | member
        · exact all child List.mem_cons_self
        · exact induction (fun other inside => all other (List.mem_cons_of_mem _ inside)) observer member
  have skips := observe_skipper_reports reports
  induction expr using Expr.induct with
  | terminal value => exact observe_attempt_reports (terminal_unreported value)
  | terminalSeq values => exact observe_attempt_reports (terminal_seq_unreported values)
  | token value => exact observe_attempt_reports (token_unreported value)
  | matcher fn => exact observe_leaf_reports (matcher_unreported fn)
  | empty => exact observe_leaf_reports (preserves_pure _)
  | cut =>
      intro state faithful
      refine runs_bind (runs_lift faithful (preserves_read _)) fun context here later _ => ?_
      have noted : Faithful grammar ⟨here.plain, { here.notes with
          cuts := here.notes.cuts ++ [⟨context.position, context.cutStack.length⟩] }⟩ :=
        ⟨later.faithful.channel, later.faithful.rows⟩
      refine runs_bind (runs_annotate noted List.prefix_rfl) fun _ here later _ => ?_
      exact observe_leaf_reports (preserves_bind (preserves_modify (set_cut_unreported true))
        fun _ => preserves_pure _) here later.faithful
  | sequence children induction => exact observe_sequence_reports skips (each children induction)
  | alternation children induction =>
      exact observe_scope_reports (observe_alt_reports (each children induction) 0)
  | repetition kind child induction => exact observe_repeat_reports fuel skips induction _ _
  | not child induction => exact observe_predicate_reports induction true
  | and child induction => exact observe_predicate_reports induction false
  | lexeme child induction => exact observe_lexeme_reports induction
  | rule id => exact reports id

end Combinators

section RuleApplication

variable {grammar : Grammar CharT NodeType}

theorem store_unreported (rule : RuleId) (pos : Nat) (entry : RuleState) :
    Preserves Unreported Unreported (NonTerminal.store rule pos entry : Parser CharT Bool) := by
  refine preserves_bind (preserves_modifyGet fun context => ?_) fun _ => ?_
  · unfold Context.updateRuleState
    split <;> rfl
  · exact preserves_bind (preserves_announce _) fun _ => preserves_pure _

/-- A row is stored with a derivation that was performed. -/
theorem observe_store_runs {state : Noted CharT} (faithful : Faithful grammar state) (rule : RuleId)
    (pos : Nat) (entry : RuleState) {deriv : Deriv} (performed : Performed state.notes deriv) :
    Runs grammar state (NonTerminal.observeStore rule pos entry deriv) fun _ _ => True := by
  have noted : Faithful grammar ⟨state.plain, state.notes.stand rule pos deriv⟩ := by
    refine ⟨faithful.channel, fun pos' rule' => ?_⟩
    change Performed (state.notes.stand rule pos deriv)
      (if pos' = pos ∧ rule' = rule then deriv else state.notes.stands pos' rule')
    split_ifs
    · exact performed
    · exact faithful.rows pos' rule'
  refine runs_bind (runs_annotate noted List.prefix_rfl) fun _ here later _ => ?_
  exact runs_post (runs_lift later.faithful (store_unreported _ _ _)) fun _ _ _ => trivial

theorem observe_growth_reports (rule : RuleId) (startPos : Nat) {body : Observer CharT Observed}
    (reports : Reports grammar body) (fuel : Nat) (best : ParseResult) (ruleState : RuleState)
    {grown : Deriv} {state : Noted CharT} (faithful : Faithful grammar state)
    (performed : Performed state.notes grown) :
    Runs grammar state (NonTerminal.observeGrowth rule startPos body fuel best ruleState grown)
      fun found notes => Performed notes found.2 := by
  induction fuel generalizing best ruleState grown state with
  | zero => exact trivial
  | succ fuel induction =>
      refine runs_bind (runs_modify faithful fun _ => rfl) fun _ here later _ => ?_
      have kept := performed.mono later.grown
      refine runs_bind (runs_lift later.faithful (preserves_read _)) fun before here later _ => ?_
      have kept := kept.mono later.grown
      refine runs_bind (runs_lift later.faithful (preserves_onlyIf fun _ =>
        preserves_modify fun _ => rfl)) fun _ here later _ => ?_
      have kept := kept.mono later.grown
      refine runs_bind (reports here later.faithful) fun found here later first => ?_
      have kept := kept.mono later.grown
      have applied : ∀ span, Performed here.notes (.applied rule span found.2) := fun _ => first
      refine runs_bind (runs_lift later.faithful (preserves_read _)) fun after here' later' same => ?_
      rw [← same] at kept applied
      refine runs_ite (fun _ => runs_ite (fun _ => ?_) fun _ => ?_) fun _ =>
        runs_pure later'.faithful kept
      · refine runs_bind (runs_modify later'.faithful fun _ => rfl) fun _ here later same => ?_
        rw [← same] at applied
        refine runs_bind (observe_store_runs later.faithful _ _ _ (applied _))
          fun present last later _ => ?_
        have stored : ∀ span, Performed last.notes (.applied rule span found.2) :=
          fun span => (applied span).mono later.grown
        exact runs_ite (fun _ => induction _ _ later.faithful (stored _)) fun _ =>
          runs_pure later.faithful (stored _)
      · have adopted : Performed here'.notes (if best.success = true then grown
            else .applied rule ⟨startPos, after.position⟩ found.2) := by
          split_ifs
          · exact kept
          · exact applied _
        refine runs_bind (observe_store_runs later'.faithful _ _ _ adopted) fun _ last later _ => ?_
        exact runs_pure later.faithful (adopted.mono later.grown)

theorem leave_unreported (startPos : Nat) (context : Context CharT) :
    Unreported context (NonTerminal.leave startPos context) := by
  unfold NonTerminal.leave
  split_ifs <;> rfl

theorem observe_invoke_reports (rule : RuleId) (startPos : Nat)
    {body : Option (Observer CharT Observed)} (reports : ∀ observer ∈ body, Reports grammar observer)
    (fuel : Nat) {state : Noted CharT} (faithful : Faithful grammar state) :
    Runs grammar state (NonTerminal.observeInvoke rule startPos body fuel)
      fun found notes => Performed notes found.2 := by
  refine runs_bind (runs_modify faithful fun _ => rfl) fun _ here later _ => ?_
  refine runs_bind (?_ : Runs grammar here _ fun found notes => Performed notes found.2)
    fun grown last later performed => ?_
  · cases body with
    | none => exact trivial
    | some observer =>
        refine runs_bind (observe_store_runs later.faithful _ _ _ (performed_leaf _ _))
          fun _ here later _ => ?_
        refine runs_bind (observe_growth_reports rule startPos (reports observer rfl) fuel _ _
          later.faithful (performed_leaf _ _)) fun grown here later performed => ?_
        refine runs_bind (runs_modify later.faithful fun _ => rfl) fun _ last later same => ?_
        refine runs_pure later.faithful ?_
        rw [same]
        exact performed
  · refine runs_bind (runs_modify later.faithful (leave_unreported _)) fun _ final later same => ?_
    refine runs_pure later.faithful ?_
    rw [same]
    exact performed

theorem record_rule_failure_unreported (nonTerminal : NonTerminal CharT NodeType) (startPos : Nat)
    (context : Context CharT) :
    Unreported context (NonTerminal.recordRuleFailure nonTerminal startPos context) := by
  unfold NonTerminal.recordRuleFailure
  split_ifs
  · exact record_unreported _ _ _
  · exact record_unreported _ _ _
  · rfl

/-- The failed body of a rule: a recovery is noted and reported in one go. -/
theorem observe_failure_reports (rule : RuleId) (startPos : Nat) (ruleState : RuleState)
    {state : Noted CharT} (faithful : Faithful grammar state) :
    Runs grammar state (NonTerminal.observeFailure (grammar.nonTerminal rule) rule startPos ruleState)
      fun found notes => Performed notes found.2 := by
  have missed : Runs grammar state (NonTerminal.observeMiss (grammar.nonTerminal rule) rule startPos)
      fun _ _ => True :=
    runs_bind (runs_miss faithful) fun _ here later _ => runs_post
      (runs_modify later.faithful (record_rule_failure_unreported _ _)) fun _ _ _ => trivial
  refine runs_bind missed fun _ here later _ => ?_
  refine runs_bind (runs_lift later.faithful (preserves_read _)) fun context here later _ => ?_
  split
  · -- The note comes first, so the pair of steps is taken together.
    have stored : ∀ resumeAt : Nat, Runs grammar
        ⟨(here.plain.reset resumeAt).recordDiagnostic (report grammar ⟨rule, startPos⟩),
          { here.notes with recoveries := here.notes.recoveries ++ [⟨rule, startPos⟩] }⟩
        (NonTerminal.observeStore rule startPos ⟨resumeAt, ⟨true, none⟩⟩
          (.recovered rule ⟨startPos, resumeAt⟩) >>= fun _ =>
            (pure (⟨true, none⟩, .recovered rule ⟨startPos, resumeAt⟩) : Observer CharT Observed))
        fun found notes => Performed notes found.2 := by
      intro resumeAt
      have noted : Faithful grammar ⟨(here.plain.reset resumeAt).recordDiagnostic
          (report grammar ⟨rule, startPos⟩),
          { here.notes with recoveries := here.notes.recoveries ++ [⟨rule, startPos⟩] }⟩ := by
        refine ⟨?_, fun pos other => (later.faithful.rows pos other).mono (List.prefix_append _ _)⟩
        rw [List.map_append, ← later.faithful.channel]
        rfl
      have performed : Performed { here.notes with
          recoveries := here.notes.recoveries ++ [⟨rule, startPos⟩] }
          (.recovered rule ⟨startPos, resumeAt⟩) :=
        fun point member => List.mem_append_right _ member
      refine runs_bind (observe_store_runs noted _ _ _ performed) fun _ last later _ => ?_
      exact runs_pure later.faithful (performed.mono later.grown)
    unfold Runs
    rw [wp_bind, wp_annotate, wp_bind, wp_lift_modify]
    refine wp_post (stored _) ?_
    rintro found last ⟨later', met⟩
    exact ⟨⟨later'.faithful, (List.prefix_append _ _).trans later'.grown⟩, met⟩
  · refine runs_bind (observe_store_runs later.faithful _ _ _ (performed_leaf _ _)) fun _ last later _ => ?_
    exact observed_failure_reports later.faithful

theorem mark_head_unreported (rule : RuleId) (pos : Nat) (context : Context CharT) :
    Unreported context (context.markHead rule pos) := by
  unfold Context.markHead
  split
  · split_ifs <;> rfl
  · rfl

theorem replay_unreported (rule : RuleId) (startPos : Nat) (ruleState : RuleState) :
    Preserves Unreported Unreported
      (NonTerminal.replay rule startPos ruleState : Parser CharT ParseResult) := by
  have jump : ∀ (target : Context CharT → Nat) (result : ParseResult),
      Preserves Unreported Unreported (Comp.modify (fun context => context.reset (target context)) >>=
        fun _ => (pure result : Parser CharT ParseResult)) := fun target result =>
    preserves_bind (preserves_modify fun _ => rfl) fun _ => preserves_pure result
  refine preserves_bind (preserves_read _) fun context => preserves_ite (fun _ => ?_) fun _ => ?_
  · exact preserves_bind (preserves_modify (mark_head_unreported rule startPos)) fun _ => jump _ _
  · split
    · exact preserves_ite (fun _ => jump _ _) fun _ => jump _ _
    · exact jump _ _

theorem build_node_unreported (nonTerminal : NonTerminal CharT NodeType) (rule : RuleId)
    (startPos : Nat) (inner : Option NodePtr) :
    Preserves Unreported Unreported (NonTerminal.buildNode nonTerminal rule startPos inner) := by
  unfold NonTerminal.buildNode
  split
  · refine preserves_bind (preserves_modifyGet fun _ => rfl) fun node => ?_
    refine preserves_bind (preserves_modify fun _ => rfl) fun _ => ?_
    exact preserves_bind (preserves_modify (push_child_unreported _ _)) fun _ => preserves_pure _
  · refine preserves_bind ?_ fun node => ?_
    · cases inner with
      | none => exact preserves_modifyGet fun _ => rfl
      | some node => exact preserves_pure node
    · exact preserves_bind (preserves_modify fun _ => rfl) fun _ => preserves_pure _

theorem observe_rule_reports (rule : RuleId) {body : Option (Observer CharT Observed)}
    (reports : ∀ observer ∈ body, Reports grammar observer) (fuel : Nat) :
    Reports grammar (NonTerminal.observe (grammar.nonTerminal rule) rule body fuel) := by
  intro state faithful
  refine runs_bind (runs_lift faithful (preserves_announce _)) fun _ here later _ => ?_
  refine runs_bind (runs_lift later.faithful (preserves_read _)) fun startPos here later _ => ?_
  refine runs_bind (runs_lift later.faithful (preserves_modifyGet fun context => ?_))
    fun row here later _ => ?_
  · unfold Context.ruleState
    split <;> rfl
  refine runs_ite (fun _ => ?_) fun _ => ?_
  · refine runs_bind (observe_invoke_reports rule startPos reports fuel later.faithful)
      fun grown here later performed => ?_
    refine runs_ite (fun _ => ?_) fun _ => observe_failure_reports rule startPos _ later.faithful
    refine runs_bind (runs_lift later.faithful (build_node_unreported _ _ _ _))
      fun node here' later' same => ?_
    rw [← same] at performed
    refine runs_bind (observe_store_runs later'.faithful _ _ _ performed) fun _ last later _ => ?_
    exact runs_pure later.faithful (performed.mono later.grown)
  · have stands := later.faithful.rows startPos rule
    refine runs_bind (runs_look later.faithful) fun deriv here' later' answer => ?_
    refine runs_bind (runs_lift later'.faithful (replay_unreported _ _ _)) fun result last later'' _ => ?_
    refine runs_pure later''.faithful ?_
    rw [answer]
    exact stands.mono (later'.trans later'').grown

variable [PegValue CharT]

theorem observe_reports (grammar : Grammar CharT NodeType) (fuel : Nat) (rule : RuleId) :
    Reports grammar (observe grammar fuel rule) := by
  induction fuel generalizing rule with
  | zero => exact fun _ _ => trivial
  | succ fuel induction =>
      refine observe_rule_reports rule (fun observer member => ?_) fuel
      obtain ⟨body, -, rfl⟩ := Option.map_eq_some_iff.mp member
      exact observe_expr_reports induction fuel body

theorem observe_start_reports (grammar : Grammar CharT NodeType) (fuel : Nat) (rule : RuleId) :
    Reports grammar (observeStart grammar fuel rule) := by
  intro state faithful
  have reports := observe_reports grammar fuel
  refine runs_bind (?_ : Runs grammar state (observeLeadingSkip grammar fuel) fun _ _ => True)
    fun _ here later _ => reports rule here later.faithful
  refine runs_bind (runs_modify faithful fun _ => rfl) fun _ here later _ => ?_
  exact observe_skipper_reports reports here later.faithful

end RuleApplication

section Accepted

theorem fresh_faithful (grammar : Grammar CharT NodeType) (input : List CharT) :
    Faithful grammar ⟨Context.fresh input, {}⟩ :=
  ⟨rfl, fun _ _ => performed_leaf _ _⟩

variable [PegValue CharT]

/-- A parse that succeeds applied its start rule after the leading skip. -/
theorem parse_applied {grammar : Grammar CharT NodeType} {fuel : Nat} {name : Str}
    {context : Context CharT}
    (accepted : (grammar.parse fuel name context).outcome = .returned true) :
    ∃ rule tree log, grammar.find name = some rule ∧
      (grammar.leadingSkip fuel >>= fun _ => grammar.apply fuel rule) context =
        ⟨.returned ⟨true, tree⟩, (grammar.parse fuel name context).state, log⟩ := by
  unfold Grammar.parse at accepted ⊢
  cases found : grammar.find name with
  | none =>
      rw [found] at accepted
      cases accepted
  | some rule =>
      rw [found] at accepted
      dsimp only at accepted ⊢
      rcases skipped : grammar.leadingSkip fuel context with ⟨outcome, here, log⟩
      cases outcome with
      | thrown exn => rw [Comp.bind_thrown skipped] at accepted; cases accepted
      | exhausted => rw [Comp.bind_exhausted skipped] at accepted; cases accepted
      | returned value =>
          rw [Comp.bind_returned skipped] at accepted ⊢
          unfold Comp.catching at accepted ⊢
          rcases applied : grammar.apply fuel rule here with ⟨outcome, last, log'⟩
          cases outcome with
          | thrown exn =>
              rw [Comp.bind_thrown applied] at accepted
              cases exn <;> cases accepted
          | exhausted => rw [Comp.bind_exhausted applied] at accepted; cases accepted
          | returned result =>
              rw [Comp.bind_returned applied] at accepted
              have success : result.success = true := Outcome.returned.inj accepted
              refine ⟨rule, result.tree, log ++ log', rfl, ?_⟩
              rw [Comp.bind_returned skipped, applied, Comp.bind_returned applied, ← success]
              rfl

/-- The channel lists the recoveries that the parse performed, one diagnostic
each and in their order, and those of the accepted derivation are among them. -/
theorem accepted_recoveries_reported (grammar : Grammar CharT NodeType) (input : List CharT)
    (fuel : Nat) (name : Str)
    (accepted : (grammar.parse fuel name (Context.fresh input)).outcome = .returned true) :
    ∃ rule tree deriv, grammar.find name = some rule ∧
      let observed := observeStart grammar fuel rule ⟨Context.fresh input, {}⟩
      let diagnostics := (grammar.parse fuel name (Context.fresh input)).state.errors.diagnostics
      observed.outcome = .returned (⟨true, tree⟩, deriv) ∧
        diagnostics = observed.state.notes.recoveries.map (report grammar) ∧
        ∀ point ∈ recovered deriv, report grammar point ∈ diagnostics := by
  obtain ⟨rule, tree, log, found, run⟩ := parse_applied accepted
  have follows := observe_start_follows grammar fuel rule
  have ended : ((grammar.leadingSkip fuel >>= fun _ => grammar.apply fuel rule)
      (⟨Context.fresh input, {}⟩ : Noted CharT).plain).outcome = .returned ⟨true, tree⟩ := by
    rw [run]
  obtain ⟨⟨result, deriv⟩, rfl, returned⟩ := follows.annotated ended
  have last := follows.plain_state ⟨Context.fresh input, {}⟩
  rw [run] at last
  obtain ⟨later, performed⟩ := wp_returned
    (observe_start_reports grammar fuel rule _ (fresh_faithful grammar input)) (fun _ _ => trivial) returned
  have channel := later.faithful.channel
  rw [last] at channel
  refine ⟨rule, tree, deriv, found, returned, channel, fun point member => ?_⟩
  rw [channel]
  exact List.mem_map_of_mem (performed point member)

/-- `S = R >> 'x' | 'a' >> ';'`, `R = 'b'` resynchronised after a `;`. -/
def resync : Grammar UInt8 Unit where
  rules := [
    (ascii "S", { body := some (.alternation [.sequence [.rule 1, .terminal (.value 120)],
      .sequence [.terminal (.value 97), .terminal (.value 59)]]) }),
    (ascii "R", {
      body := some (.terminal (.value 98))
      name := ascii "R"
      recover := { isSyncToken := some fun letter => letter == 59 } })]

theorem accepted_resync_reported :
    ∃ rule tree deriv, resync.find (ascii "S") = some rule ∧
      let observed := observeStart resync 5 rule ⟨Context.fresh (ascii "a;x"), {}⟩
      let diagnostics :=
        (resync.parse 5 (ascii "S") (Context.fresh (ascii "a;x"))).state.errors.diagnostics
      observed.outcome = .returned (⟨true, tree⟩, deriv) ∧
        diagnostics = observed.state.notes.recoveries.map (report resync) ∧
        ∀ point ∈ recovered deriv, report resync point ∈ diagnostics :=
  accepted_recoveries_reported resync (ascii "a;x") 5 (ascii "S")
    (Outcome.value_eq_some.mp (by decide +kernel))

/-- On "a;" the first branch resynchronises and is abandoned. The parse succeeds
without a recovered application, and reports one. -/
theorem abandoned_resync_reported :
    ∃ result deriv,
      (observeStart resync 5 0 ⟨Context.fresh (ascii "a;"), {}⟩).outcome = .returned (result, deriv) ∧
      (resync.parse 5 (ascii "S") (Context.fresh (ascii "a;"))).outcome = .returned true ∧
      ¬(resync.parse 5 (ascii "S") (Context.fresh (ascii "a;"))).state.errors.diagnostics.length =
        (recovered deriv).length := by
  obtain ⟨⟨result, deriv⟩, returned⟩ := Outcome.returned_of_value
    (by decide +kernel : (observeStart resync 5 0
      ⟨Context.fresh (ascii "a;"), {}⟩).outcome.value?.isSome = true)
  have nothing : (observeStart resync 5 0 ⟨Context.fresh (ascii "a;"), {}⟩).outcome.value?.map
      (fun found => (recovered found.2).length) = some 0 := by
    decide +kernel
  rw [returned] at nothing
  have none : (recovered deriv).length = 0 := Option.some.inj nothing
  refine ⟨result, deriv, returned, Outcome.value_eq_some.mp (by decide +kernel), ?_⟩
  rw [none]
  decide +kernel

end Accepted

end Peglib.RecoveryReports
