import Peglib.AcceptedParse
import Peglib.ControlDiscipline

/-!
# Cuts and the scopes they commit

A cut writes to the scope that is innermost when it is executed. An expression
closes every scope it opens, so the scopes around it change only by the cuts it
executes at their own depth, and the last of these decides. This holds when the
expression returns and when an exception leaves it.
-/

namespace Peglib.CutScopes

open Peglib.TracedComputation Peglib.WeakestPrecondition Peglib.Preservation Peglib.Annotation
open Peglib.ParseError Peglib.ParseError.Errors Peglib.ParseContext Peglib.Expressions Peglib.Rules
open Peglib.ExpressionSteps Peglib.ControlDiscipline Peglib.AcceptedParse

set_option autoImplicit false

variable {CharT NodeType : Type}

abbrev Noted (CharT : Type) : Type := Annotated (Context CharT) Notes

section Writes

/-- A cut outside every scope is dropped. -/
def writeCut (stack : List CutRecord) (cut : CutPoint) : List CutRecord :=
  match stack with
  | [] => []
  | scope :: outer =>
      if cut.depth = outer.length + 1 then ⟨cut.pos, true⟩ :: outer else scope :: outer

def writeCuts (stack : List CutRecord) (cuts : List CutPoint) : List CutRecord :=
  cuts.foldl writeCut stack

theorem write_cut_tail (stack : List CutRecord) (cut : CutPoint) :
    (writeCut stack cut).tail = stack.tail := by
  unfold writeCut
  split
  · rfl
  · split_ifs <;> rfl

theorem write_cut_length (stack : List CutRecord) (cut : CutPoint) :
    (writeCut stack cut).length = stack.length := by
  unfold writeCut
  split
  · rfl
  · split_ifs <;> rfl

theorem write_cuts_frame (stack : List CutRecord) (cuts : List CutPoint) :
    (writeCuts stack cuts).tail = stack.tail ∧ (writeCuts stack cuts).length = stack.length := by
  induction cuts generalizing stack with
  | nil => exact ⟨rfl, rfl⟩
  | cons cut rest induction =>
      have later := induction (writeCut stack cut)
      rw [write_cut_tail, write_cut_length] at later
      exact later

theorem write_cuts_deeper {stack : List CutRecord} {cuts : List CutPoint}
    (deeper : ∀ cut ∈ cuts, stack.length < cut.depth) : writeCuts stack cuts = stack := by
  induction cuts with
  | nil => rfl
  | cons cut rest induction =>
      have here := deeper cut List.mem_cons_self
      have unwritten : writeCut stack cut = stack := by
        unfold writeCut
        split
        · rfl
        · rw [List.length_cons] at here
          rw [if_neg (by omega)]
      rw [writeCuts, List.foldl_cons, unwritten]
      exact induction fun other member => deeper other (List.mem_cons_of_mem _ member)

end Writes

section Relations

/-- The cuts executed on the way, none of them in a scope further out. -/
def Executes (effect : List CutRecord → List CutPoint → List CutRecord → Prop)
    (before after : Noted CharT) : Prop :=
  ∃ cuts, after.notes.cuts = before.notes.cuts ++ cuts ∧
    (∀ cut ∈ cuts, before.plain.cutStack.length ≤ cut.depth) ∧
    effect before.plain.cutStack cuts after.plain.cutStack

/-- The scopes hold what the cuts wrote. -/
abbrev Recorded (before after : Noted CharT) : Prop :=
  Executes (fun stack cuts stack' => stack' = writeCuts stack cuts) before after

/-- The innermost scope may hold anything. -/
abbrev Enclosed (before after : Noted CharT) : Prop :=
  Executes (fun stack _ stack' => stack'.tail = stack.tail ∧ stack'.length = stack.length)
    before after

theorem Executes.depth {effect : List CutRecord → List CutPoint → List CutRecord → Prop}
    {before middle after : Noted CharT} (first : Executes effect before middle)
    (same : middle.plain.cutStack.length = before.plain.cutStack.length)
    (second : Executes effect middle after)
    (composes : ∀ cuts cuts', effect before.plain.cutStack cuts middle.plain.cutStack →
      effect middle.plain.cutStack cuts' after.plain.cutStack →
      effect before.plain.cutStack (cuts ++ cuts') after.plain.cutStack) :
    Executes effect before after := by
  obtain ⟨cuts, noted, deep, wrote⟩ := first
  obtain ⟨cuts', noted', deep', wrote'⟩ := second
  refine ⟨cuts ++ cuts', by rw [noted', noted, List.append_assoc], ?_, composes _ _ wrote wrote'⟩
  intro cut member
  rcases List.mem_append.mp member with here | later
  · exact deep cut here
  · exact same ▸ deep' cut later

theorem recorded_length {before after : Noted CharT} (step : Recorded before after) :
    after.plain.cutStack.length = before.plain.cutStack.length := by
  obtain ⟨cuts, -, -, wrote⟩ := step
  rw [wrote]
  exact (write_cuts_frame _ cuts).2

theorem Executes.enclosed {before after : Noted CharT} (step : Recorded before after) :
    Enclosed before after := by
  obtain ⟨cuts, noted, deep, wrote⟩ := step
  exact ⟨cuts, noted, deep, wrote ▸ write_cuts_frame _ cuts⟩

theorem recorded_refl (state : Noted CharT) : Recorded state state :=
  ⟨[], (List.append_nil _).symm, nofun, rfl⟩

theorem recorded_trans (first second third : Noted CharT) (left : Recorded first second)
    (right : Recorded second third) : Recorded first third := by
  refine Executes.depth left (recorded_length left) right fun cuts cuts' wrote wrote' => ?_
  rw [writeCuts, List.foldl_append, ← writeCuts, ← writeCuts, ← wrote, wrote']

theorem enclosed_trans (first second third : Noted CharT) (left : Enclosed first second)
    (right : Enclosed second third) : Enclosed first third := by
  have depth : second.plain.cutStack.length = first.plain.cutStack.length := by
    obtain ⟨_, _, _, wrote⟩ := left
    exact wrote.2
  exact Executes.depth left depth right fun _ _ wrote wrote' =>
    ⟨wrote'.1.trans wrote.1, wrote'.2.trans wrote.2⟩

instance : Composable (@Recorded CharT) Recorded where
  refl := recorded_refl
  trans := recorded_trans
  before := recorded_trans

instance : Composable (@Enclosed CharT) Enclosed where
  refl state := (recorded_refl state).enclosed
  trans := enclosed_trans
  before := enclosed_trans

end Relations

section Quiet

/-- A step that touches neither the scopes nor the skipper. -/
structure Untouched (before after : Context CharT) : Prop where
  cutStack : after.cutStack = before.cutStack
  skipper : after.skipper = before.skipper
  skipEnabled : after.skipEnabled = before.skipEnabled

theorem Untouched.trans {first second third : Context CharT} (left : Untouched first second)
    (right : Untouched second third) : Untouched first third :=
  ⟨right.1.trans left.1, right.2.trans left.2, right.3.trans left.3⟩

/-- A step that records no failure either. -/
structure Quiet (before after : Context CharT) : Prop extends Untouched before after where
  hasError : after.errors.hasError = before.errors.hasError

theorem Quiet.trans {first second third : Context CharT} (left : Quiet first second)
    (right : Quiet second third) : Quiet first third :=
  ⟨left.toUntouched.trans right.toUntouched, right.hasError.trans left.hasError⟩

theorem Quiet.refl (context : Context CharT) : Quiet context context := ⟨⟨rfl, rfl, rfl⟩, rfl⟩

instance : Composable (@Quiet CharT) Quiet where
  refl := Quiet.refl
  trans _ _ _ := Quiet.trans
  before _ _ _ := Quiet.trans

instance : Composable (@Quiet CharT) (fun _ _ => False) where
  refl := Quiet.refl
  trans _ _ _ := Quiet.trans
  before _ _ _ _ := id

instance : UnrecordedClosed (@Quiet CharT) where
  unrecorded _ _ step errors :=
    ⟨⟨step.cutStack, step.skipper, step.skipEnabled⟩, by rw [errors]⟩

/-- A pair of relations on annotated contexts that contains the quiet steps, and
those that record a failure and note that an attempt was missed. -/
class QuietClosed (kept thrown : Noted CharT → Noted CharT → Prop) : Prop
    extends Composable kept thrown where
  quiet : ∀ before after : Noted CharT, Quiet before.plain after.plain →
    after.notes.cuts = before.notes.cuts → after.notes.misses = before.notes.misses →
    kept before after
  missed : ∀ before after : Noted CharT, Untouched before.plain after.plain →
    after.notes.cuts = before.notes.cuts → after.plain.errors.hasError = true →
    after.notes.misses ≠ [] → kept before after
  raised : ∀ state, thrown state state

instance : QuietClosed (@Recorded CharT) Recorded where
  quiet before after step noted _ :=
    ⟨[], by rw [noted, List.append_nil], nofun, step.cutStack⟩
  missed before after step noted _ _ :=
    ⟨[], by rw [noted, List.append_nil], nofun, step.cutStack⟩
  raised := recorded_refl

instance : QuietClosed (@Enclosed CharT) Enclosed where
  quiet before after step noted _ :=
    ⟨[], by rw [noted, List.append_nil], nofun, by rw [step.cutStack]; exact ⟨rfl, rfl⟩⟩
  missed before after step noted _ _ :=
    ⟨[], by rw [noted, List.append_nil], nofun, by rw [step.cutStack]; exact ⟨rfl, rfl⟩⟩
  raised state := (recorded_refl state).enclosed

variable {kept thrown : Noted CharT → Noted CharT → Prop} [closed : QuietClosed kept thrown]
  {Value : Type}

theorem lift_kept {parser : Parser CharT Value} (quiet : Preserves Quiet Quiet parser) :
    Preserves kept thrown (lift parser) := by
  intro state
  have step := quiet state.plain
  unfold lift
  cases run : (parser state.plain).outcome with
  | returned value =>
      rw [run] at step
      exact closed.quiet _ _ step rfl rfl
  | thrown exn =>
      rw [run] at step
      exact closed.before _ _ _ (closed.quiet state ⟨_, state.notes⟩ step rfl rfl) (closed.raised _)
  | exhausted => trivial

theorem lift_modify_kept {update : Context CharT → Context CharT}
    (quiet : ∀ context, Quiet context (update context)) :
    Preserves kept thrown (lift (Comp.modify update) : Observer CharT Unit) :=
  lift_kept (preserves_modify quiet)

theorem lift_modifyGet_kept {update : Context CharT → Value × Context CharT}
    (quiet : ∀ context, Quiet context (update context).2) :
    Preserves kept thrown (lift (Comp.modifyGet update) : Observer CharT Value) :=
  lift_kept (preserves_modifyGet quiet)

theorem lift_read_kept (view : Context CharT → Value) :
    Preserves kept thrown (lift (Comp.read view) : Observer CharT Value) :=
  lift_kept (preserves_read view)

theorem annotate_kept {update : Notes → Notes}
    (silent : ∀ notes, (update notes).cuts = notes.cuts ∧ (update notes).misses = notes.misses) :
    Preserves kept thrown (annotate update : Observer CharT Unit) :=
  preserves_modify fun state =>
    closed.quiet _ _ (.refl state.plain) (silent state.notes).1 (silent state.notes).2

theorem observe_leaf_kept {parser : Parser CharT ParseResult}
    (quiet : Preserves Quiet Quiet parser) : Preserves kept thrown (observeLeaf parser) := by
  refine preserves_bind (preserves_read _) fun start => preserves_bind (lift_kept quiet) fun _ => ?_
  exact preserves_bind (preserves_read _) fun stop => preserves_pure _

/-- A parser that either succeeds and records nothing, or fails on record. -/
def Attempts (parser : Parser CharT ParseResult) : Prop :=
  ∀ context, wp (throwing fun _ => False) parser (fun result last => Untouched context last ∧
    last.errors.hasError = (context.errors.hasError || !result.success)) context

theorem found_attempts {context last : Context CharT} {result : ParseResult}
    (quiet : Quiet context last) (success : result.success = true) :
    Untouched context last ∧
      last.errors.hasError = (context.errors.hasError || !result.success) :=
  ⟨quiet.toUntouched, by simp [quiet.hasError, success]⟩

section Letters

variable [PegValue CharT]

theorem terminal_attempts (value : TerminalValue CharT) : Attempts (TerminalExpr.parse value) := by
  intro context
  rw [TerminalExpr.parse, wp_bind, wp_read, wp_ite]
  refine ⟨fun _ => ?_, fun _ => ?_⟩
  · rw [wp_bind, wp_modify, wp_pure]
    exact found_attempts (next_kept context) rfl
  · rw [wp_bind, wp_modify, wp_pure, Bool.not_false, Bool.or_true]
    exact ⟨⟨rfl, rfl, rfl⟩, record_failure_has_error _ _ _⟩

theorem terminal_seq_attempts (values : List CharT) : Attempts (TerminalSeqExpr.parse values) := by
  intro context
  have values_quiet : Preserves Quiet (fun _ _ => False)
      (TerminalSeqExpr.matchValues values : Parser CharT Bool) := match_values_kept values
  rw [TerminalSeqExpr.parse, wp_bind, wp_read, wp_bind]
  refine wp_mono (preserves_iff_wp.mp values_quiet context) (fun _ => id) (fun _ _ => id)
    (fun _ _ => id) fun matched last quiet => ?_
  rw [wp_ite]
  refine ⟨fun _ => found_attempts quiet rfl, fun _ => ?_⟩
  rw [wp_bind, wp_modify, wp_bind, wp_modify, wp_pure, Bool.not_false, Bool.or_true]
  exact ⟨⟨quiet.cutStack, quiet.skipper, quiet.skipEnabled⟩, record_failure_has_error _ _ _⟩

theorem token_attempts (value : TerminalValue CharT) : Attempts (TokenExpr.parse value) := by
  intro context
  rw [TokenExpr.parse, wp_bind, wp_read, wp_ite]
  refine ⟨fun _ => ?_, fun _ => ?_⟩
  · rw [wp_bind, wp_modify, wp_bind, wp_modifyGet, wp_bind, wp_modify, wp_pure]
    exact found_attempts (Quiet.trans (Quiet.trans (next_kept context) (make_node_kept _))
      (update_node_kept _ _ _)) rfl
  · rw [wp_bind, wp_modify, wp_pure, Bool.not_false, Bool.or_true]
    exact ⟨⟨rfl, rfl, rfl⟩, record_failure_has_error _ _ _⟩

end Letters

theorem observe_attempt_kept {parser : Parser CharT ParseResult} (attempts : Attempts parser) :
    Preserves kept thrown (observeAttempt parser) := by
  refine preserves_iff_wp.mpr fun state => ?_
  rw [observeAttempt, wp_bind, wp_lift_read, wp_bind, observeLeaf, wp_bind, wp_read, wp_bind,
    wp_lift]
  refine wp_mono (attempts state.plain) (fun _ => id) (fun _ _ => id) (fun _ _ => False.elim) ?_
  rintro result last ⟨untouched, recorded⟩
  rw [wp_bind, wp_read, wp_pure, wp_bind, wp_onlyIf, wp_annotate, wp_pure, wp_pure]
  refine ⟨fun failed => ?_, fun success => ?_⟩
  · have failed : result.success = false := failed
    rw [failed, Bool.not_false, Bool.or_true] at recorded
    exact closed.missed _ _ untouched rfl recorded (by simp [Notes.miss])
  · have success : result.success = true := by simpa using success
    rw [success, Bool.not_true, Bool.or_false] at recorded
    exact closed.quiet _ _ ⟨untouched, recorded⟩ rfl rfl

theorem observe_seq_kept {skip : Observer CharT Unit} (skipKept : Preserves kept thrown skip)
    (node : NodePtr) {children : List (Observer CharT Observed)}
    (each : ∀ child ∈ children, Preserves kept thrown child) (index : Nat) :
    Preserves kept thrown (SequenceExpr.observeSeq skip node index children) := by
  induction children generalizing index with
  | nil => exact preserves_pure _
  | cons child rest induction =>
      refine preserves_bind (preserves_onlyIf fun _ => skipKept) fun _ => ?_
      refine preserves_bind (each child List.mem_cons_self) fun found => ?_
      refine preserves_ite (fun _ => ?_) fun _ => preserves_pure _
      refine preserves_bind (lift_modify_kept (push_child_kept node _)) fun _ => ?_
      refine preserves_bind (induction (fun other member => ?_) (index + 1)) fun _ =>
        preserves_pure _
      exact each other (List.mem_cons_of_mem _ member)

theorem observe_sequence_kept {skip : Observer CharT Unit} (skipKept : Preserves kept thrown skip)
    {children : List (Observer CharT Observed)}
    (each : ∀ child ∈ children, Preserves kept thrown child) :
    Preserves kept thrown (SequenceExpr.observe skip children) := by
  refine preserves_bind (lift_read_kept _) fun state => ?_
  refine preserves_bind (lift_modifyGet_kept make_node_kept) fun node => ?_
  refine preserves_bind (lift_modify_kept fun _ => update_node_kept _ _ _) fun _ => ?_
  refine preserves_bind (observe_seq_kept skipKept node each 0) fun found => ?_
  refine preserves_ite (fun _ => preserves_bind (preserves_read _) fun stop => ?_) fun _ => ?_
  · exact preserves_bind (lift_modify_kept fun _ => update_node_kept _ _ _) fun _ =>
      preserves_pure _
  · exact preserves_bind (lift_modify_kept (reset_kept _)) fun _ => preserves_pure _

theorem observe_predicate_kept {child : Observer CharT Observed}
    (childKept : Preserves kept thrown child) (negate : Bool) :
    Preserves kept thrown (observePredicate child negate) := by
  refine preserves_bind (lift_read_kept _) fun initState => preserves_bind childKept fun found => ?_
  exact preserves_bind (lift_modify_kept (reset_kept _)) fun _ => preserves_pure _

end Quiet

section Rules

variable {kept thrown : Noted CharT → Noted CharT → Prop} [closed : QuietClosed kept thrown]

theorem store_quiet (rule : RuleId) (pos : Nat) (entry : RuleState) :
    Preserves Quiet Quiet (NonTerminal.store rule pos entry : Parser CharT Bool) := by
  refine preserves_bind (preserves_modifyGet fun context => ?_) fun _ => ?_
  · unfold Context.updateRuleState
    split <;> exact ⟨⟨rfl, rfl, rfl⟩, rfl⟩
  · exact preserves_bind (preserves_announce _) fun _ => preserves_pure _

theorem build_node_quiet (nonTerminal : NonTerminal CharT NodeType) (rule : RuleId)
    (startPos : Nat) (inner : Option NodePtr) :
    Preserves Quiet Quiet (NonTerminal.buildNode nonTerminal rule startPos inner) := by
  unfold NonTerminal.buildNode
  split
  · refine preserves_bind (preserves_modifyGet make_node_kept) fun node => ?_
    refine preserves_bind (preserves_modify fun _ => update_node_kept _ _ _) fun _ => ?_
    exact preserves_bind (preserves_modify (push_child_kept _ _)) fun _ => preserves_pure _
  · refine preserves_bind ?_ fun node => ?_
    · cases inner with
      | none => exact preserves_modifyGet make_node_kept
      | some node => exact preserves_pure node
    · exact preserves_bind (preserves_modify fun _ => update_node_kept _ _ _) fun _ =>
        preserves_pure _

theorem raise_quiet : Preserves Quiet Quiet (raiseIfCommitted : Parser CharT Unit) := by
  refine preserves_bind (preserves_announce _) fun _ => preserves_bind (preserves_read _) fun _ => ?_
  exact preserves_onlyIf fun _ => preserves_throw (fun _ => ⟨⟨rfl, rfl, rfl⟩, rfl⟩) _

theorem mark_head_quiet (rule : RuleId) (pos : Nat) (context : Context CharT) :
    Quiet context (context.markHead rule pos) := by
  unfold Context.markHead
  split
  · split_ifs <;> exact ⟨⟨rfl, rfl, rfl⟩, rfl⟩
  · exact ⟨⟨rfl, rfl, rfl⟩, rfl⟩

theorem replay_quiet (rule : RuleId) (startPos : Nat) (ruleState : RuleState) :
    Preserves Quiet Quiet
      (NonTerminal.replay rule startPos ruleState : Parser CharT ParseResult) := by
  have jump : ∀ (target : Context CharT → Nat) (result : ParseResult),
      Preserves Quiet Quiet (Comp.modify (fun context => context.reset (target context)) >>= fun _ =>
        (pure result : Parser CharT ParseResult)) := fun target result =>
    preserves_bind (preserves_modify fun _ => reset_kept _ _) fun _ => preserves_pure result
  refine preserves_bind (preserves_read _) fun context => preserves_ite (fun _ => ?_) fun _ => ?_
  · exact preserves_bind (preserves_modify (mark_head_quiet rule startPos)) fun _ => jump _ _
  · split
    · exact preserves_ite (fun _ => jump _ _) fun _ => jump _ _
    · exact jump _ _

theorem leave_quiet (startPos : Nat) (context : Context CharT) :
    Quiet context (NonTerminal.leave startPos context) := by
  unfold NonTerminal.leave
  split_ifs <;> exact ⟨⟨rfl, rfl, rfl⟩, rfl⟩

theorem observe_store_kept (rule : RuleId) (pos : Nat) (entry : RuleState) (deriv : Deriv) :
    Preserves kept thrown (NonTerminal.observeStore rule pos entry deriv : Observer CharT Bool) :=
  preserves_bind (annotate_kept fun _ => ⟨rfl, rfl⟩) fun _ => lift_kept (store_quiet _ _ _)

theorem observe_growth_kept (rule : RuleId) (startPos : Nat) {body : Observer CharT Observed}
    (bodyKept : Preserves kept thrown body) (fuel : Nat) (best : ParseResult) (ruleState : RuleState)
    (grown : Deriv) :
    Preserves kept thrown
      (NonTerminal.observeGrowth rule startPos body fuel best ruleState grown) := by
  induction fuel generalizing best ruleState grown with
  | zero => exact preserves_exhaust
  | succ fuel induction =>
      refine preserves_bind (lift_modify_kept (reset_kept _)) fun _ => ?_
      refine preserves_bind (lift_read_kept _) fun before => ?_
      refine preserves_bind (lift_kept (preserves_onlyIf fun _ =>
        preserves_modify fun _ => ⟨⟨rfl, rfl, rfl⟩, rfl⟩)) fun _ => ?_
      refine preserves_bind bodyKept fun found => preserves_bind (lift_read_kept _) fun after => ?_
      refine preserves_ite (fun _ => preserves_ite (fun _ => ?_) fun _ => ?_) fun _ => ?_
      · refine preserves_bind (lift_modify_kept fun _ => ⟨⟨rfl, rfl, rfl⟩, rfl⟩) fun _ => ?_
        refine preserves_bind (observe_store_kept _ _ _ _) fun present => ?_
        exact preserves_ite (fun _ => induction _ _ _) fun _ => preserves_pure _
      · exact preserves_bind (observe_store_kept _ _ _ _) fun _ => preserves_pure _
      · exact preserves_pure _

theorem observe_invoke_kept (rule : RuleId) (startPos : Nat)
    {body : Option (Observer CharT Observed)}
    (bodyKept : ∀ observer ∈ body, Preserves kept thrown observer) (fuel : Nat) :
    Preserves kept thrown (NonTerminal.observeInvoke rule startPos body fuel) := by
  refine preserves_bind (lift_modify_kept fun _ => ⟨⟨rfl, rfl, rfl⟩, rfl⟩) fun _ => ?_
  refine preserves_bind ?_ fun grown => ?_
  · cases body with
    | none => exact preserves_throw closed.raised _
    | some observer =>
        refine preserves_bind (observe_store_kept _ _ _ _) fun _ => ?_
        refine preserves_bind (observe_growth_kept rule startPos (bodyKept _ rfl) fuel _ _ _)
          fun grown => ?_
        exact preserves_bind (lift_modify_kept fun _ => reset_kept _ _) fun _ => preserves_pure _
  · exact preserves_bind (lift_modify_kept (leave_quiet _)) fun _ => preserves_pure _

theorem observe_miss_kept (nonTerminal : NonTerminal CharT NodeType) (rule : RuleId)
    (startPos : Nat) :
    Preserves kept thrown (NonTerminal.observeMiss nonTerminal rule startPos) := by
  refine preserves_iff_wp.mpr fun state => ?_
  rw [NonTerminal.observeMiss, wp_bind, wp_onlyIf, wp_annotate, wp_lift_modify]
  unfold NonTerminal.recordRuleFailure
  refine ⟨fun reports => ?_, fun silent => ?_⟩
  · split_ifs with label name
    · exact closed.missed _ _ ⟨rfl, rfl, rfl⟩ rfl (record_failure_has_error _ _ _) (by simp [Notes.miss])
    · exact closed.missed _ _ ⟨rfl, rfl, rfl⟩ rfl (record_failure_has_error _ _ _) (by simp [Notes.miss])
    · exact absurd reports (by simp [NonTerminal.Reports, *])
  · rw [NonTerminal.Reports, not_or] at silent
    rw [wp_lift_modify, if_neg silent.1, if_neg silent.2]
    exact closed.refl state

theorem observe_failure_kept (nonTerminal : NonTerminal CharT NodeType) (rule : RuleId)
    (startPos : Nat) (ruleState : RuleState) :
    Preserves kept thrown (NonTerminal.observeFailure nonTerminal rule startPos ruleState) := by
  refine preserves_bind (observe_miss_kept nonTerminal rule startPos) fun _ => ?_
  refine preserves_bind (lift_read_kept _) fun context => ?_
  split
  · refine preserves_bind (annotate_kept fun _ => ⟨rfl, rfl⟩) fun _ => ?_
    refine preserves_bind (lift_modify_kept fun _ => ⟨⟨rfl, rfl, rfl⟩, rfl⟩) fun _ => ?_
    exact preserves_bind (observe_store_kept _ _ _ _) fun _ => preserves_pure _
  · exact preserves_bind (observe_store_kept _ _ _ _) fun _ => preserves_pure _

theorem observe_rule_kept (nonTerminal : NonTerminal CharT NodeType) (rule : RuleId)
    {body : Option (Observer CharT Observed)}
    (bodyKept : ∀ observer ∈ body, Preserves kept thrown observer) (fuel : Nat) :
    Preserves kept thrown (NonTerminal.observe nonTerminal rule body fuel) := by
  refine preserves_bind (lift_kept (preserves_announce _)) fun _ => ?_
  refine preserves_bind (lift_read_kept _) fun startPos => ?_
  refine preserves_bind (lift_modifyGet_kept fun context => ?_) fun row => ?_
  · unfold Context.ruleState
    split <;> exact ⟨⟨rfl, rfl, rfl⟩, rfl⟩
  refine preserves_ite (fun _ => ?_) fun _ => ?_
  · refine preserves_bind (observe_invoke_kept rule startPos bodyKept fuel) fun grown => ?_
    refine preserves_ite (fun _ => ?_) fun _ => observe_failure_kept _ _ _ _
    refine preserves_bind (lift_kept (build_node_quiet _ _ _ _)) fun node => ?_
    exact preserves_bind (observe_store_kept _ _ _ _) fun _ => preserves_pure _
  · refine preserves_bind (preserves_read _) fun deriv => ?_
    exact preserves_bind (lift_kept (replay_quiet _ _ _)) fun _ => preserves_pure _

end Rules

section Combinators

variable {kept thrown : Noted CharT → Noted CharT → Prop} [closed : QuietClosed kept thrown]

theorem observe_alt_kept {children : List (Observer CharT Observed)}
    (each : ∀ child ∈ children, Preserves kept thrown child) (index : Nat) :
    Preserves kept thrown (AlternationExpr.observeAlt index children) := by
  induction children generalizing index with
  | nil => exact preserves_pure _
  | cons child rest induction =>
      refine preserves_bind (each child List.mem_cons_self) fun found => ?_
      refine preserves_ite (fun _ => ?_) fun _ => ?_
      · exact preserves_bind (lift_modify_kept (stamp_winner_kept _ _)) fun _ => preserves_pure _
      · refine preserves_bind (lift_kept raise_quiet) fun _ => ?_
        exact induction (fun other member => each other (List.mem_cons_of_mem _ member)) _

theorem observe_loop_kept
    (cleared : Preserves kept thrown
      (lift (Comp.modify fun context => context.setCut false) : Observer CharT Unit))
    {skip : Observer CharT Unit} (skipKept : Preserves kept thrown skip)
    {child : Observer CharT Observed} (childKept : Preserves kept thrown child) (maxRep : Int)
    (node : NodePtr) (fuel loopCount lastSuccessState : Nat) :
    Preserves kept thrown
      (observeLoop skip child maxRep node fuel loopCount lastSuccessState) := by
  induction fuel generalizing loopCount lastSuccessState with
  | zero => exact preserves_exhaust
  | succ fuel induction =>
      refine preserves_bind (preserves_onlyIf fun _ => skipKept) fun _ => ?_
      refine preserves_bind (lift_read_kept _) fun startState => preserves_bind cleared fun _ => ?_
      refine preserves_bind childKept fun found => ?_
      refine preserves_ite (fun _ => ?_) fun _ => preserves_pure _
      refine preserves_bind (lift_read_kept _) fun here => ?_
      refine preserves_bind (lift_modify_kept (push_child_kept node _)) fun _ => ?_
      refine preserves_ite (fun _ => preserves_pure _) fun _ => ?_
      exact preserves_bind (induction _ _) fun _ => preserves_pure _

theorem repeat_finish_quiet (maxRep : Int) (node : NodePtr) (ended : LoopExit) :
    Preserves Quiet Quiet (repeatFinish maxRep node ended : Parser CharT ParseResult) := by
  refine preserves_bind (preserves_onlyIf fun _ => preserves_modify fun _ => ⟨⟨rfl, rfl, rfl⟩, rfl⟩)
    fun _ => preserves_bind (preserves_onlyIf fun _ => raise_quiet) fun _ => ?_
  exact preserves_bind (preserves_modify fun _ => ⟨⟨rfl, rfl, rfl⟩, rfl⟩) fun _ => preserves_pure _

theorem observe_repeat_kept {outer outerThrown : Noted CharT → Noted CharT → Prop}
    (enclose : ∀ {body : Observer CharT Observed}, Preserves kept thrown body →
      Preserves outer outerThrown (lift (Comp.modify Context.initCut) >>= fun _ =>
        Comp.guarded body (onPlain Context.removeCut)))
    (cleared : Preserves kept thrown
      (lift (Comp.modify fun context => context.setCut false) : Observer CharT Unit))
    {skip : Observer CharT Unit} (skipKept : Preserves kept thrown skip)
    {child : Observer CharT Observed} (childKept : Preserves kept thrown child) (fuel minRep : Nat)
    (maxRep : Int) : Preserves outer outerThrown (observeRepeat fuel skip child minRep maxRep) := by
  refine enclose ?_
  refine preserves_bind (lift_read_kept _) fun initState => ?_
  refine preserves_bind (lift_modifyGet_kept make_node_kept) fun node => ?_
  refine preserves_bind (lift_modify_kept fun _ => update_node_kept _ _ _) fun _ => ?_
  refine preserves_bind (observe_loop_kept cleared skipKept childKept maxRep node fuel 0 _)
    fun found => ?_
  refine preserves_ite (fun _ => ?_) fun _ => ?_
  · exact preserves_bind (lift_modify_kept (reset_kept _)) fun _ => preserves_pure _
  · refine preserves_bind (lift_kept (repeat_finish_quiet _ _ _)) fun result => ?_
    exact preserves_bind (preserves_read _) fun stop => preserves_pure _

end Combinators

section Expressions

/-- A scope of its own keeps what is executed in it from the scopes outside. -/
theorem scope_closed {before : Context CharT} {notes : Notes} {last : Noted CharT}
    (step : Enclosed ⟨before.initCut, notes⟩ last) :
    last.plain.removeCut.cutStack = before.cutStack ∧
      ∃ cuts, last.notes.cuts = notes.cuts ++ cuts ∧
        ∀ cut ∈ cuts, before.cutStack.length < cut.depth := by
  obtain ⟨cuts, noted, deep, tail, length⟩ := step
  refine ⟨?_, cuts, noted, deep⟩
  unfold Context.removeCut
  cases stack : last.plain.cutStack with
  | nil =>
      rw [stack] at length
      cases length
  | cons scope outer =>
      rw [stack] at tail
      dsimp only
      split_ifs <;> exact tail

/-- What happens in scopes of its own only. -/
def Aloof (before after : Noted CharT) : Prop :=
  after.plain.cutStack = before.plain.cutStack ∧
    ∃ cuts, after.notes.cuts = before.notes.cuts ++ cuts ∧
      ∀ cut ∈ cuts, before.plain.cutStack.length < cut.depth

theorem Aloof.recorded {before after : Noted CharT} (aloof : Aloof before after) :
    Recorded before after := by
  obtain ⟨same, cuts, noted, deeper⟩ := aloof
  refine ⟨cuts, noted, fun cut member => Nat.le_of_lt (deeper cut member), ?_⟩
  exact same.trans (write_cuts_deeper deeper).symm

theorem observe_scope_aloof {body : Observer CharT Observed}
    (bodyKept : Preserves Enclosed Enclosed body) :
    Preserves Aloof Aloof (lift (Comp.modify Context.initCut) >>= fun _ =>
      Comp.guarded body (onPlain Context.removeCut)) := by
  change Preserves Aloof Aloof (Comp.modify (onPlain Context.initCut) >>= fun _ =>
    Comp.guarded body (onPlain Context.removeCut))
  exact preserves_scope bodyKept (fun _ _ => scope_closed) fun _ _ => scope_closed

theorem enclosed_of_recorded {Value : Type} {observer : Observer CharT Value}
    (kept : Preserves Recorded Recorded observer) : Preserves Enclosed Enclosed observer :=
  preserves_mono kept (fun _ _ => Executes.enclosed) fun _ _ => Executes.enclosed

theorem observe_cut_recorded : Preserves Recorded Recorded (observeCut : Observer CharT Observed) := by
  intro state
  refine ⟨[⟨state.plain.position, state.plain.cutStack.length⟩], rfl, by simp, ?_⟩
  change (state.plain.setCut true).cutStack = _
  unfold Context.setCut writeCuts
  cases stack : state.plain.cutStack with
  | nil => exact stack
  | cons scope outer => simp [writeCut]

theorem set_cut_enclosed (committed : Bool) :
    Preserves Enclosed Enclosed
      (lift (Comp.modify fun context => context.setCut committed) : Observer CharT Unit) := by
  intro state
  have step := set_cut_stable committed state.plain
  exact ⟨[], (List.append_nil _).symm, nofun, step.scopes, step.depth⟩

/-- What a relation owes to be kept by expressions, when `inner` is kept inside
the scopes that they open. -/
class ScopeClosed (kept : Noted CharT → Noted CharT → Prop) extends QuietClosed kept kept where
  inner : Noted CharT → Noted CharT → Prop
  inside : QuietClosed inner inner
  weakens : ∀ before after, kept before after → inner before after
  cleared : Preserves inner inner
    (lift (Comp.modify fun context => context.setCut false) : Observer CharT Unit)
  closes : ∀ state last, inner (onPlain Context.initCut state) last →
    kept state (onPlain Context.removeCut last)
  commits : Preserves kept kept (observeCut : Observer CharT Observed)
  toggles : ∀ (state : Noted CharT) (skips : Bool),
    kept state (onPlain (fun context => { context with skipEnabled := skips }) state)

instance : ScopeClosed (@Recorded CharT) where
  inner := Enclosed
  inside := inferInstance
  weakens _ _ := Executes.enclosed
  cleared := set_cut_enclosed false
  closes _ _ step := Aloof.recorded (scope_closed step)
  commits := observe_cut_recorded
  toggles _ _ := ⟨[], (List.append_nil _).symm, nofun, rfl⟩

variable {kept : Noted CharT → Noted CharT → Prop} [scopes : ScopeClosed kept]

theorem inner_of_kept {Value : Type} {observer : Observer CharT Value}
    (keeps : Preserves kept kept observer) : Preserves scopes.inner scopes.inner observer :=
  preserves_mono keeps scopes.weakens scopes.weakens

theorem observe_scope_kept {body : Observer CharT Observed}
    (bodyKept : Preserves scopes.inner scopes.inner body) :
    Preserves kept kept (lift (Comp.modify Context.initCut) >>= fun _ =>
      Comp.guarded body (onPlain Context.removeCut)) := by
  change Preserves kept kept (Comp.modify (onPlain Context.initCut) >>= fun _ =>
    Comp.guarded body (onPlain Context.removeCut))
  exact preserves_scope bodyKept scopes.closes scopes.closes

theorem observe_toggle_kept (skips : Bool) :
    Preserves kept kept (lift (Comp.modify fun context : Context CharT =>
      { context with skipEnabled := skips }) : Observer CharT Unit) :=
  fun state => scopes.toggles state skips

theorem observe_skipper_kept {observes : RuleId → Observer CharT Observed}
    (keeps : ∀ rule, Preserves kept kept (observes rule)) :
    Preserves kept kept (observeSkipper observes) := by
  refine preserves_bind (lift_read_kept _) fun context => ?_
  split
  · refine preserves_bind (observe_toggle_kept false) fun _ => preserves_bind (keeps _) fun _ => ?_
    exact observe_toggle_kept _
  · exact preserves_pure ()

theorem observe_lexeme_kept {child : Observer CharT Observed} (keeps : Preserves kept kept child) :
    Preserves kept kept (LexemeExpr.observe child) := by
  refine preserves_bind (lift_read_kept _) fun prev => ?_
  change Preserves kept kept
    (Comp.modify (onPlain fun context : Context CharT => { context with skipEnabled := false }) >>=
      fun _ => Comp.guarded child (onPlain fun context => { context with skipEnabled := prev }))
  have toggled : ∀ state last : Noted CharT,
      kept (onPlain (fun context => { context with skipEnabled := false }) state) last →
      kept state (onPlain (fun context => { context with skipEnabled := prev }) last) :=
    fun state last step => scopes.trans _ _ _ (scopes.trans _ _ _ (scopes.toggles state false) step)
      (scopes.toggles last prev)
  exact preserves_scope keeps toggled toggled

variable [PegValue CharT]

omit scopes in
theorem observe_all_kept {thrown : Noted CharT → Noted CharT → Prop}
    {observes : RuleId → Observer CharT Observed} {fuel : Nat} {children : List (Expr CharT)}
    (each : ∀ child ∈ children, Preserves kept thrown (observeExpr observes fuel child)) :
    ∀ observer ∈ observeAll observes fuel children, Preserves kept thrown observer := by
  induction children with
  | nil => exact nofun
  | cons child rest induction =>
      intro observer member
      rcases List.mem_cons.mp member with rfl | later
      · exact each child List.mem_cons_self
      · exact induction (fun other inRest => each other (List.mem_cons_of_mem _ inRest)) observer later

theorem observe_expr_kept {observes : RuleId → Observer CharT Observed}
    (keeps : ∀ rule, Preserves kept kept (observes rule)) (fuel : Nat) (expr : Expr CharT) :
    Preserves kept kept (observeExpr observes fuel expr) := by
  have skips := observe_skipper_kept keeps
  have inside := scopes.inside
  induction expr using Expr.induct with
  | terminal value => exact observe_attempt_kept (terminal_attempts value)
  | terminalSeq values => exact observe_attempt_kept (terminal_seq_attempts values)
  | token value => exact observe_attempt_kept (token_attempts value)
  | matcher fn => exact observe_leaf_kept (matcher_kept fn)
  | empty => exact observe_leaf_kept (preserves_pure _)
  | cut => exact scopes.commits
  | sequence children induction => exact observe_sequence_kept skips (observe_all_kept induction)
  | alternation children induction =>
      exact observe_scope_kept (observe_alt_kept
        (observe_all_kept fun child member => inner_of_kept (induction child member)) 0)
  | repetition kind child induction =>
      exact observe_repeat_kept observe_scope_kept scopes.cleared (inner_of_kept skips)
        (inner_of_kept induction) fuel _ _
  | not child induction => exact observe_predicate_kept induction true
  | and child induction => exact observe_predicate_kept induction false
  | lexeme child induction => exact observe_lexeme_kept induction
  | rule id => exact keeps id

variable (grammar : Grammar CharT NodeType)

theorem observe_kept (fuel : Nat) (rule : RuleId) :
    Preserves kept kept (observe grammar fuel rule) := by
  induction fuel generalizing rule with
  | zero => exact preserves_exhaust
  | succ fuel induction =>
      refine observe_rule_kept _ rule (fun observer member => ?_) fuel
      obtain ⟨body, -, rfl⟩ := Option.map_eq_some_iff.mp member
      exact observe_expr_kept induction fuel body

end Expressions

section Effects

variable [PegValue CharT] (grammar : Grammar CharT NodeType)

/-- The cuts that an expression executes in the scope that is innermost when it
starts, by their positions. -/
def scopeCuts (fuel : Nat) (expr : Expr CharT) (context : Context CharT) : List Nat :=
  ((observeExpr (observe grammar fuel) fuel expr ⟨context, {}⟩).state.notes.cuts.filter
    fun cut => decide (cut.depth = context.cutStack.length)).map CutPoint.pos

/-- The scopes after such cuts: the last one counts. -/
def commitLast (stack : List CutRecord) (cuts : List Nat) : List CutRecord :=
  match stack, cuts.getLast? with
  | _ :: outer, some pos => ⟨pos, true⟩ :: outer
  | _, _ => stack

theorem commit_last_cons (scope : CutRecord) (outer : List CutRecord) (pos : Nat)
    (cuts : List Nat) :
    commitLast (scope :: outer) (pos :: cuts) = commitLast (⟨pos, true⟩ :: outer) cuts := by
  unfold commitLast
  rw [List.getLast?_cons]
  cases cuts.getLast? <;> rfl

theorem write_cuts_last (stack : List CutRecord) (cuts : List CutPoint) :
    writeCuts stack cuts =
      commitLast stack ((cuts.filter fun cut => decide (cut.depth = stack.length)).map
        CutPoint.pos) := by
  induction cuts generalizing stack with
  | nil => cases stack <;> rfl
  | cons cut rest induction =>
      rw [writeCuts, List.foldl_cons, ← writeCuts, induction, write_cut_length]
      cases stack with
      | nil => rfl
      | cons scope outer =>
          by_cases own : cut.depth = outer.length + 1
          · simp only [writeCut, List.filter_cons, List.length_cons, own, decide_true, if_true,
              List.map_cons, commit_last_cons]
          · simp only [writeCut, List.filter_cons, List.length_cons, own, decide_false, if_false,
              Bool.false_eq_true]

variable {grammar}

theorem observed_kept {fuel : Nat} {expr : Expr CharT} {context : Context CharT}
    {kept : Noted CharT → Noted CharT → Prop}
    (keeps : Preserves kept kept (observeExpr (observe grammar fuel) fuel expr))
    (ended : (grammar.eval fuel expr context).outcome ≠ .exhausted) :
    kept ⟨context, {}⟩ (observeExpr (observe grammar fuel) fuel expr ⟨context, {}⟩).state := by
  have step := keeps ⟨context, {}⟩
  have follows := expr_follows (observe_follows grammar fuel) fuel expr ⟨context, {}⟩
  cases run : (observeExpr (observe grammar fuel) fuel expr ⟨context, {}⟩).outcome with
  | returned value | thrown exn => rw [run] at step; exact step
  | exhausted =>
      refine absurd ?_ ended
      unfold erase at follows
      rw [Grammar.eval, ← follows, run]
      rfl

/-- What an expression that ends has done to the scopes around it. -/
theorem cut_stack_after {fuel : Nat} {expr : Expr CharT} {context : Context CharT}
    (ended : (grammar.eval fuel expr context).outcome ≠ .exhausted) :
    (grammar.eval fuel expr context).state.cutStack =
      commitLast context.cutStack (scopeCuts grammar fuel expr context) := by
  have keeps : Preserves Recorded Recorded (observeExpr (observe grammar fuel) fuel expr) :=
    observe_expr_kept (observe_kept grammar fuel) fuel expr
  obtain ⟨cuts, noted, -, wrote⟩ := observed_kept keeps ended
  have plain := (expr_follows (observe_follows grammar fuel) fuel expr).plain_state ⟨context, {}⟩
  rw [Grammar.eval, ← plain, wrote, write_cuts_last, scopeCuts, noted]
  rfl

theorem cut_after {fuel : Nat} {expr : Expr CharT} {context : Context CharT}
    (ended : (grammar.eval fuel expr context).outcome ≠ .exhausted) :
    (grammar.eval fuel expr context).state.cut =
      (context.cut || decide (context.cutStack ≠ [] ∧ scopeCuts grammar fuel expr context ≠ [])) := by
  unfold Context.cut
  rw [cut_stack_after ended]
  unfold commitLast
  cases context.cutStack with
  | nil => simp
  | cons scope outer =>
      cases last : (scopeCuts grammar fuel expr context).getLast? with
      | none => simp [List.getLast?_eq_none_iff.mp last]
      | some pos =>
          have some : scopeCuts grammar fuel expr context ≠ [] := by
            rintro none
            rw [none] at last
            cases last
          simp [some]

end Effects

end Peglib.CutScopes
