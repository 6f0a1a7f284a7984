import Peglib.CommitEvaluation
import Peglib.Commitments
import Peglib.MemoAnswers

/-!
# Runs in which no rule commits its caller

Grammars with cuts, without recovery. While every rule is applied in one skip mode
at a position, is not in progress there and executes no cut in the scope around it,
a row holds the memo-free verdict of its rule, and every evaluation ends as its own
memo-free verdict says.
-/

namespace Peglib.DiscreetRuns

open Peglib.TracedComputation Peglib.WeakestPrecondition Peglib.Preservation Peglib.Halting
open Peglib.ParseError Peglib.ParseContext Peglib.Expressions Peglib.Rules
open Peglib.ControlDiscipline Peglib.Parametricity Peglib.PegSemantics Peglib.SuccessfulAnswers
open Peglib.Commitments (Bare)
open Peglib.Termination Peglib.MemoAnswers Peglib.CommitSemantics Peglib.CommitEvaluation
open Peglib.Evaluation (Invariant Framed Admits mode)
open Peglib.PlantedSeeds (Shows shows_success shows_failure set_frame_kept leave_active leave_kept)

set_option autoImplicit false

variable {CharT NodeType : Type} [PegValue CharT]

def RuleVerdict (grammar : Grammar CharT NodeType) (input : List CharT) (mode : Option RuleId)
    (rule : RuleId) (pos : Nat) (verdict : Verdict) : Prop :=
  Cutting grammar input (reading input) mode (.expr (.rule rule)) pos verdict

/-- Evaluated without the memo, the rule applied executes no cut in the scope
around it. -/
def Sealed (grammar : Grammar CharT NodeType) (input : List CharT) (moment : Moment CharT) : Prop :=
  match moment.event with
  | .apply rule => ∀ outcome committed, RuleVerdict grammar input (mode moment.context) rule
      moment.context.position (.ended outcome committed) → committed = false
  | _ => True

/-- A rule that is not in progress is applied in its skip mode at the position,
and executes no cut in the scope around it. -/
structure Discreet (grammar : Grammar CharT NodeType) (input : List CharT)
    (single : RuleId → Nat → Option RuleId) (moment : Moment CharT) : Prop where
  inMode : InMode single moment
  notReentered : NotReentered moment
  isSealed : Sealed grammar input moment

section Enclosed

variable {grammar : Grammar CharT NodeType} {input : List CharT} {skipper : Option RuleId}
  {matched : (Context CharT → Span → Option Span) → Nat → Option Nat → Prop}

/-- No cut of a task is bare. -/
def Enclosed (grammar : Grammar CharT NodeType) (skipper : Option RuleId) (skips : Bool) :
    Pending CharT → Prop
  | .expr expr => ¬Bare grammar skipper skips expr
  | .seq _ children => (∀ child ∈ children, ¬Bare grammar skipper skips child) ∧
      (skips = true → ∀ id, skipper = some id → ¬Bare grammar skipper false (.rule id))
  | .alt _ | .loop _ _ _ => True
  | .skip => skips = true → ∀ id, skipper = some id → ¬Bare grammar skipper false (.rule id)

theorem enclosed_uncommitted {mode : Option RuleId} {task : Pending CharT} {pos : Nat}
    {verdict : Verdict} (cutting : Cutting grammar input matched mode task pos verdict) :
    ∀ skips : Bool, mode = (if skips then skipper else none) →
      Enclosed grammar skipper skips task → ∀ {outcome : Option Nat} {committed : Bool},
      verdict = .ended outcome committed → committed = false := by
  induction cutting with
  | terminal | terminalSeq | token | matcher _ | empty | seqNil | altNil | skipOff
  | altHit _ _ | loopLast _ _ _ _ _ =>
      intro skips set enclosed outcome committed ended
      cases ended
      rfl
  | cut =>
      intro skips set enclosed
      exact absurd Bare.cut enclosed
  | sequence _ induction =>
      intro skips set enclosed
      refine induction skips set ⟨fun child member bare => enclosed (.sequence member bare), ?_⟩
      rintro rfl id configured bare
      exact enclosed (.skipped configured bare)
  | alternation _ induction | repetition _ induction =>
      intro skips set enclosed
      exact induction skips set trivial
  | @not _ _ _ found _ induction =>
      intro skips set enclosed outcome committed ended
      cases found with
      | raised => cases ended
      | ended before own =>
          cases ended
          exact induction skips set (fun bare => enclosed (.not bare)) rfl
  | @and _ _ _ found _ induction =>
      intro skips set enclosed outcome committed ended
      cases found with
      | raised => cases ended
      | ended before own =>
          cases ended
          exact induction skips set (fun bare => enclosed (.and bare)) rfl
  | lexeme _ induction =>
      intro skips set enclosed
      exact induction false rfl fun bare => enclosed (.lexeme bare)
  | rule assigned _ induction =>
      intro skips set enclosed
      exact induction skips set fun bare => enclosed (.rule assigned bare)
  | seqUnskipped _ _ | seqRaised _ _ _ _ | altRaised _ _ | altCommitted _ _ | loopUnskipped _ _
  | loopRaised _ _ _ _ =>
      intro skips set enclosed outcome committed ended
      cases ended
  | @seqFail _ first _ _ _ _ _ _ _ _ skipped failed =>
      intro skips set enclosed outcome committed ended
      cases ended
      have before := skipped (!first && skips) (by cases first <;> simp [set])
        (fun on => enclosed.2 (by simp at on; exact on.2)) rfl
      rw [before, failed skips set (enclosed.1 _ List.mem_cons_self) rfl]
      rfl
  | @seqStep _ first _ _ _ _ _ _ _ found _ _ _ skipped hit rest =>
      intro skips set enclosed outcome committed ended
      obtain ⟨own, same, rfl⟩ := after_ended ended
      have before := skipped (!first && skips) (by cases first <;> simp [set])
        (fun on => enclosed.2 (by simp at on; exact on.2)) rfl
      rw [before, hit skips set (enclosed.1 _ List.mem_cons_self) rfl, rest skips set
        ⟨fun child member => enclosed.1 child (List.mem_cons_of_mem _ member), enclosed.2⟩ same]
      rfl
  | altMiss _ _ _ rest =>
      intro skips set enclosed
      exact rest skips set trivial
  | loopFail _ _ _ _ =>
      intro skips set enclosed outcome committed ended
      unfold Verdict.exhausted at ended
      split_ifs at ended <;> cases ended <;> rfl
  | loopMore _ _ _ _ _ _ rest =>
      intro skips set enclosed
      exact rest skips set trivial
  | @skipRun id _ found _ induction =>
      intro skips set enclosed outcome committed ended
      cases found with
      | raised => cases ended
      | ended before own =>
          cases ended
          cases skips with
          | false => cases set
          | true => exact induction false rfl (enclosed rfl id set.symm) rfl

/-- An application of a rule without bare cuts. -/
theorem sealed_of_enclosed {moment : Moment CharT}
    (enclosed : ∀ rule skips, ¬Bare grammar moment.context.skipper skips (.rule rule)) :
    Sealed grammar input moment := by
  obtain ⟨event, context⟩ := moment
  cases event with
  | apply rule =>
      intro outcome committed verdict
      exact enclosed_uncommitted verdict context.skipEnabled rfl (enclosed rule _) rfl
  | _ => trivial

end Enclosed

section Rows

variable (grammar : Grammar CharT NodeType) (input : List CharT)
  (single : RuleId → Nat → Option RuleId)

/-- The rules in progress are `keys`, and the rows of all rules but the exempt
ones hold their memo-free verdicts. -/
structure Truthful (keys exempt : List (RuleId × Nat)) (context : Context CharT) : Prop where
  source : context.input = input
  skipper : context.skipper = none ∨ context.skipper = grammar.skipper
  active : active context = keys
  rows : ∀ pos rule row, context.mem pos rule = some row → (rule, pos) ∉ exempt →
    ∃ outcome, Shows row pos outcome ∧
      RuleVerdict grammar input (single rule pos) rule pos (.ended outcome false)

def discreet : Contract (Moment CharT) (Context CharT) Exn :=
  ⟨Discreet grammar input single, fun moment => ∃ keys, Truthful grammar input single keys keys moment.context,
    fun _ last => ∃ keys, Truthful grammar input single keys keys last⟩

variable {grammar input single} {keys exempt : List (RuleId × Nat)}

theorem Truthful.moved {before after : Context CharT}
    (truthful : Truthful grammar input single keys exempt before)
    (source : after.input = before.input) (same : after.skipper = before.skipper)
    (lrStack : after.lrStack = before.lrStack)
    (mem : ∀ pos rule row, after.mem pos rule = some row → before.mem pos rule = some row) :
    Truthful grammar input single keys exempt after where
  source := source.trans truthful.source
  skipper := by
    rw [same]
    exact truthful.skipper
  active := by
    rw [← truthful.active]
    unfold ControlDiscipline.active
    rw [lrStack]
  rows pos rule row held := truthful.rows pos rule row (mem pos rule row held)

theorem Truthful.closed {context : Context CharT}
    (truthful : Truthful grammar input single keys exempt context) :
    Truthful grammar input single keys exempt context.removeCut := by
  unfold Context.removeCut
  split
  · exact truthful
  · split_ifs
    · refine truthful.moved rfl rfl rfl fun pos rule row held => ?_
      dsimp only at held
      split_ifs at held
      exact held
    · exact truthful.moved rfl rfl rfl fun _ _ _ => id

theorem truthful_invariant (keys : List (RuleId × Nat)) :
    Invariant (discreet grammar input single) input (Truthful grammar input single keys keys) where
  input _ truthful := truthful.source
  moved before after truthful step := by
    refine truthful.moved step.input step.skipper step.lrStack fun pos rule row => ?_
    rw [step.mem]
    exact id
  opened _ truthful := truthful.moved rfl rfl rfl fun _ _ _ => id
  cleared context truthful := by
    unfold Context.setCut
    split
    · exact truthful
    · exact truthful.moved rfl rfl rfl fun _ _ _ => id
  closed _ truthful := truthful.closed
  failure _ truthful := ⟨keys, truthful⟩
  throws _ _ truthful _ _ := ⟨keys, truthful⟩
  unwinds _ _ met := met.imp fun _ truthful => truthful.closed
  relabels _ _ _ met := met.imp fun _ truthful => truthful.moved rfl rfl rfl fun _ _ _ => id

theorem Truthful.idle {context : Context CharT} (truthful : Truthful grammar input single keys exempt context)
    {rule : RuleId} {pos : Nat} :
    context.lrInProgress rule pos = true ↔ (rule, pos) ∈ keys := by
  rw [in_progress_iff, truthful.active]

theorem Truthful.reseeded {context : Context CharT} {rule : RuleId} {pos : Nat}
    (truthful : Truthful grammar input single keys exempt context) (member : (rule, pos) ∈ exempt)
    (entry : RuleState) :
    Truthful grammar input single keys exempt (context.updateRuleState rule pos entry).2 := by
  unfold Context.updateRuleState
  split
  · refine ⟨truthful.source, truthful.skipper, truthful.active, fun pos' rule' row held outside => ?_⟩
    rcases Memo.write_eq_some held with ⟨rfl, rfl, -⟩ | ⟨-, before⟩
    · exact absurd member outside
    · exact truthful.rows pos' rule' row before outside
  · exact truthful

theorem Truthful.settled {context : Context CharT} {rule : RuleId} {pos : Nat}
    (truthful : Truthful grammar input single keys ((rule, pos) :: keys) context) (entry : RuleState)
    {outcome : Option Nat} (shown : Shows entry pos outcome)
    (verdict : RuleVerdict grammar input (single rule pos) rule pos (.ended outcome false)) :
    Truthful grammar input single keys keys (context.updateRuleState rule pos entry).2 := by
  unfold Context.updateRuleState
  split
  · refine ⟨truthful.source, truthful.skipper, truthful.active, fun pos' rule' row held outside => ?_⟩
    rcases Memo.write_eq_some held with ⟨rfl, rfl, rfl⟩ | ⟨different, before⟩
    · exact ⟨outcome, shown, verdict⟩
    · refine truthful.rows pos' rule' row before fun member => ?_
      rcases List.mem_cons.mp member with same | inner
      · exact different ⟨congrArg Prod.snd same, congrArg Prod.fst same⟩
      · exact outside inner
  · next absent =>
      refine ⟨truthful.source, truthful.skipper, truthful.active, fun pos' rule' row held outside => ?_⟩
      refine truthful.rows pos' rule' row held fun member => ?_
      rcases List.mem_cons.mp member with same | inner
      · obtain ⟨rfl, rfl⟩ := Prod.mk.inj same
        rw [absent] at held
        cases held
      · exact outside inner

theorem store_discreet {rule : RuleId} {pos : Nat} {entry : RuleState} {permits : Prop}
    {context : Context CharT} {post : Bool → Context CharT → Prop}
    (truthful : Truthful grammar input single keys keys (context.updateRuleState rule pos entry).2)
    (later : post (context.updateRuleState rule pos entry).1
      (context.updateRuleState rule pos entry).2) :
    wp (raising (discreet grammar input single) permits) (NonTerminal.store rule pos entry) post
      context := by
  rw [NonTerminal.store, wp_bind, wp_modifyGet, wp_bind, announce, wp_announce]
  exact fun _ => ⟨⟨keys, truthful⟩, later⟩

omit [PegValue CharT] in
theorem update_stack (context : Context CharT) (rule : RuleId) (pos : Nat) (entry : RuleState) :
    (context.updateRuleState rule pos entry).2.cutStack = context.cutStack := by
  unfold Context.updateRuleState
  split <;> rfl

end Rows

section Growth

variable {grammar : Grammar CharT NodeType} {input : List CharT}
  {single : RuleId → Nat → Option RuleId} {keys : List (RuleId × Nat)}

def shownOutcome (best : ParseResult) (stop : Nat) : Option Nat :=
  if best.success then some stop else none

/-- The head of the growth loop, with the verdict of the body once it has matched. -/
structure Growing (grammar : Grammar CharT NodeType) (input : List CharT)
    (single : RuleId → Nat → Option RuleId) (keys : List (RuleId × Nat)) (rule : RuleId)
    (body : Expr CharT) (startPos : Nat) (start context : Context CharT) (best : ParseResult)
    (lastPos : Nat) : Prop where
  truthful : Truthful grammar input single ((rule, startPos) :: keys) ((rule, startPos) :: keys) context
  framed : Framed start context
  commits : Commits false start.cutStack context.cutStack
  last : (NonTerminal.frame context).lastPos = lastPos
  failed : best.success = false → lastPos = startPos
  matched : best.success = true → Cutting grammar input (reading input) (mode start) (.expr body)
    startPos (.ended (some lastPos) false)

/-- What the loop leaves: the verdict of the body. -/
structure Grown (grammar : Grammar CharT NodeType) (input : List CharT)
    (single : RuleId → Nat → Option RuleId) (keys : List (RuleId × Nat)) (rule : RuleId)
    (body : Expr CharT) (startPos : Nat) (start last : Context CharT)
    (grown : ParseResult × RuleState) : Prop where
  growing : Growing grammar input single keys rule body startPos start last grown.1 grown.2.lastPos
  verdict : Cutting grammar input (reading input) (mode start) (.expr body) startPos
    (.ended (shownOutcome grown.1 grown.2.lastPos) false)

theorem grow_loop_conforms {rule : RuleId} {body : Expr CharT}
    {parseBody : Parser CharT ParseResult} {startPos : Nat}
    (conforms : Conforms (discreet grammar input single)
      (Truthful grammar input single ((rule, startPos) :: keys) ((rule, startPos) :: keys)) parseBody
      fun mode pos verdict => Cutting grammar input (reading input) mode (.expr body) pos verdict)
    (stable : StableParser parseBody) (start : Context CharT) {permits : Prop}
    (isSealed : ∀ outcome committed, Cutting grammar input (reading input) (mode start) (.expr body)
      startPos (.ended outcome committed) → committed = false)
    (raises : Cutting grammar input (reading input) (mode start) (.expr body) startPos .raised →
      permits) (fuel : Nat) (best : ParseResult) (ruleState : RuleState) (context : Context CharT)
    (growing : Growing grammar input single keys rule body startPos start context best
      ruleState.lastPos) :
    wp (raising (discreet grammar input single) permits)
      (NonTerminal.growLoop rule startPos parseBody fuel best ruleState)
      (fun grown last => Grown grammar input single keys rule body startPos start last grown)
      context := by
  have own : (rule, startPos) ∈ (rule, startPos) :: keys := List.mem_cons_self
  induction fuel generalizing best ruleState context with
  | zero => exact trivial
  | succ fuel induction =>
      rw [NonTerminal.growLoop, wp_bind, wp_modify, wp_bind, wp_read, wp_bind]
      have cleared : wp (raising (discreet grammar input single) permits)
          (Comp.onlyIf ((NonTerminal.frame (context.reset startPos)).isHead = true ∧
              best.success = true)
            (Comp.modify fun context => context.clearSiblingsAt startPos rule))
          (fun _ here => Truthful grammar input single ((rule, startPos) :: keys)
              ((rule, startPos) :: keys) here ∧ Framed start here ∧ here.position = startPos ∧
            here.lrStack = context.lrStack ∧ here.cutStack = context.cutStack)
          (context.reset startPos) := by
        rw [wp_onlyIf, wp_modify]
        refine ⟨fun _ => ⟨?_, ⟨growing.framed.skipper, growing.framed.skipEnabled⟩, rfl, rfl, rfl⟩,
          fun _ => ⟨growing.truthful.moved rfl rfl rfl fun _ _ _ => id,
            ⟨growing.framed.skipper, growing.framed.skipEnabled⟩, rfl, rfl, rfl⟩⟩
        refine growing.truthful.moved rfl rfl rfl fun pos rule row held => ?_
        simp only [Context.clearSiblingsAt] at held
        split_ifs at held
        exact held
      refine wp_post cleared ?_
      rintro ⟨⟩ here ⟨ready, framed, at_start, sameStack, sameScopes⟩
      rw [wp_bind]
      refine wp_post (wp_preserves (conforms here ready permits fun raised => ?_) stable) ?_
      · rw [framed.mode_eq, at_start] at raised
        exact raises raised
      rintro result after ⟨⟨kept, framedAfter, committed, commits, ended, back⟩, step⟩
      rw [framed.mode_eq, at_start] at ended
      obtain rfl := isSealed _ _ ended
      have lastAfter : (NonTerminal.frame after).lastPos = ruleState.lastPos := by
        rw [← growing.last]
        exact frame_last_of_frames (step.frames.trans (by rw [sameStack]))
      have whole := framed.trans framedAfter
      have stays : Commits false start.cutStack after.cutStack :=
        growing.commits.trans (sameScopes ▸ commits)
      rw [wp_bind, wp_read, wp_ite]
      dsimp only [id]
      constructor
      · intro success
        rw [if_pos success] at ended
        have forward : startPos ≤ after.position := cutting_forward (reading_forward input) ended rfl
        rw [wp_ite, lastAfter]
        constructor
        · intro ahead
          have marked := set_frame_kept kept.active after.position
          have markedTruthful : Truthful grammar input single ((rule, startPos) :: keys)
              ((rule, startPos) :: keys) (NonTerminal.setFrameLastPos after.position after) :=
            ⟨kept.source, kept.skipper, marked.1.trans kept.active, kept.rows⟩
          have stored := markedTruthful.reseeded own ⟨after.position, result⟩
          have framing := update_framed (NonTerminal.setFrameLastPos after.position after) rule
            startPos ⟨after.position, result⟩
          have next : Growing grammar input single keys rule body startPos start
              ((NonTerminal.setFrameLastPos after.position after).updateRuleState rule startPos
                ⟨after.position, result⟩).2 result after.position := by
            refine ⟨stored, ?_, ?_, ?_, ?_, fun _ => ended⟩
            · exact ⟨framing.1.skipper.trans whole.skipper,
                framing.1.skipEnabled.trans whole.skipEnabled⟩
            · rw [update_stack]
              exact stays
            · unfold NonTerminal.frame
              rw [framing.2.1]
              exact marked.2
            · simp [success]
          rw [wp_bind, wp_modify, wp_bind]
          refine store_discreet stored ?_
          rw [wp_ite]
          refine ⟨fun _ => induction result ⟨after.position, result⟩ _ next, fun _ => ⟨next, ?_⟩⟩
          rw [shownOutcome, if_pos success]
          exact ended
        · intro stuck
          -- A first match is here without width, and a later one is the first again.
          have ends : after.position = ruleState.lastPos := by
            cases matched : best.success with
            | false =>
                have begun := growing.failed matched
                omega
            | true =>
                have same := cutting_unique (reading_functional input) (growing.matched matched) ended
                injection same with found
                exact (Option.some.inj found).symm
          have keptSuccess : (if best.success then best else result).success = true := by
            split_ifs with matched
            · exact matched
            · exact success
          have stored := kept.reseeded own
            ⟨ruleState.lastPos, if best.success then best else result⟩
          have framing := update_framed after rule startPos
            ⟨ruleState.lastPos, if best.success then best else result⟩
          rw [wp_bind]
          refine store_discreet stored ?_
          rw [wp_pure]
          rw [ends] at ended
          refine ⟨⟨stored, whole.trans framing.1, ?_, ?_, ?_, fun _ => ended⟩, ?_⟩
          · rw [update_stack]
            exact stays
          · unfold NonTerminal.frame
            rw [framing.2.1]
            exact lastAfter
          · simp [keptSuccess]
          · rw [shownOutcome, if_pos keptSuccess]
            exact ended
      · intro failure
        rw [if_neg failure] at ended
        have unmatched : best.success = false := by
          by_contra matched
          cases cutting_unique (reading_functional input)
            (growing.matched (by simpa using matched)) ended
        refine ⟨⟨kept, whole, stays, lastAfter, growing.failed, growing.matched⟩, ?_⟩
        rw [shownOutcome, if_neg (by simp [unmatched])]
        exact ended

theorem enter_truthful (rule : RuleId) {context : Context CharT}
    (truthful : Truthful grammar input single keys keys context) :
    Truthful grammar input single ((rule, context.position) :: keys)
      ((rule, context.position) :: keys)
      ((Context.lrPush { context with mem := context.mem.write context.position rule {} }
        ⟨rule, context.position, context.position, false⟩).updateRuleState rule context.position
          ⟨context.position, {}⟩).2 := by
  have entered : Truthful grammar input single ((rule, context.position) :: keys)
      ((rule, context.position) :: keys)
      (Context.lrPush { context with mem := context.mem.write context.position rule {} }
        ⟨rule, context.position, context.position, false⟩) := by
    refine ⟨truthful.source, truthful.skipper, ?_, fun pos' rule' row held outside => ?_⟩
    · rw [← truthful.active]
      rfl
    · rcases Memo.write_eq_some held with ⟨rfl, rfl, -⟩ | ⟨-, before⟩
      · exact absurd List.mem_cons_self outside
      · exact truthful.rows pos' rule' row before fun inner => outside (List.mem_cons_of_mem _ inner)
  exact entered.reseeded List.mem_cons_self _

theorem invoke_conforms {rule : RuleId} {body : Expr CharT}
    {parseBody : Parser CharT ParseResult} {context : Context CharT}
    (conforms : Conforms (discreet grammar input single)
      (Truthful grammar input single ((rule, context.position) :: keys)
        ((rule, context.position) :: keys)) parseBody
      fun mode pos verdict => Cutting grammar input (reading input) mode (.expr body) pos verdict)
    (stable : StableParser parseBody) {permits : Prop}
    (isSealed : ∀ outcome committed, Cutting grammar input (reading input) (mode context)
      (.expr body) context.position (.ended outcome committed) → committed = false)
    (raises : Cutting grammar input (reading input) (mode context) (.expr body) context.position
      .raised → permits) (fuel : Nat)
    (truthful : Truthful grammar input single keys keys context) :
    wp (raising (discreet grammar input single) permits)
      (NonTerminal.invoke rule context.position (some parseBody) fuel)
      (fun grown last => Truthful grammar input single keys ((rule, context.position) :: keys) last ∧
        Framed context last ∧ Commits false context.cutStack last.cutStack ∧
        last.position = grown.2.lastPos ∧
        (grown.1.success = false → grown.2.lastPos = context.position) ∧
        Cutting grammar input (reading input) (mode context) (.expr body) context.position
          (.ended (shownOutcome grown.1 grown.2.lastPos) false))
      { context with mem := context.mem.write context.position rule {} } := by
  have entered := enter_truthful rule truthful
  have framing := update_framed (Context.lrPush
    { context with mem := context.mem.write context.position rule {} }
    ⟨rule, context.position, context.position, false⟩) rule context.position ⟨context.position, {}⟩
  rw [NonTerminal.invoke, wp_bind, wp_modify, wp_bind, NonTerminal.parseImpl, wp_bind]
  refine store_discreet entered ?_
  rw [wp_bind]
  refine wp_post (grow_loop_conforms conforms stable context isSealed raises fuel {}
    ⟨context.position, {}⟩ _ ⟨entered, ⟨framing.1.skipper, framing.1.skipEnabled⟩, ?_, ?_,
      fun _ => rfl, by simp⟩) ?_
  · rw [update_stack]
    exact commits_refl _
  · unfold NonTerminal.frame
    rw [framing.2.1]
    rfl
  rintro grown last ⟨growing, verdict⟩
  rw [wp_bind, wp_modify, wp_pure, wp_bind, wp_modify, wp_pure]
  obtain ⟨framed, source, mem, cutStack, samePos⟩ :=
    leave_kept context.position (last.reset (NonTerminal.frame last).lastPos)
  have innermost : active (last.reset (NonTerminal.frame last).lastPos) =
      (rule, context.position) :: keys := growing.truthful.active
  refine ⟨⟨source.trans growing.truthful.source, ?_, leave_active innermost _, ?_⟩, ?_, ?_, ?_,
    growing.failed, verdict⟩
  · rw [framed.skipper]
    exact growing.truthful.skipper
  · rw [mem]
    exact growing.truthful.rows
  · exact ⟨framed.skipper.trans growing.framed.skipper,
      framed.skipEnabled.trans growing.framed.skipEnabled⟩
  · rw [cutStack]
    exact growing.commits
  · rw [samePos]
    exact growing.last

theorem build_node_truthful (nonTerminal : NonTerminal CharT NodeType) (rule : RuleId)
    (startPos : Nat) (inner : Option NodePtr) {exempt : List (RuleId × Nat)} {permits : Prop}
    {context : Context CharT} (truthful : Truthful grammar input single keys exempt context) :
    wp (raising (discreet grammar input single) permits)
      (NonTerminal.buildNode nonTerminal rule startPos inner)
      (fun _ last => Truthful grammar input single keys exempt last ∧ Framed context last ∧
        last.cutStack = context.cutStack ∧ last.position = context.position) context := by
  unfold NonTerminal.buildNode
  split
  · rw [wp_bind, wp_modifyGet, wp_bind, wp_modify, wp_bind, wp_modify, wp_pure]
    cases inner <;>
      exact ⟨truthful.moved rfl rfl rfl fun _ _ _ => id, ⟨rfl, rfl⟩, rfl, rfl⟩
  · rw [wp_bind]
    cases inner <;>
      exact ⟨truthful.moved rfl rfl rfl fun _ _ _ => id, ⟨rfl, rfl⟩, rfl, rfl⟩

theorem finish_conforms {rule : RuleId}
    (plain : (grammar.nonTerminal rule).recover.isSyncToken = none)
    {grown : ParseResult × RuleState} {startPos : Nat} {permits : Prop} {context : Context CharT}
    (truthful : Truthful grammar input single keys ((rule, startPos) :: keys) context)
    (stopped : context.position = grown.2.lastPos)
    (failed : grown.1.success = false → grown.2.lastPos = startPos)
    (verdict : RuleVerdict grammar input (single rule startPos) rule startPos
      (.ended (shownOutcome grown.1 grown.2.lastPos) false)) :
    wp (raising (discreet grammar input single) permits)
      (if grown.1.success then
        NonTerminal.finishSuccess (grammar.nonTerminal rule) rule startPos grown.1 grown.2
      else NonTerminal.finishFailure (grammar.nonTerminal rule) rule startPos grown.2)
      (fun result last => Truthful grammar input single keys keys last ∧ Framed context last ∧
        last.cutStack = context.cutStack ∧ last.position = grown.2.lastPos ∧
        result.success = grown.1.success) context := by
  rw [wp_ite]
  constructor
  · intro success
    rw [shownOutcome, if_pos success] at verdict
    rw [NonTerminal.finishSuccess, wp_bind]
    refine wp_post (build_node_truthful (grammar.nonTerminal rule) rule startPos grown.1.tree
      truthful) ?_
    rintro node built ⟨kept, framed, sameStack, samePos⟩
    have framing := update_framed built rule startPos ⟨grown.2.lastPos, ⟨true, some node⟩⟩
    have stored := kept.settled ⟨grown.2.lastPos, ⟨true, some node⟩⟩ (shows_success rfl) verdict
    rw [wp_bind]
    refine store_discreet stored ?_
    rw [wp_pure]
    refine ⟨stored, framed.trans framing.1, ?_, ?_, success.symm⟩
    · rw [update_stack]
      exact sameStack
    · rw [framing.2.2, samePos, stopped]
  · intro failure
    have unsuccessful : grown.1.success = false := by simpa using failure
    rw [shownOutcome, if_neg failure] at verdict
    obtain ⟨errors, recorded⟩ :=
      NonTerminal.record_rule_failure_frame (grammar.nonTerminal rule) startPos context
    have settled : Truthful grammar input single keys ((rule, startPos) :: keys)
        { context with errors := errors } := truthful.moved rfl rfl rfl fun _ _ _ => id
    have framing := update_framed { context with errors := errors } rule startPos
      ⟨startPos, ⟨false, none⟩⟩
    have stored := settled.settled ⟨startPos, ⟨false, none⟩⟩ (shows_failure rfl) verdict
    rw [NonTerminal.finishFailure, wp_bind, wp_modify, recorded, wp_bind, wp_read, plain]
    dsimp only [id]
    rw [wp_bind, failed unsuccessful]
    refine store_discreet stored ?_
    rw [wp_pure]
    refine ⟨stored, ⟨framing.1.skipper, framing.1.skipEnabled⟩, ?_, ?_, unsuccessful.symm⟩
    · rw [update_stack]
    · rw [framing.2.2]
      exact stopped.trans (failed unsuccessful)

/-- A row that is present answers as its rule would, and executes no cut. -/
theorem replay_conforms {rule : RuleId} {context : Context CharT} {row : RuleState}
    (truthful : Truthful grammar input single keys keys context)
    (present : context.mem context.position rule = some row)
    (inMode : mode context = single rule context.position)
    (idle : context.lrInProgress rule context.position = false) {permits : Prop} :
    wp (raising (discreet grammar input single) permits)
      (NonTerminal.replay rule context.position row)
      (fun result last => Truthful grammar input single keys keys last ∧ Framed context last ∧
        Comes (RuleVerdict grammar input (mode context) rule) context result last) context := by
  have outside : (rule, context.position) ∉ keys := by
    rw [← truthful.idle, idle]
    exact Bool.false_ne_true
  obtain ⟨outcome, shown, verdict⟩ := truthful.rows _ _ _ present outside
  rw [← inMode] at verdict
  rw [PlantedSeeds.wp_replay present, if_neg (by simp [idle])]
  refine ⟨truthful.moved rfl rfl rfl fun _ _ _ => id, ⟨rfl, rfl⟩, false, commits_refl _, ?_, ?_⟩
  · obtain ⟨success, last⟩ := shown
    cases outcome with
    | none =>
        rw [if_neg (by simp [success])]
        exact verdict
    | some stop =>
        rw [if_pos (by simp [success])]
        exact last ▸ verdict
  · intro failure
    have missed : outcome = none := by
      cases outcome with
      | none => rfl
      | some stop => exact absurd (failure.symm.trans shown.1) Bool.false_ne_true
    exact shown.2.trans (by rw [missed]; rfl)

theorem parse_conforms {rule : RuleId} {body : Expr CharT} (assigned : grammar.body rule = some body)
    (plain : (grammar.nonTerminal rule).recover.isSyncToken = none)
    {parseBody : Parser CharT ParseResult}
    (conforms : ∀ keys, Conforms (discreet grammar input single)
      (Truthful grammar input single keys keys) parseBody fun mode pos verdict =>
        Cutting grammar input (reading input) mode (.expr body) pos verdict)
    (stable : StableParser parseBody) (fuel : Nat) (keys : List (RuleId × Nat)) :
    Conforms (discreet grammar input single) (Truthful grammar input single keys keys)
      (NonTerminal.parse (grammar.nonTerminal rule) rule (some parseBody) fuel)
      fun mode pos verdict => RuleVerdict grammar input mode rule pos verdict := by
  intro context truthful permits raises
  rw [NonTerminal.parse, wp_bind, announce, wp_announce]
  rintro ⟨inMode, idle, isSealed⟩
  have inMode : mode context = single rule context.position := inMode
  have idle : context.lrInProgress rule context.position = false := idle
  refine ⟨⟨keys, truthful⟩, ?_⟩
  rw [wp_bind, wp_read, wp_bind, wp_modifyGet, wp_ite]
  unfold Context.ruleState
  cases present : context.mem context.position rule with
  | some row =>
      refine ⟨fun present => absurd present Bool.false_ne_true, fun _ => ?_⟩
      exact replay_conforms truthful present inMode idle
  | none =>
      refine ⟨fun _ => ?_, fun absent => absurd rfl absent⟩
      rw [wp_bind]
      refine wp_post (invoke_conforms (conforms _) stable
        (fun outcome committed found => isSealed outcome committed (.rule assigned found))
        (fun raised => raises (.rule assigned raised)) fuel truthful) ?_
      rintro grown last ⟨kept, framed, commits, stopped, failed, verdict⟩
      have whole : RuleVerdict grammar input (single rule context.position) rule context.position
          (.ended (shownOutcome grown.1 grown.2.lastPos) false) := by
        rw [← inMode]
        exact .rule assigned verdict
      refine wp_post (finish_conforms plain kept stopped failed whole) ?_
      rintro result final ⟨keptLast, framedLast, sameStack, samePos, success⟩
      refine ⟨keptLast, framed.trans framedLast, false, sameStack ▸ commits, ?_, ?_⟩
      · rw [success, samePos]
        exact .rule assigned verdict
      · intro failure
        exact samePos.trans (failed (success.symm.trans failure))

end Growth

section Runs

/-- Rule references are assigned, and matchers are functions of input and position. -/
def Known (grammar : Grammar CharT NodeType) : Expr CharT → Prop
  | .matcher fn => PureMatcher fn
  | .rule id => (grammar.body id).isSome = true
  | _ => True

/-- A grammar without recovery. -/
structure RecoveryFree (grammar : Grammar CharT NodeType) : Prop where
  bodies : ∀ rule body, grammar.body rule = some body → body.Every (Known grammar)
  recovers : ∀ rule, (grammar.nonTerminal rule).recover.isSyncToken = none
  skipper : ∀ rule, grammar.skipper = some rule → (grammar.body rule).isSome = true

variable {grammar : Grammar CharT NodeType} {input : List CharT}
  {single : RuleId → Nat → Option RuleId} {keys : List (RuleId × Nat)}

omit [PegValue CharT] in
theorem known_in_range {expr : Expr CharT} (known : expr.Every (Known grammar)) :
    expr.Every MatcherInRange := by
  refine known.mono fun part holds => ?_
  cases part with
  | matcher fn => exact holds.in_range
  | _ => trivial

omit [PegValue CharT] in
theorem RecoveryFree.in_range (free : RecoveryFree grammar) : InRange grammar :=
  fun rule body assigned => known_in_range (free.bodies rule body assigned)

theorem known_admitted {expr : Expr CharT} (known : expr.Every (Known grammar)) :
    expr.Every (Admits (fun rule => (grammar.body rule).isSome = true) (reading input)
      (Truthful grammar input single keys keys)) := by
  refine known.mono fun part holds => ?_
  cases part with
  | matcher fn =>
      intro context truthful
      refine ⟨holds, ?_⟩
      rw [holds.pure context { Context.fresh input with position := context.position } _
        truthful.source rfl]
  | cut =>
      intro context truthful
      unfold Context.setCut
      split
      · exact truthful
      · exact truthful.moved rfl rfl rfl fun _ _ _ => id
  | rule id => exact holds
  | _ => trivial

theorem truthful_configured (free : RecoveryFree grammar) (context : Context CharT)
    (truthful : Truthful grammar input single keys keys context) (rule : RuleId)
    (configured : context.skipper = some rule) : (grammar.body rule).isSome = true := by
  rcases truthful.skipper with off | set
  · rw [off] at configured
    cases configured
  · exact free.skipper rule (set.symm.trans configured)

theorem apply_conforms (free : RecoveryFree grammar) (fuel : Nat) (rule : RuleId)
    (assigned : (grammar.body rule).isSome = true) (keys : List (RuleId × Nat)) :
    Conforms (discreet grammar input single) (Truthful grammar input single keys keys)
      (grammar.apply fuel rule) fun mode pos verdict =>
        RuleVerdict grammar input mode rule pos verdict := by
  induction fuel generalizing rule keys with
  | zero => exact fun _ _ _ _ => trivial
  | succ fuel induction =>
      obtain ⟨body, given⟩ := Option.isSome_iff_exists.mp assigned
      rw [Grammar.apply, given, Option.map_some]
      refine parse_conforms given (free.recovers rule) (fun keys => ?_)
        (expr_stable (apply_stable grammar fuel) fuel body) fuel keys
      exact expr_conforms (truthful_invariant keys) (fun id present => induction id present keys)
        (truthful_configured free) fuel (known_admitted (free.bodies rule body given))

theorem eval_conforms (free : RecoveryFree grammar) (fuel : Nat) {expr : Expr CharT}
    (known : expr.Every (Known grammar)) (keys : List (RuleId × Nat)) :
    Conforms (discreet grammar input single) (Truthful grammar input single keys keys)
      (grammar.eval fuel expr) fun mode pos verdict =>
        Cutting grammar input (reading input) mode (.expr expr) pos verdict :=
  expr_conforms (truthful_invariant keys) (fun id present => apply_conforms free fuel id present keys)
    (truthful_configured free) fuel (known_admitted known)

/-- The contexts over one input that runs of a grammar lead to, between two runs and
inside them. Everything but the memo and the rules in progress may be changed in
between. -/
inductive Reached (grammar : Grammar CharT NodeType) (input : List CharT)
    (meets : Moment CharT → Prop) : Context CharT → Prop where
  | fresh : Reached grammar input meets (Context.fresh input)
  | adjusted {before after : Context CharT} : Reached grammar input meets before →
      after.input = before.input → after.mem = before.mem → after.lrStack = before.lrStack →
      after.skipper = before.skipper ∨ after.skipper = grammar.skipper →
      Reached grammar input meets after
  | ran {context : Context CharT} (fuel : Nat) (rule : RuleId) : Reached grammar input meets context →
      (grammar.body rule).isSome = true →
      (∀ moment ∈ (grammar.apply fuel rule context).trace, meets moment) →
      (∃ result, (grammar.apply fuel rule context).outcome = .returned result) ∨
        (∃ position expected,
          (grammar.apply fuel rule context).outcome = .thrown (.parseError position expected)) →
      Reached grammar input meets (grammar.apply fuel rule context).state
  | during {context : Context CharT} (fuel : Nat) (rule : RuleId) {moment : Moment CharT} :
      Reached grammar input meets context → (grammar.body rule).isSome = true →
      (∀ moment ∈ (grammar.apply fuel rule context).trace, meets moment) →
      moment ∈ (grammar.apply fuel rule context).trace →
      Reached grammar input meets moment.context

theorem run_truthful (free : RecoveryFree grammar) {context : Context CharT}
    (truthful : Truthful grammar input single keys keys context) (fuel : Nat) {rule : RuleId}
    (assigned : (grammar.body rule).isSome = true)
    (met : ∀ moment ∈ (grammar.apply fuel rule context).trace, Discreet grammar input single moment) :
    (∀ moment ∈ (grammar.apply fuel rule context).trace,
        ∃ keys, Truthful grammar input single keys keys moment.context) ∧
      ((grammar.apply fuel rule context).outcome ≠ .exhausted →
        ∃ keys, Truthful grammar input single keys keys (grammar.apply fuel rule context).state) := by
  have runs := apply_conforms free fuel rule assigned keys context truthful True fun _ => trivial
  obtain ⟨moments, ended⟩ := wp_elim runs met
  refine ⟨moments, fun finished => ?_⟩
  cases outcome : (grammar.apply fuel rule context).outcome with
  | returned result =>
      rw [outcome] at ended
      exact ⟨keys, ended.1⟩
  | thrown exn =>
      rw [outcome] at ended
      exact ended.1
  | exhausted => exact absurd outcome finished

theorem reached_truthful (free : RecoveryFree grammar) {context : Context CharT}
    (reached : Reached grammar input (Discreet grammar input single) context) :
    ∃ keys, Truthful grammar input single keys keys context := by
  induction reached with
  | fresh => exact ⟨[], rfl, Or.inl rfl, rfl, nofun⟩
  | adjusted _ source mem lrStack skipper earlier =>
      obtain ⟨keys, truthful⟩ := earlier
      refine ⟨keys, source.trans truthful.source, ?_, ?_, by rw [mem]; exact truthful.rows⟩
      · rcases skipper with kept | set
        · rw [kept]
          exact truthful.skipper
        · exact Or.inr set
      · rw [← truthful.active]
        unfold active
        rw [lrStack]
  | ran fuel rule _ assigned met ended earlier =>
      obtain ⟨keys, truthful⟩ := earlier
      refine (run_truthful free truthful fuel assigned met).2 ?_
      rcases ended with ⟨result, returned⟩ | ⟨position, expected, thrown⟩
      · rw [returned]
        exact Outcome.finished_of_value rfl
      · rw [thrown]
        exact nofun
  | during fuel rule _ assigned met member earlier =>
      obtain ⟨keys, truthful⟩ := earlier
      exact (run_truthful free truthful fuel assigned met).1 _ member

theorem reached_sound (inRange : InRange grammar) {meets : Moment CharT → Prop}
    {context : Context CharT} (reached : Reached grammar input meets context) :
    (context.skipper = none ∨ context.skipper = grammar.skipper) ∧
      Sound input context.skipper (InBounds input) context := by
  induction reached with
  | fresh => exact ⟨Or.inl rfl, rfl, rfl, fun _ _ _ held => nomatch held⟩
  | adjusted _ same mem _ skipper earlier =>
      obtain ⟨choice, sound⟩ := earlier
      refine ⟨?_, same.trans sound.source, rfl, by rw [mem]; exact sound.rows⟩
      rcases skipper with kept | set
      · rwa [kept]
      · exact Or.inr set
  | @ran before fuel rule _ _ _ ended earlier =>
      obtain ⟨choice, sound⟩ := earlier
      have runs := apply_sound (bounded_reading inRange) fuel rule before sound
      have after : Sound input before.skipper (InBounds input) (grammar.apply fuel rule before).state := by
        rcases ended with ⟨result, returned⟩ | ⟨position, expected, thrown⟩
        · exact (wp_returned runs (fun _ _ => trivial) returned).1
        · exact wp_thrown runs (fun _ _ => trivial) thrown nofun
      rw [after.skipper]
      exact ⟨choice, after⟩
  | @during before fuel rule moment _ _ _ member earlier =>
      obtain ⟨choice, sound⟩ := earlier
      have here := (wp_elim (apply_sound (bounded_reading inRange) fuel rule before sound)
        fun _ _ => trivial).1 moment member
      rw [here.skipper]
      exact ⟨choice, here⟩

def Ends (outcome : Outcome Exn ParseResult) : Verdict → Prop
  | .ended found _ => ∃ result, outcome = .returned result ∧ result.success = found.isSome
  | .raised => ∃ position expected, outcome = .thrown (.parseError position expected)

/-- Both return and succeed, both return and fail, or both raise. -/
def SameEnding (left right : Outcome Exn ParseResult) : Prop :=
  (∃ first second, left = .returned first ∧ right = .returned second ∧
    first.success = second.success) ∨
  (∃ position expected, left = .thrown (.parseError position expected)) ∧
    ∃ position expected, right = .thrown (.parseError position expected)

theorem same_ending_of_verdict {left right : Outcome Exn ParseResult} {verdict : Verdict}
    (first : Ends left verdict) (second : Ends right verdict) : SameEnding left right := by
  cases verdict with
  | raised => exact Or.inr ⟨first, second⟩
  | ended found committed =>
      obtain ⟨result, returned, success⟩ := first
      obtain ⟨result', returned', success'⟩ := second
      exact Or.inl ⟨result, result', returned, returned', success.trans success'.symm⟩

/-- A finished evaluation ends as its memo-free verdict says. -/
theorem eval_ends (free : RecoveryFree grammar) {context : Context CharT}
    (truthful : Truthful grammar input single keys keys context) {fuel : Nat} {expr : Expr CharT}
    (known : expr.Every (Known grammar))
    (met : ∀ moment ∈ (grammar.eval fuel expr context).trace, Discreet grammar input single moment)
    (finished : (grammar.eval fuel expr context).outcome ≠ .exhausted) :
    ∃ verdict, Cutting grammar input (reading input) (mode context) (.expr expr) context.position
        verdict ∧ Ends (grammar.eval fuel expr context).outcome verdict := by
  have runs := eval_conforms free fuel known keys context truthful _ id
  have ended := (wp_elim runs met).2
  cases outcome : (grammar.eval fuel expr context).outcome with
  | returned result =>
      rw [outcome] at ended
      obtain ⟨-, -, committed, -, verdict, -⟩ := ended
      refine ⟨_, verdict, result, rfl, ?_⟩
      cases result.success <;> rfl
  | thrown exn =>
      rw [outcome] at ended
      obtain ⟨-, ⟨position, expected, rfl⟩, verdict⟩ := ended
      exact ⟨_, verdict, position, expected, rfl⟩
  | exhausted => exact absurd outcome finished

theorem discreet_row_kept {moment : Moment CharT} (discreet : Discreet grammar input single moment) :
    RowKept moment := by
  obtain ⟨event, context⟩ := moment
  cases event with
  | apply rule =>
      intro inProgress
      have idle : context.lrInProgress rule context.position = false := discreet.notReentered
      rw [idle] at inProgress
      cases inProgress
  | _ => trivial

/-- From some budget on, a discreet evaluation ends as its memo-free verdict says. -/
theorem eval_settles (free : RecoveryFree grammar) {context : Context CharT}
    (truthful : Truthful grammar input single keys keys context)
    (ready : Ready input context.skipper (active context) context) {expr : Expr CharT}
    (known : expr.Every (Known grammar))
    (met : ∀ fuel, ∀ moment ∈ (grammar.eval fuel expr context).trace,
      Discreet grammar input single moment) :
    ∃ verdict, Cutting grammar input (reading input) (mode context) (.expr expr) context.position
        verdict ∧ ∃ enough, ∀ fuel, enough ≤ fuel →
          Ends (grammar.eval fuel expr context).outcome verdict := by
  have total : Total input context.skipper (active context) fun fuel => grammar.eval fuel expr :=
    expr_total free.in_range (fun id => apply_total free.in_range _ (Nat.le_refl _) id)
      (known_in_range known)
  obtain ⟨run, finished, enough, settled⟩ := total.terminates context ready
    ⟨0, fun fuel _ moment member => discreet_row_kept (met fuel moment member)⟩
  have same : grammar.eval enough expr context = run := settled enough (Nat.le_refl _)
  obtain ⟨verdict, cutting, ends⟩ := eval_ends free truthful known (met enough)
    (by rw [same]; exact finished)
  refine ⟨verdict, cutting, enough, fun fuel larger => ?_⟩
  have other : grammar.eval fuel expr context = run := settled fuel larger
  rw [other, ← same]
  exact ends

end Runs

end Peglib.DiscreetRuns
