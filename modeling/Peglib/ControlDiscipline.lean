import Peglib.ExpressionSteps

/-!
# Control state across returning parses

Every parse that returns leaves the invocation stack, the scopes below the
innermost one, the skip flag and the tracking of growing heads as it found
them. The frames of rules in progress may have been marked as heads, and a bare
cut may have written to the innermost scope; nothing else moves. A parse that
throws leaves the frames of the rules it was thrown out of on the stack.
-/

namespace Peglib.ControlDiscipline

open Peglib.TracedComputation Peglib.WeakestPrecondition Peglib.Preservation
open Peglib.ParseError Peglib.ParseContext Peglib.Expressions Peglib.Rules
open Peglib.ExpressionSteps

set_option autoImplicit false

variable {CharT NodeType : Type}

/-- The part of a frame that only its own call writes. -/
def frameCore (frame : LRFrame) : RuleId × Nat × Nat := (frame.rule, frame.pos, frame.lastPos)

/-- A growing head is always a rule in progress at its position. -/
def HeadsTracked (context : Context CharT) : Prop :=
  ∀ pos head, context.growingHead pos = some head →
    ∃ frame ∈ context.lrStack, frame.pos = pos ∧ frame.isHead = true

/-- The control state after a run, with the invocation stack seen through
`view`. -/
structure Kept {View : Type} (view : List LRFrame → View) (before after : Context CharT) :
    Prop where
  input : after.input = before.input
  skipper : after.skipper = before.skipper
  skipEnabled : after.skipEnabled = before.skipEnabled
  frames : view after.lrStack = view before.lrStack
  scopes : after.cutStack.tail = before.cutStack.tail
  depth : after.cutStack.length = before.cutStack.length
  heads : HeadsTracked before → HeadsTracked after

namespace Kept

variable {View : Type} {view : List LRFrame → View}

theorem refl (context : Context CharT) : Kept view context context :=
  ⟨rfl, rfl, rfl, rfl, rfl, rfl, id⟩

theorem trans {first second third : Context CharT} (left : Kept view first second)
    (right : Kept view second third) : Kept view first third where
  input := right.input.trans left.input
  skipper := right.skipper.trans left.skipper
  skipEnabled := right.skipEnabled.trans left.skipEnabled
  frames := right.frames.trans left.frames
  scopes := right.scopes.trans left.scopes
  depth := right.depth.trans left.depth
  heads := right.heads ∘ left.heads

theorem of_eq {before after : Context CharT} (input : after.input = before.input)
    (skipper : after.skipper = before.skipper)
    (skipEnabled : after.skipEnabled = before.skipEnabled)
    (lrStack : after.lrStack = before.lrStack) (cutStack : after.cutStack = before.cutStack)
    (growingHead : after.growingHead = before.growingHead) : Kept view before after := by
  refine ⟨input, skipper, skipEnabled, by rw [lrStack], by rw [cutStack], by rw [cutStack], ?_⟩
  unfold HeadsTracked
  rw [lrStack, growingHead]
  exact id

end Kept

/-- Every frame keeps its rule, its position and its progress marker. -/
abbrev Stable (before after : Context CharT) : Prop := Kept (List.map frameCore) before after

/-- The same below the innermost frame, whose progress marker may have moved. -/
abbrev Grown (before after : Context CharT) : Prop :=
  Kept (fun frames => (frames.head?.map fun frame => (frame.rule, frame.pos),
    frames.tail.map frameCore)) before after

theorem Kept.grown {before after : Context CharT} (step : Stable before after) :
    Grown before after := by
  refine ⟨step.input, step.skipper, step.skipEnabled, ?_, step.scopes, step.depth, step.heads⟩
  have frames := step.frames
  cases here : after.lrStack with
  | nil => rw [here] at frames; rw [List.map_eq_nil_iff.mp frames.symm]
  | cons top rest =>
      rw [here] at frames
      cases there : before.lrStack with
      | nil => rw [there] at frames; simp at frames
      | cons other below =>
          rw [there, List.map_cons, List.map_cons, List.cons.injEq] at frames
          obtain ⟨tops, rests⟩ := frames
          simp only [frameCore, Prod.mk.injEq] at tops
          simp [tops.1, tops.2.1, rests]

theorem Kept.lr_length {before after : Context CharT} (step : Stable before after) :
    after.lrStack.length = before.lrStack.length := by
  have frames := congrArg List.length step.frames
  rwa [List.length_map, List.length_map] at frames

theorem stable_top {before after : Context CharT} (step : Stable before after) {frame : LRFrame}
    {rest : List LRFrame} (stack : before.lrStack = frame :: rest) :
    ∃ frame' rest', after.lrStack = frame' :: rest' ∧ frameCore frame' = frameCore frame ∧
      rest'.map frameCore = rest.map frameCore := by
  have frames := step.frames
  rw [stack, List.map_cons] at frames
  cases here : after.lrStack with
  | nil => rw [here] at frames; cases frames
  | cons frame' rest' =>
      rw [here, List.map_cons, List.cons.injEq] at frames
      exact ⟨frame', rest', rfl, frames.1, frames.2⟩

def active (context : Context CharT) : List (RuleId × Nat) :=
  context.lrStack.map fun frame => (frame.rule, frame.pos)

theorem in_progress_iff {context : Context CharT} {rule : RuleId} {pos : Nat} :
    context.lrInProgress rule pos = true ↔ (rule, pos) ∈ active context := by
  simp [Context.lrInProgress, LRFrame.isOf, active, and_comm]

theorem active_of_frames {before after : Context CharT}
    (frames : after.lrStack.map frameCore = before.lrStack.map frameCore) :
    active after = active before := by
  have key : ∀ context : Context CharT,
      active context = (context.lrStack.map frameCore).map fun core => (core.1, core.2.1) := by
    intro context
    rw [List.map_map]
    rfl
  rw [key, key, frames]

theorem frame_last_of_frames {before after : Context CharT}
    (frames : after.lrStack.map frameCore = before.lrStack.map frameCore) :
    (NonTerminal.frame after).lastPos = (NonTerminal.frame before).lastPos := by
  have last : ∀ context : Context CharT, (NonTerminal.frame context).lastPos =
      ((context.lrStack.map frameCore).headD (0, 0, 0)).2.2 := by
    intro context
    unfold NonTerminal.frame
    cases context.lrStack <;> rfl
  rw [last, last, frames]

theorem Kept.lr_length_grown {before after : Context CharT} (step : Grown before after) :
    after.lrStack.length = before.lrStack.length := by
  have frames := step.frames
  simp only [Prod.mk.injEq] at frames
  have tails := congrArg List.length frames.2
  rw [List.length_map, List.length_map, List.length_tail, List.length_tail] at tails
  have heads := frames.1
  cases here : after.lrStack <;> cases there : before.lrStack <;> simp_all

def Deeper (before after : Context CharT) : Prop :=
  before.lrStack.length ≤ after.lrStack.length

/-- The frame of the rule that was thrown out of is still there. -/
def Entered (before after : Context CharT) : Prop :=
  before.lrStack.length < after.lrStack.length

instance : Composable (@Stable CharT) Deeper where
  refl := Kept.refl
  trans _ _ _ left right := left.trans right
  before _ _ _ step later := by unfold Deeper; rw [← step.lr_length]; exact later

instance : Composable (@Stable CharT) Entered where
  refl := Kept.refl
  trans _ _ _ left right := left.trans right
  before _ _ _ step later := by unfold Entered; rw [← step.lr_length]; exact later

instance : Composable (@Grown CharT) Deeper where
  refl := Kept.refl
  trans _ _ _ left right := left.trans right
  before _ _ _ step later := by unfold Deeper; rw [← step.lr_length_grown]; exact later

theorem deeper_refl (context : Context CharT) : Deeper context context := Nat.le_refl _

abbrev StableParser {Value : Type} (parser : Parser CharT Value) : Prop :=
  Preserves Stable Deeper parser

theorem entered_stable {Value : Type} {parser : Parser CharT Value}
    (kept : Preserves Stable Entered parser) : StableParser parser :=
  preserves_mono kept (fun _ _ => id) fun _ _ => Nat.le_of_lt

section Steps

theorem reset_stable (pos : Nat) (context : Context CharT) :
    Stable context (context.reset pos) :=
  Kept.of_eq rfl rfl rfl rfl rfl rfl

theorem make_node_stable (context : Context CharT) : Stable context context.makeNode.2 :=
  Kept.of_eq rfl rfl rfl rfl rfl rfl

theorem update_node_stable (node : NodePtr) (update : ParseTreeNode → ParseTreeNode)
    (context : Context CharT) : Stable context (context.updateNode node update) :=
  Kept.of_eq rfl rfl rfl rfl rfl rfl

theorem push_child_stable (node : NodePtr) (tree : Option NodePtr) (context : Context CharT) :
    Stable context (pushChild node tree context) := by
  cases tree with
  | none => exact Kept.refl context
  | some child => exact update_node_stable node _ context

theorem set_cut_stable (committed : Bool) (context : Context CharT) :
    Stable context (context.setCut committed) := by
  unfold Context.setCut
  split
  · exact Kept.refl context
  · next scope outer found =>
      exact ⟨rfl, rfl, rfl, rfl, by simp [found], by simp [found], id⟩

theorem rule_state_stable (rule : RuleId) (pos : Nat) (context : Context CharT) :
    Stable context (context.ruleState rule pos).2 := by
  unfold Context.ruleState
  split
  · exact Kept.refl context
  · exact Kept.of_eq rfl rfl rfl rfl rfl rfl

theorem update_rule_state_stable (rule : RuleId) (pos : Nat) (entry : RuleState)
    (context : Context CharT) : Stable context (context.updateRuleState rule pos entry).2 := by
  unfold Context.updateRuleState
  split
  · exact Kept.of_eq rfl rfl rfl rfl rfl rfl
  · exact Kept.refl context

theorem mark_frame_core (rule : RuleId) (pos : Nat) (frames : List LRFrame) :
    (Context.markFrame rule pos frames).map frameCore = frames.map frameCore := by
  induction frames with
  | nil => rfl
  | cons frame rest induction =>
      unfold Context.markFrame
      split_ifs
      · rfl
      · rw [List.map_cons, List.map_cons, induction]

/-- Marking keeps every head and makes one of the frames at the position a head. -/
theorem mark_frame_heads (rule : RuleId) (pos : Nat) (frames : List LRFrame)
    {frame : LRFrame} (member : frame ∈ frames) (head : frame.isHead = true) :
    ∃ marked ∈ Context.markFrame rule pos frames,
      marked.pos = frame.pos ∧ marked.isHead = true := by
  induction frames with
  | nil => simp at member
  | cons first rest induction =>
      unfold Context.markFrame
      rcases List.mem_cons.mp member with rfl | later
      · split_ifs
        · exact ⟨_, List.mem_cons_self, rfl, rfl⟩
        · exact ⟨frame, List.mem_cons_self, rfl, head⟩
      · split_ifs
        · exact ⟨frame, List.mem_cons_of_mem _ later, rfl, head⟩
        · obtain ⟨marked, inRest, facts⟩ := induction later
          exact ⟨marked, List.mem_cons_of_mem _ inRest, facts⟩

theorem mark_frame_found (rule : RuleId) (pos : Nat) (frames : List LRFrame) {frame : LRFrame}
    (found : frames.find? (LRFrame.isOf rule pos) = some frame) :
    ∃ marked ∈ Context.markFrame rule pos frames, marked.pos = pos ∧ marked.isHead = true := by
  induction frames with
  | nil => simp at found
  | cons first rest induction =>
      unfold Context.markFrame
      by_cases same : LRFrame.isOf rule pos first = true
      · rw [if_pos same]
        refine ⟨_, List.mem_cons_self, ?_, rfl⟩
        simp only [LRFrame.isOf, Bool.and_eq_true, decide_eq_true_eq] at same
        exact same.1
      · rw [if_neg same]
        rw [List.find?_cons_of_neg same] at found
        obtain ⟨marked, inRest, facts⟩ := induction found
        exact ⟨marked, List.mem_cons_of_mem _ inRest, facts⟩

theorem mark_head_stable (rule : RuleId) (pos : Nat) (context : Context CharT) :
    Stable context (context.markHead rule pos) := by
  unfold Context.markHead
  split
  · next frame found =>
      split_ifs
      · exact Kept.refl context
      · refine ⟨rfl, rfl, rfl, mark_frame_core rule pos context.lrStack, rfl, rfl, ?_⟩
        intro tracked pos' head set
        by_cases same : pos' = pos
        · subst same
          exact mark_frame_found rule pos' context.lrStack found
        · simp only [if_neg same] at set
          obtain ⟨witness, member, at_pos, isHead⟩ := tracked pos' head set
          obtain ⟨marked, inMarked, samePos, markedHead⟩ :=
            mark_frame_heads rule pos context.lrStack member isHead
          exact ⟨marked, inMarked, samePos.trans at_pos, markedHead⟩
  · exact Kept.refl context

end Steps

section Expressions

instance : ExprClosed (@Stable CharT) Deeper where
  incidental _ _ step :=
    Kept.of_eq step.input step.skipper step.skipEnabled step.lrStack step.cutStack step.growingHead
  commits context committed := set_cut_stable committed context
  -- A scope of its own leaves the scopes outside exactly as they were.
  enclosed context last step := by
    obtain ⟨scope, found⟩ : ∃ scope, last.cutStack = scope :: context.cutStack := by
      have depth := step.depth
      have below := step.scopes
      simp only [Context.initCut, List.length_cons, List.tail_cons] at depth below
      cases stack : last.cutStack with
      | nil => rw [stack] at depth; simp at depth
      | cons scope outer => rw [stack] at below; exact ⟨scope, by rw [← below]; rfl⟩
    unfold Context.removeCut
    rw [found]
    dsimp only
    split_ifs
    · exact ⟨step.input, step.skipper, step.skipEnabled, step.frames, rfl, rfl, step.heads⟩
    · exact ⟨step.input, step.skipper, step.skipEnabled, step.frames, rfl, rfl, step.heads⟩
  unwound context last deeper := by
    unfold Context.removeCut
    split <;> [exact deeper; (split_ifs <;> exact deeper)]
  muted _ _ step :=
    ⟨step.input, step.skipper, rfl, step.frames, step.scopes, step.depth, step.heads⟩
  unmuted _ _ := id
  silenced _ _ := id
  raised := deeper_refl

theorem skip_stable {apply : RuleId → Parser CharT ParseResult}
    (applies : ∀ rule, StableParser (apply rule)) : StableParser (runSkipper apply) :=
  skip_kept applies

theorem expr_stable [PegValue CharT] {apply : RuleId → Parser CharT ParseResult}
    (applies : ∀ rule, StableParser (apply rule)) (fuel : Nat) (expr : Expr CharT) :
    StableParser (expr.parse apply fuel) :=
  expr_kept applies fuel expr

end Expressions

section RuleApplication

variable {thrown : Context CharT → Context CharT → Prop} [Composable Stable thrown]

theorem store_stable (rule : RuleId) (pos : Nat) (entry : RuleState) :
    Preserves Stable thrown (NonTerminal.store rule pos entry : Parser CharT Bool) := by
  refine preserves_bind (preserves_modifyGet (update_rule_state_stable rule pos entry)) fun _ => ?_
  exact preserves_bind (preserves_announce _) fun _ => preserves_pure _

theorem StableParser.grown {Value : Type} {parser : Parser CharT Value}
    (kept : StableParser parser) : Preserves Grown Deeper parser :=
  preserves_mono kept (fun _ _ step => step.grown) fun _ _ => id

theorem set_frame_grown (pos : Nat) (context : Context CharT) :
    Grown context (NonTerminal.setFrameLastPos pos context) := by
  unfold NonTerminal.setFrameLastPos
  cases stack : context.lrStack with
  | nil => exact Kept.of_eq rfl rfl rfl stack.symm rfl rfl
  | cons top rest =>
      refine ⟨rfl, rfl, rfl, by simp [stack], rfl, rfl, ?_⟩
      intro tracked at_pos head set
      obtain ⟨witness, member, facts⟩ := tracked at_pos head set
      rw [stack] at member
      rcases List.mem_cons.mp member with rfl | inRest
      · exact ⟨_, List.mem_cons_self, facts⟩
      · exact ⟨witness, List.mem_cons_of_mem _ inRest, facts⟩

theorem grow_loop_grown (rule : RuleId) (startPos : Nat) {parseBody : Parser CharT ParseResult}
    (kept : StableParser parseBody) (fuel : Nat) (best : ParseResult) (ruleState : RuleState) :
    Preserves Grown Deeper (NonTerminal.growLoop rule startPos parseBody fuel best ruleState) := by
  induction fuel generalizing best ruleState with
  | zero => exact preserves_exhaust
  | succ fuel induction =>
      refine preserves_bind (preserves_modify fun _ => Kept.of_eq rfl rfl rfl rfl rfl rfl) fun _ => ?_
      refine preserves_bind (preserves_read _) fun before => ?_
      refine preserves_bind (preserves_onlyIf fun _ => preserves_modify fun _ =>
        Kept.of_eq rfl rfl rfl rfl rfl rfl) fun _ => ?_
      refine preserves_bind kept.grown fun result => ?_
      refine preserves_bind (preserves_read _) fun after => ?_
      refine preserves_ite (fun _ => preserves_ite (fun _ => ?_) fun _ => ?_) fun _ => ?_
      · refine preserves_bind (preserves_modify (set_frame_grown _)) fun _ => ?_
        refine preserves_bind (StableParser.grown (store_stable _ _ _)) fun present => ?_
        exact preserves_ite (fun _ => induction _ _) fun _ => preserves_pure _
      · exact preserves_bind (StableParser.grown (store_stable _ _ _)) fun _ => preserves_pure _
      · exact preserves_pure _

theorem parse_impl_grown (rule : RuleId) (startPos : Nat)
    {body : Option (Parser CharT ParseResult)} (kept : ∀ parser ∈ body, StableParser parser)
    (fuel : Nat) : Preserves Grown Deeper (NonTerminal.parseImpl rule startPos body fuel) := by
  cases body with
  | none => exact preserves_throw deeper_refl _
  | some parseBody =>
      refine preserves_bind (StableParser.grown (store_stable _ _ _)) fun _ => ?_
      refine preserves_bind (grow_loop_grown rule startPos (kept _ rfl) fuel _ _) fun grown => ?_
      exact preserves_bind (preserves_modify fun _ => Kept.of_eq rfl rfl rfl rfl rfl rfl)
        fun _ => preserves_pure _

/-- Popping a frame at `startPos` keeps the heads tracked: a head that leaves
the stack takes its growing head along. -/
theorem leave_tracked {startPos : Nat} {context : Context CharT} {top : LRFrame}
    {rest : List LRFrame} (stack : context.lrStack = top :: rest) (at_start : top.pos = startPos)
    (tracked : HeadsTracked context) : HeadsTracked (NonTerminal.leave startPos context) := by
  have topFrame : NonTerminal.frame context = top := by rw [NonTerminal.frame, stack]; rfl
  unfold NonTerminal.leave
  rw [topFrame]
  split_ifs with isHead
  · intro pos head set
    simp only [Context.clearGrowingHead, Context.lrPop] at set
    split_ifs at set with same
    obtain ⟨witness, member, at_pos, witnessHead⟩ := tracked pos head set
    rw [stack] at member
    rcases List.mem_cons.mp member with rfl | inRest
    · exact absurd (at_pos.symm.trans at_start) same
    · exact ⟨witness, by simpa [Context.clearGrowingHead, Context.lrPop, stack] using inRest,
        at_pos, witnessHead⟩
  · intro pos head set
    obtain ⟨witness, member, at_pos, witnessHead⟩ := tracked pos head set
    rw [stack] at member
    rcases List.mem_cons.mp member with rfl | inRest
    · exact absurd witnessHead isHead
    · exact ⟨witness, by simpa [Context.lrPop, stack] using inRest, at_pos, witnessHead⟩

theorem invoke_entered (rule : RuleId) (startPos : Nat) {body : Option (Parser CharT ParseResult)}
    (kept : ∀ parser ∈ body, StableParser parser) (fuel : Nat) :
    Preserves Stable Entered (NonTerminal.invoke rule startPos body fuel) := by
  refine preserves_iff_wp.mpr fun state => ?_
  rw [NonTerminal.invoke, wp_bind, wp_modify, wp_bind]
  refine wp_mono (preserves_iff_wp.mp (parse_impl_grown rule startPos kept fuel) _)
    (fun _ => id) (fun _ _ => id) (fun _ _ => id) ?_
  intro grown last step
  rw [wp_bind, wp_modify, wp_pure]
  have frames := step.frames
  simp only [Context.lrPush, List.head?_cons, Option.map_some, List.tail_cons,
    Prod.mk.injEq] at frames
  obtain ⟨top, rest, stack⟩ : ∃ top rest, last.lrStack = top :: rest := by
    cases stack : last.lrStack with
    | nil => rw [stack] at frames; simp at frames
    | cons top rest => exact ⟨top, rest, rfl⟩
  rw [stack] at frames
  simp only [List.head?_cons, Option.map_some, Option.some.injEq, Prod.mk.injEq,
    List.tail_cons] at frames
  have pushed : HeadsTracked state →
      HeadsTracked (state.lrPush ⟨rule, startPos, startPos, false⟩) := by
    intro tracked pos head set
    obtain ⟨witness, member, facts⟩ := tracked pos head set
    exact ⟨witness, List.mem_cons_of_mem _ member, facts⟩
  have heads : HeadsTracked state → HeadsTracked (NonTerminal.leave startPos last) :=
    fun tracked => leave_tracked stack frames.1.2 (step.heads (pushed tracked))
  refine ⟨?_, ?_, ?_, ?_, ?_, ?_, heads⟩ <;> unfold NonTerminal.leave <;> split_ifs
  all_goals first
    | exact step.input
    | exact step.skipper
    | exact step.skipEnabled
    | exact step.scopes
    | exact step.depth
    | simpa [Context.clearGrowingHead, Context.lrPop, stack] using frames.2

theorem build_node_stable (nonTerminal : NonTerminal CharT NodeType) (rule : RuleId)
    (startPos : Nat) (inner : Option NodePtr) :
    Preserves Stable thrown (NonTerminal.buildNode nonTerminal rule startPos inner) := by
  unfold NonTerminal.buildNode
  split
  · refine preserves_bind (preserves_modifyGet make_node_stable) fun node => ?_
    refine preserves_bind (preserves_modify fun _ => update_node_stable _ _ _) fun _ => ?_
    exact preserves_bind (preserves_modify (push_child_stable _ _)) fun _ => preserves_pure _
  · refine preserves_bind ?_ fun node => ?_
    · cases inner with
      | none => exact preserves_modifyGet make_node_stable
      | some node => exact preserves_pure node
    · exact preserves_bind (preserves_modify fun _ => update_node_stable _ _ _) fun _ => preserves_pure _

theorem record_rule_failure_stable (nonTerminal : NonTerminal CharT NodeType) (startPos : Nat)
    (context : Context CharT) :
    Stable context (NonTerminal.recordRuleFailure nonTerminal startPos context) := by
  unfold NonTerminal.recordRuleFailure
  split_ifs
  · exact Kept.of_eq rfl rfl rfl rfl rfl rfl
  · exact Kept.of_eq rfl rfl rfl rfl rfl rfl
  · exact Kept.refl context

theorem finish_failure_stable (nonTerminal : NonTerminal CharT NodeType) (rule : RuleId)
    (startPos : Nat) (ruleState : RuleState) :
    Preserves Stable thrown (NonTerminal.finishFailure nonTerminal rule startPos ruleState) := by
  refine preserves_bind (preserves_modify (record_rule_failure_stable _ _)) fun _ => ?_
  refine preserves_bind (preserves_read _) fun context => ?_
  split
  · refine preserves_bind (preserves_modify fun _ => Kept.of_eq rfl rfl rfl rfl rfl rfl) fun _ => ?_
    exact preserves_bind (store_stable _ _ _) fun _ => preserves_pure _
  · exact preserves_bind (store_stable _ _ _) fun _ => preserves_pure _

theorem replay_stable (rule : RuleId) (startPos : Nat) (ruleState : RuleState) :
    Preserves Stable thrown
      (NonTerminal.replay rule startPos ruleState : Parser CharT ParseResult) := by
  have jump : ∀ (target : Context CharT → Nat) (result : ParseResult),
      Preserves Stable thrown (Comp.modify (fun context => context.reset (target context)) >>= fun _ =>
        (pure result : Parser CharT ParseResult)) := fun target result =>
    preserves_bind (preserves_modify fun _ => reset_stable _ _) fun _ => preserves_pure result
  refine preserves_bind (preserves_read _) fun context => preserves_ite (fun _ => ?_) fun _ => ?_
  · exact preserves_bind (preserves_modify (mark_head_stable rule startPos)) fun _ => jump _ _
  · split
    · exact preserves_ite (fun _ => jump _ _) fun _ => jump _ _
    · exact jump _ _

theorem parse_entered (nonTerminal : NonTerminal CharT NodeType) (rule : RuleId)
    {body : Option (Parser CharT ParseResult)} (kept : ∀ parser ∈ body, StableParser parser)
    (fuel : Nat) : Preserves Stable Entered (NonTerminal.parse nonTerminal rule body fuel) := by
  refine preserves_bind (preserves_announce _) fun _ => preserves_bind (preserves_read _) fun startPos => ?_
  refine preserves_bind (preserves_modifyGet (rule_state_stable rule startPos)) fun row => ?_
  refine preserves_ite (fun _ => ?_) fun _ => replay_stable rule startPos _
  refine preserves_bind (invoke_entered rule startPos kept fuel) fun grown => ?_
  refine preserves_ite (fun _ => ?_) fun _ => finish_failure_stable _ _ _ _
  refine preserves_bind (build_node_stable _ _ _ _) fun node => ?_
  exact preserves_bind (store_stable _ _ _) fun _ => preserves_pure _

theorem parse_hit (nonTerminal : NonTerminal CharT NodeType) {rule : RuleId}
    (body : Option (Parser CharT ParseResult)) (fuel : Nat) {context : Context CharT}
    {row : RuleState} (held : context.mem context.position rule = some row) :
    NonTerminal.parse nonTerminal rule body fuel context =
      ⟨(NonTerminal.replay rule context.position row context).outcome,
        (NonTerminal.replay rule context.position row context).state,
        ⟨.apply rule, context⟩ :: (NonTerminal.replay rule context.position row context).trace⟩ := by
  have found : (Comp.modifyGet (fun here => here.ruleState rule context.position) context :
      Run (Moment CharT) (Context CharT) Exn (Bool × RuleState)) =
      ⟨.returned (false, row), context, []⟩ := by
    have kept : context.ruleState rule context.position = ((false, row), context) := by
      rw [Context.ruleState, held]
    simp only [Comp.modifyGet, kept]
  have announced : (announce (.apply rule) context : Run _ _ _ _) =
      ⟨.returned (), context, [⟨.apply rule, context⟩]⟩ := rfl
  have started : (Comp.read Context.position context : Run (Moment CharT) _ Exn _) =
      ⟨.returned context.position, context, []⟩ := rfl
  rw [NonTerminal.parse, Comp.bind_returned announced, Comp.bind_returned started,
    Comp.bind_returned found]
  rfl

variable [PegValue CharT]

/-- A rule application that returns has restored the control state; one that
throws has not. -/
theorem apply_entered (grammar : Grammar CharT NodeType) (fuel : Nat) (rule : RuleId) :
    Preserves Stable Entered (grammar.apply fuel rule) := by
  induction fuel generalizing rule with
  | zero => exact preserves_exhaust
  | succ fuel induction =>
      refine parse_entered _ rule (fun parser member => ?_) fuel
      obtain ⟨expr, -, rfl⟩ := Option.map_eq_some_iff.mp member
      exact expr_stable (fun id => entered_stable (induction id)) fuel expr

theorem apply_stable (grammar : Grammar CharT NodeType) (fuel : Nat) (rule : RuleId) :
    StableParser (grammar.apply fuel rule) :=
  entered_stable (apply_entered grammar fuel rule)

theorem eval_stable (grammar : Grammar CharT NodeType) (fuel : Nat) (expr : Expr CharT) :
    StableParser (grammar.eval fuel expr) :=
  expr_stable (apply_stable grammar fuel) fuel expr

end RuleApplication

end Peglib.ControlDiscipline
