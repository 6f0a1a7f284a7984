import Mathlib.Data.Option.Basic
import Peglib.Coupling
import Peglib.ExpressionSteps
import Peglib.MemoAnswers
import Peglib.ScopeBlindness

/-!
# Parsing from contexts that answer alike

An expression that only gets to rules of a given set takes no notice of the rows
and frames of other rules, of node addresses and of the error record. From two
contexts over one input at one position, whose rows agree for the rules of the
set and whose frames of these rules are the same, it succeeds or fails alike and
ends at one position. No skipper is set and no scope is committed.
-/

namespace Peglib.Lockstep

open Peglib.TracedComputation Peglib.Coupling
open Peglib.ParseError Peglib.ParseContext Peglib.Expressions Peglib.Rules Peglib.ExpressionSteps
open Peglib.MemoAnswers Peglib.ScopeBlindness

set_option autoImplicit false

variable {CharT NodeType : Type}

abbrev SameSuccess (result result' : ParseResult) : Prop := result.success = result'.success

structure RowsAgree (row row' : RuleState) : Prop where
  lastPos : row.lastPos = row'.lastPos
  success : SameSuccess row.cachedResult row'.cachedResult

/-- Two contexts that answer alike for the rules of the set, on top of frames of other
rules. -/
structure SameAnswers (reach : RuleId → Prop) (nearBase farBase : List LRFrame) (depth : Nat)
    (near far : Context CharT) : Prop where
  source : near.input = far.input
  position : near.position = far.position
  nearSkipper : near.skipper = none
  farSkipper : far.skipper = none
  nearScopes : Uncommitted near
  farScopes : Uncommitted far
  rows : ∀ pos rule, reach rule → Option.Rel RowsAgree (near.mem pos rule) (far.mem pos rule)
  frames : ∃ own, own.length = depth ∧ near.lrStack = own ++ nearBase ∧ far.lrStack = own ++ farBase

/-- A step that leaves the input, the memo, the frames and the skipper as they are, and
commits no scope. -/
structure UnseenStep (before after : Context CharT) : Prop where
  input : after.input = before.input
  mem : after.mem = before.mem
  lrStack : after.lrStack = before.lrStack
  skipper : after.skipper = before.skipper
  scopes : Uncommitted before → Uncommitted after

def Unseen (update : Context CharT → Context CharT) : Prop :=
  ∀ context, Uncommitted context → UnseenStep context (update context)

theorem unseen_of_fields {update : Context CharT → Context CharT}
    (fields : ∀ context, (update context).input = context.input ∧
      (update context).mem = context.mem ∧ (update context).lrStack = context.lrStack ∧
      (update context).skipper = context.skipper ∧ (update context).cutStack = context.cutStack) :
    Unseen update := by
  intro context _
  obtain ⟨input, mem, lrStack, skipper, cutStack⟩ := fields context
  refine ⟨input, mem, lrStack, skipper, fun inside scope member => ?_⟩
  rw [cutStack] at member
  exact inside scope member

section Frames

variable {reach : RuleId → Prop} {base : List LRFrame} {rule : RuleId} {pos : Nat}

theorem other_frames (other : ∀ frame ∈ base, ¬reach frame.rule) (inside : reach rule) (pos : Nat) :
    ∀ frame ∈ base, LRFrame.isOf rule pos frame = false := by
  intro frame member
  by_contra same
  rw [Bool.not_eq_false, LRFrame.isOf, Bool.and_eq_true, decide_eq_true_iff, decide_eq_true_iff] at same
  exact other frame member (same.2 ▸ inside)

theorem find_frame_append (absent : ∀ frame ∈ base, LRFrame.isOf rule pos frame = false)
    {own : List LRFrame} :
    (own ++ base).find? (LRFrame.isOf rule pos) = own.find? (LRFrame.isOf rule pos) := by
  have none : base.find? (LRFrame.isOf rule pos) = none :=
    List.find?_eq_none.mpr fun frame member => by simp [absent frame member]
  rw [List.find?_append, none, Option.or_none]

theorem mark_frame_append (absent : ∀ frame ∈ base, LRFrame.isOf rule pos frame = false)
    (own : List LRFrame) :
    Context.markFrame rule pos (own ++ base) = Context.markFrame rule pos own ++ base := by
  induction own with
  | nil =>
      induction base with
      | nil => rfl
      | cons frame rest induction =>
          have kept := induction fun frame member => absent frame (List.mem_cons_of_mem _ member)
          have missed := absent frame List.mem_cons_self
          change Context.markFrame rule pos (frame :: rest) = frame :: rest
          rw [Context.markFrame, missed, if_neg Bool.false_ne_true]
          exact congrArg (List.cons frame) kept
  | cons frame rest induction =>
      rw [List.cons_append, Context.markFrame, Context.markFrame]
      split_ifs
      · rfl
      · rw [induction, List.cons_append]

end Frames

section Relation

variable {reach : RuleId → Prop} {nearBase farBase : List LRFrame} {depth : Nat}
  {near far near' far' : Context CharT}

theorem SameAnswers.unseen (alike : SameAnswers reach nearBase farBase depth near far)
    (nearly : UnseenStep near near') (farly : UnseenStep far far')
    (position : near'.position = far'.position) :
    SameAnswers reach nearBase farBase depth near' far' where
  source := nearly.input.trans (alike.source.trans farly.input.symm)
  position := position
  nearSkipper := nearly.skipper.trans alike.nearSkipper
  farSkipper := farly.skipper.trans alike.farSkipper
  nearScopes := nearly.scopes alike.nearScopes
  farScopes := farly.scopes alike.farScopes
  rows := by
    rw [nearly.mem, farly.mem]
    exact alike.rows
  frames := by
    rw [nearly.lrStack, farly.lrStack]
    exact alike.frames

/-- Frames of other rules below, the relation tells the rules in progress apart. -/
theorem SameAnswers.in_progress (alike : SameAnswers reach nearBase farBase depth near far)
    (nearOther : ∀ frame ∈ nearBase, ¬reach frame.rule)
    (farOther : ∀ frame ∈ farBase, ¬reach frame.rule) {rule : RuleId} (inside : reach rule) (pos : Nat) :
    near.lrInProgress rule pos = far.lrInProgress rule pos := by
  obtain ⟨own, -, nearly, farly⟩ := alike.frames
  have absent : ∀ base : List LRFrame, (∀ frame ∈ base, ¬reach frame.rule) →
      base.any (LRFrame.isOf rule pos) = false := fun base other =>
    List.any_eq_false.mpr fun frame member => by simp [other_frames other inside pos frame member]
  unfold Context.lrInProgress
  rw [nearly, farly, List.any_append, List.any_append, absent _ nearOther, absent _ farOther]

theorem SameAnswers.frame (alike : SameAnswers reach nearBase farBase (depth + 1) near far) :
    NonTerminal.frame near = NonTerminal.frame far := by
  obtain ⟨own, size, nearly, farly⟩ := alike.frames
  cases own with
  | nil => cases size
  | cons top rest =>
      unfold NonTerminal.frame
      rw [nearly, farly]
      rfl

end Relation

section Steps

variable {reach : RuleId → Prop} {nearBase farBase : List LRFrame} {depth : Nat}
  {Value Value' Other Other' : Type} {agree : Value → Value' → Prop}
  {agree' : Other → Other' → Prop}

abbrev Steady (reach : RuleId → Prop) (nearBase farBase : List LRFrame) (depth : Nat)
    (agree : Value → Value' → Prop) (left : Parser CharT Value) (right : Parser CharT Value') : Prop :=
  Mirrors (SameAnswers reach nearBase farBase depth) (SameAnswers reach nearBase farBase depth) agree
    left right

theorem steady_modify {update update' : Context CharT → Context CharT} (unseen : Unseen update)
    (unseen' : Unseen update')
    (position : ∀ near far : Context CharT, near.input = far.input → near.position = far.position →
      (update near).position = (update' far).position) :
    Steady reach nearBase farBase depth (fun _ _ => True)
      (Comp.modify update : Parser CharT Unit) (Comp.modify update') :=
  mirrors_modify fun near far alike => alike.unseen (unseen near alike.nearScopes)
    (unseen' far alike.farScopes) (position near far alike.source alike.position)

theorem steady_read {view : Context CharT → Value} {next : Value → Parser CharT Other}
    {next' : Value → Parser CharT Other'}
    (same : ∀ near far : Context CharT, near.input = far.input → near.position = far.position →
      view near = view far)
    (rest : ∀ value, Steady reach nearBase farBase depth agree' (next value) (next' value)) :
    Steady reach nearBase farBase depth agree' (Comp.read view >>= next) (Comp.read view >>= next') := by
  refine mirrors_read fun near far alike => ?_
  rw [same near far alike.source alike.position]
  exact rest (view far) near far alike

theorem reset_unseen (pos : Nat) : Unseen fun context : Context CharT => context.reset pos :=
  unseen_of_fields fun _ => ⟨rfl, rfl, rfl, rfl, rfl⟩

theorem next_unseen : Unseen (@Context.next CharT) :=
  unseen_of_fields fun context => by
    unfold Context.next
    split_ifs <;> exact ⟨rfl, rfl, rfl, rfl, rfl⟩

theorem push_child_unseen (node : NodePtr) (tree : Option NodePtr) :
    Unseen (@pushChild CharT node tree) :=
  unseen_of_fields fun _ => by cases tree <;> exact ⟨rfl, rfl, rfl, rfl, rfl⟩

theorem stamp_winner_unseen (tree : Option NodePtr) (index : Nat) :
    Unseen (@stampWinner CharT tree index) :=
  unseen_of_fields fun _ => by cases tree <;> exact ⟨rfl, rfl, rfl, rfl, rfl⟩

theorem init_cut_unseen : Unseen (@Context.initCut CharT) := by
  refine fun context _ => ⟨rfl, rfl, rfl, rfl, fun inside scope member => ?_⟩
  rcases List.mem_cons.mp member with rfl | member
  · rfl
  · exact inside scope member

theorem set_cut_unseen : Unseen fun context : Context CharT => context.setCut false := by
  intro context inside
  obtain ⟨scopes, cleared, uncommitted⟩ := set_cut_scopes inside
  dsimp only
  rw [cleared]
  exact ⟨rfl, rfl, rfl, rfl, fun _ => uncommitted⟩

theorem remove_cut_unseen : Unseen (@Context.removeCut CharT) := by
  intro context inside
  unfold Context.removeCut
  split
  · exact ⟨rfl, rfl, rfl, rfl, id⟩
  · next scope outer stack =>
      have flag : scope.cut = false := inside scope (by rw [stack]; exact List.mem_cons_self)
      rw [if_neg (by rw [flag]; exact Bool.false_ne_true)]
      refine ⟨rfl, rfl, rfl, rfl, fun _ other member => ?_⟩
      exact inside other (by rw [stack]; exact List.mem_cons_of_mem _ member)

theorem steady_reset (pos : Nat) :
    Steady reach nearBase farBase depth (fun _ _ => True)
      (Comp.modify fun context : Context CharT => context.reset pos : Parser CharT Unit)
      (Comp.modify fun context => context.reset pos) :=
  steady_modify (reset_unseen pos) (reset_unseen pos) fun _ _ _ _ => rfl

theorem steady_arena {update update' : Context CharT → Context CharT} (unseen : Unseen update)
    (unseen' : Unseen update') (still : ∀ context, (update context).position = context.position)
    (still' : ∀ context, (update' context).position = context.position) :
    Steady reach nearBase farBase depth (fun _ _ => True)
      (Comp.modify update : Parser CharT Unit) (Comp.modify update') :=
  steady_modify unseen unseen' fun near far _ position => by rw [still, still', position]

theorem steady_make_node :
    Steady reach nearBase farBase depth (fun _ _ => True)
      (Comp.modifyGet Context.makeNode : Parser CharT NodePtr) (Comp.modifyGet Context.makeNode) :=
  mirrors_modifyGet fun _ _ alike =>
    ⟨trivial, alike.unseen ⟨rfl, rfl, rfl, rfl, id⟩ ⟨rfl, rfl, rfl, rfl, id⟩ alike.position⟩

end Steps

section Expressions

variable {reach : RuleId → Prop} {nearBase farBase : List LRFrame} {depth : Nat}

abbrev SteadyParser (reach : RuleId → Prop) (nearBase farBase : List LRFrame) (depth : Nat)
    (parser : Parser CharT ParseResult) : Prop :=
  Steady reach nearBase farBase depth SameSuccess parser parser

theorem steady_miss {update : Context CharT → Context CharT} (unseen : Unseen update)
    (still : ∀ context, (update context).position = context.position) {result result' : ParseResult}
    (same : SameSuccess result result') :
    Steady reach nearBase farBase depth SameSuccess
      (Comp.modify update >>= fun _ => (pure result : Parser CharT ParseResult))
      (Comp.modify update >>= fun _ => (pure result' : Parser CharT ParseResult)) :=
  mirrors_bind (steady_arena unseen unseen still still) fun _ _ _ => mirrors_pure same

theorem matcher_steady {fn : Context CharT → Span → Option Span} (pure : PureMatcher fn) :
    SteadyParser reach nearBase farBase depth (MatcherExpr.parse fn) := by
  refine mirrors_read fun near far alike => ?_
  have seen : fn near ⟨near.position, near.position⟩ = fn far ⟨far.position, far.position⟩ := by
    rw [pure.pure near far _ alike.source alike.position, alike.position]
  dsimp only [id]
  rw [seen]
  cases fn far ⟨far.position, far.position⟩ with
  | none => exact ⟨rfl, alike⟩
  | some consumed =>
      refine mirrors_bind (steady_reset _) (fun _ _ _ => ?_) near far alike
      refine mirrors_bind steady_make_node fun node node' _ => ?_
      refine mirrors_bind (steady_arena ?_ ?_ (fun _ => rfl) fun _ => rfl) fun _ _ _ =>
        mirrors_pure rfl
      · exact unseen_of_fields fun _ => ⟨rfl, rfl, rfl, rfl, rfl⟩
      · exact unseen_of_fields fun _ => ⟨rfl, rfl, rfl, rfl, rfl⟩

theorem skipper_steady (apply : RuleId → Parser CharT ParseResult) :
    Steady reach nearBase farBase depth (fun _ _ => True) (runSkipper apply) (runSkipper apply) := by
  intro near far alike
  have off : ∀ context : Context CharT, context.skipper = none →
      runSkipper apply context = ⟨.returned (), context, []⟩ := by
    intro context none
    have looked : (Comp.read id context : Run (Moment CharT) _ Exn (Context CharT)) =
        ⟨.returned context, context, []⟩ := rfl
    rw [runSkipper, Comp.bind_returned looked, none]
    cases context.skipEnabled <;> rfl
  rw [off near alike.nearSkipper, off far alike.farSkipper]
  exact ⟨trivial, alike⟩

theorem parse_seq_steady {skip : Parser CharT Unit}
    (skips : Steady reach nearBase farBase depth (fun _ _ => True) skip skip) (node node' : NodePtr)
    (children : List (Parser CharT ParseResult))
    (each : ∀ child ∈ children, SteadyParser reach nearBase farBase depth child) (index : Nat) :
    Steady reach nearBase farBase depth Eq (SequenceExpr.parseSeq skip node index children)
      (SequenceExpr.parseSeq skip node' index children) := by
  induction children generalizing index with
  | nil => exact mirrors_pure rfl
  | cons child rest induction =>
      refine mirrors_bind (mirrors_onlyIf Iff.rfl fun _ => skips) fun _ _ _ => ?_
      refine mirrors_bind (each child (by simp)) fun result result' same => ?_
      refine mirrors_ite (by rw [same]) (fun _ _ => ?_) fun _ => mirrors_pure rfl
      refine mirrors_bind (steady_arena (push_child_unseen _ _) (push_child_unseen _ _) ?_ ?_)
        fun _ _ _ => induction (fun other member => each other (by simp [member])) (index + 1)
      · exact fun _ => by cases result.tree <;> rfl
      · exact fun _ => by cases result'.tree <;> rfl

theorem mark_steady {Value Value' : Type} {agree : Value → Value' → Prop}
    {mark : NodePtr → Context CharT → Context CharT} (unseen : ∀ node, Unseen (mark node))
    (still : ∀ node context, (mark node context).position = context.position) (node node' : NodePtr)
    {next : Parser CharT Value} {next' : Parser CharT Value'}
    (rest : Steady reach nearBase farBase depth agree next next') :
    Steady reach nearBase farBase depth agree (Comp.modify (mark node) >>= fun _ => next)
      (Comp.modify (mark node') >>= fun _ => next') :=
  mirrors_bind (steady_arena (unseen node) (unseen node') (still node) (still node'))
    fun _ _ _ => rest

theorem mark_start_unseen (node : NodePtr) : Unseen (@markStart CharT node) :=
  unseen_of_fields fun _ => ⟨rfl, rfl, rfl, rfl, rfl⟩

theorem mark_end_unseen (node : NodePtr) : Unseen (@markEnd CharT node) :=
  unseen_of_fields fun _ => ⟨rfl, rfl, rfl, rfl, rfl⟩

theorem sequence_steady {skip : Parser CharT Unit}
    (skips : Steady reach nearBase farBase depth (fun _ _ => True) skip skip)
    (children : List (Parser CharT ParseResult))
    (each : ∀ child ∈ children, SteadyParser reach nearBase farBase depth child) :
    SteadyParser reach nearBase farBase depth (SequenceExpr.parse skip children) := by
  refine steady_read (fun _ _ _ => id) fun state => ?_
  refine mirrors_bind steady_make_node fun node node' _ => ?_
  refine mark_steady mark_start_unseen (fun _ _ => rfl) node node' ?_
  refine mirrors_bind (parse_seq_steady skips node node' children each 0) ?_
  rintro matched _ rfl
  refine mirrors_ite Iff.rfl (fun _ _ => ?_) fun _ => ?_
  · exact mark_steady mark_end_unseen (fun _ _ => rfl) node node' (mirrors_pure rfl)
  · exact mirrors_bind (steady_reset state) fun _ _ _ => mirrors_pure rfl

theorem raise_steady :
    Steady reach nearBase farBase depth (fun _ _ => True) (raiseIfCommitted : Parser CharT Unit)
      raiseIfCommitted := by
  refine mirrors_bind (mirrors_announce _ _) fun _ _ _ => mirrors_read fun near far alike => ?_
  dsimp only [id]
  rw [alike.nearScopes.cut_eq, alike.farScopes.cut_eq]
  exact ⟨trivial, alike⟩

theorem cut_scope_steady {body body' : Parser CharT ParseResult}
    (bodies : Steady reach nearBase farBase depth SameSuccess body body') :
    Steady reach nearBase farBase depth SameSuccess
      (Comp.modify Context.initCut >>= fun _ => Comp.guarded body Context.removeCut)
      (Comp.modify Context.initCut >>= fun _ => Comp.guarded body' Context.removeCut) := by
  have closed : ∀ context : Context CharT, context.removeCut.position = context.position := by
    intro context
    unfold Context.removeCut
    split
    · rfl
    · split_ifs <;> rfl
  refine mirrors_bind (steady_arena init_cut_unseen init_cut_unseen (fun _ => rfl) fun _ => rfl)
    fun _ _ _ => mirrors_guarded bodies fun near far alike => ?_
  exact alike.unseen (remove_cut_unseen near alike.nearScopes) (remove_cut_unseen far alike.farScopes)
    (by rw [closed, closed, alike.position])

theorem parse_alt_steady (children : List (Parser CharT ParseResult))
    (each : ∀ child ∈ children, SteadyParser reach nearBase farBase depth child) (index : Nat) :
    SteadyParser reach nearBase farBase depth (AlternationExpr.parseAlt index children) := by
  induction children generalizing index with
  | nil => exact mirrors_pure rfl
  | cons child rest induction =>
      refine mirrors_bind (each child (by simp)) fun result result' same => ?_
      refine mirrors_ite (by rw [same]) (fun _ _ => ?_) fun _ => ?_
      · refine mirrors_bind (steady_arena (stamp_winner_unseen _ _) (stamp_winner_unseen _ _) ?_ ?_)
          fun _ _ _ => mirrors_pure same
        · exact fun _ => by cases result.tree <;> rfl
        · exact fun _ => by cases result'.tree <;> rfl
      · refine mirrors_bind raise_steady fun _ _ _ => ?_
        exact induction (fun other member => each other (by simp [member])) (index + 1)

theorem set_cut_steady :
    Steady reach nearBase farBase depth (fun _ _ => True)
      (Comp.modify fun context : Context CharT => context.setCut false : Parser CharT Unit)
      (Comp.modify fun context => context.setCut false) := by
  have still : ∀ context : Context CharT, (context.setCut false).position = context.position := by
    intro context
    unfold Context.setCut
    split <;> rfl
  exact steady_arena set_cut_unseen set_cut_unseen still still

theorem repeat_loop_steady {skip : Parser CharT Unit}
    (skips : Steady reach nearBase farBase depth (fun _ _ => True) skip skip)
    {child : Parser CharT ParseResult} (childSteady : SteadyParser reach nearBase farBase depth child)
    (maxRep : Int) (node node' : NodePtr) (fuel loopCount lastSuccessState : Nat) :
    Steady reach nearBase farBase depth Eq
      (repeatLoop skip child maxRep node fuel loopCount lastSuccessState)
      (repeatLoop skip child maxRep node' fuel loopCount lastSuccessState) := by
  induction fuel generalizing loopCount lastSuccessState with
  | zero => exact mirrors_exhaust
  | succ fuel induction =>
      refine mirrors_bind (mirrors_onlyIf Iff.rfl fun _ => skips) fun _ _ _ => ?_
      refine steady_read (fun _ _ _ => id) fun startState => ?_
      refine mirrors_bind set_cut_steady fun _ _ _ => ?_
      refine mirrors_bind childSteady fun result result' same => ?_
      refine mirrors_ite (by rw [same]) (fun _ _ => ?_) fun _ => mirrors_pure rfl
      refine steady_read (fun _ _ _ => id) fun here => ?_
      refine mirrors_bind (steady_arena (push_child_unseen _ _) (push_child_unseen _ _) ?_ ?_)
        fun _ _ _ => mirrors_ite Iff.rfl (fun _ _ => mirrors_pure rfl) fun _ => induction _ _
      · exact fun _ => by cases result.tree <;> rfl
      · exact fun _ => by cases result'.tree <;> rfl

theorem repeat_finish_steady (maxRep : Int) (node node' : NodePtr) (ended : LoopExit) :
    Steady reach nearBase farBase depth SameSuccess
      (repeatFinish maxRep node ended : Parser CharT ParseResult) (repeatFinish maxRep node' ended) := by
  have rewinds : ∀ node : NodePtr, Unseen fun context : Context CharT =>
      (context.reset ended.lastSuccessState).updateNode node (resizeChildren ended.loopCount) :=
    fun _ => unseen_of_fields fun _ => ⟨rfl, rfl, rfl, rfl, rfl⟩
  refine mirrors_bind (mirrors_onlyIf Iff.rfl fun _ =>
    steady_modify (rewinds node) (rewinds node') fun _ _ _ _ => rfl) fun _ _ _ => ?_
  refine mirrors_bind (mirrors_onlyIf Iff.rfl fun _ => raise_steady) fun _ _ _ => ?_
  exact mark_steady mark_end_unseen (fun _ _ => rfl) node node' (mirrors_pure rfl)

theorem repeat_steady (fuel : Nat) {skip : Parser CharT Unit}
    (skips : Steady reach nearBase farBase depth (fun _ _ => True) skip skip)
    {child : Parser CharT ParseResult} (childSteady : SteadyParser reach nearBase farBase depth child)
    (minRep : Nat) (maxRep : Int) :
    SteadyParser reach nearBase farBase depth (repeatParseImpl fuel skip child minRep maxRep) := by
  refine cut_scope_steady (steady_read (fun _ _ _ => id) fun initState => ?_)
  refine mirrors_bind steady_make_node fun node node' _ => ?_
  refine mark_steady mark_start_unseen (fun _ _ => rfl) node node' ?_
  refine mirrors_bind (repeat_loop_steady skips childSteady maxRep node node' fuel 0 _) ?_
  rintro ended _ rfl
  refine mirrors_ite Iff.rfl (fun _ _ => ?_) fun _ => repeat_finish_steady maxRep node node' ended
  exact mirrors_bind (steady_reset initState) fun _ _ _ => mirrors_pure rfl

theorem predicate_steady {child : Parser CharT ParseResult}
    (childSteady : SteadyParser reach nearBase farBase depth child) (negate : Bool) :
    SteadyParser reach nearBase farBase depth (predicateParseImpl child negate) := by
  refine steady_read (fun _ _ _ => id) fun initState => ?_
  refine mirrors_bind childSteady fun result result' same => ?_
  refine mirrors_bind (steady_reset initState) fun _ _ _ => mirrors_pure ?_
  unfold SameSuccess at same ⊢
  rw [same]

theorem lexeme_steady {child : Parser CharT ParseResult}
    (childSteady : SteadyParser reach nearBase farBase depth child) :
    SteadyParser reach nearBase farBase depth (LexemeExpr.parse child) := by
  have sets : ∀ enabled : Bool, Unseen fun context : Context CharT =>
      { context with skipEnabled := enabled } :=
    fun _ => unseen_of_fields fun _ => ⟨rfl, rfl, rfl, rfl, rfl⟩
  refine mirrors_read fun near far alike => ?_
  refine mirrors_bind (steady_arena (sets false) (sets false) (fun _ => rfl) fun _ => rfl)
    (fun _ _ _ => ?_) near far alike
  exact mirrors_guarded childSteady fun _ _ alike => alike.unseen (sets _ _ alike.nearScopes)
    (sets _ _ alike.farScopes) alike.position

variable [PegValue CharT]

omit [PegValue CharT] in
theorem next_steady :
    Steady reach nearBase farBase depth (fun _ _ => True)
      (Comp.modify Context.next : Parser CharT Unit) (Comp.modify Context.next) := by
  refine steady_modify next_unseen next_unseen fun near far source position => ?_
  unfold Context.next Context.inputSize
  rw [source, position]
  split_ifs
  · rfl
  · exact position

theorem consumable_same (value : TerminalValue CharT) (near far : Context CharT)
    (source : near.input = far.input) (position : near.position = far.position) :
    consumable value near = consumable value far := by
  unfold consumable Context.ended Context.current Context.inputSize
  rw [source, position]

omit [PegValue CharT] in
theorem record_unseen (pos : Context CharT → Nat) (producer : Unit → ExpectedItem) :
    Unseen fun context : Context CharT => context.recordFailureLazy (pos context) producer :=
  unseen_of_fields fun _ => ⟨rfl, rfl, rfl, rfl, rfl⟩

theorem terminal_steady (value : TerminalValue CharT) :
    SteadyParser reach nearBase farBase depth (TerminalExpr.parse value) := by
  refine steady_read (consumable_same value) fun matched => mirrors_ite Iff.rfl (fun _ _ => ?_)
    fun _ => ?_
  · exact mirrors_bind next_steady fun _ _ _ => mirrors_pure rfl
  · exact steady_miss (record_unseen Context.position _) (fun _ => rfl) rfl

theorem match_values_steady (values : List CharT) :
    Steady reach nearBase farBase depth Eq (TerminalSeqExpr.matchValues values)
      (TerminalSeqExpr.matchValues values) := by
  induction values with
  | nil => exact mirrors_pure rfl
  | cons value rest induction =>
      refine steady_read (consumable_same _) fun matched => mirrors_ite Iff.rfl (fun _ _ => ?_)
        fun _ => mirrors_pure rfl
      exact mirrors_bind next_steady fun _ _ _ => induction

theorem terminal_seq_steady (values : List CharT) :
    SteadyParser reach nearBase farBase depth (TerminalSeqExpr.parse values) := by
  refine steady_read (fun _ _ _ => id) fun initState =>
    mirrors_bind (match_values_steady values) ?_
  rintro matched _ rfl
  refine mirrors_ite Iff.rfl (fun _ _ => mirrors_pure rfl) fun _ => ?_
  refine mirrors_bind (steady_reset initState) fun _ _ _ => ?_
  exact steady_miss (record_unseen Context.position _) (fun _ => rfl) rfl

theorem token_steady (value : TerminalValue CharT) :
    SteadyParser reach nearBase farBase depth (TokenExpr.parse value) := by
  refine steady_read (consumable_same value) fun matched => mirrors_ite Iff.rfl (fun _ _ => ?_)
    fun _ => ?_
  · refine mirrors_bind next_steady fun _ _ _ => mirrors_bind steady_make_node fun node node' _ => ?_
    refine mirrors_bind (steady_arena ?_ ?_ (fun _ => rfl) fun _ => rfl) fun _ _ _ => mirrors_pure rfl
    · exact unseen_of_fields fun _ => ⟨rfl, rfl, rfl, rfl, rfl⟩
    · exact unseen_of_fields fun _ => ⟨rfl, rfl, rfl, rfl, rfl⟩
  · exact steady_miss (record_unseen Context.position _) (fun _ => rfl) rfl

/-- An expression part of a sealed, cut-free world with pure matchers. -/
def Enclosed (reach : RuleId → Prop) (part : Expr CharT) : Prop := Sealed reach part ∧ MatcherPure part

theorem expr_steady {apply : RuleId → Parser CharT ParseResult}
    (applies : ∀ rule, reach rule → SteadyParser reach nearBase farBase depth (apply rule))
    (fuel : Nat) {expr : Expr CharT} (enclosed : expr.Every (Enclosed reach)) :
    SteadyParser reach nearBase farBase depth (expr.parse apply fuel) := by
  have skips : Steady reach nearBase farBase depth (fun _ _ => True) (runSkipper apply)
      (runSkipper apply) := skipper_steady apply
  have all : ∀ children : List (Expr CharT),
      (∀ child ∈ children, SteadyParser reach nearBase farBase depth (child.parse apply fuel)) →
      ∀ parser ∈ Expr.parseAll apply fuel children,
        SteadyParser reach nearBase farBase depth parser := by
    intro children each parser member
    rw [Expr.parse_all_eq_map] at member
    obtain ⟨child, inChildren, rfl⟩ := List.mem_map.mp member
    exact each child inChildren
  induction expr using Expr.induct with
  | terminal value => exact terminal_steady value
  | terminalSeq values => exact terminal_seq_steady values
  | token value => exact token_steady value
  | matcher fn => exact matcher_steady enclosed.here.2
  | empty => exact mirrors_pure rfl
  | cut => exact absurd enclosed.here.1 id
  | sequence children induction =>
      unfold Expr.Every at enclosed
      exact sequence_steady skips _ (all children fun child member =>
        induction child member (Expr.every_all_iff.mp enclosed.2 child member))
  | alternation children induction =>
      unfold Expr.Every at enclosed
      exact cut_scope_steady (parse_alt_steady _ (all children fun child member =>
        induction child member (Expr.every_all_iff.mp enclosed.2 child member)) 0)
  | repetition kind child induction =>
      unfold Expr.Every at enclosed
      exact repeat_steady fuel skips (induction enclosed.2) kind.minRep kind.maxRep
  | not child induction =>
      unfold Expr.Every at enclosed
      exact predicate_steady (induction enclosed.2) true
  | and child induction =>
      unfold Expr.Every at enclosed
      exact predicate_steady (induction enclosed.2) false
  | lexeme child induction =>
      unfold Expr.Every at enclosed
      exact lexeme_steady (induction enclosed.2)
  | rule id => exact applies id enclosed.here.1

end Expressions

section RuleApplication

variable {reach : RuleId → Prop} {nearBase farBase : List LRFrame} {depth : Nat}
  {near far : Context CharT} {rule : RuleId}

theorem SameAnswers.rewritten (alike : SameAnswers reach nearBase farBase depth near far)
    {mem mem' : Memo}
    (rows : ∀ pos rule, reach rule → Option.Rel RowsAgree (mem pos rule) (mem' pos rule)) :
    SameAnswers reach nearBase farBase depth { near with mem := mem } { far with mem := mem' } :=
  ⟨alike.source, alike.position, alike.nearSkipper, alike.farSkipper, alike.nearScopes,
    alike.farScopes, rows, alike.frames⟩

theorem SameAnswers.written (alike : SameAnswers reach nearBase farBase depth near far) (pos : Nat)
    (rule : RuleId) {entry entry' : RuleState} (entries : RowsAgree entry entry') :
    SameAnswers reach nearBase farBase depth { near with mem := near.mem.write pos rule entry }
      { far with mem := far.mem.write pos rule entry' } := by
  refine alike.rewritten fun pos' rule' inside => ?_
  unfold Memo.write
  split_ifs
  · exact .some entries
  · exact alike.rows pos' rule' inside

theorem update_row_alike (alike : SameAnswers reach nearBase farBase depth near far)
    (inside : reach rule) (pos : Nat) {entry entry' : RuleState} (entries : RowsAgree entry entry') :
    (near.updateRuleState rule pos entry).1 = (far.updateRuleState rule pos entry').1 ∧
      SameAnswers reach nearBase farBase depth (near.updateRuleState rule pos entry).2
        (far.updateRuleState rule pos entry').2 := by
  have rows := alike.rows pos rule inside
  unfold Context.updateRuleState
  cases nearly : near.mem pos rule with
  | none =>
      cases farly : far.mem pos rule with
      | none => exact ⟨rfl, alike⟩
      | some row => rw [nearly, farly] at rows; cases rows
  | some row =>
      cases farly : far.mem pos rule with
      | none => rw [nearly, farly] at rows; cases rows
      | some row' => exact ⟨rfl, alike.written pos rule entries⟩

theorem store_steady (inside : reach rule) (pos : Nat) {entry entry' : RuleState}
    (entries : RowsAgree entry entry') :
    Steady reach nearBase farBase depth Eq
      (NonTerminal.store rule pos entry : Parser CharT Bool) (NonTerminal.store rule pos entry') := by
  refine mirrors_bind (mirrors_modifyGet fun near far alike =>
    update_row_alike alike inside pos entries) ?_
  rintro present _ rfl
  exact mirrors_bind (mirrors_announce _ _) fun _ _ _ => mirrors_pure rfl

variable (nearOther : ∀ frame ∈ nearBase, ¬reach frame.rule)
  (farOther : ∀ frame ∈ farBase, ¬reach frame.rule)

include nearOther farOther

theorem clear_siblings_alike (alike : SameAnswers reach nearBase farBase depth near far) (pos : Nat)
    (keep : RuleId) :
    SameAnswers reach nearBase farBase depth (near.clearSiblingsAt pos keep)
      (far.clearSiblingsAt pos keep) := by
  refine alike.rewritten fun pos' rule' inside => ?_
  rw [alike.in_progress nearOther farOther inside]
  split_ifs
  · exact .none
  · exact alike.rows pos' rule' inside

omit nearOther farOther in
theorem set_frame_steady (pos : Nat) :
    Steady reach nearBase farBase (depth + 1) (fun _ _ => True)
      (Comp.modify (NonTerminal.setFrameLastPos pos) : Parser CharT Unit)
      (Comp.modify (NonTerminal.setFrameLastPos pos)) := by
  refine mirrors_modify fun near far alike => ?_
  obtain ⟨own, size, nearly, farly⟩ := alike.frames
  refine ⟨alike.source, alike.position, alike.nearSkipper, alike.farSkipper, alike.nearScopes,
    alike.farScopes, alike.rows, ?_⟩
  unfold NonTerminal.setFrameLastPos
  cases own with
  | nil => cases size
  | cons top rest =>
      rw [nearly, farly]
      exact ⟨{ top with lastPos := pos } :: rest, size, rfl, rfl⟩

theorem grow_loop_steady (inside : reach rule) (startPos : Nat)
    {parseBody : Parser CharT ParseResult}
    (bodies : SteadyParser reach nearBase farBase (depth + 1) parseBody) (fuel : Nat)
    {best best' : ParseResult} {ruleState ruleState' : RuleState} (bests : SameSuccess best best')
    (states : RowsAgree ruleState ruleState') :
    Steady reach nearBase farBase (depth + 1)
      (fun grown grown' => SameSuccess grown.1 grown'.1 ∧ RowsAgree grown.2 grown'.2)
      (NonTerminal.growLoop rule startPos parseBody fuel best ruleState)
      (NonTerminal.growLoop rule startPos parseBody fuel best' ruleState') := by
  induction fuel generalizing best best' ruleState ruleState' with
  | zero => exact mirrors_exhaust
  | succ fuel induction =>
      refine mirrors_bind (steady_reset startPos) fun _ _ _ => ?_
      refine mirrors_read fun near far alike => ?_
      have heads : ((NonTerminal.frame near).isHead = true ∧ best.success = true) ↔
          ((NonTerminal.frame far).isHead = true ∧ best'.success = true) := by
        rw [alike.frame, bests]
      have clears : Steady reach nearBase farBase (depth + 1) (fun _ _ => True)
          (Comp.modify fun context => context.clearSiblingsAt startPos rule : Parser CharT Unit)
          (Comp.modify fun context => context.clearSiblingsAt startPos rule) :=
        mirrors_modify fun _ _ alike =>
          clear_siblings_alike nearOther farOther alike startPos rule
      refine mirrors_bind (mirrors_onlyIf heads fun _ => clears) (fun _ _ _ => ?_) near far alike
      refine mirrors_bind bodies fun result result' same => mirrors_read fun near far alike => ?_
      dsimp only [id]
      rw [same, alike.frame, alike.position]
      refine mirrors_ite Iff.rfl (fun success _ => mirrors_ite Iff.rfl (fun _ _ => ?_) fun _ => ?_)
        (fun _ => mirrors_pure ⟨bests, states⟩) near far alike
      · have entries : RowsAgree ⟨far.position, result⟩ ⟨far.position, result'⟩ := ⟨rfl, same⟩
        refine mirrors_bind (set_frame_steady far.position) fun _ _ _ => mirrors_bind (store_steady inside _ entries) ?_
        rintro present _ rfl
        exact mirrors_ite Iff.rfl (fun _ _ => induction same entries)
          fun _ => mirrors_pure ⟨same, entries⟩
      · have kept : SameSuccess (if best.success then best else result)
            (if best'.success then best' else result') := by
          unfold SameSuccess at bests same ⊢
          rw [bests]
          split_ifs
          · exact bests
          · exact same
        have entries : RowsAgree
            ⟨(NonTerminal.frame far).lastPos, if best.success then best else result⟩
            ⟨(NonTerminal.frame far).lastPos, if best'.success then best' else result'⟩ := ⟨rfl, kept⟩
        exact mirrors_bind (store_steady inside _ entries) fun _ _ _ =>
          mirrors_pure ⟨kept, entries⟩

omit nearOther farOther in
theorem leave_alike (startPos : Nat)
    (alike : SameAnswers reach nearBase farBase (depth + 1) near far) :
    SameAnswers reach nearBase farBase depth (NonTerminal.leave startPos near)
      (NonTerminal.leave startPos far) := by
  have popped : SameAnswers reach nearBase farBase depth near.lrPop far.lrPop := by
    obtain ⟨own, size, nearly, farly⟩ := alike.frames
    refine ⟨alike.source, alike.position, alike.nearSkipper, alike.farSkipper, alike.nearScopes,
      alike.farScopes, alike.rows, ?_⟩
    unfold Context.lrPop
    cases own with
    | nil => cases size
    | cons top rest =>
        rw [nearly, farly]
        exact ⟨rest, Nat.succ.inj size, rfl, rfl⟩
  unfold NonTerminal.leave
  rw [alike.frame]
  split_ifs
  · exact popped.unseen ⟨rfl, rfl, rfl, rfl, id⟩ ⟨rfl, rfl, rfl, rfl, id⟩ popped.position
  · exact popped

theorem invoke_steady (inside : reach rule) (startPos : Nat)
    {body : Option (Parser CharT ParseResult)}
    (bodies : ∀ parser ∈ body, SteadyParser reach nearBase farBase (depth + 1) parser) (fuel : Nat) :
    Steady reach nearBase farBase depth
      (fun grown grown' => SameSuccess grown.1 grown'.1 ∧ RowsAgree grown.2 grown'.2)
      (NonTerminal.invoke rule startPos body fuel) (NonTerminal.invoke rule startPos body fuel) := by
  have entered : Mirrors (SameAnswers reach nearBase farBase depth)
      (SameAnswers reach nearBase farBase (depth + 1)) (fun _ _ => True)
      (Comp.modify fun context => context.lrPush ⟨rule, startPos, startPos, false⟩ : Parser CharT Unit)
      (Comp.modify fun context => context.lrPush ⟨rule, startPos, startPos, false⟩) := by
    refine mirrors_modify fun near far alike => ?_
    obtain ⟨own, size, nearly, farly⟩ := alike.frames
    refine ⟨alike.source, alike.position, alike.nearSkipper, alike.farSkipper, alike.nearScopes,
      alike.farScopes, alike.rows, ⟨rule, startPos, startPos, false⟩ :: own, congrArg (· + 1) size, ?_⟩
    unfold Context.lrPush
    rw [nearly, farly]
    exact ⟨rfl, rfl⟩
  have left : Mirrors (SameAnswers reach nearBase farBase (depth + 1))
      (SameAnswers reach nearBase farBase depth) (fun _ _ => True)
      (Comp.modify (NonTerminal.leave startPos) : Parser CharT Unit)
      (Comp.modify (NonTerminal.leave startPos)) :=
    mirrors_modify fun near far alike => leave_alike startPos alike
  refine mirrors_bind entered fun _ _ _ => ?_
  have implemented : Steady reach nearBase farBase (depth + 1)
      (fun grown grown' => SameSuccess grown.1 grown'.1 ∧ RowsAgree grown.2 grown'.2)
      (NonTerminal.parseImpl rule startPos body fuel)
      (NonTerminal.parseImpl rule startPos body fuel) := by
    cases body with
    | none => exact mirrors_throw _ _
    | some parseBody =>
        refine mirrors_bind (store_steady inside startPos ⟨rfl, rfl⟩) fun _ _ _ => ?_
        refine mirrors_bind (grow_loop_steady nearOther farOther inside startPos (bodies _ rfl) fuel
          rfl ⟨rfl, rfl⟩) fun grown grown' same => ?_
        have back : Steady reach nearBase farBase (depth + 1) (fun _ _ => True)
            (Comp.modify fun context => context.reset (NonTerminal.frame context).lastPos :
              Parser CharT Unit)
            (Comp.modify fun context => context.reset (NonTerminal.frame context).lastPos) := by
          refine mirrors_modify fun near far alike => ?_
          exact alike.unseen ⟨rfl, rfl, rfl, rfl, id⟩ ⟨rfl, rfl, rfl, rfl, id⟩
            (congrArg LRFrame.lastPos alike.frame)
        exact mirrors_bind back fun _ _ _ => mirrors_pure same
  exact mirrors_bind implemented fun _ _ same => mirrors_bind left fun _ _ _ => mirrors_pure same

theorem mark_head_alike (alike : SameAnswers reach nearBase farBase depth near far)
    (inside : reach rule) (pos : Nat) :
    SameAnswers reach nearBase farBase depth (near.markHead rule pos) (far.markHead rule pos) := by
  have nearAbsent := other_frames nearOther inside pos
  have farAbsent := other_frames farOther inside pos
  obtain ⟨own, sized, nearly, farly⟩ := alike.frames
  have rest : SameAnswers reach nearBase farBase depth near far := alike
  unfold Context.markHead
  rw [nearly, farly, find_frame_append nearAbsent, find_frame_append farAbsent]
  cases own.find? (LRFrame.isOf rule pos) with
  | none => exact rest
  | some frame =>
      dsimp only
      split_ifs
      · exact rest
      · refine ⟨rest.source, rest.position, rest.nearSkipper, rest.farSkipper, rest.nearScopes,
          rest.farScopes, rest.rows, Context.markFrame rule pos own, ?_,
          mark_frame_append nearAbsent own, mark_frame_append farAbsent own⟩
        have cores := congrArg List.length (ControlDiscipline.mark_frame_core rule pos own)
        rw [List.length_map, List.length_map] at cores
        exact cores.trans sized

omit nearOther farOther in
theorem build_node_steady (nonTerminal : NonTerminal CharT NodeType) (rule : RuleId)
    (startPos : Nat) (inner inner' : Option NodePtr) :
    Steady reach nearBase farBase depth (fun _ _ => True)
      (NonTerminal.buildNode nonTerminal rule startPos inner : Parser CharT NodePtr)
      (NonTerminal.buildNode nonTerminal rule startPos inner') := by
  have stamps : ∀ (node : NodePtr) (stamp : Context CharT → ParseTreeNode → ParseTreeNode),
      Unseen fun context : Context CharT => context.updateNode node (stamp context) :=
    fun _ _ => unseen_of_fields fun _ => ⟨rfl, rfl, rfl, rfl, rfl⟩
  unfold NonTerminal.buildNode
  cases nonTerminal.typedFold with
  | some action =>
      refine mirrors_bind steady_make_node fun node node' _ => ?_
      refine mirrors_bind (steady_arena (stamps node _) (stamps node' _) (fun _ => rfl) fun _ => rfl)
        fun _ _ _ => ?_
      refine mirrors_bind (steady_arena (push_child_unseen _ _) (push_child_unseen _ _) ?_ ?_)
        fun _ _ _ => mirrors_pure trivial
      · exact fun _ => by cases inner <;> rfl
      · exact fun _ => by cases inner' <;> rfl
  | none =>
      have adopted : Steady reach nearBase farBase depth (fun _ _ => True)
          (inner.elim (Comp.modifyGet Context.makeNode) pure : Parser CharT NodePtr)
          (inner'.elim (Comp.modifyGet Context.makeNode) pure) := by
        cases inner <;> cases inner' <;> intro near far alike <;>
          exact ⟨trivial, alike.unseen ⟨rfl, rfl, rfl, rfl, id⟩ ⟨rfl, rfl, rfl, rfl, id⟩
            alike.position⟩
      refine mirrors_bind adopted fun node node' _ => ?_
      refine mirrors_bind (steady_arena (stamps node _) (stamps node' _) (fun _ => rfl) fun _ => rfl)
        fun _ _ _ => mirrors_pure trivial

omit nearOther farOther in
theorem finish_failure_steady (inside : reach rule) (nonTerminal : NonTerminal CharT NodeType)
    (startPos : Nat) {ruleState ruleState' : RuleState} (states : RowsAgree ruleState ruleState') :
    Steady reach nearBase farBase depth SameSuccess
      (NonTerminal.finishFailure nonTerminal rule startPos ruleState)
      (NonTerminal.finishFailure nonTerminal rule startPos ruleState') := by
  have records : Unseen (@NonTerminal.recordRuleFailure CharT _ nonTerminal startPos) :=
    unseen_of_fields fun _ => by
      unfold NonTerminal.recordRuleFailure
      split_ifs <;> exact ⟨rfl, rfl, rfl, rfl, rfl⟩
  have still : ∀ context : Context CharT,
      (NonTerminal.recordRuleFailure nonTerminal startPos context).position = context.position := by
    intro context
    unfold NonTerminal.recordRuleFailure
    split_ifs <;> rfl
  refine mirrors_bind (steady_arena records records still still) fun _ _ _ =>
    mirrors_read fun near far alike => ?_
  dsimp only [id]
  rw [alike.nearScopes.cut_eq, alike.farScopes.cut_eq]
  cases nonTerminal.recover.isSyncToken with
  | none =>
      refine mirrors_bind (store_steady inside startPos ?_) (fun _ _ _ => mirrors_pure rfl) near far alike
      exact ⟨states.lastPos, rfl⟩
  | some isSyncToken =>
      have scanned : NonTerminal.scanSync isSyncToken near startPos =
          NonTerminal.scanSync isSyncToken far startPos := by
        unfold NonTerminal.scanSync
        rw [alike.source]
      have size : near.inputSize = far.inputSize := congrArg List.length alike.source
      dsimp only
      rw [scanned, size]
      have resumes : ∀ (resumeAt : Nat) (diagnostic : Diagnostic), Unseen fun context : Context CharT =>
          (context.reset resumeAt).recordDiagnostic diagnostic :=
        fun _ _ => unseen_of_fields fun _ => ⟨rfl, rfl, rfl, rfl, rfl⟩
      refine mirrors_bind (steady_modify (resumes _ _) (resumes _ _) fun _ _ _ _ => rfl)
        (fun _ _ _ => ?_) near far alike
      exact mirrors_bind (store_steady inside startPos ⟨rfl, rfl⟩) fun _ _ _ => mirrors_pure rfl

theorem replay_alike (inside : reach rule) {row row' : RuleState} (rows : RowsAgree row row')
    (alike : SameAnswers reach nearBase farBase depth near far) {pos : Nat}
    (nearly : near.mem pos rule = some row) (farly : far.mem pos rule = some row') :
    EndAlike (SameAnswers reach nearBase farBase depth) SameSuccess
      (NonTerminal.replay rule pos row near : Run (Moment CharT) _ Exn ParseResult)
      (NonTerminal.replay rule pos row' far) := by
  rw [PlantedSeeds.replay_run nearly, PlantedSeeds.replay_run farly, alike.in_progress nearOther farOther inside]
  refine ⟨rows.success, ?_⟩
  split_ifs
  · exact (mark_head_alike nearOther farOther alike inside pos).unseen ⟨rfl, rfl, rfl, rfl, id⟩
      ⟨rfl, rfl, rfl, rfl, id⟩ rows.lastPos
  · exact alike.unseen ⟨rfl, rfl, rfl, rfl, id⟩ ⟨rfl, rfl, rfl, rfl, id⟩ rows.lastPos

/-- The application of a rule of the set, if its body keeps in step. -/
theorem parse_steady (inside : reach rule) (nonTerminal : NonTerminal CharT NodeType)
    {body : Option (Parser CharT ParseResult)}
    (bodies : ∀ parser ∈ body, SteadyParser reach nearBase farBase (depth + 1) parser) (fuel : Nat) :
    SteadyParser reach nearBase farBase depth (NonTerminal.parse nonTerminal rule body fuel) := by
  refine mirrors_bind (mirrors_announce _ _) fun _ _ _ => steady_read (fun _ _ _ => id)
    fun startPos near far alike => ?_
  have finishes : ∀ grown grown' : ParseResult × RuleState,
      SameSuccess grown.1 grown'.1 ∧ RowsAgree grown.2 grown'.2 →
      Steady reach nearBase farBase depth SameSuccess
        (if grown.1.success then NonTerminal.finishSuccess nonTerminal rule startPos grown.1 grown.2
          else NonTerminal.finishFailure nonTerminal rule startPos grown.2)
        (if grown'.1.success then NonTerminal.finishSuccess nonTerminal rule startPos grown'.1 grown'.2
          else NonTerminal.finishFailure nonTerminal rule startPos grown'.2) := by
    rintro grown grown' ⟨same, states⟩
    refine mirrors_ite (by rw [same]) (fun _ _ => ?_) fun _ =>
      finish_failure_steady inside nonTerminal startPos states
    refine mirrors_bind (build_node_steady nonTerminal rule startPos _ _) fun node node' _ => ?_
    exact mirrors_bind (store_steady inside startPos ⟨states.lastPos, rfl⟩) fun _ _ _ =>
      mirrors_pure rfl
  have rows := alike.rows startPos rule inside
  have state : ∀ context : Context CharT,
      (Comp.modifyGet (fun context => context.ruleState rule startPos) context :
        Run (Moment CharT) _ Exn _) =
      ⟨.returned (context.ruleState rule startPos).1, (context.ruleState rule startPos).2, []⟩ :=
    fun _ => rfl
  rw [Comp.bind_returned (state near), Comp.bind_returned (state far)]
  unfold Context.ruleState
  cases nearly : near.mem startPos rule with
  | none =>
      cases farly : far.mem startPos rule with
      | some row => rw [nearly, farly] at rows; cases rows
      | none =>
          have entered := alike.written startPos rule (⟨rfl, rfl⟩ : RowsAgree {} {})
          exact mirrors_bind (invoke_steady nearOther farOther inside startPos bodies fuel) finishes
            _ _ entered
  | some row =>
      cases farly : far.mem startPos rule with
      | none => rw [nearly, farly] at rows; cases rows
      | some row' =>
          rw [nearly, farly] at rows
          cases rows with
          | some agree => exact replay_alike nearOther farOther inside agree alike nearly farly

omit nearOther farOther

variable [PegValue CharT] {grammar : Grammar CharT NodeType}

/-- Cut-free rules that refer to no others, with pure matchers. -/
def EnclosedRules (grammar : Grammar CharT NodeType) (reach : RuleId → Prop) : Prop :=
  ∀ rule body, reach rule → grammar.body rule = some body → body.Every (Enclosed reach)

theorem apply_steady (enclosed : EnclosedRules grammar reach)
    (nearOther : ∀ frame ∈ nearBase, ¬reach frame.rule)
    (farOther : ∀ frame ∈ farBase, ¬reach frame.rule) (fuel depth : Nat) (rule : RuleId)
    (inside : reach rule) :
    SteadyParser reach nearBase farBase depth (grammar.apply fuel rule) := by
  induction fuel generalizing rule depth with
  | zero => exact mirrors_exhaust
  | succ fuel induction =>
      refine parse_steady nearOther farOther inside _ (fun parser member => ?_) fuel
      obtain ⟨expr, assigned, rfl⟩ := Option.map_eq_some_iff.mp member
      exact expr_steady (induction (depth + 1)) fuel (enclosed rule expr inside assigned)

theorem eval_steady (enclosed : EnclosedRules grammar reach)
    (nearOther : ∀ frame ∈ nearBase, ¬reach frame.rule)
    (farOther : ∀ frame ∈ farBase, ¬reach frame.rule) (fuel depth : Nat) {expr : Expr CharT}
    (inside : expr.Every (Enclosed reach)) :
    SteadyParser reach nearBase farBase depth (grammar.eval fuel expr) :=
  expr_steady (apply_steady enclosed nearOther farOther fuel depth) fuel inside

end RuleApplication

end Peglib.Lockstep
