import Mathlib.Data.List.Forall2
import Peglib.Lockstep

/-!
# Parsing does not see its nodes

Two parsers are in step when, from contexts that differ in nothing but their
nodes and in the scopes below those at hand, they succeed or fail alike, end at
one position and leave contexts that differ in no more. Every parser built in
the same way from parsers in step is in step. No skipper is set; cuts are
executed, and rules may be left-recursive.
-/

namespace Peglib.NodeBlindness

open Peglib.TracedComputation Peglib.Coupling
open Peglib.ParseError Peglib.ParseContext Peglib.Expressions Peglib.Rules
open Peglib.Lockstep

set_option autoImplicit false

variable {CharT NodeType : Type}

/-- Two scopes of which one can stand for the other. -/
structure CutsAgree (scope scope' : CutRecord) : Prop where
  cut : scope.cut = scope'.cut
  pos : scope.cut = true → scope.pos = scope'.pos

/-- A context with the nodes, the rows and the scopes of another one. -/
def outfit (arena : List ParseTreeNode) (mem : Memo) (scopes : List CutRecord) (strayed : Bool)
    (context : Context CharT) : Context CharT :=
  { context with nodeArena := arena, mem := mem, cutStack := scopes, outOfRange := strayed }

/-- Two contexts that differ in their nodes only, with `depth` scopes on top of
others that no step reaches. -/
structure SameButNodes (nearBase farBase : List CutRecord) (depth : Nat)
    (near far : Context CharT) : Prop where
  same : near = outfit near.nodeArena near.mem near.cutStack near.outOfRange far
  skipper : far.skipper = none
  rows : ∀ pos rule, Option.Rel RowsAgree (near.mem pos rule) (far.mem pos rule)
  scopes : ∃ own own', own.length = depth ∧ List.Forall₂ CutsAgree own own' ∧
    near.cutStack = own ++ nearBase ∧ far.cutStack = own' ++ farBase

/-- The commit flag is that of a scope at hand, or no scope is open. -/
abbrev Aligned (nearBase farBase : List CutRecord) (depth : Nat) : Prop :=
  0 < depth ∨ (nearBase = [] ∧ farBase = [])

/-- Two contexts that a matcher cannot tell apart: it sees no node, and of the
scopes what `cut()` says. -/
def LookAlike (near far : Context CharT) : Prop :=
  ∃ nearBase farBase depth, SameButNodes nearBase farBase depth near far ∧ near.cut = far.cut

def NodeBlind : Expr CharT → Prop
  | .matcher fn => ∀ near far span, LookAlike near far → fn near span = fn far span
  | _ => True

section Relation

variable {nearBase farBase : List CutRecord} {depth : Nat} {near far : Context CharT}

theorem cuts_agree_refl (scopes : List CutRecord) : List.Forall₂ CutsAgree scopes scopes :=
  List.forall₂_same.mpr fun _ _ => ⟨rfl, fun _ => rfl⟩

theorem rows_agree_refl (row : Option RuleState) : Option.Rel RowsAgree row row := by
  cases row with
  | none => exact .none
  | some row => exact .some ⟨rfl, rfl⟩

theorem SameButNodes.position (alike : SameButNodes nearBase farBase depth near far) :
    near.position = far.position := by
  rw [alike.same]
  rfl

theorem SameButNodes.input (alike : SameButNodes nearBase farBase depth near far) :
    near.input = far.input := by
  rw [alike.same]
  rfl

theorem SameButNodes.lr_stack (alike : SameButNodes nearBase farBase depth near far) :
    near.lrStack = far.lrStack := by
  rw [alike.same]
  rfl

theorem SameButNodes.near_skipper (alike : SameButNodes nearBase farBase depth near far) :
    near.skipper = none := by
  rw [alike.same]
  exact alike.skipper

theorem same_refl {own : List CutRecord} (skipper : near.skipper = none)
    (scopes : near.cutStack = own ++ nearBase) :
    SameButNodes nearBase nearBase own.length near near where
  same := rfl
  skipper := skipper
  rows := fun _ _ => rows_agree_refl _
  scopes := ⟨own, own, rfl, cuts_agree_refl own, scopes, scopes⟩

theorem cuts_agree_trans {first second third : List CutRecord}
    (left : List.Forall₂ CutsAgree first second) (right : List.Forall₂ CutsAgree second third) :
    List.Forall₂ CutsAgree first third := by
  induction left generalizing third with
  | nil =>
      cases right
      exact .nil
  | cons agree _ induction =>
      cases right with
      | cons agree' rest =>
          refine .cons ⟨agree.cut.trans agree'.cut, fun committed => ?_⟩ (induction rest)
          exact (agree.pos committed).trans (agree'.pos (agree.cut ▸ committed))

theorem rows_agree_trans {first second third : Option RuleState}
    (left : Option.Rel RowsAgree first second) (right : Option.Rel RowsAgree second third) :
    Option.Rel RowsAgree first third := by
  cases left with
  | none => exact right
  | some agree =>
      cases right with
      | some agree' =>
          exact .some ⟨agree.lastPos.trans agree'.lastPos, agree.success.trans agree'.success⟩

theorem SameButNodes.trans {midBase : List CutRecord} {mid : Context CharT}
    (left : SameButNodes nearBase midBase depth near mid)
    (right : SameButNodes midBase farBase depth mid far) :
    SameButNodes nearBase farBase depth near far where
  same := by
    have nearly := left.same
    rw [right.same] at nearly
    exact nearly
  skipper := right.skipper
  rows := fun pos rule => rows_agree_trans (left.rows pos rule) (right.rows pos rule)
  scopes := by
    obtain ⟨own, mine, size, agree, nearly, midway⟩ := left.scopes
    obtain ⟨mine', own', size', agree', midway', farly⟩ := right.scopes
    have one : mine = mine' := by
      have sizes : mine.length = mine'.length := by rw [← agree.length_eq, size, size']
      exact (List.append_inj (midway.symm.trans midway') sizes).1
    exact ⟨own, own', size, cuts_agree_trans agree (one ▸ agree'), nearly, farly⟩

theorem SameButNodes.cut_eq (alike : SameButNodes nearBase farBase depth near far)
    (aligned : Aligned nearBase farBase depth) : near.cut = far.cut := by
  obtain ⟨own, own', size, agree, nearly, farly⟩ := alike.scopes
  unfold Context.cut
  rw [nearly, farly]
  cases agree with
  | nil =>
      rcases aligned with positive | ⟨rfl, rfl⟩
      · exact absurd size (by simp; omega)
      · rfl
  | cons agree _ => exact agree.cut

end Relation

section Steps

variable {nearBase farBase : List CutRecord} {depth : Nat} {near far : Context CharT}
  {Value Value' Other Other' : Type} {agree : Value → Value' → Prop}
  {agree' : Other → Other' → Prop}

abbrev Step (nearBase farBase : List CutRecord) (depth : Nat) (agree : Value → Value' → Prop)
    (left : Parser CharT Value) (right : Parser CharT Value') : Prop :=
  Mirrors (SameButNodes nearBase farBase depth) (SameButNodes nearBase farBase depth) agree left right

/-- An update that leaves nodes, rows and scopes as they are and does not look at them. -/
def Plain (update : Context CharT → Context CharT) : Prop :=
  ∀ context arena mem scopes strayed, ∃ strayed',
    update (outfit arena mem scopes strayed context) =
      outfit arena mem scopes strayed' (update context) ∧
    (update context).skipper = context.skipper

theorem Plain.keeps {update : Context CharT → Context CharT} (plain : Plain update)
    (context : Context CharT) :
    (update context).mem = context.mem ∧ (update context).cutStack = context.cutStack ∧
      (update context).skipper = context.skipper := by
  obtain ⟨strayed, carried, skipper⟩ :=
    plain context context.nodeArena context.mem context.cutStack context.outOfRange
  have whole : update context =
      outfit context.nodeArena context.mem context.cutStack strayed (update context) := carried
  have mem := congrArg Context.mem whole
  have scopes := congrArg Context.cutStack whole
  exact ⟨mem, scopes, skipper⟩

theorem Plain.alike {update : Context CharT → Context CharT} (plain : Plain update)
    (alike : SameButNodes nearBase farBase depth near far) :
    SameButNodes nearBase farBase depth (update near) (update far) where
  same := by
    obtain ⟨strayed, carried, -⟩ :=
      plain far near.nodeArena near.mem near.cutStack near.outOfRange
    rw [← alike.same] at carried
    rw [carried]
    rfl
  skipper := (plain.keeps far).2.2.trans alike.skipper
  rows := by
    rw [(plain.keeps near).1, (plain.keeps far).1]
    exact alike.rows
  scopes := by
    rw [(plain.keeps near).2.1, (plain.keeps far).2.1]
    exact alike.scopes

/-- An update that writes nodes only. -/
def NodesOnly (update : Context CharT → Context CharT) : Prop :=
  ∀ context, ∃ arena, update context = { context with nodeArena := arena }

theorem NodesOnly.left {update : Context CharT → Context CharT} (nodes : NodesOnly update)
    (alike : SameButNodes nearBase farBase depth near far) :
    SameButNodes nearBase farBase depth (update near) far := by
  obtain ⟨arena, written⟩ := nodes near
  rw [written]
  refine ⟨?_, alike.skipper, alike.rows, alike.scopes⟩
  exact congrArg (fun context : Context CharT => { context with nodeArena := arena }) alike.same

theorem NodesOnly.right {update : Context CharT → Context CharT} (nodes : NodesOnly update)
    (alike : SameButNodes nearBase farBase depth near far) :
    SameButNodes nearBase farBase depth near (update far) := by
  obtain ⟨arena, written⟩ := nodes far
  rw [written]
  exact ⟨alike.same, alike.skipper, alike.rows, alike.scopes⟩

theorem step_plain {update : Context CharT → Context CharT} (plain : Plain update) :
    Step nearBase farBase depth (fun _ _ => True) (Comp.modify update : Parser CharT Unit)
      (Comp.modify update) :=
  mirrors_modify fun _ _ alike => plain.alike alike

theorem step_nodes {update update' : Context CharT → Context CharT} (nodes : NodesOnly update)
    (nodes' : NodesOnly update') :
    Step nearBase farBase depth (fun _ _ => True) (Comp.modify update : Parser CharT Unit)
      (Comp.modify update') :=
  mirrors_modify fun _ _ alike => nodes.left (nodes'.right alike)

theorem make_nodes_only : NodesOnly fun context : Context CharT => context.makeNode.2 :=
  fun context => ⟨context.nodeArena ++ [({} : ParseTreeNode)], rfl⟩

theorem step_make :
    Step nearBase farBase depth (fun _ _ => True)
      (Comp.modifyGet Context.makeNode : Parser CharT NodePtr) (Comp.modifyGet Context.makeNode) :=
  mirrors_modifyGet fun _ _ alike =>
    ⟨trivial, make_nodes_only.left (make_nodes_only.right alike)⟩

theorem step_read {view : Context CharT → Value} {next : Value → Parser CharT Other}
    {next' : Value → Parser CharT Other'}
    (same : ∀ context arena mem scopes strayed,
      view (outfit arena mem scopes strayed context) = view context)
    (rest : ∀ value, Step nearBase farBase depth agree' (next value) (next' value)) :
    Step nearBase farBase depth agree' (Comp.read view >>= next) (Comp.read view >>= next') := by
  refine mirrors_read fun near far alike => ?_
  have seen : view near = view far := by
    rw [alike.same]
    exact same far _ _ _ _
  rw [seen]
  exact rest (view far) near far alike

theorem reset_plain (pos : Nat) : Plain fun context : Context CharT => context.reset pos :=
  fun _ _ _ _ _ => ⟨_, rfl, rfl⟩

theorem next_plain : Plain (@Context.next CharT) := by
  intro context arena mem scopes strayed
  refine ⟨strayed, ?_⟩
  unfold Context.next outfit Context.inputSize
  split_ifs <;> exact ⟨rfl, rfl⟩

theorem record_plain (producer : Unit → ExpectedItem) :
    Plain fun context : Context CharT => context.recordFailureLazy context.position producer :=
  fun _ _ _ _ strayed => ⟨strayed, rfl, rfl⟩

theorem update_nodes_only (node : NodePtr) (update : Context CharT → ParseTreeNode → ParseTreeNode) :
    NodesOnly fun context : Context CharT => context.updateNode node (update context) :=
  fun _ => ⟨_, rfl⟩

theorem push_child_nodes_only (node : NodePtr) (tree : Option NodePtr) :
    NodesOnly (@pushChild CharT node tree) := by
  intro context
  cases tree with
  | none => exact ⟨context.nodeArena, rfl⟩
  | some child => exact ⟨_, rfl⟩

theorem stamp_winner_nodes_only (tree : Option NodePtr) (index : Nat) :
    NodesOnly (@stampWinner CharT tree index) := by
  intro context
  cases tree with
  | none => exact ⟨context.nodeArena, rfl⟩
  | some child => exact ⟨_, rfl⟩

theorem mark_start_nodes_only (node : NodePtr) : NodesOnly (@markStart CharT node) :=
  fun _ => ⟨_, rfl⟩

theorem mark_end_nodes_only (node : NodePtr) : NodesOnly (@markEnd CharT node) :=
  fun _ => ⟨_, rfl⟩

theorem step_reset (pos : Nat) :
    Step nearBase farBase depth (fun _ _ => True)
      (Comp.modify fun context : Context CharT => context.reset pos : Parser CharT Unit)
      (Comp.modify fun context => context.reset pos) :=
  step_plain (reset_plain pos)

theorem init_cut_alike (alike : SameButNodes nearBase farBase depth near far) :
    SameButNodes nearBase farBase (depth + 1) near.initCut far.initCut := by
  obtain ⟨own, own', size, agree, nearly, farly⟩ := alike.scopes
  have position := alike.position
  refine ⟨?_, alike.skipper, alike.rows, ⟨near.position, false⟩ :: own,
    ⟨far.position, false⟩ :: own', congrArg (· + 1) size,
    .cons ⟨rfl, fun committed => nomatch committed⟩ agree, ?_, ?_⟩
  · exact congrArg (fun context : Context CharT => { context with cutStack := near.initCut.cutStack })
      alike.same
  · exact congrArg (List.cons _) nearly
  · exact congrArg (List.cons _) farly

theorem set_cut_alike (committed : Bool) (alike : SameButNodes nearBase farBase depth near far)
    (aligned : Aligned nearBase farBase depth) :
    SameButNodes nearBase farBase depth (near.setCut committed) (far.setCut committed) := by
  obtain ⟨own, own', size, agree, nearly, farly⟩ := alike.scopes
  have position := alike.position
  unfold Context.setCut
  cases agree with
  | nil =>
      rcases aligned with positive | ⟨rfl, rfl⟩
      · exact absurd size (by simp; omega)
      · rw [nearly, farly]
        exact alike
  | @cons scope scope' rest rest' _ agree =>
      rw [nearly, farly]
      refine ⟨?_, alike.skipper, alike.rows, ⟨near.position, committed⟩ :: rest,
        ⟨far.position, committed⟩ :: rest', size, .cons ⟨rfl, fun _ => position⟩ agree, rfl, rfl⟩
      exact congrArg (fun context : Context CharT =>
        { context with cutStack := ⟨near.position, committed⟩ :: (rest ++ nearBase) }) alike.same

theorem remove_cut_alike (alike : SameButNodes nearBase farBase (depth + 1) near far) :
    SameButNodes nearBase farBase depth near.removeCut far.removeCut := by
  obtain ⟨own, own', size, agree, nearly, farly⟩ := alike.scopes
  cases agree with
  | nil => cases size
  | @cons scope scope' rest rest' agree others =>
      unfold Context.removeCut
      rw [nearly, farly, List.cons_append, List.cons_append]
      dsimp only
      rw [← agree.cut]
      have below : List.length rest = depth := Nat.succ.inj size
      by_cases committed : scope.cut = true
      · rw [if_pos committed, if_pos committed, ← agree.pos committed]
        refine ⟨?_, alike.skipper, fun pos rule => ?_, rest, rest', below, others, rfl, rfl⟩
        · have same := alike.same
          rw [same]
          rfl
        · dsimp only
          split_ifs
          · exact .none
          · exact alike.rows pos rule
      · rw [if_neg committed, if_neg committed]
        refine ⟨?_, alike.skipper, alike.rows, rest, rest', below, others, rfl, rfl⟩
        have same := alike.same
        rw [same]
        rfl

end Steps

section Parsers

/-- In step over whatever scopes lie below those at hand. -/
def InStep (left right : Parser CharT ParseResult) : Prop :=
  ∀ nearBase farBase depth, Aligned nearBase farBase depth →
    Step nearBase farBase depth SameSuccess left right

theorem InStep.trans {first second third : Parser CharT ParseResult} (left : InStep first second)
    (right : InStep second third) : InStep first third := by
  intro nearBase farBase depth aligned near far alike
  obtain ⟨own, own', size, -, nearly, -⟩ := alike.scopes
  have still : SameButNodes nearBase nearBase depth near near :=
    size ▸ same_refl alike.near_skipper nearly
  have one := left nearBase nearBase depth (aligned.imp id fun empty => ⟨empty.1, empty.1⟩)
    near near still
  have two := right nearBase farBase depth aligned near far alike
  exact one.trans two (fun _ _ _ same same' => same.trans same') fun _ _ _ alike alike' =>
    alike.trans alike'

end Parsers

section Leaves

theorem in_step_of_step {left right : Parser CharT ParseResult}
    (steps : ∀ nearBase farBase depth, Step nearBase farBase depth SameSuccess left right) :
    InStep left right :=
  fun nearBase farBase depth _ => steps nearBase farBase depth

theorem empty_in_step : InStep (EmptyExpr.parse : Parser CharT ParseResult) EmptyExpr.parse :=
  in_step_of_step fun _ _ _ => mirrors_pure rfl

theorem cut_in_step : InStep (CutExpr.parse : Parser CharT ParseResult) CutExpr.parse :=
  fun _ _ _ aligned => mirrors_bind
    (mirrors_modify fun _ _ alike => set_cut_alike true alike aligned) fun _ _ _ => mirrors_pure rfl

theorem matcher_in_step {fn : Context CharT → Span → Option Span} (blind : NodeBlind (.matcher fn)) :
    InStep (MatcherExpr.parse fn) (MatcherExpr.parse fn) := by
  refine fun nearBase farBase depth aligned => mirrors_read fun near far alike => ?_
  have seen : fn near ⟨near.position, near.position⟩ = fn far ⟨far.position, far.position⟩ := by
    rw [alike.position]
    exact blind near far _ ⟨nearBase, farBase, depth, alike, alike.cut_eq aligned⟩
  dsimp only [id]
  rw [seen]
  cases fn far ⟨far.position, far.position⟩ with
  | none => exact ⟨rfl, alike⟩
  | some consumed =>
      refine mirrors_bind (step_reset _) (fun _ _ _ => ?_) near far alike
      refine mirrors_bind step_make fun node node' _ => ?_
      exact mirrors_bind (step_nodes (update_nodes_only node _) (update_nodes_only node' _))
        fun _ _ _ => mirrors_pure rfl

variable [PegValue CharT]

theorem terminal_in_step (value : TerminalValue CharT) :
    InStep (TerminalExpr.parse value) (TerminalExpr.parse value) := by
  refine in_step_of_step fun _ _ _ => step_read (fun _ _ _ _ _ => rfl) fun matched =>
    mirrors_ite Iff.rfl (fun _ _ => ?_) fun _ => ?_
  · exact mirrors_bind (step_plain next_plain) fun _ _ _ => mirrors_pure rfl
  · exact mirrors_bind (step_plain (record_plain _)) fun _ _ _ => mirrors_pure rfl

theorem match_values_step {nearBase farBase : List CutRecord} {depth : Nat} (values : List CharT) :
    Step nearBase farBase depth Eq (TerminalSeqExpr.matchValues values)
      (TerminalSeqExpr.matchValues values) := by
  induction values with
  | nil => exact mirrors_pure rfl
  | cons value rest induction =>
      refine step_read (fun _ _ _ _ _ => rfl) fun matched => mirrors_ite Iff.rfl (fun _ _ => ?_)
        fun _ => mirrors_pure rfl
      exact mirrors_bind (step_plain next_plain) fun _ _ _ => induction

theorem terminal_seq_in_step (values : List CharT) :
    InStep (TerminalSeqExpr.parse values) (TerminalSeqExpr.parse values) := by
  refine in_step_of_step fun _ _ _ => step_read (fun _ _ _ _ _ => rfl) fun initState =>
    mirrors_bind (match_values_step values) ?_
  rintro matched _ rfl
  refine mirrors_ite Iff.rfl (fun _ _ => mirrors_pure rfl) fun _ => ?_
  refine mirrors_bind (step_reset initState) fun _ _ _ => ?_
  exact mirrors_bind (step_plain (record_plain _)) fun _ _ _ => mirrors_pure rfl

theorem token_in_step (value : TerminalValue CharT) :
    InStep (TokenExpr.parse value) (TokenExpr.parse value) := by
  refine in_step_of_step fun _ _ _ => step_read (fun _ _ _ _ _ => rfl) fun matched =>
    mirrors_ite Iff.rfl (fun _ _ => ?_) fun _ => ?_
  · refine mirrors_bind (step_plain next_plain) fun _ _ _ => mirrors_bind step_make fun node node' _ => ?_
    exact mirrors_bind (step_nodes (update_nodes_only node _) (update_nodes_only node' _))
      fun _ _ _ => mirrors_pure rfl
  · exact mirrors_bind (step_plain (record_plain _)) fun _ _ _ => mirrors_pure rfl

end Leaves

section Combinators

variable {nearBase farBase : List CutRecord} {depth : Nat}

theorem skip_idle (apply : RuleId → Parser CharT ParseResult) {context : Context CharT}
    (off : context.skipper = none) : runSkipper apply context = ⟨.returned (), context, []⟩ := by
  have looked : (Comp.read id context : Run (Moment CharT) _ Exn (Context CharT)) =
      ⟨.returned context, context, []⟩ := rfl
  rw [runSkipper, Comp.bind_returned looked, off]
  cases context.skipEnabled <;> rfl

/-- A skip that does nothing in the contexts at hand. -/
abbrev Idle (skip : Parser CharT Unit) : Prop :=
  ∀ context : Context CharT, context.skipper = none → skip context = ⟨.returned (), context, []⟩

theorem Idle.only_if {skip : Parser CharT Unit} (idle : Idle skip) (condition : Prop)
    [Decidable condition] : Idle (Comp.onlyIf condition skip) := by
  intro context off
  unfold Comp.onlyIf
  split_ifs
  · exact idle context off
  · rfl

theorem skip_step {skip skip' : Parser CharT Unit} (idle : Idle skip) (idle' : Idle skip')
    (condition condition' : Prop) [Decidable condition] [Decidable condition'] :
    Step nearBase farBase depth (fun _ _ => True) (Comp.onlyIf condition skip)
      (Comp.onlyIf condition' skip') := by
  intro near far alike
  rw [idle.only_if condition near alike.near_skipper, idle'.only_if condition' far alike.skipper]
  exact ⟨trivial, alike⟩

variable {skip skip' : Parser CharT Unit} (idle : Idle skip) (idle' : Idle skip')

include idle idle' in
theorem parse_seq_step (aligned : Aligned nearBase farBase depth) (node node' : NodePtr)
    {children children' : List (Parser CharT ParseResult)}
    (each : List.Forall₂ InStep children children') (index index' : Nat) :
    Step nearBase farBase depth Eq (SequenceExpr.parseSeq skip node index children)
      (SequenceExpr.parseSeq skip' node' index' children') := by
  induction each generalizing index index' with
  | nil => exact mirrors_pure rfl
  | cons child _ induction =>
      refine mirrors_bind (skip_step idle idle' _ _) fun _ _ _ => ?_
      refine mirrors_bind (child _ _ _ aligned) fun result result' same => ?_
      refine mirrors_ite (by rw [same]) (fun _ _ => ?_) fun _ => mirrors_pure rfl
      exact mirrors_bind (step_nodes (push_child_nodes_only _ _) (push_child_nodes_only _ _))
        fun _ _ _ => induction (index + 1) (index' + 1)

theorem sequence_end_step (node node' : NodePtr) (state : Nat) (matched : Bool) :
    Step nearBase farBase depth SameSuccess
      (if matched then do
          Comp.modify (markEnd node)
          pure ⟨true, some node⟩
        else do
          Comp.modify fun context => context.reset state
          pure ⟨false, none⟩ : Parser CharT ParseResult)
      (if matched then do
          Comp.modify (markEnd node')
          pure ⟨true, some node'⟩
        else do
          Comp.modify fun context => context.reset state
          pure ⟨false, none⟩) := by
  refine mirrors_ite Iff.rfl (fun _ _ => ?_) fun _ => ?_
  · exact mirrors_bind (step_nodes (mark_end_nodes_only node) (mark_end_nodes_only node'))
      fun _ _ _ => mirrors_pure rfl
  · exact mirrors_bind (step_reset state) fun _ _ _ => mirrors_pure rfl

include idle idle' in
theorem sequence_in_step {children children' : List (Parser CharT ParseResult)}
    (each : List.Forall₂ InStep children children') :
    InStep (SequenceExpr.parse skip children) (SequenceExpr.parse skip' children') := by
  refine fun _ _ _ aligned => step_read (fun _ _ _ _ _ => rfl) fun state => ?_
  refine mirrors_bind step_make fun node node' _ => ?_
  refine mirrors_bind (step_nodes (mark_start_nodes_only node) (mark_start_nodes_only node'))
    fun _ _ _ => ?_
  refine mirrors_bind (parse_seq_step idle idle' aligned node node' each 0 0) ?_
  rintro matched _ rfl
  exact sequence_end_step node node' state matched

theorem raise_step (aligned : Aligned nearBase farBase depth) :
    Step nearBase farBase depth (fun _ _ => True) (raiseIfCommitted : Parser CharT Unit)
      raiseIfCommitted := by
  refine mirrors_bind (mirrors_announce _ _) fun _ _ _ => mirrors_read fun near far alike => ?_
  dsimp only [id]
  exact mirrors_onlyIf (by rw [alike.cut_eq aligned]) (fun _ => mirrors_throw _ _) near far alike

theorem cut_scope_step {body body' : Parser CharT ParseResult}
    (bodies : Step nearBase farBase (depth + 1) SameSuccess body body') :
    Step nearBase farBase depth SameSuccess
      (Comp.modify Context.initCut >>= fun _ => Comp.guarded body Context.removeCut)
      (Comp.modify Context.initCut >>= fun _ => Comp.guarded body' Context.removeCut) := by
  have opens : Mirrors (SameButNodes nearBase farBase depth)
      (SameButNodes nearBase farBase (depth + 1)) (fun _ _ => True)
      (Comp.modify Context.initCut : Parser CharT Unit) (Comp.modify Context.initCut) :=
    mirrors_modify fun _ _ alike => init_cut_alike alike
  exact mirrors_bind opens fun _ _ _ => mirrors_guarded bodies fun _ _ alike => remove_cut_alike alike

theorem parse_alt_step (aligned : Aligned nearBase farBase depth)
    {children children' : List (Parser CharT ParseResult)}
    (each : List.Forall₂ InStep children children') (index index' : Nat) :
    Step nearBase farBase depth SameSuccess (AlternationExpr.parseAlt index children)
      (AlternationExpr.parseAlt index' children') := by
  induction each generalizing index index' with
  | nil => exact mirrors_pure rfl
  | cons child _ induction =>
      refine mirrors_bind (child _ _ _ aligned) fun result result' same => ?_
      refine mirrors_ite (by rw [same]) (fun _ _ => ?_) fun _ => ?_
      · exact mirrors_bind (step_nodes (stamp_winner_nodes_only _ _) (stamp_winner_nodes_only _ _))
          fun _ _ _ => mirrors_pure same
      · exact mirrors_bind (raise_step aligned) fun _ _ _ => induction (index + 1) (index' + 1)

theorem alternation_in_step {children children' : List (Parser CharT ParseResult)}
    (each : List.Forall₂ InStep children children') :
    InStep (AlternationExpr.parse children) (AlternationExpr.parse children') :=
  fun _ _ _ _ => cut_scope_step (parse_alt_step (Or.inl (Nat.succ_pos _)) each 0 0)

theorem set_cut_step (aligned : Aligned nearBase farBase depth) (committed : Bool) :
    Step nearBase farBase depth (fun _ _ => True)
      (Comp.modify fun context : Context CharT => context.setCut committed : Parser CharT Unit)
      (Comp.modify fun context => context.setCut committed) :=
  mirrors_modify fun _ _ alike => set_cut_alike committed alike aligned

include idle idle' in
theorem repeat_loop_step (aligned : Aligned nearBase farBase depth)
    {child child' : Parser CharT ParseResult} (children : InStep child child') (maxRep : Int)
    (node node' : NodePtr) (fuel loopCount lastSuccessState : Nat) :
    Step nearBase farBase depth Eq
      (repeatLoop skip child maxRep node fuel loopCount lastSuccessState)
      (repeatLoop skip' child' maxRep node' fuel loopCount lastSuccessState) := by
  induction fuel generalizing loopCount lastSuccessState with
  | zero => exact mirrors_exhaust
  | succ fuel induction =>
      refine mirrors_bind (skip_step idle idle' _ _) fun _ _ _ => ?_
      refine step_read (fun _ _ _ _ _ => rfl) fun startState => ?_
      refine mirrors_bind (set_cut_step aligned false) fun _ _ _ => ?_
      refine mirrors_bind (children _ _ _ aligned) fun result result' same => ?_
      refine mirrors_ite (by rw [same]) (fun _ _ => ?_) fun _ => mirrors_pure rfl
      refine step_read (fun _ _ _ _ _ => rfl) fun here => ?_
      refine mirrors_bind (step_nodes (push_child_nodes_only _ _) (push_child_nodes_only _ _))
        fun _ _ _ => mirrors_ite Iff.rfl (fun _ _ => mirrors_pure rfl) fun _ => induction _ _

theorem repeat_finish_step (aligned : Aligned nearBase farBase depth) (maxRep : Int)
    (node node' : NodePtr) (ended : LoopExit) :
    Step nearBase farBase depth SameSuccess
      (repeatFinish maxRep node ended : Parser CharT ParseResult) (repeatFinish maxRep node' ended) := by
  have rewinds : Step nearBase farBase depth (fun _ _ => True)
      (Comp.modify fun context => (context.reset ended.lastSuccessState).updateNode node
        (resizeChildren ended.loopCount) : Parser CharT Unit)
      (Comp.modify fun context => (context.reset ended.lastSuccessState).updateNode node'
        (resizeChildren ended.loopCount)) :=
    mirrors_modify fun _ _ alike => (update_nodes_only node fun _ => _).left
      ((update_nodes_only node' fun _ => _).right ((reset_plain _).alike alike))
  refine mirrors_bind (mirrors_onlyIf Iff.rfl fun _ => rewinds) fun _ _ _ => ?_
  refine mirrors_bind (mirrors_onlyIf Iff.rfl fun _ => raise_step aligned) fun _ _ _ => ?_
  exact mirrors_bind (step_nodes (mark_end_nodes_only node) (mark_end_nodes_only node'))
    fun _ _ _ => mirrors_pure rfl

include idle idle' in
theorem repeat_step (fuel : Nat) {child child' : Parser CharT ParseResult}
    (children : InStep child child') (minRep : Nat) (maxRep : Int) :
    Step nearBase farBase depth SameSuccess (repeatParseImpl fuel skip child minRep maxRep)
      (repeatParseImpl fuel skip' child' minRep maxRep) := by
  have aligned : Aligned nearBase farBase (depth + 1) := Or.inl (Nat.succ_pos _)
  refine cut_scope_step (step_read (fun _ _ _ _ _ => rfl) fun initState => ?_)
  refine mirrors_bind step_make fun node node' _ => ?_
  refine mirrors_bind (step_nodes (mark_start_nodes_only node) (mark_start_nodes_only node'))
    fun _ _ _ => ?_
  refine mirrors_bind (repeat_loop_step idle idle' aligned children maxRep node node' fuel 0 _) ?_
  rintro ended _ rfl
  refine mirrors_ite Iff.rfl (fun _ _ => ?_) fun _ => repeat_finish_step aligned maxRep node node' ended
  exact mirrors_bind (step_reset initState) fun _ _ _ => mirrors_pure rfl

theorem predicate_in_step {child child' : Parser CharT ParseResult} (children : InStep child child')
    (negate : Bool) : InStep (predicateParseImpl child negate) (predicateParseImpl child' negate) := by
  refine fun _ _ _ aligned => step_read (fun _ _ _ _ _ => rfl) fun initState => ?_
  refine mirrors_bind (children _ _ _ aligned) fun result result' same => ?_
  refine mirrors_bind (step_reset initState) fun _ _ _ => mirrors_pure ?_
  unfold SameSuccess at same ⊢
  rw [same]

theorem lexeme_in_step {child child' : Parser CharT ParseResult} (children : InStep child child') :
    InStep (LexemeExpr.parse child) (LexemeExpr.parse child') := by
  have sets : ∀ enabled : Bool, Plain fun context : Context CharT =>
      { context with skipEnabled := enabled } := fun _ _ _ _ _ strayed => ⟨strayed, rfl, rfl⟩
  refine fun _ _ _ aligned => step_read (fun _ _ _ _ _ => rfl) fun prev => ?_
  refine mirrors_bind (step_plain (sets false)) fun _ _ _ => ?_
  exact mirrors_guarded (children _ _ _ aligned) fun _ _ alike => (sets prev).alike alike

end Combinators

section Memo

variable {nearBase farBase : List CutRecord} {depth : Nat} {near far : Context CharT}

theorem SameButNodes.rewritten (alike : SameButNodes nearBase farBase depth near far)
    {mem mem' : Memo} (rows : ∀ pos rule, Option.Rel RowsAgree (mem pos rule) (mem' pos rule)) :
    SameButNodes nearBase farBase depth { near with mem := mem } { far with mem := mem' } := by
  refine ⟨?_, alike.skipper, rows, alike.scopes⟩
  exact congrArg (fun context : Context CharT => { context with mem := mem }) alike.same

theorem SameButNodes.written (alike : SameButNodes nearBase farBase depth near far) (pos : Nat)
    (rule : RuleId) {entry entry' : RuleState} (entries : RowsAgree entry entry') :
    SameButNodes nearBase farBase depth { near with mem := near.mem.write pos rule entry }
      { far with mem := far.mem.write pos rule entry' } := by
  refine alike.rewritten fun pos' rule' => ?_
  unfold Memo.write
  split_ifs
  · exact .some entries
  · exact alike.rows pos' rule'

theorem update_row_alike (alike : SameButNodes nearBase farBase depth near far) (rule : RuleId)
    (pos : Nat) {entry entry' : RuleState} (entries : RowsAgree entry entry') :
    (near.updateRuleState rule pos entry).1 = (far.updateRuleState rule pos entry').1 ∧
      SameButNodes nearBase farBase depth (near.updateRuleState rule pos entry).2
        (far.updateRuleState rule pos entry').2 := by
  have rows := alike.rows pos rule
  unfold Context.updateRuleState
  cases nearly : near.mem pos rule with
  | none =>
      cases farly : far.mem pos rule with
      | none => exact ⟨rfl, alike⟩
      | some row => rw [nearly, farly] at rows; cases rows
  | some row =>
      cases farly : far.mem pos rule with
      | none => rw [nearly, farly] at rows; cases rows
      | some row' => exact ⟨rfl, alike.written pos rule entries⟩

theorem store_step (rule : RuleId) (pos : Nat) {entry entry' : RuleState}
    (entries : RowsAgree entry entry') :
    Step nearBase farBase depth Eq (NonTerminal.store rule pos entry : Parser CharT Bool)
      (NonTerminal.store rule pos entry') := by
  refine mirrors_bind (mirrors_modifyGet fun near far alike =>
    update_row_alike alike rule pos entries) ?_
  rintro present _ rfl
  exact mirrors_bind (mirrors_announce _ _) fun _ _ _ => mirrors_pure rfl

theorem clear_siblings_step (pos : Nat) (keep : RuleId) :
    Step nearBase farBase depth (fun _ _ => True)
      (Comp.modify fun context : Context CharT => context.clearSiblingsAt pos keep : Parser CharT Unit)
      (Comp.modify fun context => context.clearSiblingsAt pos keep) := by
  refine mirrors_modify fun near far alike => alike.rewritten fun pos' rule' => ?_
  have same : near.lrInProgress rule' pos = far.lrInProgress rule' pos := by
    unfold Context.lrInProgress
    rw [alike.lr_stack]
  rw [same]
  split_ifs
  · exact .none
  · exact alike.rows pos' rule'

theorem SameButNodes.frame (alike : SameButNodes nearBase farBase depth near far) :
    NonTerminal.frame near = NonTerminal.frame far := by
  unfold NonTerminal.frame
  rw [alike.lr_stack]

end Memo

section RuleApplication

variable {nearBase farBase : List CutRecord} {depth : Nat}

abbrev Grown (grown grown' : ParseResult × RuleState) : Prop :=
  SameSuccess grown.1 grown'.1 ∧ RowsAgree grown.2 grown'.2

theorem grow_loop_step (aligned : Aligned nearBase farBase depth) (rule : RuleId) (startPos : Nat)
    {body body' : Parser CharT ParseResult} (bodies : InStep body body') (fuel : Nat)
    {best best' : ParseResult} {ruleState ruleState' : RuleState} (bests : SameSuccess best best')
    (states : RowsAgree ruleState ruleState') :
    Step nearBase farBase depth Grown
      (NonTerminal.growLoop rule startPos body fuel best ruleState)
      (NonTerminal.growLoop rule startPos body' fuel best' ruleState') := by
  induction fuel generalizing best best' ruleState ruleState' with
  | zero => exact mirrors_exhaust
  | succ fuel induction =>
      refine mirrors_bind (step_reset startPos) fun _ _ _ => mirrors_read fun near far alike => ?_
      have heads : ((NonTerminal.frame near).isHead = true ∧ best.success = true) ↔
          ((NonTerminal.frame far).isHead = true ∧ best'.success = true) := by
        rw [alike.frame, bests]
      refine mirrors_bind (mirrors_onlyIf heads fun _ => clear_siblings_step startPos rule)
        (fun _ _ _ => ?_) near far alike
      refine mirrors_bind (bodies _ _ _ aligned) fun result result' same =>
        mirrors_read fun near far alike => ?_
      dsimp only [id]
      rw [same, alike.frame, alike.position]
      refine mirrors_ite Iff.rfl (fun success _ => mirrors_ite Iff.rfl (fun _ _ => ?_) fun _ => ?_)
        (fun _ => mirrors_pure ⟨bests, states⟩) near far alike
      · have entries : RowsAgree ⟨far.position, result⟩ ⟨far.position, result'⟩ := ⟨rfl, same⟩
        have marks : Plain (@NonTerminal.setFrameLastPos CharT far.position) :=
          fun _ _ _ _ strayed => ⟨strayed, rfl, rfl⟩
        refine mirrors_bind (step_plain marks) fun _ _ _ => mirrors_bind (store_step _ _ entries) ?_
        rintro present _ rfl
        exact mirrors_ite Iff.rfl (fun _ _ => induction same entries)
          fun _ => mirrors_pure ⟨same, entries⟩
      · have kept : SameSuccess (if best.success then best else result)
            (if best'.success then best' else result') := by
          unfold SameSuccess at bests same ⊢
          rw [bests]
          split_ifs
          · exact bests
          · exact same
        have entries : RowsAgree
            ⟨(NonTerminal.frame far).lastPos, if best.success then best else result⟩
            ⟨(NonTerminal.frame far).lastPos, if best'.success then best' else result'⟩ := ⟨rfl, kept⟩
        exact mirrors_bind (store_step _ _ entries) fun _ _ _ => mirrors_pure ⟨kept, entries⟩

theorem leave_plain (startPos : Nat) : Plain (@NonTerminal.leave CharT startPos) := by
  intro context arena mem scopes strayed
  have frame : NonTerminal.frame (outfit arena mem scopes strayed context) =
      NonTerminal.frame context := rfl
  refine ⟨strayed, ?_⟩
  unfold NonTerminal.leave
  rw [frame]
  split_ifs <;> exact ⟨rfl, rfl⟩

theorem invoke_step (aligned : Aligned nearBase farBase depth) (rule : RuleId) (startPos : Nat)
    {body body' : Option (Parser CharT ParseResult)} (bodies : Option.Rel InStep body body')
    (fuel : Nat) :
    Step nearBase farBase depth Grown (NonTerminal.invoke rule startPos body fuel)
      (NonTerminal.invoke rule startPos body' fuel) := by
  have implemented : Step nearBase farBase depth Grown
      (NonTerminal.parseImpl rule startPos body fuel)
      (NonTerminal.parseImpl rule startPos body' fuel) := by
    cases bodies with
    | none => exact mirrors_throw _ _
    | some same =>
        refine mirrors_bind (store_step rule startPos ⟨rfl, rfl⟩) fun _ _ _ => ?_
        refine mirrors_bind (grow_loop_step aligned rule startPos same fuel rfl ⟨rfl, rfl⟩)
          fun grown grown' agree => ?_
        have back : Step nearBase farBase depth (fun _ _ => True)
            (Comp.modify fun context => context.reset (NonTerminal.frame context).lastPos :
              Parser CharT Unit)
            (Comp.modify fun context => context.reset (NonTerminal.frame context).lastPos) :=
          step_plain fun _ _ _ _ _ => ⟨_, rfl, rfl⟩
        exact mirrors_bind back fun _ _ _ => mirrors_pure agree
  have entered : Plain fun context : Context CharT => context.lrPush ⟨rule, startPos, startPos, false⟩ :=
    fun _ _ _ _ strayed => ⟨strayed, rfl, rfl⟩
  refine mirrors_bind (step_plain entered) fun _ _ _ => mirrors_bind implemented fun _ _ agree => ?_
  exact mirrors_bind (step_plain (leave_plain startPos)) fun _ _ _ => mirrors_pure agree

theorem build_node_step (nonTerminal : NonTerminal CharT NodeType) (rule : RuleId) (startPos : Nat)
    (inner inner' : Option NodePtr) :
    Step nearBase farBase depth (fun _ _ => True)
      (NonTerminal.buildNode nonTerminal rule startPos inner : Parser CharT NodePtr)
      (NonTerminal.buildNode nonTerminal rule startPos inner') := by
  unfold NonTerminal.buildNode
  cases nonTerminal.typedFold with
  | some action =>
      refine mirrors_bind step_make fun node node' _ => ?_
      refine mirrors_bind (step_nodes (update_nodes_only node _) (update_nodes_only node' _))
        fun _ _ _ => ?_
      exact mirrors_bind (step_nodes (push_child_nodes_only _ _) (push_child_nodes_only _ _))
        fun _ _ _ => mirrors_pure trivial
  | none =>
      have adopted : Step nearBase farBase depth (fun _ _ => True)
          (inner.elim (Comp.modifyGet Context.makeNode) pure : Parser CharT NodePtr)
          (inner'.elim (Comp.modifyGet Context.makeNode) pure) := by
        intro near far alike
        cases inner <;> cases inner'
        · exact ⟨trivial, make_nodes_only.left (make_nodes_only.right alike)⟩
        · exact ⟨trivial, make_nodes_only.left alike⟩
        · exact ⟨trivial, make_nodes_only.right alike⟩
        · exact ⟨trivial, alike⟩
      refine mirrors_bind adopted fun node node' _ => ?_
      exact mirrors_bind (step_nodes (update_nodes_only node _) (update_nodes_only node' _))
        fun _ _ _ => mirrors_pure trivial

theorem finish_failure_step (aligned : Aligned nearBase farBase depth)
    (nonTerminal : NonTerminal CharT NodeType) (rule : RuleId) (startPos : Nat)
    {ruleState ruleState' : RuleState} (states : RowsAgree ruleState ruleState') :
    Step nearBase farBase depth SameSuccess
      (NonTerminal.finishFailure nonTerminal rule startPos ruleState)
      (NonTerminal.finishFailure nonTerminal rule startPos ruleState') := by
  have records : Plain (@NonTerminal.recordRuleFailure CharT _ nonTerminal startPos) := by
    intro context arena mem scopes strayed
    refine ⟨strayed, ?_⟩
    unfold NonTerminal.recordRuleFailure
    split_ifs <;> exact ⟨rfl, rfl⟩
  refine mirrors_bind (step_plain records) fun _ _ _ => mirrors_read fun near far alike => ?_
  have fails : Step nearBase farBase depth SameSuccess
      (do
        let _ ← NonTerminal.store rule startPos ⟨ruleState.lastPos, ⟨false, none⟩⟩
        pure ⟨false, none⟩ : Parser CharT ParseResult)
      (do
        let _ ← NonTerminal.store rule startPos ⟨ruleState'.lastPos, ⟨false, none⟩⟩
        pure ⟨false, none⟩) :=
    mirrors_bind (store_step rule startPos ⟨states.lastPos, rfl⟩) fun _ _ _ => mirrors_pure rfl
  dsimp only [id]
  rw [alike.cut_eq aligned]
  cases nonTerminal.recover.isSyncToken with
  | none => exact fails near far alike
  | some isSyncToken =>
      cases far.cut with
      | true => exact fails near far alike
      | false =>
          have scanned : NonTerminal.scanSync isSyncToken near startPos =
              NonTerminal.scanSync isSyncToken far startPos := by
            unfold NonTerminal.scanSync
            rw [alike.input]
          have size : near.inputSize = far.inputSize := congrArg List.length alike.input
          simp only [scanned, size]
          have resumes : ∀ (resumeAt : Nat) (diagnostic : Diagnostic), Plain
              fun context : Context CharT => (context.reset resumeAt).recordDiagnostic diagnostic :=
            fun _ _ _ _ _ _ _ => ⟨_, rfl, rfl⟩
          refine mirrors_bind (step_plain (resumes _ _)) (fun _ _ _ => ?_) near far alike
          exact mirrors_bind (store_step rule startPos ⟨rfl, rfl⟩) fun _ _ _ => mirrors_pure rfl

theorem mark_head_plain (rule : RuleId) (pos : Nat) :
    Plain fun context : Context CharT => context.markHead rule pos := by
  intro context arena mem scopes strayed
  have stack : (outfit arena mem scopes strayed context).lrStack = context.lrStack := rfl
  refine ⟨strayed, ?_⟩
  unfold Context.markHead
  dsimp only
  rw [stack]
  cases context.lrStack.find? (LRFrame.isOf rule pos) with
  | none => exact ⟨rfl, rfl⟩
  | some frame =>
      dsimp only
      split_ifs <;> exact ⟨rfl, rfl⟩

theorem replay_alike {rule : RuleId} {pos : Nat} {near far : Context CharT} {row row' : RuleState}
    (rows : RowsAgree row row') (alike : SameButNodes nearBase farBase depth near far)
    (nearly : near.mem pos rule = some row) (farly : far.mem pos rule = some row') :
    EndAlike (SameButNodes nearBase farBase depth) SameSuccess
      (NonTerminal.replay rule pos row near : Run (Moment CharT) _ Exn ParseResult)
      (NonTerminal.replay rule pos row' far) := by
  have same : near.lrInProgress rule pos = far.lrInProgress rule pos := by
    unfold Context.lrInProgress
    rw [alike.lr_stack]
  rw [PlantedSeeds.replay_run nearly, PlantedSeeds.replay_run farly, same, rows.lastPos]
  refine ⟨rows.success, (reset_plain row'.lastPos).alike ?_⟩
  split_ifs
  · exact (mark_head_plain rule pos).alike alike
  · exact alike

theorem parse_in_step (nonTerminal : NonTerminal CharT NodeType) (rule : RuleId)
    {body body' : Option (Parser CharT ParseResult)} (bodies : Option.Rel InStep body body')
    (fuel : Nat) :
    InStep (NonTerminal.parse nonTerminal rule body fuel)
      (NonTerminal.parse nonTerminal rule body' fuel) := by
  refine fun nearBase farBase depth aligned => mirrors_bind (mirrors_announce _ _) fun _ _ _ =>
    step_read (fun _ _ _ _ _ => rfl) fun startPos near far alike => ?_
  have finishes : ∀ grown grown' : ParseResult × RuleState, Grown grown grown' →
      Step nearBase farBase depth SameSuccess
        (if grown.1.success then NonTerminal.finishSuccess nonTerminal rule startPos grown.1 grown.2
          else NonTerminal.finishFailure nonTerminal rule startPos grown.2)
        (if grown'.1.success then NonTerminal.finishSuccess nonTerminal rule startPos grown'.1 grown'.2
          else NonTerminal.finishFailure nonTerminal rule startPos grown'.2) := by
    rintro grown grown' ⟨same, states⟩
    refine mirrors_ite (by rw [same]) (fun _ _ => ?_) fun _ =>
      finish_failure_step aligned nonTerminal rule startPos states
    refine mirrors_bind (build_node_step nonTerminal rule startPos _ _) fun node node' _ => ?_
    exact mirrors_bind (store_step rule startPos ⟨states.lastPos, rfl⟩) fun _ _ _ => mirrors_pure rfl
  have rows := alike.rows startPos rule
  have state : ∀ context : Context CharT,
      (Comp.modifyGet (fun context => context.ruleState rule startPos) context :
        Run (Moment CharT) _ Exn _) =
      ⟨.returned (context.ruleState rule startPos).1, (context.ruleState rule startPos).2, []⟩ :=
    fun _ => rfl
  rw [Comp.bind_returned (state near), Comp.bind_returned (state far)]
  unfold Context.ruleState
  cases nearly : near.mem startPos rule with
  | none =>
      cases farly : far.mem startPos rule with
      | some row => rw [nearly, farly] at rows; cases rows
      | none =>
          have entered := alike.written startPos rule (⟨rfl, rfl⟩ : RowsAgree {} {})
          exact mirrors_bind (invoke_step aligned rule startPos bodies fuel) finishes _ _ entered
  | some row =>
      cases farly : far.mem startPos rule with
      | none => rw [nearly, farly] at rows; cases rows
      | some row' =>
          rw [nearly, farly] at rows
          cases rows with
          | some agree => exact replay_alike agree alike nearly farly

end RuleApplication

section Evaluation

variable [PegValue CharT] {grammar : Grammar CharT NodeType}

theorem expr_in_step {apply apply' : RuleId → Parser CharT ParseResult}
    (applies : ∀ rule, InStep (apply rule) (apply' rule)) (fuel : Nat) {expr : Expr CharT}
    (blind : expr.Every NodeBlind) : InStep (expr.parse apply fuel) (expr.parse apply' fuel) := by
  have idle := fun context => @skip_idle CharT apply context
  have idle' := fun context => @skip_idle CharT apply' context
  have all : ∀ children : List (Expr CharT),
      (∀ child ∈ children, InStep (child.parse apply fuel) (child.parse apply' fuel)) →
      List.Forall₂ InStep (Expr.parseAll apply fuel children) (Expr.parseAll apply' fuel children) := by
    intro children each
    rw [Expr.parse_all_eq_map, Expr.parse_all_eq_map, List.forall₂_map_left_iff,
      List.forall₂_map_right_iff]
    exact List.forall₂_same.mpr each
  induction expr using Expr.induct with
  | terminal value => exact terminal_in_step value
  | terminalSeq values => exact terminal_seq_in_step values
  | token value => exact token_in_step value
  | matcher fn => exact matcher_in_step blind.here
  | empty => exact empty_in_step
  | cut => exact cut_in_step
  | sequence children induction =>
      unfold Expr.Every at blind
      exact sequence_in_step idle idle' (all children fun child member =>
        induction child member (Expr.every_all_iff.mp blind.2 child member))
  | alternation children induction =>
      unfold Expr.Every at blind
      exact alternation_in_step (all children fun child member =>
        induction child member (Expr.every_all_iff.mp blind.2 child member))
  | repetition kind child induction =>
      unfold Expr.Every at blind
      exact in_step_of_step fun _ _ _ =>
        repeat_step idle idle' fuel (induction blind.2) kind.minRep kind.maxRep
  | not child induction =>
      unfold Expr.Every at blind
      exact predicate_in_step (induction blind.2) true
  | and child induction =>
      unfold Expr.Every at blind
      exact predicate_in_step (induction blind.2) false
  | lexeme child induction =>
      unfold Expr.Every at blind
      exact lexeme_in_step (induction blind.2)
  | rule id => exact applies id

def BlindRules (grammar : Grammar CharT NodeType) : Prop :=
  ∀ rule body, grammar.body rule = some body → body.Every NodeBlind

/-- A grammar without node-sensitive matchers is in step with itself. -/
theorem apply_in_step (blind : BlindRules grammar) (fuel : Nat) (rule : RuleId) :
    InStep (grammar.apply fuel rule) (grammar.apply fuel rule) := by
  induction fuel generalizing rule with
  | zero => exact in_step_of_step fun _ _ _ => mirrors_exhaust
  | succ fuel induction =>
      refine parse_in_step _ rule ?_ fuel
      cases assigned : grammar.body rule with
      | none => exact .none
      | some body => exact .some (expr_in_step induction fuel (blind rule body assigned))

theorem eval_in_step (blind : BlindRules grammar) (fuel : Nat) {expr : Expr CharT}
    (every : expr.Every NodeBlind) : InStep (grammar.eval fuel expr) (grammar.eval fuel expr) :=
  expr_in_step (apply_in_step blind fuel) fuel every

end Evaluation

end Peglib.NodeBlindness
