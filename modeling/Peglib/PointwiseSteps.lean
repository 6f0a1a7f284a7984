import Peglib.Flattening
import Peglib.ExactRepetition

/-!
# In step at a context

Two parsers may be in step from the contexts that are like a given one without
being so everywhere. A combinator of two such parsers is, at a context, when the
parts are wherever the second combinator comes to them.
-/

namespace Peglib.PointwiseSteps

open Peglib.TracedComputation Peglib.Coupling
open Peglib.ParseError Peglib.ParseContext Peglib.Expressions
open Peglib.Repetitions Peglib.ExactRepetition Peglib.Lockstep Peglib.NodeBlindness

set_option autoImplicit false

variable {CharT : Type} {left right left' right' third : Parser CharT ParseResult}
  {far : Context CharT}

/-- In step from the contexts that differ from this one in their nodes only. -/
def InStepAt (left right : Parser CharT ParseResult) (far : Context CharT) : Prop :=
  ∀ nearBase farBase depth near, Aligned nearBase farBase depth →
    SameButNodes nearBase farBase depth near far →
    EndAlike (SameButNodes nearBase farBase depth) SameSuccess (left near) (right far)

theorem InStep.here (step : InStep left right) (far : Context CharT) : InStepAt left right far :=
  fun nearBase farBase depth near aligned alike => step nearBase farBase depth aligned near far alike

theorem InStep.trans_at (first : InStep left right) (second : InStepAt right third far) :
    InStepAt left third far := by
  intro nearBase farBase depth near aligned alike
  obtain ⟨own, own', size, -, nearly, -⟩ := alike.scopes
  have still : SameButNodes nearBase nearBase depth near near :=
    size ▸ same_refl alike.near_skipper nearly
  have one := first nearBase nearBase depth (aligned.imp id fun empty => ⟨empty.1, empty.1⟩)
    near near still
  exact one.trans (second nearBase farBase depth near aligned alike)
    (fun _ _ _ same same' => same.trans same') fun _ _ _ alike alike' => alike.trans alike'

section Steps

variable {skip skip' : Parser CharT Unit} {near : Context CharT} {nearBase farBase : List CutRecord}
  {depth : Nat} {Value Value' : Type} {related : Context CharT → Context CharT → Prop}
  {agree : Value → Value' → Prop}

theorem end_alike_skip (idle : Idle skip) (idle' : Idle skip') {condition condition' : Prop}
    [Decidable condition] [Decidable condition'] {next : Unit → Parser CharT Value}
    {next' : Unit → Parser CharT Value'} (alike : SameButNodes nearBase farBase depth near far)
    (rest : EndAlike related agree (next () near) (next' () far)) :
    EndAlike related agree ((Comp.onlyIf condition skip >>= next) near)
      ((Comp.onlyIf condition' skip' >>= next') far) := by
  rw [Comp.bind_returned (idle.only_if condition near alike.near_skipper),
    Comp.bind_returned (idle'.only_if condition' far alike.skipper)]
  exact rest

theorem end_alike_modify {update update' : Context CharT → Context CharT}
    {next : Unit → Parser CharT Value} {next' : Unit → Parser CharT Value'}
    (rest : EndAlike related agree (next () (update near)) (next' () (update' far))) :
    EndAlike related agree ((Comp.modify update >>= next) near) ((Comp.modify update' >>= next') far) :=
  rest

theorem end_alike_read {Seen Seen' : Type} {view : Context CharT → Seen}
    {view' : Context CharT → Seen'} {next : Seen → Parser CharT Value}
    {next' : Seen' → Parser CharT Value'}
    (rest : EndAlike related agree (next (view near) near) (next' (view' far) far)) :
    EndAlike related agree ((Comp.read view >>= next) near) ((Comp.read view' >>= next') far) :=
  rest

end Steps

section Combinators

variable {skip skip' : Parser CharT Unit} (idle : Idle skip) (idle' : Idle skip')

include idle idle' in
theorem sequence_in_step_at (first : InStepAt left left' (sequenceStart far))
    (second : ∀ result here log, left' (sequenceStart far) = ⟨.returned result, here, log⟩ →
      result.success = true → InStepAt right right' (pushChild far.makeNode.1 result.tree here)) :
    InStepAt (SequenceExpr.parse skip [left, right]) (SequenceExpr.parse skip' [left', right']) far := by
  intro nearBase farBase depth near aligned alike
  have started : SameButNodes nearBase farBase depth (sequenceStart near) (sequenceStart far) :=
    (mark_start_nodes_only _).left ((mark_start_nodes_only _).right
      (make_nodes_only.left (make_nodes_only.right alike)))
  have position := alike.position
  have children : EndAlike (SameButNodes nearBase farBase depth) Eq
      (SequenceExpr.parseSeq skip near.makeNode.1 0 [left, right] (sequenceStart near))
      (SequenceExpr.parseSeq skip' far.makeNode.1 0 [left', right'] (sequenceStart far)) := by
    refine end_alike_skip idle idle' started ?_
    refine end_alike_bind (first _ _ _ _ aligned started) ?_
    intro result result' near' here log run same alike'
    rw [same]
    by_cases success : result'.success = true
    · rw [if_pos success, if_pos success]
      refine end_alike_modify ?_
      have pushed : SameButNodes nearBase farBase depth (pushChild near.makeNode.1 result.tree near')
          (pushChild far.makeNode.1 result'.tree here) :=
        (push_child_nodes_only _ _).left ((push_child_nodes_only _ _).right alike')
      refine end_alike_skip idle idle' pushed ?_
      refine end_alike_bind (second result' here log run success _ _ _ _ aligned pushed) ?_
      intro last last' near'' far'' _ _ same' alike''
      rw [same']
      split_ifs
      · refine end_alike_modify ⟨rfl, ?_⟩
        exact (push_child_nodes_only _ _).left ((push_child_nodes_only _ _).right alike'')
      · exact ⟨rfl, alike''⟩
    · rw [if_neg success, if_neg success]
      exact ⟨rfl, alike'⟩
  have ended : EndAlike (SameButNodes nearBase farBase depth) SameSuccess
      ((SequenceExpr.parseSeq skip near.makeNode.1 0 [left, right] >>= fun matched =>
        if matched then do
          Comp.modify (markEnd near.makeNode.1)
          pure ⟨true, some near.makeNode.1⟩
        else do
          Comp.modify fun context => context.reset near.position
          pure ⟨false, none⟩ : Parser CharT ParseResult) (sequenceStart near))
      ((SequenceExpr.parseSeq skip' far.makeNode.1 0 [left', right'] >>= fun matched =>
        if matched then do
          Comp.modify (markEnd far.makeNode.1)
          pure ⟨true, some far.makeNode.1⟩
        else do
          Comp.modify fun context => context.reset far.position
          pure ⟨false, none⟩ : Parser CharT ParseResult) (sequenceStart far)) := by
    refine end_alike_bind children ?_
    rintro matched _ near' here _ _ rfl alike'
    rw [position]
    exact sequence_end_step near.makeNode.1 far.makeNode.1 far.position matched near' here alike'
  exact ended

theorem branch_in_step_at {nearBase farBase : List CutRecord} {depth : Nat} {near : Context CharT}
    {rest rest' : List (Parser CharT ParseResult)} (aligned : Aligned nearBase farBase depth)
    (branch : EndAlike (SameButNodes nearBase farBase depth) SameSuccess (left near) (left' far))
    (index : Nat)
    (later : ∀ result near' here log, left' far = ⟨.returned result, here, log⟩ →
      result.success = false → here.cut = false → SameButNodes nearBase farBase depth near' here →
      EndAlike (SameButNodes nearBase farBase depth) SameSuccess
        (AlternationExpr.parseAlt (index + 1) rest near')
        (AlternationExpr.parseAlt (index + 1) rest' here)) :
    EndAlike (SameButNodes nearBase farBase depth) SameSuccess
      (AlternationExpr.parseAlt index (left :: rest) near)
      (AlternationExpr.parseAlt index (left' :: rest') far) := by
  refine end_alike_bind branch ?_
  intro result result' near' here log run same alike
  rw [same]
  by_cases success : result'.success = true
  · rw [if_pos success, if_pos success]
    refine end_alike_modify ⟨same, ?_⟩
    exact (stamp_winner_nodes_only _ _).left ((stamp_winner_nodes_only _ _).right alike)
  · rw [if_neg success, if_neg success]
    have flag := alike.cut_eq aligned
    have raised := raise_run here
    have raised' := raise_run near'
    by_cases committed : here.cut = true
    · rw [if_pos committed] at raised
      rw [if_pos (flag.trans committed)] at raised'
      rw [Comp.bind_thrown raised, Comp.bind_thrown raised']
      trivial
    · rw [if_neg committed] at raised
      rw [if_neg (flag ▸ committed)] at raised'
      rw [Comp.bind_returned raised, Comp.bind_returned raised']
      exact later result' near' here log run (Bool.not_eq_true _ ▸ success)
        (Bool.not_eq_true _ ▸ committed) alike

theorem alternation_in_step_at (first : InStepAt left left' far.initCut)
    (second : ∀ result here log, left' far.initCut = ⟨.returned result, here, log⟩ →
      result.success = false → here.cut = false → InStepAt right right' here) :
    InStepAt (AlternationExpr.parse [left, right]) (AlternationExpr.parse [left', right']) far := by
  intro nearBase farBase depth near _ alike
  have aligned : Aligned nearBase farBase (depth + 1) := Or.inl (Nat.succ_pos _)
  refine end_alike_modify (end_alike_guarded ?_ fun _ _ => remove_cut_alike)
  refine branch_in_step_at aligned (first _ _ _ _ aligned (init_cut_alike alike)) 0 ?_
  intro result near' here log run failed uncommitted alike'
  have next := second result here log run failed uncommitted
  refine branch_in_step_at aligned (next _ _ _ _ aligned alike') 1 ?_
  exact fun _ _ _ _ _ _ _ alike'' => ⟨rfl, alike''⟩

include idle idle' in
theorem loop_in_step_at {child child' : Parser CharT ParseResult} {maxRep : Int}
    {node node' : NodePtr} {start : Context CharT} {budget : Nat}
    {nearBase farBase : List CutRecord} {depth : Nat} (aligned : Aligned nearBase farBase depth)
    (each : ∀ count last here, count < budget → Matched skip' child' node' start count last here →
      (∀ earlier ≤ count, boundReached maxRep earlier = false) →
      InStepAt child child' (here.setCut false))
    (fuel : Nat) {count last : Nat} {near here : Context CharT} (left : fuel + count ≤ budget)
    (matched : Matched skip' child' node' start count last here)
    (below : ∀ earlier ≤ count, boundReached maxRep earlier = false)
    (alike : SameButNodes nearBase farBase depth near here) :
    EndAlike (SameButNodes nearBase farBase depth) Eq
      (repeatLoop skip child maxRep node fuel count last near)
      (repeatLoop skip' child' maxRep node' fuel count last here) := by
  induction fuel generalizing count last near here with
  | zero => trivial
  | succ fuel induction =>
      refine end_alike_skip idle idle' alike (end_alike_read (end_alike_modify ?_))
      have cleared := set_cut_alike false alike aligned
      have step := each count last here (by omega) matched below
      refine end_alike_bind (step _ _ _ _ aligned cleared) ?_
      intro result result' near' after log run same alike'
      rw [same]
      by_cases success : result'.success = true
      · rw [if_pos success, if_pos success, alike.position]
        refine end_alike_read (end_alike_modify ?_)
        rw [alike'.position]
        have pushed : SameButNodes nearBase farBase depth (pushChild node result.tree near')
            (pushChild node' result'.tree after) :=
          (push_child_nodes_only _ _).left ((push_child_nodes_only _ _).right alike')
        by_cases stop : (boundReached maxRep (count + 1) || decide (after.position = here.position)) = true
        · rw [if_pos stop, if_pos stop]
          exact ⟨rfl, pushed⟩
        · rw [if_neg stop, if_neg stop]
          rw [Bool.or_eq_true, not_or, decide_eq_true_iff, Bool.not_eq_true] at stop
          have iteration : Iteration skip' child' count here here after result' :=
            ⟨⟨[], idle'.only_if _ here alike.skipper⟩, log, run⟩
          refine induction (by omega) (.next matched iteration success stop.2) ?_ pushed
          intro earlier bound
          rcases Nat.le_succ_iff.mp bound with bound | rfl
          · exact below earlier bound
          · exact stop.1
      · rw [if_neg success, if_neg success]
        exact ⟨rfl, alike'⟩

include idle idle' in
/-- A repetition opens a scope of its own: the children are in step wherever an
iteration starts. -/
theorem repetition_in_step_at {child child' : Parser CharT ParseResult} {maxRep : Int}
    {fuel : Nat} (minRep : Nat)
    (each : ∀ count last here, count < fuel →
      Matched skip' child' far.initCut.makeNode.1 (entered far) count last here →
      (∀ earlier ≤ count, boundReached maxRep earlier = false) →
      InStepAt child child' (here.setCut false)) :
    InStepAt (repeatParseImpl fuel skip child minRep maxRep)
      (repeatParseImpl fuel skip' child' minRep maxRep) far := by
  intro nearBase farBase depth near _ alike
  have aligned : Aligned nearBase farBase (depth + 1) := Or.inl (Nat.succ_pos _)
  have opened := init_cut_alike alike
  have started : SameButNodes nearBase farBase (depth + 1) (entered near) (entered far) :=
    (mark_start_nodes_only _).left ((mark_start_nodes_only _).right
      (make_nodes_only.left (make_nodes_only.right opened)))
  have start : near.position = far.position := alike.position
  have low : ∀ earlier ≤ 0, boundReached maxRep earlier = false := by
    intro earlier bound
    obtain rfl := Nat.le_zero.mp bound
    unfold boundReached
    by_cases positive : 0 < maxRep
    · have some : ¬maxRep.toNat ≤ 0 := by omega
      rw [decide_eq_false some, Bool.and_false]
    · rw [decide_eq_false positive, Bool.false_and]
  refine end_alike_modify (end_alike_guarded (end_alike_read ?_) fun _ _ => remove_cut_alike)
  have loops : EndAlike (SameButNodes nearBase farBase (depth + 1)) Eq
      (repeatLoop skip child maxRep near.initCut.makeNode.1 fuel 0 near.position (entered near))
      (repeatLoop skip' child' maxRep far.initCut.makeNode.1 fuel 0 far.position (entered far)) := by
    rw [start]
    exact loop_in_step_at idle idle' aligned each fuel (Nat.le_refl _) .none low started
  have ended : EndAlike (SameButNodes nearBase farBase (depth + 1)) SameSuccess
      ((repeatLoop skip child maxRep near.initCut.makeNode.1 fuel 0 near.position >>=
        repeatEnd minRep maxRep near.position near.initCut.makeNode.1) (entered near))
      ((repeatLoop skip' child' maxRep far.initCut.makeNode.1 fuel 0 far.position >>=
        repeatEnd minRep maxRep far.position far.initCut.makeNode.1) (entered far)) := by
    refine end_alike_bind loops ?_
    rintro exit _ near' here _ _ rfl alike'
    unfold repeatEnd
    rw [start]
    split_ifs
    · exact end_alike_modify ⟨rfl, (reset_plain _).alike alike'⟩
    · exact repeat_finish_step aligned maxRep _ _ exit near' here alike'
  exact ended

theorem predicate_in_step_at (children : InStepAt left right far) (negate : Bool) :
    InStepAt (predicateParseImpl left negate) (predicateParseImpl right negate) far := by
  intro nearBase farBase depth near aligned alike
  refine end_alike_read (end_alike_bind (children _ _ _ _ aligned alike) ?_)
  intro result result' near' here _ _ same alike'
  refine end_alike_modify ⟨?_, ?_⟩
  · unfold SameSuccess at same ⊢
    rw [same]
  · rw [alike.position]
    exact (reset_plain _).alike alike'

theorem lexeme_in_step_at (children : InStepAt left right { far with skipEnabled := false }) :
    InStepAt (LexemeExpr.parse left) (LexemeExpr.parse right) far := by
  have sets : ∀ enabled : Bool, Plain fun context : Context CharT =>
      { context with skipEnabled := enabled } := fun _ _ _ _ _ strayed => ⟨strayed, rfl, rfl⟩
  intro nearBase farBase depth near aligned alike
  have same : near.skipEnabled = far.skipEnabled := by
    rw [alike.same]
    rfl
  refine end_alike_read (end_alike_modify (end_alike_guarded
    (children _ _ _ _ aligned ((sets false).alike alike)) fun _ _ alike' => ?_))
  rw [same]
  exact (sets far.skipEnabled).alike alike'

end Combinators

end Peglib.PointwiseSteps
