import Peglib.NodeBlindness
import Peglib.Repetitions

/-!
# Nested sequences and choices

A sequence inside a sequence and a choice inside a choice may be spliced into
the outer one. The inner sequence only adds a node; the inner choice adds a
scope, which is uncommitted wherever the outer one is looked at again.
-/

namespace Peglib.Flattening

open Peglib.TracedComputation Peglib.Coupling
open Peglib.ParseError Peglib.ParseContext Peglib.Expressions Peglib.Rules
open Peglib.Repetitions Peglib.Lockstep Peglib.NodeBlindness

set_option autoImplicit false

variable {CharT : Type}

section Sequences

variable {skip : Parser CharT Unit} {nearBase farBase : List CutRecord} {depth : Nat}

def sequenceEnd (node : NodePtr) (state : Nat) (matched : Bool) : Parser CharT ParseResult :=
  if matched then do
    Comp.modify (markEnd node)
    pure ⟨true, some node⟩
  else do
    Comp.modify fun context => context.reset state
    pure ⟨false, none⟩

theorem parse_seq_append (node : NodePtr) (first second : List (Parser CharT ParseResult))
    (index : Nat) :
    SequenceExpr.parseSeq skip node index (first ++ second) =
      SequenceExpr.parseSeq skip node index first >>= fun matched =>
        if matched then SequenceExpr.parseSeq skip node (index + first.length) second
        else pure false := by
  induction first generalizing index with
  | nil => simp [SequenceExpr.parseSeq]
  | cons child rest induction =>
      have later : ∀ result : ParseResult,
          (if result.success then (do
              Comp.modify (pushChild node result.tree)
              SequenceExpr.parseSeq skip node (index + 1) (rest ++ second) : Parser CharT Bool)
            else pure false) =
          (if result.success then (do
              Comp.modify (pushChild node result.tree)
              SequenceExpr.parseSeq skip node (index + 1) rest : Parser CharT Bool)
            else pure false) >>= fun matched =>
              if matched then
                SequenceExpr.parseSeq skip node (index + (child :: rest).length) second
              else pure false := by
        intro result
        rw [induction, List.length_cons, Nat.add_assoc, Nat.add_comm 1]
        split_ifs
        · rw [bind_assoc]
        · rw [pure_bind]
          rfl
      rw [List.cons_append, SequenceExpr.parseSeq, SequenceExpr.parseSeq, bind_assoc]
      simp only [later, bind_assoc]

theorem sequence_eq (children : List (Parser CharT ParseResult)) :
    SequenceExpr.parse skip children = (do
      let state ← Comp.read Context.position
      let node ← Comp.modifyGet Context.makeNode
      Comp.modify (markStart node)
      let matched ← SequenceExpr.parseSeq skip node 0 children
      sequenceEnd node state matched : Parser CharT ParseResult) := rfl

theorem sequence_end_alike (node node' : NodePtr) (state : Nat) (matched : Bool) :
    Step nearBase farBase depth SameSuccess
      (sequenceEnd node state matched : Parser CharT ParseResult) (sequenceEnd node' state matched) :=
  sequence_end_step node node' state matched

variable (idle : Idle skip)

include idle

theorem inner_sequence_step (aligned : Aligned nearBase farBase depth)
    {inner after : List (Parser CharT ParseResult)} (inners : List.Forall₂ InStep inner inner)
    (afters : List.Forall₂ InStep after after) (node node' : NodePtr) (state index index' : Nat) :
    Step nearBase farBase depth SameSuccess
      (SequenceExpr.parseSeq skip node index (inner ++ after) >>= sequenceEnd node state)
      (SequenceExpr.parseSeq skip node' index' (SequenceExpr.parse skip inner :: after) >>=
        sequenceEnd node' state) := by
  have skipped : Mirrors (SameButNodes nearBase farBase depth) (SameButNodes nearBase farBase depth)
      (fun _ _ => True) (pure () : Parser CharT Unit) (Comp.onlyIf (0 < index') skip) := by
    intro near far alike
    rw [idle.only_if _ far alike.skipper]
    exact ⟨trivial, alike⟩
  have started : (SequenceExpr.parseSeq skip node index (inner ++ after) >>= sequenceEnd node state) =
      (pure () : Parser CharT Unit) >>= fun _ =>
        SequenceExpr.parseSeq skip node index (inner ++ after) >>= sequenceEnd node state := by
    rw [pure_bind]
  rw [started, SequenceExpr.parseSeq, sequence_eq, parse_seq_append]
  simp only [bind_assoc]
  refine mirrors_bind skipped fun _ _ _ => mirrors_far_read fun state' => ?_
  refine mirrors_far_modifyGet (fun _ _ alike => make_nodes_only.right alike) fun node'' => ?_
  refine mirrors_far_modify (fun _ _ alike => (mark_start_nodes_only node'').right alike) ?_
  refine mirrors_bind (parse_seq_step idle idle aligned node node'' inners index 0) ?_
  rintro matched _ rfl
  cases matched with
  | true =>
      simp only [sequenceEnd, if_true, bind_assoc, pure_bind]
      refine mirrors_far_modify (fun _ _ alike => (mark_end_nodes_only node'').right alike) ?_
      refine mirrors_far_modify (fun _ _ alike => (push_child_nodes_only node' _).right alike) ?_
      refine mirrors_bind (parse_seq_step idle idle aligned node node' afters _ _) ?_
      rintro matched _ rfl
      exact sequence_end_alike node node' state matched
  | false =>
      simp only [sequenceEnd, Bool.false_eq_true, if_false, bind_assoc, pure_bind]
      intro near far alike
      have back := (reset_plain state).alike alike
      exact ⟨rfl, back.same, back.skipper, back.rows, back.scopes⟩

/-- An inner sequence may be spliced into the outer one. -/
theorem sequence_spliced {before inner after : List (Parser CharT ParseResult)}
    (befores : List.Forall₂ InStep before before) (inners : List.Forall₂ InStep inner inner)
    (afters : List.Forall₂ InStep after after) :
    InStep (SequenceExpr.parse skip (before ++ (inner ++ after)))
      (SequenceExpr.parse skip (before ++ SequenceExpr.parse skip inner :: after)) := by
  refine fun _ _ _ aligned => step_read (fun _ _ _ _ _ => rfl) fun state => ?_
  refine mirrors_bind step_make fun node node' _ => ?_
  refine mirrors_bind (step_nodes (mark_start_nodes_only node) (mark_start_nodes_only node'))
    fun _ _ _ => ?_
  change Step _ _ _ SameSuccess (SequenceExpr.parseSeq skip node 0 _ >>= sequenceEnd node state)
    (SequenceExpr.parseSeq skip node' 0 _ >>= sequenceEnd node' state)
  rw [parse_seq_append node before, parse_seq_append node' before, bind_assoc, bind_assoc]
  refine mirrors_bind (parse_seq_step idle idle aligned node node' befores 0 0) ?_
  rintro matched _ rfl
  cases matched with
  | true => exact inner_sequence_step idle aligned inners afters node node' state _ _
  | false => exact sequence_end_alike node node' state false

end Sequences

section Scopes

variable {nearBase farBase : List CutRecord} {depth : Nat}

/-- The second context has one more scope, an uncommitted one, below those at hand. -/
structure Nested (nearBase farBase : List CutRecord) (depth : Nat) (extra : CutRecord)
    (nearBelow farBelow : List CutRecord) : Prop where
  uncommitted : extra.cut = false
  bases : ∃ own own', own.length = depth ∧ List.Forall₂ CutsAgree own own' ∧
    nearBelow = own ++ nearBase ∧ farBelow = own' ++ farBase

theorem remove_uncut {scope : CutRecord} {outer : List CutRecord} {context : Context CharT}
    (stack : context.cutStack = scope :: outer) (uncommitted : scope.cut = false) :
    context.removeCut = { context with cutStack := outer } := by
  unfold Context.removeCut
  rw [stack]
  dsimp only
  rw [if_neg (by rw [uncommitted]; exact Bool.false_ne_true)]

theorem Nested.closed {extra : CutRecord} {nearBelow farBelow : List CutRecord}
    {near far : Context CharT} (nested : Nested nearBase farBase depth extra nearBelow farBelow)
    (alike : SameButNodes nearBelow (extra :: farBelow) 0 near far) :
    SameButNodes nearBase farBase depth near far.removeCut := by
  obtain ⟨own, own', size, agree, rfl, rfl⟩ := nested.bases
  obtain ⟨none, none', empty, both, nearly, farly⟩ := alike.scopes
  obtain rfl := List.eq_nil_of_length_eq_zero empty
  cases both
  rw [remove_uncut farly nested.uncommitted]
  exact ⟨alike.same, alike.skipper, alike.rows, own, own', size, agree, nearly, rfl⟩

/-- Contexts with uncommitted scopes on top. -/
def Open (nearBase farBase : List CutRecord) (depth : Nat) (near far : Context CharT) : Prop :=
  SameButNodes nearBase farBase (depth + 1) near far ∧ far.cut = false

/-- Contexts that closing a scope each leaves alike. -/
def Closing (nearBase farBase : List CutRecord) (depth : Nat) (near far : Context CharT) : Prop :=
  SameButNodes nearBase farBase depth near.removeCut far.removeCut

/-- A failure leads on only where the scope is uncommitted. -/
theorem raise_uncommitted (aligned : Aligned nearBase farBase depth) :
    Mirrors (SameButNodes nearBase farBase depth)
      (fun near far => SameButNodes nearBase farBase depth near far ∧ far.cut = false)
      (fun _ _ => True) (raiseIfCommitted : Parser CharT Unit) raiseIfCommitted := by
  intro near far alike
  rw [raise_run, raise_run, alike.cut_eq aligned]
  split_ifs with committed
  · trivial
  · exact ⟨trivial, alike, Bool.not_eq_true _ ▸ committed⟩

end Scopes

section Choices

variable {nearBase farBase : List CutRecord} {depth : Nat}

def afterBranch (index : Nat) (rest : List (Parser CharT ParseResult)) (result : ParseResult) :
    Parser CharT ParseResult :=
  if result.success then do
    Comp.modify (stampWinner result.tree index)
    pure result
  else do
    raiseIfCommitted
    AlternationExpr.parseAlt (index + 1) rest

theorem parse_alt_cons (index : Nat) (child : Parser CharT ParseResult)
    (rest : List (Parser CharT ParseResult)) :
    AlternationExpr.parseAlt index (child :: rest) = child >>= afterBranch index rest := rfl

theorem branch_step {child child' : Parser CharT ParseResult} (children : InStep child child')
    {rest rest' : List (Parser CharT ParseResult)} {index index' : Nat}
    (rests : Mirrors (Open nearBase farBase depth) (Closing nearBase farBase depth) SameSuccess
      (AlternationExpr.parseAlt (index + 1) rest) (AlternationExpr.parseAlt (index' + 1) rest')) :
    Mirrors (Open nearBase farBase depth) (Closing nearBase farBase depth) SameSuccess
      (AlternationExpr.parseAlt index (child :: rest))
      (AlternationExpr.parseAlt index' (child' :: rest')) := by
  have first : Mirrors (Open nearBase farBase depth) (SameButNodes nearBase farBase (depth + 1))
      SameSuccess child child' :=
    (children nearBase farBase (depth + 1) (Or.inl (Nat.succ_pos _))).weaken (fun _ _ => And.left)
      fun _ _ => id
  refine mirrors_bind first fun result result' same => ?_
  refine mirrors_ite (by rw [same]) (fun _ _ => ?_) fun _ =>
    mirrors_bind (raise_uncommitted (Or.inl (Nat.succ_pos _))) fun _ _ _ => rests
  refine mirrors_bind (step_nodes (stamp_winner_nodes_only _ _) (stamp_winner_nodes_only _ _))
    fun _ _ _ => ?_
  exact (mirrors_pure same).weaken (fun _ _ => id) fun _ _ alike => remove_cut_alike alike

theorem branches_step {before rest rest' : List (Parser CharT ParseResult)}
    (befores : List.Forall₂ InStep before before)
    (rests : ∀ index index', Mirrors (Open nearBase farBase depth) (Closing nearBase farBase depth)
      SameSuccess (AlternationExpr.parseAlt index rest) (AlternationExpr.parseAlt index' rest'))
    (index index' : Nat) :
    Mirrors (Open nearBase farBase depth) (Closing nearBase farBase depth) SameSuccess
      (AlternationExpr.parseAlt index (before ++ rest))
      (AlternationExpr.parseAlt index' (before ++ rest')) := by
  induction before generalizing index index' with
  | nil => exact rests index index'
  | cons child others induction =>
      cases befores with
      | cons children befores => exact branch_step children (induction befores _ _)

theorem no_branch_step (index index' : Nat) :
    Mirrors (Open nearBase farBase depth) (Closing nearBase farBase depth) SameSuccess
      (AlternationExpr.parseAlt index [] : Parser CharT ParseResult)
      (AlternationExpr.parseAlt index' []) :=
  fun _ _ opened => ⟨rfl, remove_cut_alike opened.1⟩

def Inside (nearBelow farBelow : List CutRecord) (extra : CutRecord) (near far : Context CharT) :
    Prop :=
  SameButNodes nearBelow (extra :: farBelow) 1 near far ∧ far.cut = false

theorem Inside.left {nearBelow farBelow : List CutRecord} {extra : CutRecord}
    {near far : Context CharT} (nested : Nested nearBase farBase depth extra nearBelow farBelow)
    (inside : Inside nearBelow farBelow extra near far) : Open nearBase farBase depth near far.removeCut := by
  obtain ⟨alike, uncommitted⟩ := inside
  obtain ⟨own, own', size, agree, rfl, rfl⟩ := nested.bases
  obtain ⟨one, one', single, both, nearly, farly⟩ := alike.scopes
  cases both with
  | nil => cases single
  | @cons scope scope' rest rest' same others =>
      obtain rfl := List.eq_nil_of_length_eq_zero (Nat.succ.inj single)
      cases others
      have open' : scope'.cut = false := by
        unfold Context.cut at uncommitted
        rw [farly] at uncommitted
        exact uncommitted
      rw [remove_uncut farly open']
      refine ⟨⟨alike.same, alike.skipper, alike.rows, scope :: own, extra :: own',
        congrArg (· + 1) size, .cons ⟨?_, fun committed => ?_⟩ agree, nearly, rfl⟩, nested.uncommitted⟩
      · rw [same.cut, open', nested.uncommitted]
      · rw [same.cut, open'] at committed
        cases committed

theorem inner_choice_step {inner after : List (Parser CharT ParseResult)}
    (inners : List.Forall₂ InStep inner inner) (afters : List.Forall₂ InStep after after)
    {nearBelow farBelow : List CutRecord} {extra : CutRecord}
    (nested : Nested nearBase farBase depth extra nearBelow farBelow) (index index' outer : Nat) :
    Mirrors (Inside nearBelow farBelow extra) (Closing nearBase farBase depth) SameSuccess
      (AlternationExpr.parseAlt index (inner ++ after))
      (Comp.guarded (AlternationExpr.parseAlt index' inner) Context.removeCut >>=
        afterBranch outer after) := by
  have rest : ∀ index index', Mirrors (Open nearBase farBase depth) (Closing nearBase farBase depth)
      SameSuccess (AlternationExpr.parseAlt index after) (AlternationExpr.parseAlt index' after) := by
    intro index index'
    have whole := branches_step afters (@no_branch_step CharT nearBase farBase depth) index index'
    rwa [List.append_nil] at whole
  induction inner generalizing index index' with
  | nil =>
      intro near far inside
      have opened := inside.left nested
      have missed : (Comp.guarded (AlternationExpr.parseAlt index' []) Context.removeCut far :
          Run (Moment CharT) _ Exn ParseResult) = ⟨.returned ⟨false, none⟩, far.removeCut, []⟩ := rfl
      have raised := raise_run far.removeCut
      rw [opened.2, if_neg Bool.false_ne_true] at raised
      rw [Comp.bind_returned missed, afterBranch, if_neg Bool.false_ne_true,
        Comp.bind_returned raised]
      exact rest index (outer + 1) near far.removeCut opened
  | cons child others induction =>
      cases inners with
      | cons children inners =>
          have first : Mirrors (Inside nearBelow farBelow extra)
              (SameButNodes nearBelow (extra :: farBelow) 1) SameSuccess child child :=
            (children nearBelow (extra :: farBelow) 1 (Or.inl Nat.one_pos)).weaken
              (fun _ _ => And.left) fun _ _ => id
          rw [List.cons_append, parse_alt_cons, parse_alt_cons]
          refine mirrors_guarded_tail first fun result result' same => ?_
          by_cases success : result.success = true
          · rw [afterBranch, if_pos success, afterBranch, if_pos (same ▸ success)]
            intro near far alike
            have stamped := (stamp_winner_nodes_only result.tree index).left
              ((stamp_winner_nodes_only result'.tree index').right alike)
            have closed := (stamp_winner_nodes_only result'.tree outer).right (remove_cut_alike stamped)
            have ended : (Comp.guarded (do
                Comp.modify (stampWinner result'.tree index')
                pure result' : Parser CharT ParseResult) Context.removeCut far) =
              ⟨.returned result', (stampWinner result'.tree index' far).removeCut, []⟩ := rfl
            rw [Comp.bind_returned ended, afterBranch, if_pos (same ▸ success)]
            exact ⟨same, nested.closed closed⟩
          · rw [afterBranch, if_neg success, afterBranch, if_neg (same ▸ success)]
            exact mirrors_guarded_tail (raise_uncommitted (Or.inl Nat.one_pos))
              fun _ _ _ => induction inners _ _

/-- An inner choice may be spliced into the outer one. -/
theorem alternation_spliced {before inner after : List (Parser CharT ParseResult)}
    (befores : List.Forall₂ InStep before before) (inners : List.Forall₂ InStep inner inner)
    (afters : List.Forall₂ InStep after after) :
    InStep (AlternationExpr.parse (before ++ (inner ++ after)))
      (AlternationExpr.parse (before ++ AlternationExpr.parse inner :: after)) := by
  intro nearBase farBase depth _
  have opens : Mirrors (SameButNodes nearBase farBase depth) (Open nearBase farBase depth)
      (fun _ _ => True) (Comp.modify Context.initCut : Parser CharT Unit)
      (Comp.modify Context.initCut) :=
    mirrors_modify fun _ _ alike => ⟨init_cut_alike alike, rfl⟩
  have middle : ∀ index index', Mirrors (Open nearBase farBase depth) (Closing nearBase farBase depth)
      SameSuccess (AlternationExpr.parseAlt index (inner ++ after))
      (AlternationExpr.parseAlt index' (AlternationExpr.parse inner :: after)) := by
    rintro index index' near far ⟨alike, uncommitted⟩
    obtain ⟨own, own', size, agree, nearly, farly⟩ := alike.scopes
    cases agree with
    | nil => cases size
    | @cons scope extra rest rest' same agree =>
        have free : extra.cut = false := by
          unfold Context.cut at uncommitted
          rw [farly] at uncommitted
          exact uncommitted
        have nested : Nested nearBase farBase depth extra (rest ++ nearBase) (rest' ++ farBase) :=
          ⟨free, rest, rest', Nat.succ.inj size, agree, rfl, rfl⟩
        have inside : Inside (rest ++ nearBase) (rest' ++ farBase) extra near far.initCut := by
          refine ⟨⟨?_, alike.skipper, alike.rows, [scope], [⟨far.position, false⟩], rfl,
            .cons ⟨same.cut.trans free, fun committed => ?_⟩ .nil, nearly, congrArg _ farly⟩, rfl⟩
          · exact alike.same
          · rw [same.cut, free] at committed
            cases committed
        exact inner_choice_step inners afters nested index 0 index' near far.initCut inside
  refine mirrors_bind opens fun _ _ _ => ?_
  exact mirrors_guarded (branches_step befores middle 0 0) fun _ _ closing => closing

end Choices

end Peglib.Flattening
