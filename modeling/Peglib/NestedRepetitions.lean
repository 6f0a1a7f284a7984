import Peglib.ExactRepetition
import Peglib.Flattening
import Peglib.RepetitionTrees

/-!
# Repetitions of repetitions

The first iteration of a repetition of a repetition is the inner one. An
optional optional ends there. A loop without a bound goes on if the inner one
has moved, and ends where the inner one did unless the inner one, run again,
matches more or does not come back.
-/

namespace Peglib.NestedRepetitions

open Peglib.TracedComputation Peglib.WeakestPrecondition Peglib.Coupling Peglib.Halting
open Peglib.ParseError Peglib.ParseContext Peglib.Expressions Peglib.Rules
open Peglib.PegSemantics Peglib.Evaluation Peglib.SuccessfulAnswers Peglib.Termination
open Peglib.Repetitions Peglib.ExactRepetition Peglib.RepetitionTrees Peglib.Lockstep Peglib.NodeBlindness Peglib.Flattening

set_option autoImplicit false

variable {CharT : Type} {skip : Parser CharT Unit} {inner : Parser CharT ParseResult}
  {minRep fuel : Nat} {maxRep : Int}

section Outer

def loopStart (context : Context CharT) : Context CharT := (entered context).setCut false

abbrev outerNode (context : Context CharT) : NodePtr := context.initCut.makeNode.1

def outerEnd (skip : Parser CharT Unit) (inner : Parser CharT ParseResult) (minRep : Nat)
    (maxRep : Int) (fuel : Nat) (context : Context CharT) (result : ParseResult) :
    Parser CharT ParseResult := do
  let ended ← afterIteration skip inner maxRep (outerNode context) fuel 0 context.position
    context.position result
  repeatEnd minRep maxRep context.position (outerNode context) ended

theorem guarded_after {Value Other : Type} {first : Parser CharT Value}
    {next : Value → Parser CharT Other} {cleanup : Context CharT → Context CharT}
    {context middle : Context CharT} {value : Value} {log : List (Moment CharT)}
    (run : first context = ⟨.returned value, middle, log⟩) :
    Comp.guarded (first >>= next) cleanup context =
      ⟨(Comp.guarded (next value) cleanup middle).outcome,
        (Comp.guarded (next value) cleanup middle).state,
        log ++ (Comp.guarded (next value) cleanup middle).trace⟩ := by
  unfold Comp.guarded
  rw [Comp.bind_returned run]
  rcases next value middle with ⟨_ | _ | _, last, log'⟩ <;> rfl

theorem outer_run (context : Context CharT) :
    repeatParseImpl (fuel + 1) skip inner minRep maxRep context =
      Comp.guarded (inner >>= outerEnd skip inner minRep maxRep fuel context) Context.removeCut
        (loopStart context) := by
  have opened : ∀ body : Parser CharT ParseResult,
      (Comp.modify Context.initCut >>= fun _ => body) context = body context.initCut := fun _ => rfl
  have step : ∀ (update : Context CharT → Context CharT) (before : Context CharT),
      (Comp.modify update before : Run (Moment CharT) _ Exn _) = ⟨.returned (), update before, []⟩ :=
    fun _ _ => rfl
  have read : ∀ before : Context CharT,
      (Comp.read Context.position before : Run (Moment CharT) _ Exn _) =
        ⟨.returned before.position, before, []⟩ := fun _ => rfl
  have made : (Comp.modifyGet Context.makeNode context.initCut : Run (Moment CharT) _ Exn _) =
      ⟨.returned context.initCut.makeNode.1, context.initCut.makeNode.2, []⟩ := rfl
  have idle : (Comp.onlyIf (0 < 0) skip : Parser CharT Unit) = pure () := if_neg (Nat.lt_irrefl 0)
  rw [repeatParseImpl, opened, guarded_after (read _), guarded_after made, guarded_after (step _ _),
    repeatLoop, idle, pure_bind, bind_assoc, guarded_after (read _), bind_assoc,
    guarded_after (step _ _), bind_assoc]
  rfl

theorem repeat_end_position (initState : Nat) (node : NodePtr) (ended : LoopExit)
    (here : Context CharT) :
    wp anything (repeatEnd minRep maxRep initState node ended : Parser CharT ParseResult)
      (fun result last => (result.success = false ∧ ended.loopCount < minRep ∧
          last.position = initState) ∨
        (result.success = true ∧ ¬ended.loopCount < minRep ∧ last.position =
          if ended.exitedViaFailure = true then ended.lastSuccessState else here.position)) here := by
  have raised : ∀ context : Context CharT, wp anything (raiseIfCommitted : Parser CharT Unit)
      (fun _ last => last.position = context.position) context := by
    intro context
    rw [raiseIfCommitted, announce, wp_bind, wp_announce]
    refine fun _ => ⟨trivial, ?_⟩
    rw [wp_bind, wp_read, wp_onlyIf]
    exact ⟨fun _ => trivial, fun _ => rfl⟩
  unfold repeatEnd repeatFinish
  simp only [wp_ite, wp_bind, wp_onlyIf, wp_modify, wp_pure]
  refine ⟨fun few => Or.inl ⟨trivial, few, rfl⟩, fun enough => ⟨fun failed => ⟨fun _ => ?_, fun _ => ?_⟩,
    fun matched => ⟨fun both => absurd both.2 matched, fun _ => ?_⟩⟩⟩
  · refine wp_post (raised _) fun _ last position => Or.inr ⟨trivial, enough, ?_⟩
    rw [if_pos failed]
    exact position
  · refine Or.inr ⟨trivial, enough, ?_⟩
    rw [if_pos failed]
    rfl
  · refine Or.inr ⟨trivial, enough, ?_⟩
    rw [if_neg matched]
    rfl

theorem outer_end_fails (skip : Parser CharT Unit) (inner : Parser CharT ParseResult) (minRep : Nat)
    (maxRep : Int) (fuel : Nat) (context here : Context CharT) {result : ParseResult}
    (failed : result.success = false) :
    SameEnd (outerEnd skip inner minRep maxRep fuel context result here)
      (repeatEnd minRep maxRep context.position (outerNode context) ⟨0, true, context.position⟩
        here) := by
  rw [outerEnd, afterIteration, if_neg (by rw [failed]; exact Bool.false_ne_true), pure_bind]
  exact ⟨rfl, rfl⟩

theorem outer_end_matched (skip : Parser CharT Unit) (inner : Parser CharT ParseResult)
    (minRep : Nat) (maxRep : Int) (fuel : Nat) (context here : Context CharT) {result : ParseResult}
    (success : result.success = true) :
    SameEnd (outerEnd skip inner minRep maxRep fuel context result here)
      (((if boundReached maxRep (0 + 1) || decide (here.position = context.position) then
            pure ⟨0 + 1, false, here.position⟩
          else repeatLoop skip inner maxRep (outerNode context) fuel (0 + 1) here.position) >>=
          repeatEnd minRep maxRep context.position (outerNode context) : Parser CharT ParseResult)
        (pushChild (outerNode context) result.tree here)) := by
  have read : (Comp.read Context.position here : Run (Moment CharT) _ Exn _) =
      ⟨.returned here.position, here, []⟩ := rfl
  have pushed : (Comp.modify (pushChild (outerNode context) result.tree) here :
      Run (Moment CharT) _ Exn _) =
        ⟨.returned (), pushChild (outerNode context) result.tree here, []⟩ := rfl
  rw [outerEnd, afterIteration, if_pos success, bind_assoc]
  refine (bind_end read).trans ?_
  rw [bind_assoc]
  exact bind_end pushed

theorem outer_end_stops (skip : Parser CharT Unit) (inner : Parser CharT ParseResult) (minRep : Nat)
    (maxRep : Int) (fuel : Nat) (context here : Context CharT) {result : ParseResult}
    (success : result.success = true)
    (stop : (boundReached maxRep (0 + 1) || decide (here.position = context.position)) = true) :
    SameEnd (outerEnd skip inner minRep maxRep fuel context result here)
      (repeatEnd minRep maxRep context.position (outerNode context) ⟨1, false, here.position⟩
        (pushChild (outerNode context) result.tree here)) := by
  refine (outer_end_matched skip inner minRep maxRep fuel context here success).trans ?_
  rw [if_pos stop, pure_bind]
  exact ⟨rfl, rfl⟩

theorem end_alike_of_end {Value Value' : Type} {related : Context CharT → Context CharT → Prop}
    {agree : Value → Value' → Prop} {left : Run (Moment CharT) (Context CharT) Exn Value}
    {right right' : Run (Moment CharT) (Context CharT) Exn Value'} (same : SameEnd right right')
    (alike : EndAlike related agree left right') : EndAlike related agree left right := by
  unfold EndAlike at alike ⊢
  rw [same.1, same.2]
  exact alike

def outerScope (context : Context CharT) : CutRecord := ⟨context.position, false⟩

/-- The inner repetition runs in the same way on its own and inside the outer one. -/
theorem loop_start_alike {nearBase farBase : List CutRecord} {depth : Nat} {near far : Context CharT}
    (alike : SameButNodes nearBase farBase depth near far) :
    SameButNodes near.cutStack (outerScope far :: far.cutStack) 0 near (loopStart far) where
  same := alike.same
  skipper := alike.skipper
  rows := alike.rows
  scopes := ⟨[], [], rfl, .nil, rfl, rfl⟩

theorem outer_nested {nearBase farBase : List CutRecord} {depth : Nat} {near far : Context CharT}
    (alike : SameButNodes nearBase farBase depth near far) :
    Nested nearBase farBase depth (outerScope far) near.cutStack far.cutStack :=
  ⟨rfl, alike.scopes⟩

/-- The outer repetition against the inner one, by what follows its first iteration. -/
theorem outer_alike {near far : Context CharT} {nearBase farBase : List CutRecord} {depth : Nat}
    {related : Context CharT → Context CharT → Prop}
    (first : EndAlike (SameButNodes nearBase farBase depth) SameSuccess (inner near)
      (inner (loopStart far)))
    (rest : ∀ result result' near' far' log log', inner near = ⟨.returned result, near', log⟩ →
      inner (loopStart far) = ⟨.returned result', far', log'⟩ → SameSuccess result result' →
      SameButNodes nearBase farBase depth near' far' →
      EndAlike related SameSuccess (⟨.returned result, near', log⟩ : Run (Moment CharT) _ Exn _)
        (Comp.guarded (outerEnd skip inner minRep maxRep fuel far result') Context.removeCut far')) :
    EndAlike related SameSuccess (inner near)
      (repeatParseImpl (fuel + 1) skip inner minRep maxRep far) := by
  rw [outer_run]
  rcases run : inner near with ⟨outcome, near', log⟩
  rcases run' : inner (loopStart far) with ⟨outcome', far', log'⟩
  rw [run, run'] at first
  cases outcome with
  | returned result =>
      cases outcome' with
      | returned result' =>
          rw [guarded_after run']
          exact rest result result' near' far' log log' run run' first.1 first.2
      | thrown _ | exhausted => exact first.elim
  | thrown exn =>
      cases outcome' with
      | thrown exn' =>
          unfold Comp.guarded
          rw [Comp.bind_thrown run']
          trivial
      | returned _ | exhausted => exact first.elim
  | exhausted =>
      cases outcome' with
      | exhausted =>
          unfold Comp.guarded
          rw [Comp.bind_exhausted run']
          trivial
      | returned _ | thrown _ => exact first.elim

theorem repetition_fails_still (child : Parser CharT ParseResult) (context : Context CharT) :
    wp anything (repeatParseImpl fuel skip child minRep maxRep) (fun result last =>
      result.success = false → 0 < minRep ∧ last.position = context.position) context := by
  rw [repeatParseImpl, wp_bind, wp_modify, wp_guarded, wp_bind, wp_read, wp_bind, wp_modifyGet,
    wp_bind, wp_modify, wp_bind]
  refine wp_post (wp_anything _) fun ended here _ => ?_
  refine wp_post (repeat_end_position context.position context.initCut.makeNode.1 ended here) ?_
  rintro result last (⟨-, few, position⟩ | ⟨success, -⟩) failed
  · exact ⟨by omega, (remove_cut_position last).trans position⟩
  · rw [success] at failed
    cases failed

end Outer

section Optionals

variable {child : Parser CharT ParseResult}

theorem optional_end (skip : Parser CharT Unit) (inner : Parser CharT ParseResult) (fuel : Nat)
    (context here : Context CharT) {result : ParseResult} (success : result.success = true) :
    SameEnd (outerEnd skip inner 0 1 fuel context result here)
      ⟨.returned ⟨true, some (outerNode context)⟩,
        markEnd (outerNode context) (pushChild (outerNode context) result.tree here), []⟩ := by
  have full : boundReached 1 (0 + 1) = true := rfl
  refine (outer_end_stops skip inner 0 1 fuel context here success ?_).trans ?_
  · rw [full, Bool.true_or]
  rw [repeatEnd, if_neg (Nat.not_lt_zero _)]
  exact finish_stopped _ _ _ _ _

theorem optional_in_step (idle : Idle skip) (children : InStep child child) (fuel : Nat) :
    InStep (repeatParseImpl fuel skip child 0 1)
      (repeatParseImpl fuel skip (repeatParseImpl fuel skip child 0 1) 0 1) := by
  cases fuel with
  | zero => exact fun _ _ _ _ _ _ _ => trivial
  | succ fuel =>
      intro nearBase farBase depth _ near far alike
      have first := @repeat_step _ _ _ _ _ _ idle idle (fuel + 1) _ _ children 0 1 near (loopStart far)
        (loop_start_alike alike)
      refine outer_alike first fun result result' near' far' log log' run run' same alike' => ?_
      have success : result'.success = true := by
        by_contra failed
        have still := wp_run (repetition_fails_still child near) run fun _ _ => trivial
        exact absurd (still (same.trans (Bool.not_eq_true _ ▸ failed))).1 (Nat.lt_irrefl 0)
      have ended := @guarded_end _ _ _ Context.removeCut _ _
        (optional_end skip (repeatParseImpl (fuel + 1) skip child 0 1) fuel far far' success) nofun
      refine end_alike_of_end ended ⟨same.trans success, (outer_nested alike).closed ?_⟩
      exact (mark_end_nodes_only _).right ((push_child_nodes_only _ _).right alike')

end Optionals

section Loops

variable {child : Parser CharT ParseResult}

/-- Two runs that come to the same flag and the same position, or to no result in the
same way. -/
def SameResult (left right : Run (Moment CharT) (Context CharT) Exn ParseResult) : Prop :=
  EndAlike (fun near far => near.position = far.position) SameSuccess left right

theorem end_of_bind {Value Other : Type} {first : Parser CharT Value}
    {next : Value → Parser CharT Other} {context middle : Context CharT} {value : Value}
    (same : SameEnd (first context) ⟨.returned value, middle, []⟩) :
    SameEnd ((first >>= next) context) (next value middle) := by
  rcases run : first context with ⟨outcome, state, log⟩
  rw [run] at same
  obtain ⟨rfl, rfl⟩ : outcome = .returned value ∧ state = middle := same
  exact bind_end run

theorem single_iteration_still (unbounded : maxRep < 0) (context : Context CharT) :
    wp anything (repeatParseImpl 1 skip child minRep maxRep)
      (fun _ last => last.position = context.position) context := by
  have closes : ∀ ended here, (ended.exitedViaFailure = true → ended.lastSuccessState = context.position) →
      (ended.exitedViaFailure = false → here.position = context.position) →
      wp anything (repeatEnd minRep maxRep context.position (outerNode context) ended :
        Parser CharT ParseResult) (fun _ last => last.removeCut.position = context.position) here := by
    intro ended here failed matched
    refine wp_post (repeat_end_position context.position (outerNode context) ended here) ?_
    rintro result last (⟨-, -, position⟩ | ⟨-, -, position⟩)
    · exact (remove_cut_position last).trans position
    · rw [remove_cut_position, position]
      split_ifs with viaFailure
      · exact failed viaFailure
      · exact matched (Bool.not_eq_true _ ▸ viaFailure)
  unfold wp
  rw [outer_run]
  change wp anything (Comp.guarded (child >>= outerEnd skip child minRep maxRep 0 context)
    Context.removeCut) _ (loopStart context)
  rw [wp_guarded, wp_bind]
  refine wp_post (wp_anything child) fun result here _ => ?_
  unfold outerEnd afterIteration
  simp only [wp_bind, wp_ite, wp_read, wp_modify, wp_pure]
  refine ⟨fun _ => ⟨fun stop => ?_, fun _ => trivial⟩, fun _ => ?_⟩
  · rw [not_bound_reached (Int.le_of_lt unbounded), Bool.false_or, decide_eq_true_iff] at stop
    exact closes _ _ (by simp) fun _ => (push_child_position _ _ _).trans stop
  · exact closes _ _ (fun _ => rfl) (by simp)

theorem second_iteration {near far : Context CharT} {nearBase farBase : List CutRecord} {depth : Nat}
    (alike : SameButNodes nearBase farBase depth near far)
    (again : ∀ nearBase farBase depth, Step nearBase farBase depth SameSuccess inner inner)
    (node : NodePtr) (tree : Option NodePtr) :
    EndAlike (SameButNodes near.cutStack ((pushChild node tree far).setCut false).cutStack 0)
      SameSuccess (inner near) (inner ((pushChild node tree far).setCut false)) := by
  have pushed := (push_child_nodes_only node tree).right alike
  refine again _ _ _ _ _ ?_
  have cleared : (pushChild node tree far).setCut false =
      { pushChild node tree far with
        cutStack := ((pushChild node tree far).setCut false).cutStack } := by
    unfold Context.setCut
    split <;> rfl
  rw [cleared]
  exact ⟨pushed.same, pushed.skipper, pushed.rows, [], [], rfl, .nil, rfl, rfl⟩

theorem set_cut_uncommitted (context : Context CharT) : (context.setCut false).cut = false := by
  unfold Context.cut Context.setCut
  cases stack : context.cutStack with
  | nil => simp [stack]
  | cons scope outer => rfl

theorem rerun_uncommitted {near far here : Context CharT} {nearBase : List CutRecord}
    (alike : SameButNodes nearBase (here.setCut false).cutStack 0 near far) : far.cut = false := by
  obtain ⟨own, own', size, agree, -, farly⟩ := alike.scopes
  obtain rfl := List.eq_nil_of_length_eq_zero size
  cases agree
  rw [← set_cut_uncommitted here]
  unfold Context.cut
  rw [farly, List.nil_append]

theorem not_stopped (unbounded : maxRep < 0) (count : Nat) {here start : Nat} (moved : ¬here = start) :
    (boundReached maxRep count || decide (here = start)) = false := by
  rw [not_bound_reached (Int.le_of_lt unbounded), Bool.false_or]
  exact decide_eq_false moved

theorem repeat_end_few {initState : Nat} {node : NodePtr} {ended : LoopExit} {here : Context CharT}
    (few : ended.loopCount < minRep) :
    SameEnd (repeatEnd minRep maxRep initState node ended here : Run (Moment CharT) _ Exn ParseResult)
      ⟨.returned ⟨false, none⟩, here.reset initState, []⟩ := by
  rw [repeatEnd, if_pos few]
  exact ⟨rfl, rfl⟩

theorem outer_end_still (skip : Parser CharT Unit) (inner : Parser CharT ParseResult) (few : minRep ≤ 1)
    (context here : Context CharT) {result : ParseResult} (success : result.success = true)
    (still : here.position = context.position) :
    SameEnd (outerEnd skip inner minRep maxRep fuel context result here)
      ⟨.returned ⟨true, some (outerNode context)⟩,
        markEnd (outerNode context) (pushChild (outerNode context) result.tree here), []⟩ := by
  refine (outer_end_stops skip inner minRep maxRep fuel context here success ?_).trans ?_
  · rw [decide_eq_true still, Bool.or_true]
  · rw [repeatEnd, if_neg (Nat.not_lt.mpr few)]
    exact finish_stopped _ _ _ _ _

theorem restarted_closed {scopes : List CutRecord} {scope : CutRecord} {node : NodePtr}
    {tree : Option NodePtr} {near far near' far' : Context CharT}
    (first : SameButNodes scopes (scope :: scopes) 0 near far)
    (second : SameButNodes near.cutStack ((pushChild node tree far).setCut false).cutStack 0 near' far') :
    SameButNodes scopes scopes 0 near' far'.removeCut := by
  obtain ⟨own, own', size, agree, nearly, farly⟩ := first.scopes
  obtain rfl := List.eq_nil_of_length_eq_zero size
  cases agree
  have pushed : (pushChild node tree far).cutStack = scope :: scopes := by
    rw [← List.nil_append (scope :: scopes), ← farly]
    cases tree <;> rfl
  have stack : ((pushChild node tree far).setCut false).cutStack =
      ⟨(pushChild node tree far).position, false⟩ :: scopes := by
    unfold Context.setCut
    rw [pushed]
  rw [stack, nearly, List.nil_append] at second
  have nested : Nested scopes scopes 0 ⟨(pushChild node tree far).position, false⟩ scopes scopes :=
    ⟨rfl, [], [], rfl, .nil, rfl, rfl⟩
  exact nested.closed second

theorem nodes_replaced {nearBase farBase : List CutRecord} {depth : Nat} {near far : Context CharT}
    (arena : List ParseTreeNode) (strayed : Bool) (alike : SameButNodes nearBase farBase depth near far) :
    SameButNodes nearBase farBase depth near (outfit arena far.mem far.cutStack strayed far) :=
  ⟨alike.same, alike.skipper, alike.rows, alike.scopes⟩

/-- The outer loop ends if its second iteration comes to rest, and leaves what that
leaves. -/
theorem outer_end_rests (idle : Idle skip) (unbounded : maxRep < 0) (few : minRep ≤ 1)
    (context : Context CharT) {here after : Context CharT} (off : here.skipper = none)
    {result result' : ParseResult} {log : List (Moment CharT)} (success : result.success = true)
    (moved : ¬here.position = context.position)
    (second : inner ((pushChild (outerNode context) result.tree here).setCut false) =
      ⟨.returned result', after, log⟩)
    (rests : after.position = here.position) (uncommitted : after.cut = false) :
    ∃ arena strayed, SameEnd (outerEnd skip inner minRep maxRep (fuel + 1) context result here)
      ⟨.returned ⟨true, some (outerNode context)⟩,
        outfit arena after.mem after.cutStack strayed after, []⟩ := by
  have pushed := push_child_position (outerNode context) result.tree here
  have kept : (pushChild (outerNode context) result.tree here).skipper = none := by
    rw [← off]
    cases result.tree <;> rfl
  have iteration : Iteration skip inner 1 (pushChild (outerNode context) result.tree here)
      (pushChild (outerNode context) result.tree here) after result' :=
    ⟨⟨[], idle.only_if _ _ kept⟩, log, second⟩
  have matched := outer_end_matched skip inner minRep maxRep (fuel + 1) context here success
  rw [if_neg (by rw [not_stopped unbounded _ moved]; exact Bool.false_ne_true)] at matched
  cases failed : result'.success with
  | false =>
      have ended := matched.trans (end_of_bind (loop_fails iteration failed))
      rw [repeatEnd, if_neg (Nat.not_lt.mpr few)] at ended
      have last := ended.trans (finish_uncommitted _ _ _ _ uncommitted)
      rw [rewound, ← rests] at last
      exact ⟨_, _, last⟩
  | true =>
      have stop : (boundReached maxRep (1 + 1) || decide (after.position =
          (pushChild (outerNode context) result.tree here).position)) = true := by
        rw [pushed, decide_eq_true rests, Bool.or_true]
      have ended := matched.trans (end_of_bind (loop_stops iteration failed stop))
      rw [repeatEnd, if_neg (Nat.not_lt.mpr (Nat.le_succ_of_le few))] at ended
      obtain ⟨arena, written⟩ := push_child_nodes_only (outerNode context) result'.tree after
      have last := ended.trans (finish_stopped _ _ _ _ _)
      rw [written] at last
      exact ⟨_, _, last⟩

/-- A loop of repetitions that come to rest ends as the first one did, as far as
the relation tells: it does not see nodes, nor what a repetition at rest leaves. -/
theorem resting_alike (idle : Idle skip) (children : InStep child child) (unbounded : maxRep < 0)
    (few : minRep ≤ 1) {context : Context CharT} (off : context.skipper = none)
    {related : Context CharT → Context CharT → Prop}
    (nodes : ∀ near far, SameButNodes context.cutStack context.cutStack 0 near far → related near far)
    (rests : ∀ result after log,
      repeatParseImpl fuel skip child minRep maxRep context = ⟨.returned result, after, log⟩ →
      after.position ≠ context.position →
      ∃ result' after' log',
        repeatParseImpl fuel skip child minRep maxRep after = ⟨.returned result', after', log'⟩ ∧
        after'.position = after.position ∧
        ∀ last, SameButNodes context.cutStack context.cutStack 0 after' last → related after last) :
    EndAlike related SameSuccess (repeatParseImpl fuel skip child minRep maxRep context)
      (repeatParseImpl fuel skip (repeatParseImpl fuel skip child minRep maxRep) minRep maxRep
        context) := by
  cases fuel with
  | zero => trivial
  | succ fuel =>
      have again : ∀ nearBase farBase depth, Step nearBase farBase depth SameSuccess
          (repeatParseImpl (fuel + 1) skip child minRep maxRep)
          (repeatParseImpl (fuel + 1) skip child minRep maxRep) :=
        fun _ _ _ => repeat_step idle idle (fuel + 1) children minRep maxRep
      have alike : SameButNodes context.cutStack context.cutStack 0 context context :=
        @same_refl _ context.cutStack context [] off rfl
      have nested := outer_nested alike
      have first := again _ _ _ context (loopStart context) (loop_start_alike alike)
      refine outer_alike first fun result result' near' far' log log' run run' same alike' => ?_
      have closes : ∀ {last flag}, SameEnd (outerEnd skip
            (repeatParseImpl (fuel + 1) skip child minRep maxRep) minRep maxRep fuel context result' far')
            ⟨.returned flag, last, []⟩ → SameSuccess result flag → related near' last.removeCut →
          EndAlike related SameSuccess (⟨.returned result, near', log⟩ : Run (Moment CharT) _ Exn _)
            (Comp.guarded (outerEnd skip (repeatParseImpl (fuel + 1) skip child minRep maxRep) minRep
              maxRep fuel context result') Context.removeCut far') :=
        fun ended flags states => end_alike_of_end
          (@guarded_end _ _ _ Context.removeCut _ _ ended nofun) ⟨flags, states⟩
      have still := wp_run (repetition_fails_still child context) run fun _ _ => trivial
      have position := alike'.position
      cases success : result'.success with
      | false =>
          obtain ⟨positive, stayed⟩ := still (same.trans success)
          have back : ∃ strayed, far'.reset context.position =
              outfit far'.nodeArena far'.mem far'.cutStack strayed far' := by
            rw [← stayed, position]
            exact ⟨_, rfl⟩
          obtain ⟨strayed, back⟩ := back
          have ended := (outer_end_fails skip (repeatParseImpl (fuel + 1) skip child minRep maxRep)
            minRep maxRep fuel context far' success).trans (repeat_end_few positive)
          rw [back] at ended
          exact closes ended (same.trans success)
            (nodes _ _ (nested.closed (nodes_replaced _ strayed alike')))
      | true =>
          by_cases moved : far'.position = context.position
          · refine closes (outer_end_still _ _ few context far' success moved) (same.trans success) ?_
            exact nodes _ _ (nested.closed
              ((mark_end_nodes_only _).right ((push_child_nodes_only _ _).right alike')))
          · obtain ⟨again', near'', log'', rerun, stayed, leaves⟩ :=
              rests result near' log run (by rw [position]; exact moved)
            have second := second_iteration alike' again (outerNode context) result'.tree
            rw [rerun] at second
            rcases run'' : repeatParseImpl (fuel + 1) skip child minRep maxRep
              ((pushChild (outerNode context) result'.tree far').setCut false) with
              ⟨outcome, far'', last⟩
            rw [run''] at second
            cases outcome with
            | thrown _ | exhausted => exact second.elim
            | returned result'' =>
                cases fuel with
                | zero =>
                    have spent := wp_run (single_iteration_still unbounded context) run
                      fun _ _ => trivial
                    exact absurd (position.symm.trans spent) moved
                | succ fuel =>
                    have rests' := second.2.position.symm.trans (stayed.trans position)
                    obtain ⟨arena, strayed, ended⟩ := outer_end_rests idle unbounded few context
                      alike'.skipper success moved run'' rests' (rerun_uncommitted second.2)
                    refine closes ended (same.trans success) (leaves _ ?_)
                    exact restarted_closed alike' (nodes_replaced arena strayed second.2)

/-- The inner repetition, run again where it stopped, stays there. -/
def Rests (parser : Parser CharT ParseResult) (context : Context CharT) : Prop :=
  ∀ result after log, parser context = ⟨.returned result, after, log⟩ →
    after.position ≠ context.position →
      ∃ result' after' log', parser after = ⟨.returned result', after', log'⟩ ∧
        after'.position = after.position

theorem resting_same (idle : Idle skip) (children : InStep child child) (unbounded : maxRep < 0)
    (few : minRep ≤ 1) {context : Context CharT} (off : context.skipper = none)
    (rests : Rests (repeatParseImpl fuel skip child minRep maxRep) context) :
    SameResult (repeatParseImpl fuel skip child minRep maxRep context)
      (repeatParseImpl fuel skip (repeatParseImpl fuel skip child minRep maxRep) minRep maxRep
        context) := by
  refine resting_alike idle children unbounded few off (fun _ _ alike => alike.position) ?_
  intro result after log run moved
  obtain ⟨result', after', log', rerun, stayed⟩ := rests result after log run moved
  exact ⟨result', after', log', rerun, stayed, fun last alike => stayed.symm.trans alike.position⟩

/-- The inner repetition, run again where it stopped, stays there and leaves
everything but nodes as it is. -/
def Settles (parser : Parser CharT ParseResult) (context : Context CharT) : Prop :=
  ∀ result after log, parser context = ⟨.returned result, after, log⟩ →
    after.position ≠ context.position →
      ∃ result' after' log', parser after = ⟨.returned result', after', log'⟩ ∧
        SameButNodes context.cutStack context.cutStack 0 after after'

theorem settling_alike (idle : Idle skip) (children : InStep child child) (unbounded : maxRep < 0)
    (few : minRep ≤ 1) {context : Context CharT} (off : context.skipper = none)
    (settles : Settles (repeatParseImpl fuel skip child minRep maxRep) context) :
    EndAlike (SameButNodes context.cutStack context.cutStack 0) SameSuccess
      (repeatParseImpl fuel skip child minRep maxRep context)
      (repeatParseImpl fuel skip (repeatParseImpl fuel skip child minRep maxRep) minRep maxRep
        context) := by
  refine resting_alike idle children unbounded few off (fun _ _ => id) ?_
  intro result after log run moved
  obtain ⟨result', after', log', rerun, unchanged⟩ := settles result after log run moved
  exact ⟨result', after', log', rerun, unchanged.position.symm, fun last => unchanged.trans⟩

end Loops

section Necessity

variable {NodeType : Type} [PegValue CharT] {grammar : Grammar CharT NodeType} {input : List CharT}
  {pending : List (RuleId × Nat)} {expr : Expr CharT} {kind : RepKind}

theorem eval_advanced (inRange : InRange grammar) (range : expr.Every MatcherInRange)
    {context after : Context CharT} (ready : Ready input none pending context) {result : ParseResult}
    {log : List (Moment CharT)}
    (run : grammar.eval fuel expr context = ⟨.returned result, after, log⟩) :
    Ready input none pending after ∧ context.position ≤ after.position :=
  have advanced := wp_run (eval_advances inRange fuel range context ready) run fun _ _ => trivial
  ⟨advanced.1, advanced.2.1⟩

omit [PegValue CharT] in
theorem ready_pushed {here : Context CharT} (ready : Ready input none pending here) (node : NodePtr)
    (tree : Option NodePtr) : Ready input none pending (pushChild node tree here) := by
  cases tree with
  | none => exact ready
  | some child => exact ready.moved rfl rfl rfl rfl ready.inside

omit [PegValue CharT] in
theorem ready_cleared {here : Context CharT} (ready : Ready input none pending here) :
    Ready input none pending (here.setCut false) := by
  unfold Context.setCut
  split
  · exact ready
  · exact ready.moved rfl rfl rfl rfl ready.inside

theorem loop_onward (inRange : InRange grammar) (range : expr.Every MatcherInRange)
    {context here last : Context CharT} (ready : Ready input none pending here) {node : NodePtr}
    {left count : Nat} {ended : LoopExit} {result : ParseResult} {final : Context CharT}
    {log log' : List (Moment CharT)}
    (run : repeatLoop (runSkipper (grammar.apply fuel)) (grammar.eval fuel expr) kind.maxRep node left
      count here.position here = ⟨.returned ended, last, log⟩)
    (finish : (repeatEnd kind.minRep kind.maxRep context.position node ended last :
      Run (Moment CharT) _ Exn ParseResult) = ⟨.returned result, final, log'⟩)
    (success : result.success = true) : here.position ≤ final.position := by
  have skips : Skips (bounding input none) (Sound input none (InBounds input))
      (runSkipper (grammar.apply fuel)) fun mode pos outcome =>
        Peg input (spanned input) (Held input (InBounds input)) () mode .skip pos outcome :=
    skipper_skips sound_invariant
      (fun rule (_ : True) => apply_sound (bounded_reading inRange) _ rule) fun _ _ _ _ => trivial
  have evaluates := expr_evaluates (@sound_invariant _ input none (InBounds input))
    (fun rule _ => apply_sound (bounded_reading inRange) fuel rule)
    (fun _ _ _ _ => trivial) fuel (admits_sound (in_range_admits range))
  have evaluated := repeat_loop_evaluates sound_invariant skips kind expr evaluates node left count
    here ready.sound
  obtain ⟨-, -, stopped, peg⟩ := wp_run evaluated run fun _ _ => trivial
  have closed := wp_run (repeat_end_position context.position node ended last) finish
    fun _ _ => trivial
  rcases closed with ⟨failed, -⟩ | ⟨-, enough, position⟩
  · rw [success] at failed
    cases failed
  · rw [repeated, if_neg enough] at peg
    have onward := (spanned_within peg ready.inside).1
    rw [position]
    split_ifs with viaFailure
    · exact onward
    · rw [stopped (Bool.not_eq_true _ ▸ viaFailure)]
      exact onward

theorem eval_repetition (grammar : Grammar CharT NodeType) (fuel : Nat) (kind : RepKind)
    (expr : Expr CharT) :
    grammar.eval fuel (.repetition kind expr) =
      repeatParseImpl fuel (runSkipper (grammar.apply fuel)) (grammar.eval fuel expr) kind.minRep
        kind.maxRep := by
  unfold Grammar.eval
  rw [Expr.parse]

omit [PegValue CharT] in
theorem second_of_loop (idle : Idle skip) {node : NodePtr} {count last : Nat} {here : Context CharT}
    (off : here.skipper = none) {ended : LoopExit}
    (looped : (repeatLoop skip inner maxRep node (fuel + 1) count last here).outcome =
      .returned ended) :
    ∃ result after log, inner (here.setCut false) = ⟨.returned result, after, log⟩ ∧
      Iteration skip inner count here here after result := by
  have skipped := idle.only_if (0 < count) here off
  rw [repeatLoop] at looped
  obtain ⟨_, middle, _, skip', looped⟩ := Comp.returned_of_bind looped
  obtain rfl : here = middle := congrArg Run.state (skipped.symm.trans skip')
  obtain ⟨_, _, _, ⟨⟩, looped⟩ := Comp.returned_of_bind looped
  obtain ⟨_, _, _, ⟨⟩, looped⟩ := Comp.returned_of_bind looped
  obtain ⟨result, after, log, run, -⟩ := Comp.returned_of_bind looped
  exact ⟨result, after, log, run, ⟨_, skipped⟩, _, run⟩

omit [PegValue CharT] in
theorem restart_position (node : NodePtr) (tree : Option NodePtr) (here : Context CharT) :
    ((pushChild node tree here).setCut false).position = here.position := by
  rw [← push_child_position node tree here]
  unfold Context.setCut
  split <;> rfl

/-- A repetition whose second iteration matches more ends past the first one. -/
theorem outer_end_onward (inRange : InRange grammar) (range : expr.Every MatcherInRange)
    (unbounded : kind.maxRep < 0) {left : Nat} {context here after last : Context CharT}
    {result result' final : ParseResult} {log log' : List (Moment CharT)}
    (ready : Ready input none pending here) (success : result.success = true)
    (moved : ¬here.position = context.position)
    (second : grammar.eval fuel expr ((pushChild (outerNode context) result.tree here).setCut false) =
      ⟨.returned result', after, log⟩)
    (success' : result'.success = true) (moved' : ¬after.position = here.position)
    (tail : outerEnd (runSkipper (grammar.apply fuel)) (grammar.eval fuel expr) kind.minRep
      kind.maxRep left context result here = ⟨.returned final, last, log'⟩)
    (finally' : final.success = true) : here.position < last.position := by
  have pushed := push_child_position (outerNode context) result.tree here
  have atPushed := ready_pushed ready (outerNode context) result.tree
  obtain ⟨atAfter, onward⟩ := eval_advanced inRange range (ready_cleared atPushed) second
  have beyond : here.position < after.position := by
    rw [restart_position] at onward
    exact lt_of_le_of_ne onward (Ne.symm moved')
  have same := outer_end_matched (runSkipper (grammar.apply fuel)) (grammar.eval fuel expr)
    kind.minRep kind.maxRep left context here success
  rw [if_neg (by rw [not_stopped unbounded _ moved]; exact Bool.false_ne_true), tail] at same
  cases left with
  | zero => cases same.1
  | succ left =>
      have idle : Idle (runSkipper (grammar.apply fuel)) := fun _ => skip_idle (grammar.apply fuel)
      have iteration : Iteration (runSkipper (grammar.apply fuel)) (grammar.eval fuel expr) 1
          (pushChild (outerNode context) result.tree here)
          (pushChild (outerNode context) result.tree here) after result' :=
        ⟨⟨[], idle.only_if _ _ atPushed.sound.skipper⟩, log, second⟩
      have away : ¬after.position = (pushChild (outerNode context) result.tree here).position := by
        rw [pushed]
        exact moved'
      have more := not_stopped unbounded (1 + 1) away
      obtain ⟨ended, there, log₁, looped, finish⟩ :=
        Comp.returned_of_bind (same.1.symm.trans rfl)
      have continued := @loop_continues _ _ _ kind.maxRep (outerNode context) left 1 here.position
        _ _ _ _ iteration success' more
      rw [looped] at continued
      have onto := push_child_position (outerNode context) result'.tree after
      rcases run : repeatLoop (runSkipper (grammar.apply fuel)) (grammar.eval fuel expr) kind.maxRep
        (outerNode context) left (1 + 1) after.position
        (pushChild (outerNode context) result'.tree after) with ⟨outcome, state, log₂⟩
      rw [run] at continued
      obtain ⟨rfl, rfl⟩ : outcome = .returned ended ∧ state = there :=
        ⟨continued.1.symm, continued.2.symm⟩
      rw [← onto] at run
      rcases finished : (repeatEnd kind.minRep kind.maxRep context.position (outerNode context) ended
        state : Run (Moment CharT) _ Exn ParseResult) with ⟨outcome', state', log₃⟩
      rw [Comp.bind_returned looped, finished] at same
      obtain ⟨rfl, rfl⟩ : outcome' = .returned final ∧ state' = last :=
        ⟨same.1.symm, same.2.symm⟩
      have bound := loop_onward inRange range
        (ready_pushed atAfter (outerNode context) result'.tree) run finished finally'
      rw [onto] at bound
      exact Nat.lt_of_lt_of_le beyond bound

theorem stays_unless_matched (context : Context CharT) :
    wp anything (grammar.eval fuel (.repetition kind expr)) (fun result last =>
      result.success = false → last.position = context.position) context := by
  rw [eval_repetition]
  exact wp_post (repetition_fails_still _ context) fun _ _ still failed => (still failed).2

theorem rerun_stays (inRange : InRange grammar) (range : expr.Every MatcherInRange)
    (unbounded : kind.maxRep < 0) {left : Nat} {context near far last : Context CharT}
    {nearBase farBase : List CutRecord} {depth : Nat}
    (again : ∀ nearBase farBase depth, Step nearBase farBase depth SameSuccess
      (grammar.eval fuel (.repetition kind expr)) (grammar.eval fuel (.repetition kind expr)))
    (alike : SameButNodes nearBase farBase depth near far) (ready : Ready input none pending far)
    {result final : ParseResult} {log : List (Moment CharT)} (success : result.success = true)
    (moved : ¬far.position = context.position)
    (tail : outerEnd (runSkipper (grammar.apply fuel)) (grammar.eval fuel (.repetition kind expr))
      kind.minRep kind.maxRep (left + 1) context result far = ⟨.returned final, last, log⟩)
    (finally' : final.success = true) (stayed : last.position = far.position) :
    ∃ result' after' log', grammar.eval fuel (.repetition kind expr) near =
      ⟨.returned result', after', log'⟩ ∧ after'.position = near.position := by
  have idle : Idle (runSkipper (grammar.apply fuel)) := fun _ => skip_idle _
  have within : (Expr.repetition kind expr).Every MatcherInRange := ⟨trivial, range⟩
  have atPushed := ready_pushed ready (outerNode context) result.tree
  have looped := outer_end_matched (runSkipper (grammar.apply fuel))
    (grammar.eval fuel (.repetition kind expr)) kind.minRep kind.maxRep (left + 1) context far success
  rw [if_neg (by rw [not_stopped unbounded _ moved]; exact Bool.false_ne_true), tail] at looped
  obtain ⟨ended, there, log₁, loop, -⟩ := Comp.returned_of_bind looped.1.symm
  obtain ⟨result', after, log₂, second, -⟩ := second_of_loop idle atPushed.sound.skipper
    (congrArg Run.outcome loop)
  have twin := second_iteration alike again (outerNode context) result.tree
  rw [second] at twin
  rcases rerun : grammar.eval fuel (.repetition kind expr) near with ⟨outcome, after', log'⟩
  rw [rerun] at twin
  cases outcome with
  | thrown _ | exhausted => exact twin.elim
  | returned result'' =>
      refine ⟨result'', after', log', rfl, ?_⟩
      rw [twin.2.position, alike.position]
      by_contra onward
      have success' : result'.success = true := by
        by_contra failed
        have still := wp_run (stays_unless_matched _) second fun _ _ => trivial
        exact onward ((still (Bool.not_eq_true _ ▸ failed)).trans (restart_position _ _ far))
      have beyond := outer_end_onward inRange within unbounded ready success moved second success'
        onward tail finally'
      exact absurd stayed (Nat.ne_of_gt beyond)

theorem rep_again (blind : BlindRules grammar) (nodeBlind : expr.Every NodeBlind) (fuel : Nat)
    (kind : RepKind) (nearBase farBase : List CutRecord) (depth : Nat) :
    Step nearBase farBase depth SameSuccess (grammar.eval fuel (.repetition kind expr))
      (grammar.eval fuel (.repetition kind expr)) := by
  have idle : Idle (runSkipper (grammar.apply fuel)) := fun _ => skip_idle _
  rw [eval_repetition]
  exact repeat_step idle idle fuel (eval_in_step blind fuel nodeBlind) _ _

/-- A loop of repetitions that ends where the first one did comes to rest there. -/
theorem same_rests (inRange : InRange grammar) (range : expr.Every MatcherInRange)
    (blind : BlindRules grammar) (nodeBlind : expr.Every NodeBlind) (unbounded : kind.maxRep < 0)
    {context : Context CharT} (ready : Ready input none pending context)
    (same : SameResult (grammar.eval fuel (.repetition kind expr) context)
      (grammar.eval fuel (.repetition kind (.repetition kind expr)) context)) :
    Rests (grammar.eval fuel (.repetition kind expr)) context := by
  intro result after log run moved
  have off := ready.sound.skipper
  have again := rep_again blind nodeBlind fuel kind
  have alike : SameButNodes [] [] context.cutStack.length context context :=
    same_refl off (List.append_nil _).symm
  have first := again _ _ _ context (loopStart context) (loop_start_alike alike)
  have still := wp_run (stays_unless_matched context) run fun _ _ => trivial
  have success : result.success = true := by
    by_contra failed
    exact moved (still (Bool.not_eq_true _ ▸ failed))
  rcases run' : grammar.eval fuel (.repetition kind expr) (loopStart context) with
    ⟨outcome, far, log'⟩
  rw [run, run'] at first
  rw [run, eval_repetition grammar fuel kind (.repetition kind expr)] at same
  cases outcome with
  | thrown _ | exhausted => exact first.elim
  | returned result' =>
      obtain ⟨flag, alike'⟩ := first
      have position := alike'.position
      have success' : result'.success = true := flag.symm.trans success
      have away : ¬far.position = context.position := position ▸ moved
      have within : (Expr.repetition kind expr).Every MatcherInRange := ⟨trivial, range⟩
      have opened : Ready input none pending (entered context) :=
        ready.moved rfl rfl rfl rfl ready.inside
      have atFar := (eval_advanced inRange within (ready_cleared opened) run').1
      cases fuel with
      | zero =>
          rw [eval_repetition] at run
          cases run
      | succ fuel =>
          rw [outer_run, guarded_after run'] at same
          rcases tail : outerEnd (runSkipper (grammar.apply (fuel + 1)))
            (grammar.eval (fuel + 1) (.repetition kind expr)) kind.minRep kind.maxRep fuel context
            result' far with ⟨outcome, last, log₁⟩
          unfold Comp.guarded at same
          rw [tail] at same
          cases outcome with
          | thrown _ | exhausted => exact same.elim
          | returned final =>
              obtain ⟨flag', rested⟩ := same
              have stayed : last.position = far.position :=
                (remove_cut_position last).symm.trans (rested.symm.trans position)
              cases fuel with
              | zero =>
                  rw [eval_repetition] at run
                  have spent := wp_run (single_iteration_still unbounded context) run
                    fun _ _ => trivial
                  exact absurd spent moved
              | succ fuel =>
                  exact rerun_stays inRange range unbounded again alike' atFar success' away tail
                    (flag'.symm.trans success) stayed

/-- The right run succeeds or fails as the left one does and ends no earlier, if
both come to a result; it comes to none in the way the left one does. -/
def Covers (left right : Run (Moment CharT) (Context CharT) Exn ParseResult) : Prop :=
  match left.outcome, right.outcome with
  | .returned result, .returned result' =>
      SameSuccess result result' ∧ left.state.position ≤ right.state.position
  | .returned _, _ => True
  | .thrown _, .thrown _ => True
  | .exhausted, .exhausted => True
  | _, _ => False

theorem outer_end_covers (inRange : InRange grammar) (range : expr.Every MatcherInRange)
    (unbounded : kind.maxRep < 0) (few : kind.minRep ≤ 1) {left : Nat}
    {context here last : Context CharT} {result final : ParseResult} {log : List (Moment CharT)}
    (ready : Ready input none pending here)
    (failed : result.success = false → 0 < kind.minRep ∧ here.position = context.position)
    (tail : outerEnd (runSkipper (grammar.apply fuel)) (grammar.eval fuel expr) kind.minRep
      kind.maxRep left context result here = ⟨.returned final, last, log⟩) :
    SameSuccess result final ∧ here.position ≤ last.position := by
  cases success : result.success with
  | false =>
      obtain ⟨positive, stayed⟩ := failed success
      have same := (outer_end_fails (runSkipper (grammar.apply fuel)) (grammar.eval fuel expr)
        kind.minRep kind.maxRep left context here success).trans (repeat_end_few positive)
      rw [tail] at same
      obtain ⟨flag, rfl⟩ := same
      cases flag
      exact ⟨success, Nat.le_of_eq stayed⟩
  | true =>
      by_cases moved : here.position = context.position
      · have same : SameEnd _ _ := @outer_end_still _ kind.minRep left kind.maxRep
          (runSkipper (grammar.apply fuel)) (grammar.eval fuel expr) few context here _ success moved
        rw [tail] at same
        obtain ⟨flag, rfl⟩ := same
        cases flag
        exact ⟨success, Nat.le_of_eq (push_child_position _ _ here).symm⟩
      · have pushed := push_child_position (outerNode context) result.tree here
        have same := outer_end_matched (runSkipper (grammar.apply fuel)) (grammar.eval fuel expr)
          kind.minRep kind.maxRep left context here success
        rw [if_neg (by rw [not_stopped unbounded _ moved]; exact Bool.false_ne_true), tail] at same
        obtain ⟨ended, there, log₁, loop, finish⟩ := Comp.returned_of_bind same.1.symm
        have counted := (loop_repeats (congrArg Run.outcome loop)).choose_spec.counts
        rcases finished : (repeatEnd kind.minRep kind.maxRep context.position (outerNode context) ended
          there : Run (Moment CharT) _ Exn ParseResult) with ⟨outcome, state, log₂⟩
        rw [Comp.bind_returned loop, finished] at same
        obtain ⟨rfl, rfl⟩ : outcome = .returned final ∧ state = last := ⟨same.1.symm, same.2.symm⟩
        have success' : final.success = true := by
          rcases wp_run (repeat_end_position context.position (outerNode context) ended there) finished
            fun _ _ => trivial with ⟨-, short, -⟩ | ⟨success', -⟩
          · omega
          · exact success'
        rw [← pushed] at loop
        have onward := loop_onward inRange range
          (ready_pushed ready (outerNode context) result.tree) loop finished success'
        rw [pushed] at onward
        exact ⟨success.trans success'.symm, onward⟩

/-- A repetition of a repetition against the inner one. -/
theorem nested_covers (inRange : InRange grammar) (range : expr.Every MatcherInRange)
    (blind : BlindRules grammar) (nodeBlind : expr.Every NodeBlind) (unbounded : kind.maxRep < 0)
    (few : kind.minRep ≤ 1) {context : Context CharT} (ready : Ready input none pending context) :
    Covers (grammar.eval fuel (.repetition kind expr) context)
      (grammar.eval fuel (.repetition kind (.repetition kind expr)) context) := by
  have again := rep_again blind nodeBlind fuel kind
  have alike : SameButNodes [] [] context.cutStack.length context context :=
    same_refl ready.sound.skipper (List.append_nil _).symm
  have first := again _ _ _ context (loopStart context) (loop_start_alike alike)
  have within : (Expr.repetition kind expr).Every MatcherInRange := ⟨trivial, range⟩
  rw [eval_repetition grammar fuel kind (.repetition kind expr)]
  unfold Covers
  cases fuel with
  | zero =>
      rw [eval_repetition]
      trivial
  | succ fuel =>
      rw [outer_run]
      rcases run : grammar.eval (fuel + 1) (.repetition kind expr) context with ⟨outcome, near, log⟩
      rcases run' : grammar.eval (fuel + 1) (.repetition kind expr) (loopStart context) with
        ⟨outcome', far, log'⟩
      rw [run, run'] at first
      cases outcome with
      | thrown _ =>
          cases outcome' with
          | thrown _ =>
              unfold Comp.guarded
              rw [Comp.bind_thrown run']
              trivial
          | returned _ | exhausted => exact first.elim
      | exhausted =>
          cases outcome' with
          | exhausted =>
              unfold Comp.guarded
              rw [Comp.bind_exhausted run']
              trivial
          | returned _ | thrown _ => exact first.elim
      | returned result =>
          cases outcome' with
          | thrown _ | exhausted => exact first.elim
          | returned result' =>
              obtain ⟨flag, alike'⟩ := first
              have opened : Ready input none pending (entered context) :=
                ready.moved rfl rfl rfl rfl ready.inside
              have atFar := (eval_advanced inRange within (ready_cleared opened) run').1
              have still : result'.success = false →
                  0 < kind.minRep ∧ far.position = context.position := by
                intro failed
                rw [eval_repetition] at run
                have stayed := wp_run (repetition_fails_still _ context) run fun _ _ => trivial
                have rest := stayed (flag.trans failed)
                exact ⟨rest.1, alike'.position.symm.trans rest.2⟩
              rw [guarded_after run']
              rcases tail : outerEnd (runSkipper (grammar.apply (fuel + 1)))
                (grammar.eval (fuel + 1) (.repetition kind expr)) kind.minRep kind.maxRep fuel
                context result' far with ⟨outcome, last, log₁⟩
              unfold Comp.guarded
              rw [tail]
              cases outcome with
              | thrown _ | exhausted => trivial
              | returned final =>
                  obtain ⟨flag', onward⟩ :=
                    outer_end_covers inRange within unbounded few atFar still tail
                  refine ⟨flag.trans flag', ?_⟩
                  rw [alike'.position]
                  exact onward.trans (Nat.le_of_eq (remove_cut_position last).symm)

end Necessity

end Peglib.NestedRepetitions
