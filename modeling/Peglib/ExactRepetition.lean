import Peglib.Repetitions
import Peglib.ScopeBlindness
import Peglib.Termination

/-!
# Repetition with a count

`n * e` counts the iterations of the loop that serves every repetition. It
agrees with `n` copies of `e` in sequence except where the loop stops early, on
a match that consumes nothing before the last one, and where the count is no
bound: none for the loop are zero, and a count that is negative as a signed
number.
-/

namespace Peglib.ExactRepetition

open Peglib.TracedComputation Peglib.WeakestPrecondition Peglib.Preservation Peglib.Coupling
open Peglib.ParseError Peglib.ParseContext Peglib.Expressions Peglib.Rules Peglib.ExpressionSteps
open Peglib.ControlDiscipline Peglib.PegSemantics Peglib.Evaluation Peglib.SuccessfulAnswers
open Peglib.Repetitions Peglib.ScopeBlindness Peglib.Termination

set_option autoImplicit false

variable {CharT NodeType : Type}

section Ends

/-- The parse succeeded and ended there. -/
def EndsAt (run : Run (Moment CharT) (Context CharT) Exn ParseResult) (stop : Nat) : Prop :=
  ∃ result, run.outcome = .returned result ∧ result.success = true ∧ run.state.position = stop

def Fails (run : Run (Moment CharT) (Context CharT) Exn ParseResult) : Prop :=
  ∃ result, run.outcome = .returned result ∧ result.success = false

/-- The run came to no result. -/
def Broken {Value : Type} (run : Run (Moment CharT) (Context CharT) Exn Value) : Prop :=
  ∀ value, run.outcome ≠ .returned value

variable {Value Other : Type}

theorem ends_iff {left right : Run (Moment CharT) (Context CharT) Exn ParseResult}
    (same : SameEnd left right) (stop : Nat) : EndsAt left stop ↔ EndsAt right stop := by
  unfold EndsAt
  rw [same.1, same.2]

theorem fails_iff {left right : Run (Moment CharT) (Context CharT) Exn ParseResult}
    (same : SameEnd left right) : Fails left ↔ Fails right := by
  unfold Fails
  rw [same.1]

theorem ends_at_returned {result : ParseResult} {last : Context CharT} {log : List (Moment CharT)}
    {stop : Nat} : EndsAt ⟨.returned result, last, log⟩ stop ↔
      result.success = true ∧ last.position = stop := by
  constructor
  · rintro ⟨other, ended, success, position⟩
    obtain rfl := Outcome.returned.inj ended
    exact ⟨success, position⟩
  · rintro ⟨success, position⟩
    exact ⟨result, rfl, success, position⟩

theorem fails_returned {result : ParseResult} {last : Context CharT} {log : List (Moment CharT)} :
    Fails (⟨.returned result, last, log⟩ : Run _ _ Exn _) ↔ result.success = false := by
  constructor
  · rintro ⟨other, ended, failure⟩
    obtain rfl := Outcome.returned.inj ended
    exact failure
  · exact fun failure => ⟨result, rfl, failure⟩

theorem Broken.not_ends {run : Run (Moment CharT) (Context CharT) Exn ParseResult}
    (broken : Broken run) (stop : Nat) : ¬EndsAt run stop :=
  fun ⟨result, ended, _⟩ => broken result ended

theorem Broken.not_fails {run : Run (Moment CharT) (Context CharT) Exn ParseResult}
    (broken : Broken run) : ¬Fails run :=
  fun ⟨result, ended, _⟩ => broken result ended

theorem Broken.of_end {left right : Run (Moment CharT) (Context CharT) Exn Value}
    (broken : Broken right) (same : SameEnd left right) : Broken left :=
  fun value ended => broken value (same.1.symm.trans ended)

theorem Broken.bind {first : Parser CharT Value} {next : Value → Parser CharT Other}
    {context : Context CharT} (broken : Broken (first context)) : Broken ((first >>= next) context) := by
  rcases run : first context with ⟨outcome, last, log⟩
  rw [run] at broken
  cases outcome with
  | returned value => exact absurd rfl (broken value)
  | thrown exn => rw [Comp.bind_thrown run]; exact nofun
  | exhausted => rw [Comp.bind_exhausted run]; exact nofun

theorem Broken.guarded {body : Parser CharT Value} {cleanup : Context CharT → Context CharT}
    {context : Context CharT} (broken : Broken (body context)) :
    Broken (Comp.guarded body cleanup context) := by
  unfold Comp.guarded
  rcases run : body context with ⟨outcome, last, log⟩
  rw [run] at broken
  cases outcome with
  | returned value => exact absurd rfl (broken value)
  | thrown exn => exact nofun
  | exhausted => exact nofun

theorem run_cases (run : Run (Moment CharT) (Context CharT) Exn ParseResult) :
    (∃ result last log, run = ⟨.returned result, last, log⟩ ∧ result.success = true) ∨
      (∃ result last log, run = ⟨.returned result, last, log⟩ ∧ result.success = false) ∨
        Broken run := by
  rcases run with ⟨outcome, last, log⟩
  cases outcome with
  | returned result =>
      cases success : result.success with
      | true => exact Or.inl ⟨result, last, log, rfl, success⟩
      | false => exact Or.inr (Or.inl ⟨result, last, log, rfl, success⟩)
  | thrown exn => exact Or.inr (Or.inr nofun)
  | exhausted => exact Or.inr (Or.inr nofun)

end Ends

section Copies

/-- Copies of a parser that matched one after the other and pushed to one node;
`empties` says whether they may have consumed nothing. -/
inductive Copied (child : Parser CharT ParseResult) (node : NodePtr) (empties : Prop)
    (start : Context CharT) : Nat → Context CharT → Prop
  | none : Copied child node empties start 0 start
  | next {count here after result log} : Copied child node empties start count here →
      child here = ⟨.returned result, after, log⟩ → result.success = true →
      empties ∨ after.position ≠ here.position →
      Copied child node empties start (count + 1) (pushChild node result.tree after)

variable {child : Parser CharT ParseResult} {node : NodePtr} {empties : Prop}
  {start here : Context CharT} {count : Nat}

theorem push_child_position (node : NodePtr) (tree : Option NodePtr) (context : Context CharT) :
    (pushChild node tree context).position = context.position := by
  cases tree <;> rfl

theorem push_child_skipper (node : NodePtr) (tree : Option NodePtr) (context : Context CharT) :
    (pushChild node tree context).skipper = context.skipper := by
  cases tree <;> rfl

theorem Copied.any (copied : Copied child node False start count here) :
    Copied child node True start count here := by
  induction copied with
  | none => exact .none
  | next _ ran success _ induction => exact .next induction ran success (Or.inl trivial)

/-- All copies match, or one after some others does not. -/
theorem copied_or_not (child : Parser CharT ParseResult) (node : NodePtr) (start : Context CharT)
    (count : Nat) :
    (∃ here, Copied child node True start count here) ∨
      ∃ earlier < count, ∃ here, Copied child node True start earlier here ∧
        (Fails (child here) ∨ Broken (child here)) := by
  induction count with
  | zero => exact Or.inl ⟨start, .none⟩
  | succ count induction =>
      rcases induction with ⟨here, copied⟩ | ⟨earlier, fewer, here, copied, missed⟩
      · rcases run_cases (child here) with ⟨result, after, log, ran, success⟩ |
          ⟨result, after, log, ran, failure⟩ | broken
        · exact Or.inl ⟨_, .next copied ran success (Or.inl trivial)⟩
        · refine Or.inr ⟨count, Nat.lt_succ_self _, here, copied, Or.inl ?_⟩
          rw [ran]
          exact fails_returned.mpr failure
        · exact Or.inr ⟨count, Nat.lt_succ_self _, here, copied, Or.inr broken⟩
      · exact Or.inr ⟨earlier, Nat.lt_succ_of_lt fewer, here, copied, missed⟩

/-- Either every copy consumed something, or there is a first one that did not. -/
theorem Copied.first_empty (copied : Copied child node True start count here) :
    Copied child node False start count here ∨
      ∃ earlier < count, ∃ there, Copied child node False start earlier there ∧
        EndsAt (child there) there.position := by
  induction copied with
  | none => exact Or.inl .none
  | @next count here after result log _ ran success _ induction =>
      rcases induction with moving | ⟨earlier, fewer, found⟩
      · by_cases stays : after.position = here.position
        · refine Or.inr ⟨count, Nat.lt_succ_self _, here, moving, ?_⟩
          rw [ran]
          exact ends_at_returned.mpr ⟨success, stays⟩
        · exact Or.inl (.next moving ran success (Or.inr stays))
      · exact Or.inr ⟨earlier, Nat.lt_succ_of_lt fewer, found⟩

theorem Copied.skipper_off (stable : StableParser child)
    (copied : Copied child node empties start count here) (off : start.skipper = Option.none) :
    here.skipper = Option.none := by
  induction copied with
  | none => exact off
  | @next count here after result log _ ran _ _ induction =>
      have kept := stable.returned (by rw [ran])
      rw [ran] at kept
      rw [push_child_skipper]
      exact kept.skipper.trans induction

end Copies

section Sequences

variable {apply : RuleId → Parser CharT ParseResult} {child : Parser CharT ParseResult}
  {node : NodePtr} {start here : Context CharT} {count : Nat}

theorem skip_off (condition : Prop) [Decidable condition] (off : here.skipper = none) :
    Comp.onlyIf condition (runSkipper apply) here = ⟨.returned (), here, []⟩ := by
  unfold Comp.onlyIf
  split_ifs
  · have looked : (Comp.read id here : Run (Moment CharT) _ Exn (Context CharT)) =
        ⟨.returned here, here, []⟩ := rfl
    rw [runSkipper, Comp.bind_returned looked, off]
    cases here.skipEnabled <;> rfl
  · rfl

theorem seq_step {index : Nat} {rest : List (Parser CharT ParseResult)} {after : Context CharT}
    {result : ParseResult} {log : List (Moment CharT)} (off : here.skipper = none)
    (ran : child here = ⟨.returned result, after, log⟩) :
    SameEnd (SequenceExpr.parseSeq (runSkipper apply) node index (child :: rest) here)
      (if result.success = true then
        SequenceExpr.parseSeq (runSkipper apply) node (index + 1) rest
          (pushChild node result.tree after)
      else ⟨.returned false, after, []⟩) := by
  rw [SequenceExpr.parseSeq]
  refine (bind_end (skip_off (0 < index) off)).trans ((bind_end ran).trans ?_)
  split_ifs <;> exact ⟨rfl, rfl⟩

theorem seq_copied (stable : StableParser child) (off : start.skipper = none)
    (copied : Copied child node True start count here) (rest : List (Parser CharT ParseResult)) :
    SameEnd (SequenceExpr.parseSeq (runSkipper apply) node 0 (List.replicate count child ++ rest) start)
      (SequenceExpr.parseSeq (runSkipper apply) node count rest here) := by
  induction copied generalizing rest with
  | none => exact ⟨rfl, rfl⟩
  | @next count here after result log before ran success _ induction =>
      rw [List.replicate_succ', List.append_assoc]
      refine (induction (child :: rest)).trans ?_
      refine (seq_step (before.skipper_off stable off) ran).trans ?_
      rw [if_pos success]
      exact ⟨rfl, rfl⟩

end Sequences


section SequenceEnds

variable {apply : RuleId → Parser CharT ParseResult} {child : Parser CharT ParseResult}
  {context here : Context CharT} {count earlier : Nat}

/-- Where the children of a sequence start to parse, its node made. -/
def sequenceStart (context : Context CharT) : Context CharT :=
  markStart context.makeNode.1 context.makeNode.2

theorem sequence_after_seq {children : List (Parser CharT ParseResult)}
    {run : Run (Moment CharT) (Context CharT) Exn Bool}
    (same : SameEnd (SequenceExpr.parseSeq (runSkipper apply) context.makeNode.1 0 children
      (sequenceStart context)) run) :
    (∀ last, run.outcome = .returned true → run.state = last →
      SameEnd (SequenceExpr.parse (runSkipper apply) children context)
        ⟨.returned ⟨true, some context.makeNode.1⟩, markEnd context.makeNode.1 last, []⟩) ∧
    (run.outcome = .returned false →
      Fails (SequenceExpr.parse (runSkipper apply) children context)) ∧
    (Broken run → Broken (SequenceExpr.parse (runSkipper apply) children context)) := by
  have read : (Comp.read Context.position context : Run (Moment CharT) _ Exn _) =
      ⟨.returned context.position, context, []⟩ := rfl
  have made : (Comp.modifyGet Context.makeNode context : Run (Moment CharT) _ Exn _) =
      ⟨.returned context.makeNode.1, context.makeNode.2, []⟩ := rfl
  have marked : (Comp.modify (markStart context.makeNode.1) context.makeNode.2 :
      Run (Moment CharT) _ Exn _) = ⟨.returned (), sequenceStart context, []⟩ := rfl
  have started : SameEnd (SequenceExpr.parse (runSkipper apply) children context)
      ((do
        if ← SequenceExpr.parseSeq (runSkipper apply) context.makeNode.1 0 children then
          Comp.modify (markEnd context.makeNode.1)
          pure ⟨true, some context.makeNode.1⟩
        else
          Comp.modify fun middle => middle.reset context.position
          pure ⟨false, none⟩ : Parser CharT ParseResult) (sequenceStart context)) := by
    rw [SequenceExpr.parse]
    exact (bind_end read).trans ((bind_end made).trans (bind_end marked))
  rcases ran : SequenceExpr.parseSeq (runSkipper apply) context.makeNode.1 0 children
    (sequenceStart context) with ⟨outcome, final, log⟩
  rw [ran] at same
  obtain ⟨outcomes, states⟩ := same
  dsimp only at outcomes states
  refine ⟨fun last ended reached => ?_, fun ended => ?_, fun broken => ?_⟩
  · obtain rfl : outcome = .returned true := outcomes.trans ended
    obtain rfl : final = last := states.trans reached
    exact started.trans (bind_end ran)
  · obtain rfl : outcome = .returned false := outcomes.trans ended
    exact (fails_iff (started.trans (bind_end ran))).mpr (fails_returned.mpr rfl)
  · refine Broken.of_end (Broken.bind ?_) started
    rw [ran]
    exact fun value ended => broken value (outcomes.symm.trans ended)

theorem copies_match (stable : StableParser child) (off : context.skipper = none)
    (copied : Copied child context.makeNode.1 True (sequenceStart context) count here) :
    SameEnd (SequenceExpr.parse (runSkipper apply) (List.replicate count child) context)
      ⟨.returned ⟨true, some context.makeNode.1⟩, markEnd context.makeNode.1 here, []⟩ := by
  have skipless : (sequenceStart context).skipper = none := off
  have reached : SameEnd (SequenceExpr.parseSeq (runSkipper apply) context.makeNode.1 0
      (List.replicate count child ++ []) (sequenceStart context)) _ :=
    seq_copied stable skipless copied []
  rw [List.append_nil] at reached
  exact (sequence_after_seq reached).1 here rfl rfl

theorem copies_end (stable : StableParser child) (off : context.skipper = none)
    (copied : Copied child context.makeNode.1 True (sequenceStart context) count here) (stop : Nat) :
    EndsAt (SequenceExpr.parse (runSkipper apply) (List.replicate count child) context) stop ↔
      here.position = stop := by
  rw [ends_iff (copies_match stable off copied), ends_at_returned]
  exact and_iff_right rfl

/-- The copies reach the first one that does not match. -/
theorem copies_reach (stable : StableParser child) (off : context.skipper = none)
    (copied : Copied child context.makeNode.1 True (sequenceStart context) earlier here)
    (fewer : earlier < count) :
    ∃ rest, SameEnd (SequenceExpr.parseSeq (runSkipper apply) context.makeNode.1 0
        (List.replicate count child) (sequenceStart context))
      (SequenceExpr.parseSeq (runSkipper apply) context.makeNode.1 earlier (child :: rest) here) := by
  have split : List.replicate count child =
      List.replicate earlier child ++ child :: List.replicate (count - earlier - 1) child := by
    rw [← List.replicate_succ, ← List.replicate_add]
    congr 1
    omega
  have skipless : (sequenceStart context).skipper = none := off
  rw [split]
  exact ⟨_, seq_copied stable skipless copied _⟩

theorem copies_fail (stable : StableParser child) (off : context.skipper = none)
    (copied : Copied child context.makeNode.1 True (sequenceStart context) earlier here)
    (fewer : earlier < count) (missed : Fails (child here)) :
    Fails (SequenceExpr.parse (runSkipper apply) (List.replicate count child) context) := by
  obtain ⟨rest, reached⟩ := @copies_reach _ apply _ _ _ _ _ stable off copied fewer
  rcases ran : child here with ⟨outcome, after, log⟩
  rw [ran] at missed
  obtain ⟨result, rfl, failure⟩ := missed
  have step := reached.trans (seq_step (copied.skipper_off stable off) ran)
  rw [if_neg (by rw [failure]; exact Bool.false_ne_true)] at step
  exact (sequence_after_seq step).2.1 rfl

theorem copies_break (stable : StableParser child) (off : context.skipper = none)
    (copied : Copied child context.makeNode.1 True (sequenceStart context) earlier here)
    (fewer : earlier < count) (broken : Broken (child here)) :
    Broken (SequenceExpr.parse (runSkipper apply) (List.replicate count child) context) := by
  obtain ⟨rest, reached⟩ := @copies_reach _ apply _ _ _ _ _ stable off copied fewer
  refine (sequence_after_seq reached).2.2 ?_
  rw [SequenceExpr.parseSeq]
  exact Broken.of_end (Broken.bind broken)
    (bind_end (skip_off _ (copied.skipper_off stable off)))

end SequenceEnds

section LoopEnds

variable {apply : RuleId → Parser CharT ParseResult} {child : Parser CharT ParseResult}
  {node : NodePtr} {start near here after : Context CharT} {count : Nat} {result : ParseResult}
  {log : List (Moment CharT)} {maxRep : Int}

theorem next_iteration (blind : Blind none child) (alike : SameButScopes none near here)
    (ran : child here = ⟨.returned result, after, log⟩) :
    ∃ after', Iteration (runSkipper apply) child count near near after' result ∧
      SameButScopes none after' after := by
  have twin := blind _ _ (set_cut_near alike)
  rcases ran' : child (near.setCut false) with ⟨outcome, after', log'⟩
  rw [ran, ran'] at twin
  obtain rfl : outcome = .returned result := twin.outcome
  exact ⟨after', ⟨⟨[], skip_off _ alike.near_skipper⟩, ⟨log', ran'⟩⟩, twin.states result rfl⟩

theorem loop_breaks {fuel last : Nat} (blind : Blind none child)
    (alike : SameButScopes none near here) (broken : Broken (child here)) :
    Broken (repeatLoop (runSkipper apply) child maxRep node (fuel + 1) count last near) := by
  have twin := (blind _ _ (set_cut_near alike)).outcome
  have inside : Broken (child (near.setCut false)) :=
    fun value ended => broken value (twin.symm.trans ended)
  rw [repeatLoop]
  refine Broken.of_end ?_ (bind_end (skip_off _ alike.near_skipper))
  have read : (Comp.read Context.position near : Run (Moment CharT) _ Exn _) =
      ⟨.returned near.position, near, []⟩ := rfl
  have reset : (Comp.modify (fun context => context.setCut false) near :
      Run (Moment CharT) _ Exn _) = ⟨.returned (), near.setCut false, []⟩ := rfl
  exact Broken.of_end (Broken.bind inside) ((bind_end read).trans (bind_end reset))

theorem copied_matched (blind : Blind none child) (alike : SameButScopes none near start)
    (copied : Copied child node False start count here) :
    ∃ there, Matched (runSkipper apply) child node near count there.position there ∧
      SameButScopes none there here := by
  induction copied with
  | none => exact ⟨near, .none, alike⟩
  | @next count here after result log _ ran success moved induction =>
      obtain ⟨there, matched, alike⟩ := induction
      obtain ⟨after', iteration, alike'⟩ := next_iteration blind alike ran
      have moved' : after'.position ≠ there.position := by
        rw [alike'.position, alike.position]
        exact moved.resolve_left id
      refine ⟨pushChild node result.tree after', ?_, (push_child_scopeless node _).alike alike'⟩
      rw [push_child_position]
      exact .next matched iteration success moved'

end LoopEnds

section RepetitionEnds

variable {apply : RuleId → Parser CharT ParseResult} {child : Parser CharT ParseResult}
  {context here : Context CharT} {count fuel minRep : Nat} {maxRep : Int}

theorem ends_not_fails {run : Run (Moment CharT) (Context CharT) Exn ParseResult} {stop : Nat}
    (ends : EndsAt run stop) : ¬Fails run := by
  obtain ⟨result, ended, success, -⟩ := ends
  rintro ⟨other, ended', failure⟩
  obtain rfl := Outcome.returned.inj (ended.symm.trans ended')
  exact absurd success (by rw [failure]; exact Bool.false_ne_true)

theorem repetition_returns {last : Context CharT} {ended : LoopExit}
    (loop : SameEnd (repeatLoop (runSkipper apply) child maxRep context.makeNode.1 fuel 0
      context.position (Repetitions.entered context)) ⟨.returned ended, last, []⟩)
    (uncommitted : Uncommitted last) (stop : Nat) :
    EndsAt (repeatParseImpl fuel (runSkipper apply) child minRep maxRep context) stop ↔
      ¬ended.loopCount < minRep ∧
        (if ended.exitedViaFailure = true then ended.lastSuccessState else last.position) = stop := by
  have after := @repeat_after_loop _ _ _ _ _ minRep context last ended loop
  by_cases few : ended.loopCount < minRep
  · have reset : repeatEnd minRep maxRep context.position context.initCut.makeNode.1 ended last =
        ⟨.returned ⟨false, none⟩, last.reset context.position, []⟩ := by
      rw [repeatEnd, if_pos few]
      rfl
    have same := after (by rw [reset]; exact nofun)
    have fails : Fails (repeatParseImpl fuel (runSkipper apply) child minRep maxRep context) := by
      rw [fails_iff same, reset]
      exact fails_returned.mpr rfl
    exact ⟨fun ends => absurd fails (ends_not_fails ends), fun ends => absurd few ends.1⟩
  · rw [and_iff_right few]
    have finish : repeatEnd minRep maxRep context.position context.initCut.makeNode.1 ended last =
        repeatFinish maxRep context.initCut.makeNode.1 ended last := by
      rw [repeatEnd, if_neg few]
    obtain ⟨loopCount, viaFailure, lastSuccess⟩ := ended
    cases viaFailure with
    | true =>
        have finished := finish_uncommitted maxRep context.initCut.makeNode.1 loopCount lastSuccess
          uncommitted.cut_eq
        have same := after (by rw [finish, finished.1]; exact nofun)
        rw [ends_iff same, finish, finished.1, finished.2, ends_at_returned, remove_cut_position]
        exact and_iff_right rfl
    | false =>
        have finished := finish_stopped maxRep context.initCut.makeNode.1 loopCount lastSuccess last
        have same := after (by rw [finish, finished.1]; exact nofun)
        rw [ends_iff same, finish, finished.1, finished.2, ends_at_returned, remove_cut_position]
        exact and_iff_right rfl

theorem repetition_breaks
    (loop : Broken (repeatLoop (runSkipper apply) child maxRep context.makeNode.1 fuel 0
      context.position (Repetitions.entered context))) :
    Broken (repeatParseImpl fuel (runSkipper apply) child minRep maxRep context) := by
  have opened : (Comp.modify Context.initCut context : Run (Moment CharT) _ Exn _) =
      ⟨.returned (), context.initCut, []⟩ := rfl
  have read : (Comp.read Context.position context.initCut : Run (Moment CharT) _ Exn _) =
      ⟨.returned context.position, context.initCut, []⟩ := rfl
  have made : (Comp.modifyGet Context.makeNode context.initCut : Run (Moment CharT) _ Exn _) =
      ⟨.returned context.makeNode.1, context.initCut.makeNode.2, []⟩ := rfl
  have marked : (Comp.modify (markStart context.makeNode.1) context.initCut.makeNode.2 :
      Run (Moment CharT) _ Exn _) = ⟨.returned (), Repetitions.entered context, []⟩ := rfl
  rw [repeatParseImpl]
  refine Broken.of_end (Broken.guarded ?_) (bind_end opened)
  exact Broken.of_end (Broken.bind loop)
    ((bind_end read).trans ((bind_end made).trans (bind_end marked)))

theorem entered_alike (uncommitted : Uncommitted context) (off : context.skipper = none) :
    SameButScopes none (Repetitions.entered context) (sequenceStart context) where
  same := rfl
  nearScopes scope member := by
    rcases List.mem_cons.mp member with rfl | member
    · rfl
    · exact uncommitted scope member
  farScopes := uncommitted
  skipper := off

variable (blind : Blind none child) (uncommitted : Uncommitted context)
  (off : context.skipper = none)
  (copied : Copied child context.makeNode.1 False (sequenceStart context) count here)
  (below : ∀ earlier, earlier ≤ count → boundReached maxRep earlier = false)

include blind uncommitted off copied below

/-- The loop gets as far as the copies that moved. -/
theorem loop_arrives (left : Nat) :
    ∃ there, SameButScopes none there here ∧
      SameEnd (repeatLoop (runSkipper apply) child maxRep context.makeNode.1 (left + count) 0
          context.position (Repetitions.entered context))
        (repeatLoop (runSkipper apply) child maxRep context.makeNode.1 left count there.position
          there) := by
  obtain ⟨there, matched, alike⟩ :=
    @copied_matched _ apply _ _ _ _ _ _ blind (entered_alike uncommitted off) copied
  exact ⟨there, alike, matched_loop matched below left⟩

theorem repetition_broken (left : Nat) (broken : Broken (child here)) :
    Broken (repeatParseImpl (left + 1 + count) (runSkipper apply) child minRep maxRep context) := by
  obtain ⟨there, alike, loop⟩ :=
    @loop_arrives _ apply _ _ _ _ _ blind uncommitted off copied below (left + 1)
  exact repetition_breaks (Broken.of_end (loop_breaks blind alike broken) loop)

/-- The repetition ends before a copy that fails. -/
theorem repetition_missed (left : Nat) (missed : Fails (child here)) (stop : Nat) :
    EndsAt (repeatParseImpl (left + 1 + count) (runSkipper apply) child minRep maxRep context)
      stop ↔ ¬count < minRep ∧ here.position = stop := by
  obtain ⟨there, alike, loop⟩ :=
    @loop_arrives _ apply _ _ _ _ _ blind uncommitted off copied below (left + 1)
  rcases ran : child here with ⟨outcome, after, log⟩
  rw [ran] at missed
  obtain ⟨result, rfl, failure⟩ := missed
  obtain ⟨after', iteration, alike'⟩ := next_iteration blind alike ran
  rw [repetition_returns (loop.trans (loop_fails iteration failure)) alike'.nearScopes, if_pos rfl,
    alike.position]

/-- The repetition ends after a copy that fills the count or stays in place. -/
theorem repetition_full (left : Nat) {stop : Nat} (ends : EndsAt (child here) stop)
    (last : boundReached maxRep (count + 1) = true ∨ stop = here.position) (stop' : Nat) :
    EndsAt (repeatParseImpl (left + 1 + count) (runSkipper apply) child minRep maxRep context)
      stop' ↔ ¬count + 1 < minRep ∧ stop = stop' := by
  obtain ⟨there, alike, loop⟩ :=
    @loop_arrives _ apply _ _ _ _ _ blind uncommitted off copied below (left + 1)
  rcases ran : child here with ⟨outcome, after, log⟩
  rw [ran] at ends
  obtain ⟨result, rfl, success, rfl⟩ := ends
  obtain ⟨after', iteration, alike'⟩ := next_iteration blind alike ran
  have full : (boundReached maxRep (count + 1) || decide (after'.position = there.position)) = true := by
    rw [alike'.position, alike.position, Bool.or_eq_true, decide_eq_true_iff]
    exact last
  have pushed := (push_child_scopeless context.makeNode.1 result.tree).alike alike'
  rw [repetition_returns (loop.trans (loop_stops iteration success full)) pushed.nearScopes,
    if_neg Bool.false_ne_true, pushed.position, push_child_position]

end RepetitionEnds

section Claims

variable [PegValue CharT] {grammar : Grammar CharT NodeType} {reach : RuleId → Prop}
  {input : List CharT} {pending : List (RuleId × Nat)} {expr : Expr CharT}
  {context start here : Context CharT} {node : NodePtr} {empties : Prop} {fuel count : Nat}

/-- `e` in sequence with itself. -/
def copies (count : Nat) (expr : Expr CharT) : Expr CharT := .sequence (List.replicate count expr)

/-- `n * e` succeeds exactly when the copies do, and at the same position. -/
def Exact (grammar : Grammar CharT NodeType) (fuel : Nat) (expr : Expr CharT)
    (context : Context CharT) (count : Nat) : Prop :=
  ∀ stop, EndsAt (grammar.eval fuel (.repetition (.nTimes count) expr) context) stop ↔
    EndsAt (grammar.eval fuel (copies count expr) context) stop

/-- After the first copies the next one matches in place. -/
def EmptyMatch (grammar : Grammar CharT NodeType) (fuel : Nat) (expr : Expr CharT)
    (context : Context CharT) (count : Nat) : Prop :=
  ∃ stop, EndsAt (grammar.eval fuel (copies count expr) context) stop ∧
    EndsAt (grammar.eval fuel (copies (count + 1) expr) context) stop

/-- The copies do not match; or none but the last matches in place, and a count that is
no bound meets a copy at which the loop stops by itself. -/
def CountsRight (grammar : Grammar CharT NodeType) (fuel : Nat) (expr : Expr CharT)
    (context : Context CharT) (count : Nat) : Prop :=
  (∀ stop, ¬EndsAt (grammar.eval fuel (copies count expr) context) stop) ∨
    ((∀ earlier, earlier + 1 < count → ¬EmptyMatch grammar fuel expr context earlier) ∧
      (count = 0 ∨ 2 ^ 63 ≤ count →
        (0 < count ∧ EmptyMatch grammar fuel expr context (count - 1)) ∨
          Fails (grammar.eval fuel (copies (count + 1) expr) context) ∨
            EmptyMatch grammar fuel expr context count))

theorem eval_copies (grammar : Grammar CharT NodeType) (fuel count : Nat) (expr : Expr CharT) :
    grammar.eval fuel (copies count expr) =
      SequenceExpr.parse (runSkipper (grammar.apply fuel))
        (List.replicate count (grammar.eval fuel expr)) := by
  unfold copies Grammar.eval
  rw [Expr.parse, Expr.parse_all_eq_map, List.map_replicate]

omit [PegValue CharT] in
theorem bound_reached_n_times {count : Nat} (small : count < 2 ^ 64) (reached : Nat) :
    boundReached (RepKind.nTimes count).maxRep reached = true ↔
      ¬(count = 0 ∨ 2 ^ 63 ≤ count) ∧ count ≤ reached := by
  have signed : Int.bmod count (2 ^ 64) = if count < 2 ^ 63 then (count : Int) else count - 2 ^ 64 := by
    have wrapped : ((count : Int) % ((2 ^ 64 : Nat) : Int)) = count :=
      Int.emod_eq_of_lt (Int.natCast_nonneg _) (by omega)
    unfold Int.bmod
    dsimp only
    rw [wrapped]
    split_ifs <;> omega
  have bound : (RepKind.nTimes count).maxRep = if count < 2 ^ 63 then (count : Int) else count - 2 ^ 64 :=
    signed
  unfold boundReached
  rw [bound, Bool.and_eq_true, decide_eq_true_iff, decide_eq_true_iff]
  split_ifs <;> omega

theorem copied_ready (inRange : InRange grammar) (range : expr.Every MatcherInRange)
    (ready : Ready input none pending start)
    (copied : Copied (grammar.eval fuel expr) node empties start count here) :
    Ready input none pending here ∧ start.position ≤ here.position := by
  induction copied with
  | none => exact ⟨ready, Nat.le_refl _⟩
  | @next count here after result log _ ran _ _ induction =>
      have advanced := wp_run (eval_advances inRange fuel range here induction.1) ran
        fun _ _ => trivial
      have moved : (pushChild node result.tree after).position = after.position :=
        push_child_position _ _ _
      refine ⟨?_, by rw [moved]; exact Nat.le_trans induction.2 advanced.2.1⟩
      refine advanced.1.moved ?_ ?_ ?_ ?_ (by rw [moved]; exact advanced.1.inside) <;>
        cases result.tree <;> rfl

theorem repetition_moves_on (inRange : InRange grammar) (free : ScopeFree grammar reach)
    (configured : grammar.skipper = none)
    (sealed' : expr.Every fun part => Sealed reach part ∧ MatcherBlind part)
    (range : expr.Every MatcherInRange) (uncommitted : Uncommitted context)
    (ready : Ready input none pending context) {left : Nat}
    (copied : Copied (grammar.eval (left + count) expr) context.makeNode.1 False
      (sequenceStart context) count here) {kind : RepKind}
    (below : ∀ earlier, earlier ≤ count → boundReached kind.maxRep earlier = false) {stop : Nat}
    (ends : EndsAt (grammar.eval (left + count) (.repetition kind expr) context) stop) :
    here.position ≤ stop := by
  have blind : Blind none (grammar.eval (left + count) expr) := by
    rw [← configured]
    exact eval_blind free _ sealed'
  obtain ⟨there, alike, loop⟩ := @loop_arrives _ (grammar.apply (left + count)) _ _ _ _ _ blind
    uncommitted ready.sound.skipper copied below left
  have opened : Ready input none pending (sequenceStart context) :=
    ready.moved rfl rfl rfl rfl ready.inside
  have arrived := (copied_ready inRange range opened copied).1.sound
  have sound : Sound input none (InBounds input) there := by
    rw [alike.same]
    exact ⟨arrived.source, arrived.skipper, arrived.rows⟩
  have skips : Skips (bounding input none) (Sound input none (InBounds input))
      (runSkipper (grammar.apply (left + count))) fun mode pos outcome =>
        Peg input (spanned input) (Held input (InBounds input)) () mode .skip pos outcome :=
    skipper_skips sound_invariant
      (fun rule (_ : True) => apply_sound (bounded_reading inRange) _ rule) fun _ _ _ _ => trivial
  have evaluates := expr_evaluates (@sound_invariant _ input none (InBounds input))
    (fun rule _ => apply_sound (bounded_reading inRange) (left + count) rule)
    (fun _ _ _ _ => trivial) (left + count) (admits_sound (in_range_admits range))
  have evaluated := repeat_loop_evaluates sound_invariant skips kind expr evaluates
    context.makeNode.1 left count there sound
  have blindLoop : Blind none (repeatLoop (runSkipper (grammar.apply (left + count)))
      (grammar.eval (left + count) expr) kind.maxRep context.makeNode.1 left count
      there.position) := by
    exact repeat_loop_blind (skipper_blind fun _ set => by cases set) blind _ _ _ _ _
  have twin := blindLoop there there
    ⟨rfl, alike.nearScopes, alike.nearScopes, alike.near_skipper⟩
  rcases ran : repeatLoop (runSkipper (grammar.apply (left + count)))
    (grammar.eval (left + count) expr) kind.maxRep context.makeNode.1 left count there.position
    there with ⟨outcome, last, log⟩
  rw [ran] at loop twin
  cases outcome with
  | returned ended =>
      obtain ⟨-, -, final, peg⟩ := wp_run evaluated ran fun _ _ => trivial
      obtain ⟨enough, reached⟩ :=
        (repetition_returns loop (twin.states ended rfl).nearScopes stop).mp ends
      rw [repeated, if_neg enough, alike.position] at peg
      have onward := (spanned_within peg (copied_ready inRange range opened copied).1.inside).1
      split_ifs at reached with viaFailure
      · exact reached ▸ onward
      · rw [← reached, final (Bool.eq_false_iff.mpr viaFailure)]
        exact onward
  | thrown exn =>
      exact absurd ends ((repetition_breaks (Broken.of_end (by rintro _ ⟨⟩) loop)).not_ends stop)
  | exhausted =>
      exact absurd ends ((repetition_breaks (Broken.of_end (by rintro _ ⟨⟩) loop)).not_ends stop)

/-- What the copies do, and what the loop of the repetition does with them. -/
structure Counted (grammar : Grammar CharT NodeType) (fuel : Nat) (expr : Expr CharT)
    (context : Context CharT) (count : Nat) : Prop where
  blind : Blind none (grammar.eval fuel expr)
  uncommitted : Uncommitted context
  skipper : context.skipper = none
  small : count < 2 ^ 64
  budget : count < fuel

section Counted

variable (counted : Counted grammar fuel expr context count)

include counted

theorem Counted.below {reached : Nat} (earlier : reached < count) :
    boundReached (RepKind.nTimes count).maxRep reached = false := by
  rw [← Bool.not_eq_true, bound_reached_n_times counted.small]
  omega

theorem Counted.copies_end {earlier : Nat}
    (copied : Copied (grammar.eval fuel expr) context.makeNode.1 True (sequenceStart context) earlier
      here) (stop : Nat) :
    EndsAt (grammar.eval fuel (copies earlier expr) context) stop ↔ here.position = stop := by
  rw [eval_copies]
  exact ExactRepetition.copies_end (eval_stable grammar fuel expr) counted.skipper copied stop

theorem Counted.repetition_missed {earlier : Nat}
    (copied : Copied (grammar.eval fuel expr) context.makeNode.1 False (sequenceStart context) earlier
      here)
    (below : ∀ reached, reached ≤ earlier →
      boundReached (RepKind.nTimes count).maxRep reached = false) (few : earlier ≤ count)
    (fails : Fails (grammar.eval fuel expr here)) (stop : Nat) :
    EndsAt (grammar.eval fuel (.repetition (.nTimes count) expr) context) stop ↔
      ¬earlier < count ∧ here.position = stop := by
  obtain ⟨left, rfl⟩ : ∃ left, fuel = left + 1 + earlier :=
    ⟨fuel - 1 - earlier, by have budget := counted.budget; omega⟩
  exact ExactRepetition.repetition_missed counted.blind counted.uncommitted counted.skipper copied
    below left fails stop

theorem Counted.repetition_broken {earlier : Nat}
    (copied : Copied (grammar.eval fuel expr) context.makeNode.1 False (sequenceStart context) earlier
      here)
    (below : ∀ reached, reached ≤ earlier →
      boundReached (RepKind.nTimes count).maxRep reached = false) (few : earlier ≤ count)
    (broken : Broken (grammar.eval fuel expr here)) (stop : Nat) :
    ¬EndsAt (grammar.eval fuel (.repetition (.nTimes count) expr) context) stop := by
  obtain ⟨left, rfl⟩ : ∃ left, fuel = left + 1 + earlier :=
    ⟨fuel - 1 - earlier, by have budget := counted.budget; omega⟩
  exact (ExactRepetition.repetition_broken counted.blind counted.uncommitted counted.skipper copied
    below left broken).not_ends stop

theorem Counted.repetition_full {earlier stop : Nat}
    (copied : Copied (grammar.eval fuel expr) context.makeNode.1 False (sequenceStart context) earlier
      here)
    (below : ∀ reached, reached ≤ earlier →
      boundReached (RepKind.nTimes count).maxRep reached = false) (few : earlier ≤ count)
    (ends : EndsAt (grammar.eval fuel expr here) stop)
    (last : boundReached (RepKind.nTimes count).maxRep (earlier + 1) = true ∨ stop = here.position)
    (stop' : Nat) :
    EndsAt (grammar.eval fuel (.repetition (.nTimes count) expr) context) stop' ↔
      ¬earlier + 1 < count ∧ stop = stop' := by
  obtain ⟨left, rfl⟩ : ∃ left, fuel = left + 1 + earlier :=
    ⟨fuel - 1 - earlier, by have budget := counted.budget; omega⟩
  exact ExactRepetition.repetition_full counted.blind counted.uncommitted counted.skipper copied
    below left ends last stop'

theorem Counted.short {earlier : Nat}
    (copied : Copied (grammar.eval fuel expr) context.makeNode.1 True (sequenceStart context) earlier
      here) (fewer : earlier < count)
    (missed : Fails (grammar.eval fuel expr here) ∨ Broken (grammar.eval fuel expr here)) (stop : Nat) :
    ¬EndsAt (grammar.eval fuel (.repetition (.nTimes count) expr) context) stop := by
  have below : ∀ middle < count, ∀ reached, reached ≤ middle →
      boundReached (RepKind.nTimes count).maxRep reached = false :=
    fun middle inside reached few => counted.below (Nat.lt_of_le_of_lt few inside)
  intro ends
  rcases copied.first_empty with moving | ⟨empty, before, there, moving, stays⟩
  · rcases missed with fails | broken
    · exact ((counted.repetition_missed moving (below _ fewer) (Nat.le_of_lt fewer) fails stop).mp
        ends).1 fewer
    · exact counted.repetition_broken moving (below _ fewer) (Nat.le_of_lt fewer) broken stop ends
  · have inside : empty < count := Nat.lt_trans before fewer
    have full := (counted.repetition_full moving (below _ inside) (Nat.le_of_lt inside) stays
      (Or.inr rfl) stop).mp ends
    exact full.1 (Nat.lt_of_le_of_lt before fewer)

theorem Counted.next_copy {reached : Nat}
    (copied : Copied (grammar.eval fuel expr) context.makeNode.1 True (sequenceStart context) reached
      here) :
    (∀ stop, EndsAt (grammar.eval fuel (copies (reached + 1) expr) context) stop ↔
      EndsAt (grammar.eval fuel expr here) stop) ∧
    (Fails (grammar.eval fuel (copies (reached + 1) expr) context) ↔
      Fails (grammar.eval fuel expr here)) := by
  have stable := eval_stable grammar fuel expr
  rcases run_cases (grammar.eval fuel expr here) with ⟨result, after, log, ran, success⟩ |
    ⟨result, after, log, ran, failure⟩ | broken
  · have next : Copied _ _ True _ _ _ := .next copied ran success (Or.inl trivial)
    have ends := counted.copies_end next
    rw [push_child_position] at ends
    constructor
    · intro stop
      rw [ends, ran, ends_at_returned, and_iff_right success]
    · rw [ran, fails_returned, success]
      exact ⟨fun fails => absurd fails (ends_not_fails ((ends _).mpr rfl)), nofun⟩
  · have fails : Fails (grammar.eval fuel expr here) := by
      rw [ran]
      exact fails_returned.mpr failure
    have missed := @copies_fail _ (grammar.apply fuel) _ _ _ _ _ stable counted.skipper copied
      (Nat.lt_succ_self _) fails
    rw [eval_copies]
    exact ⟨fun stop => ⟨fun ends => absurd missed (ends_not_fails ends),
      fun ends => absurd fails (ends_not_fails ends)⟩, iff_of_true missed fails⟩
  · have breaks := @copies_break _ (grammar.apply fuel) _ _ _ _ _ stable counted.skipper copied
      (Nat.lt_succ_self _) broken
    rw [eval_copies]
    exact ⟨fun stop => iff_of_false (breaks.not_ends stop) (broken.not_ends stop),
      iff_of_false breaks.not_fails broken.not_fails⟩

theorem Counted.empty_match_iff {reached : Nat}
    (copied : Copied (grammar.eval fuel expr) context.makeNode.1 True (sequenceStart context) reached
      here) :
    EmptyMatch grammar fuel expr context reached ↔
      EndsAt (grammar.eval fuel expr here) here.position := by
  unfold EmptyMatch
  simp only [counted.copies_end copied, (counted.next_copy copied).1, exists_eq_left']

theorem Counted.moving_not_empty {reached earlier : Nat}
    (copied : Copied (grammar.eval fuel expr) context.makeNode.1 False (sequenceStart context) reached
      here) (fewer : earlier < reached) : ¬EmptyMatch grammar fuel expr context earlier := by
  induction copied with
  | none => exact absurd fewer (Nat.not_lt_zero _)
  | @next reached here after result log before ran success moved induction =>
      rcases Nat.lt_succ_iff_lt_or_eq.mp fewer with inside | rfl
      · exact induction inside
      · rw [counted.empty_match_iff before.any, ran, ends_at_returned]
        exact fun stays => moved.resolve_left id stays.2

theorem Counted.exact_after_empty {empty : Nat} {there : Context CharT}
    (copied : Copied (grammar.eval fuel expr) context.makeNode.1 True (sequenceStart context) count
      here) (inside : empty < count)
    (moving : Copied (grammar.eval fuel expr) context.makeNode.1 False (sequenceStart context) empty
      there) (stays : EndsAt (grammar.eval fuel expr there) there.position) :
    Exact grammar fuel expr context count ↔ CountsRight grammar fuel expr context count := by
  have reaches := counted.copies_end copied
  have full := counted.repetition_full moving
    (fun _ few => counted.below (Nat.lt_of_le_of_lt few inside)) (Nat.le_of_lt inside) stays (Or.inr rfl)
  have emptied := (counted.empty_match_iff moving.any).mpr stays
  by_cases few : empty + 1 < count
  · refine iff_of_false (fun exact => ?_) ?_
    · exact ((full _).mp ((exact _).mpr ((reaches _).mpr rfl))).1 few
    · rintro (never | ⟨consuming, -⟩)
      · exact never _ ((reaches _).mpr rfl)
      · exact consuming empty few emptied
  · obtain rfl : count = empty + 1 := by omega
    have together : there.position = here.position := by
      obtain ⟨stop, before, after⟩ := emptied
      exact ((counted.copies_end moving.any stop).mp before).trans ((reaches stop).mp after).symm
    refine iff_of_true (fun stop => ?_) (Or.inr ⟨fun earlier fewer => ?_, fun _ => Or.inl ?_⟩)
    · rw [full, reaches, and_iff_right few, together]
    · exact counted.moving_not_empty moving (Nat.lt_of_succ_lt_succ fewer)
    · exact ⟨Nat.succ_pos _, emptied⟩

theorem Counted.exact_after_moving (inRange : InRange grammar) (free : ScopeFree grammar reach)
    (configured : grammar.skipper = none)
    (sealed' : expr.Every fun part => Sealed reach part ∧ MatcherBlind part)
    (range : expr.Every MatcherInRange) (ready : Ready input none pending context)
    (moving : Copied (grammar.eval fuel expr) context.makeNode.1 False (sequenceStart context) count
      here) :
    Exact grammar fuel expr context count ↔ CountsRight grammar fuel expr context count := by
  have reaches := counted.copies_end moving.any
  have consuming : ∀ earlier, earlier + 1 < count → ¬EmptyMatch grammar fuel expr context earlier :=
    fun earlier fewer => counted.moving_not_empty moving (Nat.lt_of_succ_lt fewer)
  have before : ¬(0 < count ∧ EmptyMatch grammar fuel expr context (count - 1)) :=
    fun ⟨positive, empty⟩ => counted.moving_not_empty moving (Nat.sub_lt positive Nat.one_pos) empty
  by_cases unbounded : count = 0 ∨ 2 ^ 63 ≤ count
  · have below : ∀ reached, boundReached (RepKind.nTimes count).maxRep reached = false := by
      intro reached
      rw [← Bool.not_eq_true, bound_reached_n_times counted.small]
      exact fun bounded => bounded.1 unbounded
    have next := counted.next_copy moving.any
    have nextEmpty := counted.empty_match_iff moving.any
    have right_iff : CountsRight grammar fuel expr context count ↔
        Fails (grammar.eval fuel expr here) ∨
          EndsAt (grammar.eval fuel expr here) here.position := by
      rw [← next.2, ← nextEmpty]
      refine ⟨?_, fun stops => Or.inr ⟨consuming, fun _ => Or.inr stops⟩⟩
      rintro (never | ⟨-, last⟩)
      · exact absurd ((reaches _).mpr rfl) (never _)
      · exact (last unbounded).resolve_left before
    rw [right_iff]
    rcases run_cases (grammar.eval fuel expr here) with ⟨result, after, log, ran, success⟩ |
      ⟨result, after, log, ran, failure⟩ | broken
    · have ends : EndsAt (grammar.eval fuel expr here) after.position := by
        rw [ran]
        exact ends_at_returned.mpr ⟨success, rfl⟩
      by_cases stays : after.position = here.position
      · have full := counted.repetition_full moving (fun reached _ => below reached) (Nat.le_refl _)
          ends (Or.inr stays)
        refine iff_of_true (fun stop => ?_) (Or.inr (stays ▸ ends))
        rw [full, reaches, and_iff_right (by omega), stays]
      · have moved : Copied _ _ False _ _ _ := .next moving ran success (Or.inr stays)
        obtain ⟨left, rfl⟩ : ∃ left, fuel = left + (count + 1) :=
          ⟨fuel - (count + 1), by have budget := counted.budget; omega⟩
        have onward := fun stop (ends : EndsAt _ stop) => repetition_moves_on inRange free configured
          sealed' range counted.uncommitted ready moved (fun reached _ => below reached) ends
        have opened : Ready input none pending (sequenceStart context) :=
          ready.moved rfl rfl rfl rfl ready.inside
        have forward := (wp_run (eval_advances inRange _ range here
          (copied_ready inRange range opened moving).1) ran fun _ _ => trivial).2.1
        rw [push_child_position] at onward
        refine iff_of_false (fun exact => ?_) ?_
        · have early := onward _ ((exact _).mpr ((reaches _).mpr rfl))
          exact stays (Nat.le_antisymm early forward)
        · rw [ran, fails_returned, ends_at_returned, success]
          rintro (failed | ⟨-, stayed⟩)
          · exact nomatch failed
          · exact stays stayed
    · have fails : Fails (grammar.eval fuel expr here) := by
        rw [ran]
        exact fails_returned.mpr failure
      have missed := counted.repetition_missed moving (fun reached _ => below reached)
        (Nat.le_refl _) fails
      refine iff_of_true (fun stop => ?_) (Or.inl fails)
      rw [missed, reaches, and_iff_right (Nat.lt_irrefl _)]
    · have breaks := counted.repetition_broken moving (fun reached _ => below reached)
        (Nat.le_refl _) broken
      refine iff_of_false (fun exact => breaks _ ((exact _).mpr ((reaches _).mpr rfl))) ?_
      exact fun stops => stops.elim broken.not_fails (broken.not_ends _)
  · refine iff_of_true (fun stop => ?_) (Or.inr ⟨consuming, fun less => absurd less unbounded⟩)
    cases moving with
    | none => exact absurd (Or.inl rfl) unbounded
    | @next count before after result log earlier ran success moved =>
        have full := counted.repetition_full earlier
          (fun _ few => counted.below (Nat.lt_succ_of_le few)) (Nat.le_succ _)
          (by rw [ran]; exact ends_at_returned.mpr ⟨success, rfl⟩)
          (Or.inl ((bound_reached_n_times counted.small _).mpr ⟨unbounded, Nat.le_refl _⟩))
        rw [full, reaches, and_iff_right (Nat.lt_irrefl _), push_child_position]

end Counted

/-- `n * e` agrees with `n` copies of `e` exactly when the count is right. -/
theorem n_times_exact_iff (inRange : InRange grammar) (configured : grammar.skipper = none)
    (free : ScopeFree grammar reach)
    (sealed' : expr.Every fun part => Sealed reach part ∧ MatcherBlind part)
    (range : expr.Every MatcherInRange) (ready : Ready input none pending context)
    (uncommitted : Uncommitted context) (small : count < 2 ^ 64) (budget : count < fuel) :
    Exact grammar fuel expr context count ↔ CountsRight grammar fuel expr context count := by
  have blind : Blind none (grammar.eval fuel expr) := by
    rw [← configured]
    exact eval_blind free fuel sealed'
  have counted : Counted grammar fuel expr context count :=
    ⟨blind, uncommitted, ready.sound.skipper, small, budget⟩
  rcases copied_or_not (grammar.eval fuel expr) context.makeNode.1 (sequenceStart context) count with
    ⟨here, copied⟩ | ⟨earlier, fewer, here, copied, missed⟩
  · rcases copied.first_empty with moving | ⟨empty, inside, there, moving, stays⟩
    · exact counted.exact_after_moving inRange free configured sealed' range ready moving
    · exact counted.exact_after_empty copied inside moving stays
  · have stable := eval_stable grammar fuel expr
    have never : ∀ stop, ¬EndsAt (grammar.eval fuel (copies count expr) context) stop := by
      intro stop ends
      rw [eval_copies] at ends
      rcases missed with fails | broken
      · exact ends_not_fails ends (copies_fail stable counted.skipper copied fewer fails)
      · exact (copies_break stable counted.skipper copied fewer broken).not_ends stop ends
    refine iff_of_true (fun stop => ?_) (Or.inl never)
    exact iff_of_false (counted.short copied fewer missed stop) (never stop)

def ruleless : Grammar UInt8 Unit where
  rules := []

def letter : Expr UInt8 := .terminal (.value 97)

theorem ruleless_scope_free : ScopeFree ruleless fun _ => False := ⟨nofun, fun _ _ => False.elim⟩

theorem letter_free (reach : RuleId → Prop) :
    letter.Every (fun part => Sealed reach part ∧ MatcherBlind part) ∧ letter.Every MatcherInRange := by
  simp [letter, Expr.Every, Sealed, MatcherBlind, MatcherInRange]

theorem letters_twice_exact :
    Exact ruleless 5 letter (Context.fresh (ascii "aa")) 2 ↔
      CountsRight ruleless 5 letter (Context.fresh (ascii "aa")) 2 :=
  n_times_exact_iff (fun _ _ assigned => nomatch assigned) rfl ruleless_scope_free
    (letter_free _).1 (letter_free fun _ => False).2 ⟨⟨rfl, rfl, nofun⟩, Nat.zero_le _, rfl⟩ nofun (by decide)
    (by decide)

/-- `0 * 'a'` goes on as long as there is an 'a'; `2 * -'a'` stops after one empty match
and has matched once too few. -/
theorem count_not_exact :
    (EndsAt (ruleless.eval 5 (copies 0 letter) (Context.fresh (ascii "a"))) 0 ∧
      EndsAt (ruleless.eval 5 (.repetition (.nTimes 0) letter) (Context.fresh (ascii "a"))) 1 ∧
      ¬Exact ruleless 5 letter (Context.fresh (ascii "a")) 0) ∧
    (EndsAt (ruleless.eval 5 (copies 2 (.repetition .optional letter)) (Context.fresh [])) 0 ∧
      Fails (ruleless.eval 5 (.repetition (.nTimes 2) (.repetition .optional letter))
        (Context.fresh [])) ∧
      ¬Exact ruleless 5 (.repetition .optional letter) (Context.fresh []) 2) := by
  have nothing : EndsAt (ruleless.eval 5 (copies 0 letter) (Context.fresh (ascii "a"))) 0 :=
    ⟨_, rfl, rfl, rfl⟩
  have one : EndsAt (ruleless.eval 5 (.repetition (.nTimes 0) letter) (Context.fresh (ascii "a"))) 1 :=
    ⟨_, rfl, rfl, rfl⟩
  have twice : EndsAt (ruleless.eval 5 (copies 2 (.repetition .optional letter))
      (Context.fresh [])) 0 := ⟨_, rfl, rfl, rfl⟩
  have fails : Fails (ruleless.eval 5 (.repetition (.nTimes 2) (.repetition .optional letter))
      (Context.fresh [])) := ⟨_, rfl, rfl⟩
  refine ⟨⟨nothing, one, fun exact => ?_⟩, twice, fails, fun exact => ?_⟩
  · obtain ⟨result, ended, -, stop⟩ := (exact 1).mp one
    exact absurd stop (by decide +kernel)
  · exact ends_not_fails ((exact 0).mpr twice) fails

end Claims

end Peglib.ExactRepetition
