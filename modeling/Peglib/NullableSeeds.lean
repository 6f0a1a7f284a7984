import Peglib.ExactRepetition
import Peglib.Lockstep

/-!
# A seed of no width

`A = (A >> a) | b` grows the match of `b` by matches of `a`, as `b >> *a` does.
The growth loop takes a first match that does not move for a fixed point, so
where `b` matches in place the rule ends there, whatever `a` would match. It
agrees with `b >> *a` exactly where `a` has nothing to add.
-/

namespace Peglib.NullableSeeds

open Peglib.TracedComputation Peglib.WeakestPrecondition Peglib.Preservation Peglib.Coupling
open Peglib.ParseError Peglib.ParseContext Peglib.Expressions Peglib.Rules Peglib.ExpressionSteps
open Peglib.ControlDiscipline Peglib.PegSemantics Peglib.Evaluation Peglib.SuccessfulAnswers
open Peglib.Halting Peglib.Termination Peglib.MemoAnswers Peglib.Repetitions Peglib.ScopeBlindness
open Peglib.ExactRepetition Peglib.Lockstep

set_option autoImplicit false

variable {CharT NodeType : Type}

section Returns

variable {Value Other : Type}

def Returns (parser : Parser CharT Value) (context : Context CharT) (value : Value)
    (last : Context CharT) : Prop :=
  ∃ log, parser context = ⟨.returned value, last, log⟩

theorem returns_bind {first : Parser CharT Value} {next : Value → Parser CharT Other}
    {context middle last : Context CharT} {value : Value} {other : Other}
    (left : Returns first context value middle) (right : Returns (next value) middle other last) :
    Returns (first >>= next) context other last := by
  obtain ⟨log, run⟩ := left
  obtain ⟨log', run'⟩ := right
  rw [Returns, Comp.bind_returned run, run']
  exact ⟨_, rfl⟩

theorem returns_guarded {body : Parser CharT Value} {cleanup : Context CharT → Context CharT}
    {context last : Context CharT} {value : Value} (inside : Returns body context value last) :
    Returns (Comp.guarded body cleanup) context value (cleanup last) := by
  obtain ⟨log, run⟩ := inside
  rw [Returns, Comp.guarded, run]
  exact ⟨_, rfl⟩

end Returns

section Alike

variable {reach : RuleId → Prop} {nearBase farBase : List LRFrame} {depth : Nat}
  {left right : Run (Moment CharT) (Context CharT) Exn ParseResult}

theorem ends_alike
    (alike : EndAlike (SameAnswers reach nearBase farBase depth) SameSuccess left right) (stop : Nat) :
    (EndsAt left stop ↔ EndsAt right stop) ∧ (Fails left ↔ Fails right) ∧
      (Broken left ↔ Broken right) := by
  rcases left with ⟨outcome, near, log⟩
  rcases right with ⟨outcome', far, log'⟩
  unfold EndAlike at alike
  cases outcome with
  | returned result =>
      cases outcome' with
      | returned result' =>
          obtain ⟨same, states⟩ := alike
          rw [ends_at_returned, ends_at_returned, fails_returned, fails_returned, same,
            states.position]
          exact ⟨Iff.rfl, Iff.rfl, iff_of_false (fun broken => broken _ rfl) fun broken => broken _ rfl⟩
      | thrown _ | exhausted => exact alike.elim
  | thrown exn =>
      cases outcome' with
      | thrown exn' =>
          have near : Broken (⟨.thrown exn, near, log⟩ : Run _ _ Exn ParseResult) := nofun
          have far : Broken (⟨.thrown exn', far, log'⟩ : Run _ _ Exn ParseResult) := nofun
          exact ⟨iff_of_false (near.not_ends stop) (far.not_ends stop),
            iff_of_false near.not_fails far.not_fails, iff_of_true near far⟩
      | returned _ | exhausted => exact alike.elim
  | exhausted =>
      cases outcome' with
      | exhausted =>
          have near : Broken (⟨.exhausted, near, log⟩ : Run _ _ Exn ParseResult) := nofun
          have far : Broken (⟨.exhausted, far, log'⟩ : Run _ _ Exn ParseResult) := nofun
          exact ⟨iff_of_false (near.not_ends stop) (far.not_ends stop),
            iff_of_false near.not_fails far.not_fails, iff_of_true near far⟩
      | returned _ | thrown _ => exact alike.elim

theorem mirrored_end
    (alike : EndAlike (SameAnswers reach nearBase farBase depth) SameSuccess left right) {stop : Nat}
    (ends : EndsAt right stop) :
    ∃ result last log, left = ⟨.returned result, last, log⟩ ∧ result.success = true ∧
      last.position = stop ∧ SameAnswers reach nearBase farBase depth last right.state := by
  rcases left with ⟨outcome, near, log⟩
  rcases right with ⟨outcome', far, log'⟩
  obtain ⟨result', rfl, success, rfl⟩ := ends
  unfold EndAlike at alike
  cases outcome with
  | returned result =>
      exact ⟨result, near, log, rfl, alike.1.trans success, alike.2.position, alike.2⟩
  | thrown _ | exhausted => exact alike.elim

end Alike

section Families

variable [PegValue CharT] {grammar : Grammar CharT NodeType} {expr : Expr CharT}
  {context : Context CharT} {fuel fuel' stop : Nat}

omit [PegValue CharT] in
theorem finished_of_returned {run : Run (Moment CharT) (Context CharT) Exn ParseResult} {result : ParseResult}
    (ended : run.outcome = .returned result) : run.outcome ≠ .exhausted := by
  rw [ended]
  exact nofun

omit [PegValue CharT] in
theorem ends_extends {small large : Parser CharT ParseResult} (extended : Extends small large)
    (ends : EndsAt (small context) stop) : EndsAt (large context) stop := by
  obtain ⟨result, ended, rest⟩ := ends
  rw [← extended.run_eq (finished_of_returned ended)]
  exact ⟨result, ended, rest⟩

omit [PegValue CharT] in
theorem fails_extends {small large : Parser CharT ParseResult} (extended : Extends small large)
    (fails : Fails (small context)) : Fails (large context) := by
  obtain ⟨result, ended, rest⟩ := fails
  rw [← extended.run_eq (finished_of_returned ended)]
  exact ⟨result, ended, rest⟩

omit [PegValue CharT] in
theorem ends_unique {run : Run (Moment CharT) (Context CharT) Exn ParseResult} {stop stop' : Nat}
    (left : EndsAt run stop) (right : EndsAt run stop') : stop = stop' := by
  obtain ⟨_, _, _, rfl⟩ := left
  obtain ⟨_, _, _, rfl⟩ := right
  rfl

end Families

section Sequences

variable [PegValue CharT] {grammar : Grammar CharT NodeType} {reach : RuleId → Prop}
  {first second : Expr CharT} {context here : Context CharT} {result : ParseResult} {fuel : Nat}

theorem pair_after_first (off : here.skipper = none) (off' : context.skipper = none)
    (ran : Returns (grammar.eval fuel first) (sequenceStart context) result here)
    (success : result.success = true) (stop : Nat) :
    (EndsAt (grammar.eval fuel (.sequence [first, second]) context) stop ↔
      EndsAt (grammar.eval fuel second (pushChild context.makeNode.1 result.tree here)) stop) ∧
    (Fails (grammar.eval fuel (.sequence [first, second]) context) ↔
      Fails (grammar.eval fuel second (pushChild context.makeNode.1 result.tree here))) := by
  obtain ⟨log, ran⟩ := ran
  have off'' : (pushChild context.makeNode.1 result.tree here).skipper = none := by
    rw [push_child_skipper]
    exact off
  have started : (sequenceStart context).skipper = none := off'
  have pair : grammar.eval fuel (.sequence [first, second]) =
      SequenceExpr.parse (runSkipper (grammar.apply fuel))
        [grammar.eval fuel first, grammar.eval fuel second] := by
    unfold Grammar.eval
    rw [Expr.parse, Expr.parse_all_eq_map]
    rfl
  have reached : SameEnd (SequenceExpr.parseSeq (runSkipper (grammar.apply fuel)) context.makeNode.1 0
      [grammar.eval fuel first, grammar.eval fuel second] (sequenceStart context)) _ :=
    seq_step started ran
  rw [if_pos success] at reached
  rw [pair]
  rcases run_cases (grammar.eval fuel second (pushChild context.makeNode.1 result.tree here)) with
    ⟨result', after, log', ran', success'⟩ | ⟨result', after, log', ran', failure⟩ | broken
  · have step := reached.trans (seq_step off'' ran')
    rw [if_pos success'] at step
    have whole := (sequence_after_seq step).1 _ rfl rfl
    rw [ends_iff whole, fails_iff whole, ran', ends_at_returned, ends_at_returned, fails_returned,
      fails_returned, success']
    refine ⟨and_congr Iff.rfl ?_, Iff.rfl⟩
    change (pushChild _ _ after).position = stop ↔ after.position = stop
    rw [push_child_position]
  · have step := reached.trans (seq_step off'' ran')
    rw [if_neg (by rw [failure]; exact Bool.false_ne_true)] at step
    have fails := (sequence_after_seq step).2.1 rfl
    have fails' : Fails (grammar.eval fuel second (pushChild context.makeNode.1 result.tree here)) := by
      rw [ran']
      exact fails_returned.mpr failure
    exact ⟨iff_of_false (fun ends => ends_not_fails ends fails) fun ends => ends_not_fails ends fails',
      iff_of_true fails fails'⟩
  · have breaks : Broken (SequenceExpr.parse (runSkipper (grammar.apply fuel))
        [grammar.eval fuel first, grammar.eval fuel second] context) := by
      refine (sequence_after_seq reached).2.2 ?_
      rw [SequenceExpr.parseSeq]
      exact Broken.of_end (Broken.bind broken) (bind_end (skip_off _ off''))
    exact ⟨iff_of_false (breaks.not_ends stop) (broken.not_ends stop),
      iff_of_false breaks.not_fails broken.not_fails⟩

end Sequences

section Claims

variable [PegValue CharT]

/-- `A = (A >> a) | b` over expressions that do not get to `A`, without a skipper. -/
structure GrowsBy (grammar : Grammar CharT NodeType) (reach : RuleId → Prop) (head : RuleId)
    (a b : Expr CharT) : Prop where
  skipper : grammar.skipper = none
  rules : EnclosedRules grammar reach
  body : grammar.body head = some (.alternation [.sequence [.rule head, a], b])
  other : ¬reach head
  step : a.Every (Enclosed reach)
  seed : b.Every (Enclosed reach)

/-- A fresh context at a position. -/
def standing (input : List CharT) (pos : Nat) : Context CharT :=
  { Context.fresh input with position := pos }

variable {grammar : Grammar CharT NodeType} {reach : RuleId → Prop} {head : RuleId}
  {a b : Expr CharT} {input : List CharT} {pos : Nat}

omit [PegValue CharT] in
theorem pure_matcher_blind {part : Expr CharT} (pure : MatcherPure part) : MatcherBlind part := by
  cases part with
  | matcher fn => exact fun context scopes span _ => pure.pure _ _ span rfl rfl
  | _ => trivial

omit [PegValue CharT] in
theorem enclosed_blind {expr : Expr CharT} (enclosed : expr.Every (Enclosed reach)) :
    (expr.Every fun part => Sealed reach part ∧ MatcherBlind part) ∧ expr.Every MatcherInRange := by
  refine ⟨enclosed.mono fun part inside => ⟨inside.1, pure_matcher_blind inside.2⟩,
    enclosed.mono fun part inside => ?_⟩
  cases part with
  | matcher fn => exact inside.2.in_range
  | _ => trivial

omit [PegValue CharT] in
theorem GrowsBy.scope_free (grows : GrowsBy grammar reach head a b) : ScopeFree grammar reach where
  skipper rule set := by
    rw [grows.skipper] at set
    cases set
  bodies rule body inside assigned := (enclosed_blind (grows.rules rule body inside assigned)).1

/-- The memo with nothing but the failing seed of the rule. -/
def seedMemo (head : RuleId) (pos : Nat) : Memo :=
  fun pos' rule => if pos' = pos ∧ rule = head then some ⟨pos, {}⟩ else none

/-- A context in which the body of the rule is evaluated: its frame says whether it has
been found in progress. -/
structure Planted (head : RuleId) (input : List CharT) (pos : Nat) (noticed : Bool)
    (context : Context CharT) : Prop where
  source : context.input = input
  position : context.position = pos
  skipper : context.skipper = none
  scopes : Uncommitted context
  mem : context.mem = seedMemo head pos
  lrStack : context.lrStack = [⟨head, pos, pos, noticed⟩]

omit [PegValue CharT] in
theorem Planted.alike {noticed : Bool} {context : Context CharT}
    (planted : Planted head input pos noticed context) (other : ¬reach head) :
    SameAnswers reach [⟨head, pos, pos, noticed⟩] [] 0 context (standing input pos) where
  source := planted.source
  position := planted.position
  nearSkipper := planted.skipper
  farSkipper := rfl
  nearScopes := planted.scopes
  farScopes := nofun
  rows pos' rule inside := by
    rw [planted.mem, seedMemo, if_neg fun both : pos' = pos ∧ rule = head => other (both.2 ▸ inside)]
    exact .none
  frames := ⟨[], rfl, planted.lrStack, rfl⟩

/-- The rule fails where it is applied in its own body for the first time. -/
theorem inner_fails (grammar : Grammar CharT NodeType) {fuel : Nat} {context : Context CharT}
    (position : context.position = pos) (mem : context.mem pos head = some ⟨pos, {}⟩) :
    Returns (grammar.apply (fuel + 1) head) context ⟨false, none⟩
      ((if context.lrInProgress head pos then context.markHead head pos else context).reset pos) := by
  subst position
  rw [Returns, Grammar.apply, parse_hit _ _ _ mem, PlantedSeeds.replay_run mem]
  exact ⟨_, rfl⟩

/-- The first branch fails on the seed, and the rule is found in progress. -/
theorem first_branch_fails (grammar : Grammar CharT NodeType) (step : Parser CharT ParseResult)
    {fuel : Nat} {context : Context CharT} (planted : Planted head input pos false context) :
    ∃ last, Returns (SequenceExpr.parse (runSkipper (grammar.apply (fuel + 1)))
      [grammar.apply (fuel + 1) head, step]) context ⟨false, none⟩ last ∧
      Planted head input pos true last := by
  have held : (sequenceStart context).mem pos head = some ⟨pos, {}⟩ := by
    change context.mem pos head = _
    rw [planted.mem]
    exact if_pos ⟨rfl, rfl⟩
  have stack : (sequenceStart context).lrStack = [⟨head, pos, pos, false⟩] := planted.lrStack
  have progress : (sequenceStart context).lrInProgress head pos = true := by
    unfold Context.lrInProgress
    rw [stack]
    simp [LRFrame.isOf]
  have inner := @inner_fails _ _ _ _ _ grammar fuel (sequenceStart context) planted.position held
  rw [if_pos progress] at inner
  have missed : Returns (SequenceExpr.parseSeq (runSkipper (grammar.apply (fuel + 1)))
      context.makeNode.1 0 [grammar.apply (fuel + 1) head, step]) (sequenceStart context) false
      (((sequenceStart context).markHead head pos).reset pos) := by
    rw [SequenceExpr.parseSeq]
    exact returns_bind ⟨[], rfl⟩ (returns_bind inner ⟨[], rfl⟩)
  refine ⟨(((sequenceStart context).markHead head pos).reset pos).reset context.position, ?_, ?_⟩
  · rw [SequenceExpr.parse]
    refine returns_bind ⟨[], rfl⟩ (returns_bind ⟨[], rfl⟩ (returns_bind ⟨[], rfl⟩ ?_))
    exact returns_bind missed ⟨[], rfl⟩
  · have marked : (sequenceStart context).markHead head pos =
        { sequenceStart context with
          lrStack := [⟨head, pos, pos, true⟩]
          growingHead := fun pos' => if pos' = pos then some head else context.growingHead pos' } := by
      unfold Context.markHead
      rw [stack]
      simp [LRFrame.isOf, Context.markFrame]
      rfl
    rw [marked]
    exact ⟨planted.source, planted.position, planted.skipper, planted.scopes, planted.mem, rfl⟩

omit [PegValue CharT] in
theorem raise_returns {context : Context CharT} (uncommitted : Uncommitted context) :
    Returns (raiseIfCommitted : Parser CharT Unit) context () context := by
  rw [Returns, raise_run, uncommitted.cut_eq, if_neg Bool.false_ne_true]
  exact ⟨_, rfl⟩

/-- The body matches in place, by its second branch. -/
theorem body_stays (grows : GrowsBy grammar reach head a b) {fuel : Nat} {context : Context CharT}
    (planted : Planted head input pos false context)
    (zero : EndsAt (grammar.eval (fuel + 1) b (standing input pos)) pos) :
    ∃ result last, Returns (grammar.eval (fuel + 1) (.alternation [.sequence [.rule head, a], b]))
        context result last ∧
      result.success = true ∧ last.position = pos ∧ last.lrStack = [⟨head, pos, pos, true⟩] := by
  have opened : Planted head input pos false context.initCut :=
    ⟨planted.source, planted.position, planted.skipper,
      (init_cut_unseen context planted.scopes).scopes planted.scopes, planted.mem, planted.lrStack⟩
  obtain ⟨failed, missed, noticed⟩ :=
    @first_branch_fails _ _ _ _ _ _ grammar (grammar.eval (fuel + 1) a) fuel _ opened
  have frameOther : ∀ frame ∈ [(⟨head, pos, pos, true⟩ : LRFrame)], ¬reach frame.rule := by
    intro frame member
    rw [List.mem_singleton.mp member]
    exact grows.other
  have alike := eval_steady grows.rules frameOther (by simp) (fuel + 1) 0 grows.seed failed
    (standing input pos) (noticed.alike grows.other)
  obtain ⟨result, last, log, ran, success, position, states⟩ := mirrored_end alike zero
  have stamped := stamp_winner_unseen result.tree 1 last states.nearScopes
  have closed := remove_cut_unseen _ (stamped.scopes states.nearScopes)
  refine ⟨result, (stampWinner result.tree 1 last).removeCut, ?_, success, ?_, ?_⟩
  · unfold Grammar.eval
    rw [Expr.parse, Expr.parse_all_eq_map, List.map_cons, List.map_cons, Expr.parse,
      Expr.parse_all_eq_map]
    refine returns_bind ⟨[], rfl⟩ (returns_guarded ?_)
    rw [AlternationExpr.parseAlt]
    refine returns_bind missed ?_
    refine returns_bind (raise_returns noticed.scopes) (returns_bind ⟨log, ran⟩ ?_)
    rw [if_pos success]
    exact returns_bind ⟨[], rfl⟩ ⟨[], rfl⟩
  · have stampedAt : (stampWinner result.tree 1 last).position = last.position := by
      cases result.tree <;> rfl
    rw [remove_cut_position, stampedAt, position]
  · obtain ⟨own, empty, stack, -⟩ := states.frames
    obtain rfl := List.length_eq_zero_iff.mp empty
    rw [closed.lrStack, stamped.lrStack, stack, List.nil_append]

omit [PegValue CharT] in
theorem build_node_returns (nonTerminal : NonTerminal CharT NodeType) (rule : RuleId) (startPos : Nat)
    (inner : Option NodePtr) (context : Context CharT) :
    ∃ node last, Returns (NonTerminal.buildNode nonTerminal rule startPos inner) context node last ∧
      last.position = context.position := by
  unfold NonTerminal.buildNode
  cases nonTerminal.typedFold with
  | some action =>
      refine ⟨_, _, returns_bind ⟨[], rfl⟩ (returns_bind ⟨[], rfl⟩ (returns_bind ⟨[], rfl⟩ ⟨[], rfl⟩)), ?_⟩
      rw [push_child_position]
      rfl
  | none =>
      cases inner with
      | none => exact ⟨_, _, returns_bind ⟨[], rfl⟩ (returns_bind ⟨[], rfl⟩ ⟨[], rfl⟩), rfl⟩
      | some node => exact ⟨_, _, returns_bind ⟨[], rfl⟩ (returns_bind ⟨[], rfl⟩ ⟨[], rfl⟩), rfl⟩

omit [PegValue CharT] in
/-- A first match that does not move is the result of the growth. -/
theorem growth_stays {body : Parser CharT ParseResult} {fuel : Nat} {context after : Context CharT}
    {result : ParseResult} (ran : Returns body (context.reset pos) result after) (success : result.success = true)
    (position : after.position = pos) (lrStack : after.lrStack = [⟨head, pos, pos, true⟩]) :
    ∃ grown last, Returns (NonTerminal.growLoop head pos body (fuel + 1) {} ⟨pos, {}⟩) context grown last ∧
      grown.1.success = true ∧ last.lrStack = [⟨head, pos, pos, true⟩] := by
  have lastPos : (NonTerminal.frame after).lastPos = pos := by
    unfold NonTerminal.frame
    rw [lrStack]
    rfl
  have cleared : Returns (Comp.onlyIf ((NonTerminal.frame (context.reset pos)).isHead = true ∧
      ({} : ParseResult).success = true)
        (Comp.modify fun context => context.clearSiblingsAt pos head) : Parser CharT Unit)
      (context.reset pos) () (context.reset pos) := by
    rw [Comp.onlyIf, if_neg (fun both => Bool.false_ne_true both.2)]
    exact ⟨[], rfl⟩
  have stored : Returns (NonTerminal.store head pos ⟨pos, result⟩) after
      (after.updateRuleState head pos ⟨pos, result⟩).1
      (after.updateRuleState head pos ⟨pos, result⟩).2 := ⟨_, rfl⟩
  refine ⟨(result, ⟨pos, result⟩), (after.updateRuleState head pos ⟨pos, result⟩).2, ?_, success, ?_⟩
  · rw [NonTerminal.growLoop]
    refine returns_bind ⟨[], rfl⟩ (returns_bind ⟨[], rfl⟩ (returns_bind cleared (returns_bind ran ?_)))
    refine returns_bind ⟨[], rfl⟩ ?_
    dsimp only [id]
    rw [if_pos success, lastPos, if_neg (by rw [position]; exact Nat.lt_irrefl _)]
    exact returns_bind stored ⟨[], rfl⟩
  · rw [(update_framed after head pos ⟨pos, result⟩).2.1, lrStack]

/-- The rule as it is entered: its row and its frame. -/
def enteredHead (head : RuleId) (input : List CharT) (pos : Nat) : Context CharT :=
  { standing input pos with
    mem := Memo.write (fun _ _ => none) pos head {}
    lrStack := [⟨head, pos, pos, false⟩] }

omit [PegValue CharT] in
theorem seed_planted :
    Planted head input pos false
      (((enteredHead head input pos).updateRuleState head pos ⟨pos, {}⟩).2.reset pos) := by
  have held : (enteredHead head input pos).mem pos head = some {} := if_pos ⟨rfl, rfl⟩
  unfold Context.updateRuleState
  rw [held]
  refine ⟨rfl, rfl, rfl, nofun, ?_, rfl⟩
  funext pos' rule
  change (Memo.write (fun _ _ => none) pos head {}).write pos head ⟨pos, {}⟩ pos' rule = _
  unfold Memo.write seedMemo
  split_ifs <;> rfl

theorem head_stays (grows : GrowsBy grammar reach head a b) {fuel : Nat}
    (zero : EndsAt (grammar.eval (fuel + 1) b (standing input pos)) pos) :
    EndsAt (grammar.apply (fuel + 2) head (standing input pos)) pos := by
  obtain ⟨result, after, ran, success, position, lrStack⟩ := body_stays grows seed_planted zero
  obtain ⟨grown, last, loop, matched, stack⟩ :=
    @growth_stays CharT head pos _ fuel _ _ _ ran success position lrStack
  have lastPos : (NonTerminal.frame last).lastPos = pos := by
    unfold NonTerminal.frame
    rw [stack]
    rfl
  have implemented : Returns (NonTerminal.parseImpl head pos
      (some (grammar.eval (fuel + 1) (.alternation [.sequence [.rule head, a], b]))) (fuel + 1))
      (enteredHead head input pos) grown (last.reset (NonTerminal.frame last).lastPos) := by
    refine returns_bind ⟨_, rfl⟩ (returns_bind loop ?_)
    exact returns_bind ⟨[], rfl⟩ ⟨[], rfl⟩
  have invoked : Returns (NonTerminal.invoke head pos
      (some (grammar.eval (fuel + 1) (.alternation [.sequence [.rule head, a], b]))) (fuel + 1))
      { standing input pos with mem := Memo.write (fun _ _ => none) pos head {} } grown
      (NonTerminal.leave pos (last.reset (NonTerminal.frame last).lastPos)) := by
    refine returns_bind ⟨[], rfl⟩ (returns_bind implemented ?_)
    exact returns_bind ⟨[], rfl⟩ ⟨[], rfl⟩
  have left := (PlantedSeeds.leave_kept pos (last.reset (NonTerminal.frame last).lastPos)).2.2.2.2
  obtain ⟨node, built, builds, still⟩ := build_node_returns (grammar.nonTerminal head) head pos
    grown.1.tree (NonTerminal.leave pos (last.reset (NonTerminal.frame last).lastPos))
  have applied : Returns (grammar.apply (fuel + 2) head) (standing input pos) ⟨true, some node⟩
      (built.updateRuleState head pos ⟨grown.2.lastPos, ⟨true, some node⟩⟩).2 := by
    rw [Grammar.apply, grows.body, Option.map_some, NonTerminal.parse]
    refine returns_bind ⟨_, rfl⟩ (returns_bind ⟨[], rfl⟩ (returns_bind ⟨[], rfl⟩ ?_))
    refine returns_bind invoked ?_
    rw [if_pos matched]
    exact returns_bind builds (returns_bind ⟨_, rfl⟩ ⟨[], rfl⟩)
  obtain ⟨log, applied⟩ := applied
  rw [applied, ends_at_returned, (update_framed built head pos _).2.2, still, left]
  exact ⟨rfl, lastPos⟩

omit [PegValue CharT] in
theorem sequence_start_alike {context : Context CharT} (off : context.skipper = none)
    (uncommitted : Uncommitted context) (outside : context.lrStack = []) :
    SameAnswers reach [] [] 0 (sequenceStart context) context where
  source := rfl
  position := rfl
  nearSkipper := off
  farSkipper := off
  nearScopes := uncommitted
  farScopes := uncommitted
  rows pos' rule _ := by
    change Option.Rel RowsAgree (context.mem pos' rule) (context.mem pos' rule)
    cases context.mem pos' rule with
    | none => exact .none
    | some row => exact .some ⟨rfl, rfl⟩
  frames := ⟨[], rfl, outside, outside⟩

/-- A starred expression stays where it is exactly if the expression fails there or
matches in place. -/
theorem star_stays_iff (grows : GrowsBy grammar reach head a b) (inRange : InRange grammar)
    {context : Context CharT} (ready : Ready input none [] context) (uncommitted : Uncommitted context)
    (outside : context.lrStack = []) (fuel : Nat) :
    EndsAt (grammar.eval (fuel + 1) (.repetition .zeroOrMore a) context) context.position ↔
      Fails (grammar.eval (fuel + 1) a context) ∨
        EndsAt (grammar.eval (fuel + 1) a context) context.position := by
  have off : context.skipper = none := ready.sound.skipper
  have blind : Blind none (grammar.eval (fuel + 1) a) := by
    rw [← grows.skipper]
    exact eval_blind grows.scope_free _ (enclosed_blind grows.step).1
  have alike := ends_alike (eval_steady grows.rules (by simp) (by simp) (fuel + 1) 0 grows.step _ _
    (sequence_start_alike off uncommitted outside))
  have below : ∀ earlier, earlier ≤ 0 → boundReached (-1) earlier = false :=
    fun earlier _ => not_bound_reached (by decide) earlier
  have start : Copied (grammar.eval (fuel + 1) a) context.makeNode.1 False (sequenceStart context) 0
      (sequenceStart context) := .none
  rw [← (alike 0).2.1, ← (alike _).1]
  rcases run_cases (grammar.eval (fuel + 1) a (sequenceStart context)) with
    ⟨result, after, log, ran, success⟩ | ⟨result, after, log, ran, failure⟩ | broken
  · have ends : EndsAt (grammar.eval (fuel + 1) a (sequenceStart context)) after.position := by
      rw [ran]
      exact ends_at_returned.mpr ⟨success, rfl⟩
    by_cases stays : after.position = context.position
    · refine iff_of_true ?_ (Or.inr (stays ▸ ends))
      exact (repetition_full blind uncommitted off start below fuel ends (Or.inr stays) _).mpr
        ⟨Nat.not_lt_zero _, stays⟩
    · have moved : Copied _ _ False _ _ _ := .next start ran success (Or.inr stays)
      have opened : Ready input none [] (sequenceStart context) :=
        ready.moved rfl rfl rfl rfl ready.inside
      have forward := (wp_run (eval_advances inRange _ (enclosed_blind grows.step).2 _ opened) ran
        fun _ _ => trivial).2.1
      refine iff_of_false (fun starred => ?_) ?_
      · have onward := repetition_moves_on inRange grows.scope_free grows.skipper
          (enclosed_blind grows.step).1 (enclosed_blind grows.step).2 uncommitted ready moved
          (fun earlier _ => not_bound_reached (by decide) earlier) starred
        rw [push_child_position] at onward
        exact stays (Nat.le_antisymm onward forward)
      · rintro (fails | stayed)
        · exact ends_not_fails ends fails
        · exact stays (ends_unique ends stayed)
  · have fails : Fails (grammar.eval (fuel + 1) a (sequenceStart context)) := by
      rw [ran]
      exact fails_returned.mpr failure
    refine iff_of_true ?_ (Or.inl fails)
    exact (repetition_missed blind uncommitted off start below fuel fails _).mpr
      ⟨Nat.not_lt_zero _, rfl⟩
  · have breaks : Broken (grammar.eval (fuel + 1) (.repetition .zeroOrMore a) context) :=
      repetition_broken blind uncommitted off start below fuel broken
    refine iff_of_false (breaks.not_ends _) ?_
    exact fun stops => stops.elim broken.not_fails (broken.not_ends _)

/-- Where `b` matches in place, `A = (A >> a) | b` ends where `b >> *a` does exactly if
`a` fails after that match or matches in place. -/
theorem nullable_seed_grows_iff (grows : GrowsBy grammar reach head a b) (inRange : InRange grammar)
    (inside : pos ≤ input.length) (zero : ∃ fuel, EndsAt (grammar.eval fuel b (standing input pos)) pos) :
    (∀ stop, (∃ fuel, EndsAt (grammar.apply fuel head (standing input pos)) stop) ↔
      ∃ fuel, EndsAt (grammar.eval fuel (.sequence [b, .repetition .zeroOrMore a])
        (standing input pos)) stop) ↔
    ∃ fuel, Fails (grammar.eval fuel (.sequence [b, a]) (standing input pos)) ∨
      EndsAt (grammar.eval fuel (.sequence [b, a]) (standing input pos)) pos := by
  obtain ⟨enough, zero⟩ := zero
  have extend : ∀ (expr : Expr CharT) {fuel fuel' stop : Nat}, fuel ≤ fuel' →
      EndsAt (grammar.eval fuel expr (standing input pos)) stop →
      EndsAt (grammar.eval fuel' expr (standing input pos)) stop :=
    fun expr _ _ _ larger => ends_extends (eval_extends grammar expr larger)
  have quiet : Uncommitted (standing input pos) := nofun
  have key : ∀ fuel, enough + 1 ≤ fuel →
      (EndsAt (grammar.eval fuel (.sequence [b, .repetition .zeroOrMore a]) (standing input pos)) pos ↔
        Fails (grammar.eval fuel (.sequence [b, a]) (standing input pos)) ∨
          EndsAt (grammar.eval fuel (.sequence [b, a]) (standing input pos)) pos) := by
    intro fuel larger
    have zero' := extend b (Nat.le_of_succ_le larger) zero
    obtain ⟨result, last, log, ran, success, position, states⟩ := mirrored_end
      (eval_steady grows.rules (by simp) (by simp) fuel 0 grows.seed _ _
        (sequence_start_alike rfl quiet rfl)) zero'
    have opened : Ready input none [] (sequenceStart (standing input pos)) :=
      ⟨⟨rfl, rfl, nofun⟩, inside, rfl⟩
    have ready := (wp_run (eval_advances inRange _ (enclosed_blind grows.seed).2 _ opened) ran
      fun _ _ => trivial).1
    obtain ⟨own, empty, stack, -⟩ := states.frames
    obtain rfl := List.length_eq_zero_iff.mp empty
    have pushed := push_child_unseen (standing input pos).makeNode.1 result.tree last states.nearScopes
    have after : ∀ second : Expr CharT,
        (EndsAt (grammar.eval fuel (.sequence [b, second]) (standing input pos)) pos ↔ _) ∧
          (Fails (grammar.eval fuel (.sequence [b, second]) (standing input pos)) ↔ _) :=
      fun _ => pair_after_first states.nearSkipper rfl ⟨log, ran⟩ success pos
    have here : (pushChild (standing input pos).makeNode.1 result.tree last).position = pos := by
      rw [push_child_position, position]
    have readyHere := ready.moved pushed.input pushed.mem pushed.lrStack pushed.skipper
      (by rw [here]; exact inside)
    obtain ⟨left, rfl⟩ : ∃ left, fuel = left + 1 := ⟨fuel - 1, by omega⟩
    have stays := star_stays_iff grows inRange readyHere (pushed.scopes states.nearScopes)
      (pushed.lrStack.trans stack) left
    rw [here] at stays
    rw [(after _).1, (after a).1, (after a).2, stays]
  have heads : ∀ stop, (∃ fuel, EndsAt (grammar.apply fuel head (standing input pos)) stop) ↔
      pos = stop := by
    intro stop
    have stayed := head_stays grows (extend b (Nat.le_succ enough) zero)
    constructor
    · rintro ⟨fuel, ends⟩
      have left := ends_extends (apply_extends grammar head (Nat.le_max_left fuel (enough + 2))) ends
      have right := ends_extends (apply_extends grammar head (Nat.le_max_right fuel (enough + 2))) stayed
      exact ends_unique right left
    · rintro rfl
      exact ⟨_, stayed⟩
  constructor
  · intro same
    obtain ⟨fuel, ends⟩ := (same pos).mp ((heads pos).mpr rfl)
    exact ⟨_, (key _ (Nat.le_max_right fuel (enough + 1))).mp
      (extend _ (Nat.le_max_left fuel (enough + 1)) ends)⟩
  · rintro ⟨fuel, stops⟩ stop
    have ends := (key _ (Nat.le_max_right fuel (enough + 1))).mpr (stops.imp
      (fails_extends (eval_extends grammar _ (Nat.le_max_left fuel (enough + 1))))
      (extend _ (Nat.le_max_left fuel (enough + 1))))
    rw [heads]
    constructor
    · rintro rfl
      exact ⟨_, ends⟩
    · rintro ⟨fuel', ends'⟩
      exact ends_unique (extend _ (Nat.le_max_left _ fuel') ends)
        (extend _ (Nat.le_max_right _ fuel') ends')

/-- `A = (A >> 'a') | empty`. -/
def emptySeed : Grammar UInt8 Unit where
  rules := [(ascii "A", { body := some (.alternation [.sequence [.rule 0, letter], .empty]) })]

theorem empty_seed_in_range : InRange emptySeed := by
  intro rule body assigned
  cases rule with
  | zero =>
      obtain rfl := Option.some.inj assigned
      simp [letter, Expr.Every, Expr.EveryAll, MatcherInRange]
  | succ rule => cases assigned

theorem empty_seed_grows_by : GrowsBy emptySeed (fun _ => False) 0 letter .empty where
  skipper := rfl
  rules _ _ := False.elim
  body := rfl
  other := id
  step := by simp [letter, Expr.Every, Enclosed, Sealed, MatcherPure]
  seed := by simp [Expr.Every, Enclosed, Sealed, MatcherPure]

/-- On "aa", where an `'a'` follows the seed, and on "b", where none does. -/
theorem empty_seed_grows :
    ((∀ stop, (∃ fuel, EndsAt (emptySeed.apply fuel 0 (standing (ascii "aa") 0)) stop) ↔
        ∃ fuel, EndsAt (emptySeed.eval fuel (.sequence [.empty, .repetition .zeroOrMore letter])
          (standing (ascii "aa") 0)) stop) ↔
      ∃ fuel, Fails (emptySeed.eval fuel (.sequence [.empty, letter]) (standing (ascii "aa") 0)) ∨
        EndsAt (emptySeed.eval fuel (.sequence [.empty, letter]) (standing (ascii "aa") 0)) 0) ∧
    ((∀ stop, (∃ fuel, EndsAt (emptySeed.apply fuel 0 (standing (ascii "b") 0)) stop) ↔
        ∃ fuel, EndsAt (emptySeed.eval fuel (.sequence [.empty, .repetition .zeroOrMore letter])
          (standing (ascii "b") 0)) stop) ↔
      ∃ fuel, Fails (emptySeed.eval fuel (.sequence [.empty, letter]) (standing (ascii "b") 0)) ∨
        EndsAt (emptySeed.eval fuel (.sequence [.empty, letter]) (standing (ascii "b") 0)) 0) :=
  ⟨nullable_seed_grows_iff empty_seed_grows_by empty_seed_in_range (Nat.zero_le _)
      ⟨1, ⟨true, none⟩, rfl, rfl, rfl⟩,
    nullable_seed_grows_iff empty_seed_grows_by empty_seed_in_range (Nat.zero_le _)
      ⟨1, ⟨true, none⟩, rfl, rfl, rfl⟩⟩

/-- On "aa" the rule ends where it starts, and `empty >> *'a'` at the end. -/
theorem empty_seed_stays :
    EndsAt (emptySeed.apply 4 0 (standing (ascii "aa") 0)) 0 ∧
      EndsAt (emptySeed.eval 4 (.sequence [.empty, .repetition .zeroOrMore letter])
        (standing (ascii "aa") 0)) 2 ∧
      ¬∀ stop, (∃ fuel, EndsAt (emptySeed.apply fuel 0 (standing (ascii "aa") 0)) stop) ↔
        ∃ fuel, EndsAt (emptySeed.eval fuel (.sequence [.empty, .repetition .zeroOrMore letter])
          (standing (ascii "aa") 0)) stop := by
  have stays : EndsAt (emptySeed.apply 4 0 (standing (ascii "aa") 0)) 0 := ⟨_, rfl, rfl, rfl⟩
  have goes : EndsAt (emptySeed.eval 4 (.sequence [.empty, .repetition .zeroOrMore letter])
      (standing (ascii "aa") 0)) 2 := ⟨_, rfl, rfl, rfl⟩
  refine ⟨stays, goes, fun same => ?_⟩
  obtain ⟨fuel, ends⟩ := (same 0).mp ⟨4, stays⟩
  have left := ends_extends (eval_extends emptySeed _ (Nat.le_max_left fuel 4)) ends
  have right := ends_extends (eval_extends emptySeed _ (Nat.le_max_right fuel 4)) goes
  exact absurd (ends_unique left right) (by decide)

end Claims

end Peglib.NullableSeeds
