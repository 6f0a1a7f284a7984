import Peglib.PegSemantics
import Peglib.ControlDiscipline

/-!
# Expressions evaluate to their meaning

Whatever is known of the answers of rule applications, as a relation `call`,
the parse of an expression answers as the memo-free semantics does over that
relation. The invariant of the context is a parameter: it may speak of the memo,
the invocation stack and the cut scopes, and has to survive the closing of a
scope.
-/

namespace Peglib.Evaluation

open Peglib.TracedComputation Peglib.WeakestPrecondition Peglib.Preservation
open Peglib.ParseError Peglib.ParseError.Errors Peglib.ParseContext Peglib.Expressions
open Peglib.PegSemantics

set_option autoImplicit false

variable {CharT Env : Type}

/-- The skipper while auto-skip is on. -/
def mode (context : Context CharT) : Option RuleId :=
  if context.skipEnabled then context.skipper else none

/-- A step that an invariant cannot see. -/
structure Unmoved (before after : Context CharT) : Prop where
  input : after.input = before.input
  mem : after.mem = before.mem
  cutStack : after.cutStack = before.cutStack
  lrStack : after.lrStack = before.lrStack
  growingHead : after.growingHead = before.growingHead
  skipper : after.skipper = before.skipper
  errors : Noticed before.errors after.errors

structure Framed (before after : Context CharT) : Prop where
  skipper : after.skipper = before.skipper
  skipEnabled : after.skipEnabled = before.skipEnabled

theorem Framed.refl (context : Context CharT) : Framed context context := ⟨rfl, rfl⟩

theorem Framed.trans {first second third : Context CharT} (left : Framed first second)
    (right : Framed second third) : Framed first third :=
  ⟨right.skipper.trans left.skipper, right.skipEnabled.trans left.skipEnabled⟩

theorem Framed.mode_eq {before after : Context CharT} (framed : Framed before after) :
    mode after = mode before := by
  unfold mode
  rw [framed.skipper, framed.skipEnabled]

/-- A result read as an outcome: a failure is back at its start. -/
def Answers (sem : Nat → Option Nat → Prop) (start : Nat) (result : ParseResult) (stop : Nat) :
    Prop :=
  if result.success then sem start (some stop) else stop = start ∧ sem start none

theorem Answers.of_success {sem : Nat → Option Nat → Prop} {start stop : Nat}
    {result : ParseResult} (answers : Answers sem start result stop)
    (success : result.success = true) : sem start (some stop) := by
  rwa [Answers, if_pos success] at answers

theorem Answers.of_failure {sem : Nat → Option Nat → Prop} {start stop : Nat}
    {result : ParseResult} (answers : Answers sem start result stop)
    (failure : ¬result.success = true) : stop = start ∧ sem start none := by
  rwa [Answers, if_neg failure] at answers

theorem Answers.mono {sem sem' : Nat → Option Nat → Prop} {start stop : Nat}
    {result : ParseResult} (answers : Answers sem start result stop)
    (weaker : ∀ outcome, sem start outcome → sem' start outcome) :
    Answers sem' start result stop := by
  unfold Answers at answers ⊢
  split_ifs at answers ⊢
  · exact weaker _ answers
  · exact ⟨answers.1, weaker _ answers.2⟩

/-- What the evaluation of an expression asks of an invariant and a contract. -/
structure Invariant (contract : Contract (Moment CharT) (Context CharT) Exn)
    (input : List CharT) (inv : Context CharT → Prop) : Prop where
  input : ∀ context, inv context → context.input = input
  moved : ∀ before after, inv before → Unmoved before after → inv after
  opened : ∀ context, inv context → inv context.initCut
  cleared : ∀ context, inv context → inv (context.setCut false)
  closed : ∀ context, inv context → inv context.removeCut
  failure : ∀ context, inv context → contract.guarantee ⟨.failure, context⟩
  throws : ∀ exn context, inv context → contract.assume ⟨.failure, context⟩ → context.cut = true →
    contract.onThrow exn context
  unwinds : ∀ exn context, contract.onThrow exn context → contract.onThrow exn context.removeCut
  relabels : ∀ exn context flag, contract.onThrow exn context →
    contract.onThrow exn { context with skipEnabled := flag }

def Evaluates (contract : Contract (Moment CharT) (Context CharT) Exn)
    (inv : Context CharT → Prop) (parser : Parser CharT ParseResult)
    (sem : Option RuleId → Nat → Option Nat → Prop) : Prop :=
  ∀ context, inv context → wp contract parser (fun result last => inv last ∧ Framed context last ∧
    Answers (sem (mode context)) context.position result last.position) context

/-- What the constructs that look beyond the semantics have to promise. -/
def Admits (applicable : RuleId → Prop)
    (matched : (Context CharT → Span → Option Span) → Nat → Option Nat → Prop)
    (inv : Context CharT → Prop) : Expr CharT → Prop
  | .rule id => applicable id
  | .cut => ∀ context, inv context → inv (context.setCut true)
  | .matcher fn => ∀ context, inv context →
      matched fn context.position ((fn context ⟨context.position, context.position⟩).map Span.stop)
  | _ => True

section Engine

variable {contract : Contract (Moment CharT) (Context CharT) Exn} {input : List CharT}
  {inv : Context CharT → Prop} (invariant : Invariant contract input inv)

include invariant

theorem moved_inv {before after : Context CharT} (holds : inv before) (input' : after.input = before.input)
    (mem : after.mem = before.mem) (cutStack : after.cutStack = before.cutStack)
    (lrStack : after.lrStack = before.lrStack) (growingHead : after.growingHead = before.growingHead)
    (skipper : after.skipper = before.skipper)
    (errors : Noticed before.errors after.errors) : inv after :=
  invariant.moved before after holds ⟨input', mem, cutStack, lrStack, growingHead, skipper, errors⟩

theorem next_inv {context : Context CharT} (holds : inv context) : inv context.next := by
  unfold Context.next
  split_ifs
  · exact moved_inv invariant holds rfl rfl rfl rfl rfl rfl (.refl _)
  · exact holds

theorem push_child_inv {context : Context CharT} (holds : inv context) (node : NodePtr)
    (tree : Option NodePtr) : inv (pushChild node tree context) := by
  cases tree with
  | none => exact holds
  | some child => exact moved_inv invariant holds rfl rfl rfl rfl rfl rfl (.refl _)

theorem stamp_winner_inv {context : Context CharT} (holds : inv context) (tree : Option NodePtr)
    (index : Nat) : inv (stampWinner tree index context) := by
  cases tree with
  | none => exact holds
  | some child => exact moved_inv invariant holds rfl rfl rfl rfl rfl rfl (.refl _)

theorem raise_evaluates (context : Context CharT) (holds : inv context) :
    wp contract raiseIfCommitted (fun _ last => last = context) context := by
  rw [raiseIfCommitted, wp_bind, announce, wp_announce]
  intro assumed
  refine ⟨invariant.failure context holds, ?_⟩
  rw [wp_bind, wp_read, wp_onlyIf]
  exact ⟨invariant.throws _ _ holds assumed, fun _ => rfl⟩

end Engine

theorem next_framed (context : Context CharT) : Framed context context.next := by
  unfold Context.next
  split_ifs <;> exact ⟨rfl, rfl⟩

section Consume

variable [PegValue CharT]

theorem consume_next {value : TerminalValue CharT} {context : Context CharT}
    (accepted : consumable value context = true) :
    consume context.input value context.position = some context.next.position := by
  simp only [consumable, Context.ended, Context.current, Bool.and_eq_true, Bool.not_eq_true',
    decide_eq_false_iff_not, Nat.not_le] at accepted
  unfold consume Context.next
  rw [if_pos accepted.2, if_pos accepted.1]

theorem consume_none {value : TerminalValue CharT} {context : Context CharT}
    (rejected : ¬consumable value context = true) :
    consume context.input value context.position = none := by
  refine if_neg fun accepted => rejected ?_
  have inside : context.position < context.inputSize := by
    by_contra beyond
    rw [List.getElem?_eq_none (Nat.not_lt.mp beyond)] at accepted
    cases accepted
  simp only [consumable, Context.ended, Context.current, Bool.and_eq_true, Bool.not_eq_true',
    decide_eq_false_iff_not, Nat.not_le]
  exact ⟨inside, accepted⟩

end Consume

section Leaves

variable [PegValue CharT] {contract : Contract (Moment CharT) (Context CharT) Exn}
  {input : List CharT} {inv : Context CharT → Prop} (invariant : Invariant contract input inv)
  {matched : (Context CharT → Span → Option Span) → Nat → Option Nat → Prop}
  {call : Env → Option RuleId → RuleId → Nat → Option Nat → Prop} {env : Env}

include invariant

theorem terminal_evaluates (value : TerminalValue CharT) :
    Evaluates contract inv (TerminalExpr.parse value) fun mode pos outcome =>
      Peg input matched call env mode (.expr (.terminal value)) pos outcome := by
  intro context holds
  have peg := @Peg.terminal _ _ _ input matched call env (mode context) value context.position
  rw [← invariant.input context holds] at peg ⊢
  rw [TerminalExpr.parse, wp_bind, wp_read, wp_ite]
  constructor
  · intro accepted
    rw [wp_bind, wp_modify, wp_pure]
    rw [consume_next accepted] at peg
    exact ⟨next_inv invariant holds, next_framed context, peg⟩
  · intro rejected
    rw [wp_bind, wp_modify, wp_pure]
    rw [consume_none rejected] at peg
    exact ⟨moved_inv invariant holds rfl rfl rfl rfl rfl rfl (record_failure_noticed _ _ _), ⟨rfl, rfl⟩, rfl, peg⟩

theorem token_evaluates (value : TerminalValue CharT) :
    Evaluates contract inv (TokenExpr.parse value) fun mode pos outcome =>
      Peg input matched call env mode (.expr (.token value)) pos outcome := by
  intro context holds
  have peg := @Peg.token _ _ _ input matched call env (mode context) value context.position
  rw [← invariant.input context holds] at peg ⊢
  rw [TokenExpr.parse, wp_bind, wp_read, wp_ite]
  constructor
  · intro accepted
    rw [wp_bind, wp_modify, wp_bind, wp_modifyGet, wp_bind, wp_modify, wp_pure]
    rw [consume_next accepted] at peg
    have framed := next_framed context
    exact ⟨moved_inv invariant (next_inv invariant holds) rfl rfl rfl rfl rfl rfl (.refl _),
      ⟨framed.skipper, framed.skipEnabled⟩, peg⟩
  · intro rejected
    rw [wp_bind, wp_modify, wp_pure]
    rw [consume_none rejected] at peg
    exact ⟨moved_inv invariant holds rfl rfl rfl rfl rfl rfl (record_failure_noticed _ _ _), ⟨rfl, rfl⟩, rfl, peg⟩

theorem match_values_evaluates (values : List CharT) (context : Context CharT)
    (holds : inv context) :
    wp contract (TerminalSeqExpr.matchValues values) (fun matched last => inv last ∧
      Framed context last ∧ consumeAll input values context.position =
        if matched then some last.position else none) context := by
  induction values generalizing context with
  | nil => exact ⟨holds, Framed.refl context, rfl⟩
  | cons value rest induction =>
      rw [TerminalSeqExpr.matchValues, wp_bind, wp_read, wp_ite, consumeAll,
        ← invariant.input context holds]
      constructor
      · intro accepted
        rw [wp_bind, wp_modify, consume_next accepted, Option.bind_some]
        refine wp_post (induction context.next (next_inv invariant holds)) ?_
        rintro matched last ⟨kept, framed, found⟩
        rw [invariant.input context holds]
        exact ⟨kept, (next_framed context).trans framed, found⟩
      · intro rejected
        rw [wp_pure, consume_none rejected]
        exact ⟨holds, Framed.refl context, rfl⟩

theorem terminal_seq_evaluates (values : List CharT) :
    Evaluates contract inv (TerminalSeqExpr.parse values) fun mode pos outcome =>
      Peg input matched call env mode (.expr (.terminalSeq values)) pos outcome := by
  intro context holds
  have peg := @Peg.terminalSeq _ _ _ input matched call env (mode context) values context.position
  rw [TerminalSeqExpr.parse, wp_bind, wp_read, wp_bind]
  refine wp_post (match_values_evaluates invariant values context holds) ?_
  rintro found last ⟨kept, framed, consumed⟩
  rw [consumed] at peg
  rw [wp_ite]
  constructor
  · intro accepted
    rw [if_pos accepted] at peg
    exact ⟨kept, framed, peg⟩
  · intro rejected
    rw [if_neg rejected] at peg
    rw [wp_bind, wp_modify, wp_bind, wp_modify, wp_pure]
    exact ⟨moved_inv invariant kept rfl rfl rfl rfl rfl rfl (record_failure_noticed _ _ _), ⟨framed.skipper, framed.skipEnabled⟩,
      rfl, peg⟩

theorem matcher_evaluates (fn : Context CharT → Span → Option Span)
    (admitted : ∀ context, inv context → matched fn context.position
      ((fn context ⟨context.position, context.position⟩).map Span.stop)) :
    Evaluates contract inv (MatcherExpr.parse fn) fun mode pos outcome =>
      Peg input matched call env mode (.expr (.matcher fn)) pos outcome := by
  intro context holds
  have found := admitted context holds
  rw [MatcherExpr.parse, wp_bind, wp_read]
  dsimp only [id]
  cases answer : fn context ⟨context.position, context.position⟩ with
  | some consumed =>
      rw [answer] at found
      dsimp only
      rw [wp_bind, wp_modify, wp_bind, wp_modifyGet, wp_bind, wp_modify, wp_pure]
      exact ⟨moved_inv invariant holds rfl rfl rfl rfl rfl rfl (.refl _), ⟨rfl, rfl⟩, Peg.matcher found⟩
  | none =>
      rw [answer] at found
      exact ⟨holds, Framed.refl context, rfl, Peg.matcher found⟩

end Leaves

section Scopes

variable {contract : Contract (Moment CharT) (Context CharT) Exn}
  {input : List CharT} {inv : Context CharT → Prop} (invariant : Invariant contract input inv)

include invariant

theorem cut_scope_evaluates {body : Parser CharT ParseResult}
    {sem : Option RuleId → Nat → Option Nat → Prop} (evaluates : Evaluates contract inv body sem) :
    Evaluates contract inv (Comp.modify Context.initCut >>= fun _ =>
      Comp.guarded body Context.removeCut) sem := by
  intro context holds
  rw [wp_bind, wp_modify, wp_guarded]
  refine wp_mono (evaluates context.initCut (invariant.opened context holds)) (fun _ => id)
    (fun _ _ => id) invariant.unwinds ?_
  rintro result last ⟨kept, framed, answers⟩
  have closing : Framed last last.removeCut ∧ last.removeCut.position = last.position := by
    unfold Context.removeCut
    split
    · exact ⟨Framed.refl last, rfl⟩
    · split_ifs <;> exact ⟨⟨rfl, rfl⟩, rfl⟩
  have framedLast : Framed context last := ⟨framed.skipper, framed.skipEnabled⟩
  refine ⟨invariant.closed last kept, framedLast.trans closing.1, ?_⟩
  rw [closing.2]
  exact answers

theorem repeat_finish_evaluates (maxRep : Int) (node : NodePtr) (ended : LoopExit)
    (context : Context CharT) (holds : inv context)
    (final : ended.exitedViaFailure = false → context.position = ended.lastSuccessState) :
    wp contract (repeatFinish maxRep node ended) (fun result last => inv last ∧
      Framed context last ∧ result.success = true ∧ last.position = ended.lastSuccessState)
      context := by
  have rest : ∀ here : Context CharT, inv here → Framed context here →
      here.position = ended.lastSuccessState →
      wp contract (do
        Comp.onlyIf (maxRep < 0 ∧ ended.exitedViaFailure = true) raiseIfCommitted
        Comp.modify (markEnd node)
        pure (⟨true, some node⟩ : ParseResult)) (fun result last => inv last ∧ Framed context last ∧
          result.success = true ∧ last.position = ended.lastSuccessState) here := by
    intro here kept framed at_stop
    have done : inv (markEnd node here) ∧ Framed context (markEnd node here) ∧
        true = true ∧ (markEnd node here).position = ended.lastSuccessState :=
      ⟨moved_inv invariant kept rfl rfl rfl rfl rfl rfl (.refl _), ⟨framed.skipper, framed.skipEnabled⟩, rfl,
        at_stop⟩
    rw [wp_bind, wp_onlyIf]
    refine ⟨fun _ => wp_post (raise_evaluates invariant here kept) ?_, fun _ => done⟩
    rintro ⟨⟩ same rfl
    exact done
  rw [repeatFinish, wp_bind, wp_onlyIf]
  refine ⟨fun viaFailure => ?_, fun notFailure => ?_⟩
  · rw [wp_modify]
    exact rest _ (moved_inv invariant holds rfl rfl rfl rfl rfl rfl (.refl _)) ⟨rfl, rfl⟩ rfl
  · exact rest context holds (Framed.refl context) (final (by simpa using notFailure))

end Scopes

section Combinators

variable [PegValue CharT] {contract : Contract (Moment CharT) (Context CharT) Exn}
  {input : List CharT} {inv : Context CharT → Prop} (invariant : Invariant contract input inv)
  {matched : (Context CharT → Span → Option Span) → Nat → Option Nat → Prop}
  {call : Env → Option RuleId → RuleId → Nat → Option Nat → Prop} {env : Env}
  {apply : RuleId → Parser CharT ParseResult}

/-- The skip of a sequence or a repetition. -/
def Skips (contract : Contract (Moment CharT) (Context CharT) Exn)
    (inv : Context CharT → Prop) (skip : Parser CharT Unit)
    (sem : Option RuleId → Nat → Option Nat → Prop) : Prop :=
  ∀ context, inv context → wp contract skip (fun _ last => inv last ∧ Framed context last ∧
    sem (mode context) context.position (some last.position)) context

include invariant

theorem skipper_skips {applicable : RuleId → Prop}
    (applies : ∀ rule, applicable rule → Evaluates contract inv (apply rule) fun mode pos outcome =>
      call env mode rule pos outcome)
    (configured : ∀ context, inv context → ∀ rule, context.skipper = some rule → applicable rule) :
    Skips contract inv (runSkipper apply) fun mode pos outcome =>
      Peg input matched call env mode .skip pos outcome := by
  intro context holds
  rw [runSkipper, wp_bind, wp_read]
  dsimp only [id]
  split
  · next skipper enabled set =>
      have active : mode context = some skipper := by rw [mode, if_pos enabled, set]
      rw [wp_bind, wp_modify, wp_bind, active]
      refine wp_post (applies skipper (configured context holds skipper set) _ (moved_inv invariant holds rfl rfl rfl rfl rfl rfl (.refl _))) ?_
      rintro result last ⟨kept, framed, answers⟩
      rw [wp_modify]
      refine ⟨moved_inv invariant kept rfl rfl rfl rfl rfl rfl (.refl _), ⟨framed.skipper, rfl⟩, ?_⟩
      have off : mode { context with skipEnabled := false } = none := rfl
      rw [off] at answers
      by_cases success : result.success = true
      · exact Peg.skipHit (answers.of_success success)
      · obtain ⟨stayed, missed⟩ := answers.of_failure success
        dsimp only at stayed ⊢
        rw [stayed]
        exact Peg.skipMiss missed
  · next inactive =>
      have off : mode context = none := by
        unfold mode
        cases enabled : context.skipEnabled with
        | false => rfl
        | true =>
            cases set : context.skipper with
            | none => rfl
            | some skipper => exact absurd set (inactive skipper enabled)
      rw [off]
      exact ⟨holds, Framed.refl context, Peg.skipOff⟩

omit invariant in
theorem onlyIf_skips {skip : Parser CharT Unit} {condition : Prop} [Decidable condition]
    (skips : Skips contract inv skip fun mode pos outcome =>
      Peg input matched call env mode .skip pos outcome) (context : Context CharT)
    (holds : inv context) :
    wp contract (Comp.onlyIf condition skip) (fun _ last => inv last ∧ Framed context last ∧
      Peg input matched call env (if condition then mode context else none) .skip
        context.position (some last.position)) context := by
  rw [wp_onlyIf]
  constructor
  · intro active
    rw [if_pos active]
    exact skips context holds
  · intro inactive
    rw [if_neg inactive]
    exact ⟨holds, Framed.refl context, Peg.skipOff⟩

theorem parse_seq_evaluates {skip : Parser CharT Unit} {fuel : Nat}
    (skips : Skips contract inv skip fun mode pos outcome =>
      Peg input matched call env mode .skip pos outcome)
    (node : NodePtr) (children : List (Expr CharT))
    (each : ∀ child ∈ children, Evaluates contract inv (child.parse apply fuel)
      fun mode pos outcome => Peg input matched call env mode (.expr child) pos outcome)
    (index : Nat) (context : Context CharT) (holds : inv context) :
    wp contract (SequenceExpr.parseSeq skip node index (Expr.parseAll apply fuel children))
      (fun found last => inv last ∧ Framed context last ∧
        Peg input matched call env (mode context) (.seq (decide (index = 0)) children)
          context.position (if found then some last.position else none)) context := by
  induction children generalizing index context with
  | nil => exact ⟨holds, Framed.refl context, Peg.seqNil⟩
  | cons child rest induction =>
      rw [Expr.parseAll, SequenceExpr.parseSeq, wp_bind]
      refine wp_post (onlyIf_skips skips context holds) ?_
      rintro ⟨⟩ skipped ⟨keptSkip, framedSkip, skip⟩
      have first : (if 0 < index then mode context else none) =
          if decide (index = 0) = true then none else mode context := by
        rcases Nat.eq_zero_or_pos index with rfl | positive
        · rfl
        · rw [if_pos positive, if_neg (by simpa using Nat.ne_of_gt positive)]
      rw [first] at skip
      rw [wp_bind]
      refine wp_post (each child (by simp) skipped keptSkip) ?_
      rintro result here ⟨keptHere, framedHere, answers⟩
      rw [framedSkip.mode_eq] at answers
      rw [wp_ite]
      constructor
      · intro success
        rw [wp_bind, wp_modify]
        have pushed : Framed here (pushChild node result.tree here) ∧
            (pushChild node result.tree here).position = here.position := by
          cases result.tree <;> exact ⟨⟨rfl, rfl⟩, rfl⟩
        have framed := (framedSkip.trans framedHere).trans pushed.1
        refine wp_post (induction (fun other member => each other (by simp [member])) (index + 1)
          _ (push_child_inv invariant keptHere node result.tree)) ?_
        rintro found last ⟨kept, framedLast, rest⟩
        rw [framed.mode_eq, pushed.2] at rest
        exact ⟨kept, framed.trans framedLast,
          Peg.seqStep skip (answers.of_success success) rest⟩
      · intro failure
        exact ⟨keptHere, framedSkip.trans framedHere,
          Peg.seqFail skip (answers.of_failure failure).2⟩

theorem sequence_evaluates {skip : Parser CharT Unit} {fuel : Nat}
    (skips : Skips contract inv skip fun mode pos outcome =>
      Peg input matched call env mode .skip pos outcome)
    (children : List (Expr CharT))
    (each : ∀ child ∈ children, Evaluates contract inv (child.parse apply fuel)
      fun mode pos outcome => Peg input matched call env mode (.expr child) pos outcome) :
    Evaluates contract inv (SequenceExpr.parse skip (Expr.parseAll apply fuel children))
      fun mode pos outcome =>
        Peg input matched call env mode (.expr (.sequence children)) pos outcome := by
  intro context holds
  rw [SequenceExpr.parse, wp_bind, wp_read, wp_bind, wp_modifyGet, wp_bind, wp_modify, wp_bind]
  refine wp_post (parse_seq_evaluates invariant skips _ children each 0 _
    (moved_inv invariant holds rfl rfl rfl rfl rfl rfl (.refl _))) ?_
  rintro found last ⟨kept, framed, peg⟩
  have framedLast : Framed context last := ⟨framed.skipper, framed.skipEnabled⟩
  rw [wp_ite]
  constructor
  · intro success
    rw [if_pos success] at peg
    rw [wp_bind, wp_modify, wp_pure]
    exact ⟨moved_inv invariant kept rfl rfl rfl rfl rfl rfl (.refl _), ⟨framed.skipper, framed.skipEnabled⟩,
      Peg.sequence peg⟩
  · intro failure
    rw [if_neg failure] at peg
    rw [wp_bind, wp_modify, wp_pure]
    exact ⟨moved_inv invariant kept rfl rfl rfl rfl rfl rfl (.refl _), ⟨framed.skipper, framed.skipEnabled⟩,
      rfl, Peg.sequence peg⟩

theorem parse_alt_evaluates {fuel : Nat} (children : List (Expr CharT))
    (each : ∀ child ∈ children, Evaluates contract inv (child.parse apply fuel)
      fun mode pos outcome => Peg input matched call env mode (.expr child) pos outcome)
    (index : Nat) :
    Evaluates contract inv (AlternationExpr.parseAlt index (Expr.parseAll apply fuel children))
      fun mode pos outcome => Peg input matched call env mode (.alt children) pos outcome := by
  induction children generalizing index with
  | nil => exact fun context holds => ⟨holds, Framed.refl context, rfl, Peg.altNil⟩
  | cons child rest induction =>
      intro context holds
      rw [Expr.parseAll, AlternationExpr.parseAlt, wp_bind]
      refine wp_post (each child (by simp) context holds) ?_
      rintro result here ⟨kept, framed, answers⟩
      rw [wp_ite]
      constructor
      · intro success
        rw [wp_bind, wp_modify, wp_pure]
        have stamped : Framed here (stampWinner result.tree index here) ∧
            (stampWinner result.tree index here).position = here.position := by
          cases result.tree <;> exact ⟨⟨rfl, rfl⟩, rfl⟩
        refine ⟨stamp_winner_inv invariant kept _ _, framed.trans stamped.1, ?_⟩
        rw [Answers, if_pos success, stamped.2]
        exact Peg.altHit (answers.of_success success)
      · intro failure
        obtain ⟨stayed, missed⟩ := answers.of_failure failure
        rw [wp_bind]
        refine wp_post (raise_evaluates invariant here kept) ?_
        rintro ⟨⟩ last rfl
        refine wp_post (induction (fun other member => each other (by simp [member])) (index + 1)
          last kept) ?_
        rintro result' last' ⟨kept', framed', answers'⟩
        rw [framed.mode_eq, stayed] at answers'
        exact ⟨kept', framed.trans framed', answers'.mono fun outcome => Peg.altMiss missed⟩

theorem repeat_loop_evaluates {skip : Parser CharT Unit} {fuel : Nat}
    (skips : Skips contract inv skip fun mode pos outcome =>
      Peg input matched call env mode .skip pos outcome)
    (kind : RepKind) (child : Expr CharT)
    (evaluates : Evaluates contract inv (child.parse apply fuel)
      fun mode pos outcome => Peg input matched call env mode (.expr child) pos outcome)
    (node : NodePtr) (budget loopCount : Nat) (context : Context CharT) (holds : inv context) :
    wp contract (repeatLoop skip (child.parse apply fuel) kind.maxRep node budget loopCount
        context.position)
      (fun ended last => inv last ∧ Framed context last ∧
        (ended.exitedViaFailure = false → last.position = ended.lastSuccessState) ∧
        Peg input matched call env (mode context) (.loop kind child loopCount) context.position
          (repeated kind ended.loopCount ended.lastSuccessState)) context := by
  induction budget generalizing loopCount context with
  | zero => exact trivial
  | succ budget induction =>
      rw [repeatLoop, wp_bind]
      refine wp_post (onlyIf_skips skips context holds) ?_
      rintro ⟨⟩ skipped ⟨keptSkip, framedSkip, skip⟩
      have first : (if 0 < loopCount then mode context else none) =
          if loopCount = 0 then none else mode context := by
        rcases Nat.eq_zero_or_pos loopCount with rfl | positive
        · rfl
        · rw [if_pos positive, if_neg (Nat.ne_of_gt positive)]
      rw [first] at skip
      rw [wp_bind, wp_read, wp_bind, wp_modify, wp_bind]
      have uncut : Framed skipped (skipped.setCut false) ∧
          (skipped.setCut false).position = skipped.position := by
        unfold Context.setCut
        split <;> exact ⟨⟨rfl, rfl⟩, rfl⟩
      have framedStart := framedSkip.trans uncut.1
      refine wp_post (evaluates _ (invariant.cleared skipped keptSkip)) ?_
      rintro result here ⟨keptHere, framedHere, answers⟩
      rw [framedStart.mode_eq, uncut.2] at answers
      rw [wp_ite]
      constructor
      · intro success
        rw [wp_bind, wp_read, wp_bind, wp_modify, wp_ite]
        have pushed : Framed here (pushChild node result.tree here) ∧
            (pushChild node result.tree here).position = here.position := by
          cases result.tree <;> exact ⟨⟨rfl, rfl⟩, rfl⟩
        have framed := (framedStart.trans framedHere).trans pushed.1
        have keptPushed := push_child_inv invariant keptHere node result.tree
        have matched := answers.of_success success
        constructor
        · intro last
          exact ⟨keptPushed, framed, fun _ => pushed.2, Peg.loopLast skip matched last⟩
        · intro more
          refine wp_post (pushed.2 ▸ induction (loopCount + 1) _ keptPushed) ?_
          rintro ended last ⟨kept, framedLast, final, rest⟩
          rw [framed.mode_eq] at rest
          exact ⟨kept, framed.trans framedLast, final,
            Peg.loopMore skip matched (by simpa using more) rest⟩
      · intro failure
        exact ⟨keptHere, framedStart.trans framedHere, by simp,
          Peg.loopFail skip (answers.of_failure failure).2⟩

theorem repeat_evaluates {skip : Parser CharT Unit} {fuel : Nat}
    (skips : Skips contract inv skip fun mode pos outcome =>
      Peg input matched call env mode .skip pos outcome)
    (kind : RepKind) (child : Expr CharT)
    (evaluates : Evaluates contract inv (child.parse apply fuel)
      fun mode pos outcome => Peg input matched call env mode (.expr child) pos outcome)
    (budget : Nat) :
    Evaluates contract inv
      (repeatParseImpl budget skip (child.parse apply fuel) kind.minRep kind.maxRep)
      fun mode pos outcome =>
        Peg input matched call env mode (.expr (.repetition kind child)) pos outcome := by
  refine cut_scope_evaluates invariant fun context holds => ?_
  rw [wp_bind, wp_read, wp_bind, wp_modifyGet, wp_bind, wp_modify, wp_bind]
  have loop := repeat_loop_evaluates invariant skips kind child evaluates context.makeNode.1 budget 0
    (markStart context.makeNode.1 context.makeNode.2)
    (moved_inv invariant holds rfl rfl rfl rfl rfl rfl (.refl _))
  refine wp_post loop ?_
  rintro ended last ⟨kept, framed, final, peg⟩
  have framedLast : Framed context last := ⟨framed.skipper, framed.skipEnabled⟩
  have whole := Peg.repetition peg
  rw [wp_ite]
  constructor
  · intro few
    rw [wp_bind, wp_modify, wp_pure]
    rw [repeated, if_pos few] at whole
    exact ⟨moved_inv invariant kept rfl rfl rfl rfl rfl rfl (.refl _),
      ⟨framedLast.skipper, framedLast.skipEnabled⟩, rfl, whole⟩
  · intro enough
    rw [repeated, if_neg enough] at whole
    refine wp_post (repeat_finish_evaluates invariant kind.maxRep context.makeNode.1 ended last kept
      final) ?_
    rintro result finished ⟨keptLast, framedFinish, success, at_stop⟩
    refine ⟨keptLast, framedLast.trans framedFinish, ?_⟩
    rw [Answers, if_pos success, at_stop]
    exact whole

theorem predicate_evaluates {parseChild : Parser CharT ParseResult} {child : Expr CharT}
    (evaluates : Evaluates contract inv parseChild
      fun mode pos outcome => Peg input matched call env mode (.expr child) pos outcome) :
    Evaluates contract inv (predicateParseImpl parseChild true)
        (fun mode pos outcome => Peg input matched call env mode (.expr (.not child)) pos outcome) ∧
      Evaluates contract inv (predicateParseImpl parseChild false)
        fun mode pos outcome => Peg input matched call env mode (.expr (.and child)) pos outcome := by
  constructor
  all_goals
    intro context holds
    rw [predicateParseImpl, wp_bind, wp_read, wp_bind]
    refine wp_post (evaluates context holds) ?_
    rintro result last ⟨kept, framed, answers⟩
    rw [wp_bind, wp_modify, wp_pure]
    refine ⟨moved_inv invariant kept rfl rfl rfl rfl rfl rfl (.refl _),
      ⟨framed.skipper, framed.skipEnabled⟩, ?_⟩
    cases success : result.success
  · exact Peg.not (answers.of_failure (by simp [success])).2
  · exact ⟨rfl, Peg.not (answers.of_success success)⟩
  · exact ⟨rfl, Peg.and (answers.of_failure (by simp [success])).2⟩
  · exact Peg.and (answers.of_success success)

theorem lexeme_evaluates {parseChild : Parser CharT ParseResult} {child : Expr CharT}
    (evaluates : Evaluates contract inv parseChild
      fun mode pos outcome => Peg input matched call env mode (.expr child) pos outcome) :
    Evaluates contract inv (LexemeExpr.parse parseChild)
      fun mode pos outcome => Peg input matched call env mode (.expr (.lexeme child)) pos outcome := by
  intro context holds
  rw [LexemeExpr.parse, wp_bind, wp_read, wp_bind, wp_modify, wp_guarded]
  refine wp_mono (evaluates _ (moved_inv invariant holds rfl rfl rfl rfl rfl rfl (.refl _))) (fun _ => id)
    (fun _ _ => id) (fun exn last => invariant.relabels exn last _) ?_
  rintro result last ⟨kept, framed, answers⟩
  exact ⟨moved_inv invariant kept rfl rfl rfl rfl rfl rfl (.refl _), ⟨framed.skipper, rfl⟩,
    answers.mono fun outcome => Peg.lexeme⟩

theorem expr_evaluates {applicable : RuleId → Prop}
    (applies : ∀ rule, applicable rule → Evaluates contract inv (apply rule) fun mode pos outcome =>
      call env mode rule pos outcome)
    (configured : ∀ context, inv context → ∀ rule, context.skipper = some rule → applicable rule)
    (fuel : Nat) {expr : Expr CharT} (admitted : expr.Every (Admits applicable matched inv)) :
    Evaluates contract inv (expr.parse apply fuel) fun mode pos outcome =>
      Peg input matched call env mode (.expr expr) pos outcome := by
  have skips : Skips contract inv (runSkipper apply) fun mode pos outcome =>
      Peg input matched call env mode .skip pos outcome := skipper_skips invariant applies configured
  induction expr using Expr.induct with
  | terminal value => exact terminal_evaluates invariant value
  | terminalSeq values => exact terminal_seq_evaluates invariant values
  | token value => exact token_evaluates invariant value
  | matcher fn => exact matcher_evaluates invariant fn admitted.here
  | empty => exact fun context holds => ⟨holds, Framed.refl context, Peg.empty⟩
  | cut =>
      intro context holds
      have framed : Framed context (context.setCut true) ∧
          (context.setCut true).position = context.position := by
        unfold Context.setCut
        split <;> exact ⟨⟨rfl, rfl⟩, rfl⟩
      refine ⟨admitted.here context holds, framed.1, ?_⟩
      rw [Answers, if_pos rfl]
      exact framed.2 ▸ Peg.cut
  | sequence children induction =>
      unfold Expr.Every at admitted
      exact sequence_evaluates invariant skips children fun child member =>
        induction child member (Expr.every_all_iff.mp admitted.2 child member)
  | alternation children induction =>
      unfold Expr.Every at admitted
      have branches := cut_scope_evaluates invariant (parse_alt_evaluates invariant children
        (fun child member =>
          induction child member (Expr.every_all_iff.mp admitted.2 child member)) 0)
      intro context holds
      refine wp_post (branches context holds) ?_
      rintro result last ⟨kept, framed, answers⟩
      exact ⟨kept, framed, answers.mono fun outcome => Peg.alternation⟩
  | repetition kind child induction =>
      unfold Expr.Every at admitted
      exact repeat_evaluates invariant skips kind child (induction admitted.2) fuel
  | not child induction =>
      unfold Expr.Every at admitted
      exact (predicate_evaluates invariant (induction admitted.2)).1
  | and child induction =>
      unfold Expr.Every at admitted
      exact (predicate_evaluates invariant (induction admitted.2)).2
  | lexeme child induction =>
      unfold Expr.Every at admitted
      exact lexeme_evaluates invariant (induction admitted.2)
  | rule id =>
      intro context holds
      refine wp_post (applies id admitted.here context holds) ?_
      rintro result last ⟨kept, framed, answers⟩
      exact ⟨kept, framed, answers.mono fun outcome => Peg.rule⟩

end Combinators

end Peglib.Evaluation
