import Peglib.CutScopes
import Peglib.EntryPoints
import Peglib.PositionDiscipline

/-!
# What a failed parse leaves on record

A failure goes on record where an attempt at a terminal, a string or a token is
missed, and where a rule with a name or a label fails for the first time. So an
ordinary failure of a named start rule is always explained. A committed failure
unwinds past every rule and is explained by the attempts missed before it, of
which there may be none.
-/

namespace Peglib.FailureReports

open Peglib.TracedComputation Peglib.WeakestPrecondition Peglib.Preservation Peglib.Annotation
open Peglib.ParseError Peglib.ParseError.Errors Peglib.ParseContext Peglib.Expressions Peglib.Rules
open Peglib.ExpressionSteps Peglib.ControlDiscipline Peglib.Parametricity Peglib.CommittedFailures
open Peglib.EntryPoints Peglib.SuccessfulAnswers Peglib.Termination Peglib.PositionDiscipline
open Peglib.AcceptedParse Peglib.CutScopes Peglib.Coupling

set_option autoImplicit false

variable {CharT NodeType : Type}

section Chronicle

/-- A failure is on record exactly when an attempt was missed. -/
def Chronicled (state : Noted CharT) : Prop :=
  state.plain.errors.hasError = true ↔ state.notes.misses ≠ []

def Chronicles (before after : Noted CharT) : Prop := Chronicled before → Chronicled after

theorem Chronicled.moved {before after : Noted CharT} (chronicled : Chronicled before)
    (hasError : after.plain.errors.hasError = before.plain.errors.hasError)
    (misses : after.notes.misses = before.notes.misses) : Chronicled after := by
  unfold Chronicled
  rw [hasError, misses]
  exact chronicled

instance : QuietClosed (@Chronicles CharT) Chronicles where
  refl _ := id
  trans _ _ _ left right := right ∘ left
  before _ _ _ left right := right ∘ left
  quiet _ _ step _ misses chronicled := chronicled.moved step.hasError misses
  missed _ _ _ _ recorded missed _ := iff_of_true recorded missed
  raised _ := id

theorem set_cut_records (committed : Bool) (context : Context CharT) :
    (context.setCut committed).errors = context.errors := by
  unfold Context.setCut
  split <;> rfl

theorem remove_cut_records (context : Context CharT) : context.removeCut.errors = context.errors := by
  unfold Context.removeCut
  split
  · rfl
  · split_ifs <;> rfl

/-- No operation on the cut scopes touches the record. -/
instance : ScopeClosed (@Chronicles CharT) where
  inner := Chronicles
  inside := inferInstance
  weakens _ _ := id
  cleared state chronicled :=
    chronicled.moved (congrArg Errors.hasError (set_cut_records false state.plain)) rfl
  closes state last step chronicled := by
    have opened : Chronicled (onPlain Context.initCut state) := chronicled.moved rfl rfl
    exact (step opened).moved (congrArg Errors.hasError (remove_cut_records last.plain)) rfl
  commits state chronicled :=
    chronicled.moved (congrArg Errors.hasError (set_cut_records true state.plain)) rfl
  toggles _ _ chronicled := chronicled.moved rfl rfl

variable [PegValue CharT] (grammar : Grammar CharT NodeType)

theorem observe_start_chronicles (fuel : Nat) (rule : RuleId) :
    Preserves (@Chronicles CharT) Chronicles (observeStart grammar fuel rule) := by
  have skips : Preserves (@Chronicles CharT) Chronicles (observeLeadingSkip grammar fuel) := by
    refine preserves_bind (preserves_modify fun state chronicled => chronicled.moved rfl rfl) fun _ => ?_
    exact observe_skipper_kept (observe_kept grammar fuel)
  exact preserves_bind skips fun _ => observe_kept grammar fuel rule

/-- The attempts that a parse on a fresh context misses, in its leading skip or
from the start rule. -/
def misses (fuel : Nat) (rule : RuleId) (input : List CharT) : List MissPoint :=
  (observeStart grammar fuel rule ⟨Context.fresh input, {}⟩).state.notes.misses

end Chronicle

section Settled

/-- A failed row of the rule stands for a failure on record, unless the rule is
still in progress there or is among `exempt`. -/
def Settled (rule : RuleId) (exempt : List (RuleId × Nat)) (context : Context CharT) : Prop :=
  context.errors.hasError = true ∨ ∀ pos row, context.mem pos rule = some row →
    row.cachedResult.success = true ∨ (rule, pos) ∈ exempt ++ active context

variable {tracked rule : RuleId} {exempt : List (RuleId × Nat)}

theorem Settled.moved {before after : Context CharT} (settled : Settled tracked exempt before)
    (errors : before.errors.hasError = true → after.errors.hasError = true)
    (mem : ∀ pos row, after.mem pos tracked = some row → before.mem pos tracked = some row)
    (frames : active after = active before) : Settled tracked exempt after := by
  refine settled.imp errors fun rows pos row held => ?_
  rw [frames]
  exact rows pos row (mem pos row held)

/-- The contract that asks for nothing but the postcondition. -/
abbrev returning : Contract (Moment CharT) (Context CharT) Exn := throwing fun _ => True

/-- The relation that keeps the rows of the rule settled. -/
def Settles (tracked : RuleId) (before after : Context CharT) : Prop :=
  active after = active before ∧ (Settled tracked [] before → Settled tracked [] after)

theorem Settles.of_step {before after : Context CharT}
    (errors : before.errors.hasError = true → after.errors.hasError = true)
    (mem : ∀ pos row, after.mem pos tracked = some row → before.mem pos tracked = some row)
    (lrStack : after.lrStack = before.lrStack) : Settles tracked before after := by
  have frames : active after = active before := by rw [active, lrStack, active]
  exact ⟨frames, fun settled => settled.moved errors mem frames⟩

theorem Settles.of_eq {before after : Context CharT} (errors : after.errors = before.errors)
    (mem : after.mem = before.mem) (lrStack : after.lrStack = before.lrStack) :
    Settles tracked before after :=
  .of_step (fun recorded => by rw [errors]; exact recorded)
    (fun pos row held => by rw [← mem]; exact held) lrStack

theorem Settles.trans {first second third : Context CharT} (left : Settles tracked first second)
    (right : Settles tracked second third) : Settles tracked first third :=
  ⟨right.1.trans left.1, right.2 ∘ left.2⟩

instance : ExprClosed (@Settles CharT tracked) (fun _ _ => True) where
  refl _ := .of_eq rfl rfl rfl
  trans _ _ _ := Settles.trans
  before _ _ _ _ _ := trivial
  incidental before after step := .of_step step.errors (fun pos row held => by
    rw [← step.mem]
    exact held) step.lrStack
  commits context committed := by
    unfold Context.setCut
    split <;> exact .of_eq rfl rfl rfl
  enclosed context last step := by
    have closed : Settles tracked last last.removeCut := by
      unfold Context.removeCut
      split
      · exact .of_eq rfl rfl rfl
      · split_ifs
        · refine .of_step id (fun pos row held => ?_) rfl
          dsimp only at held
          split_ifs at held
          exact held
        · exact .of_eq rfl rfl rfl
    exact (show Settles tracked context context.initCut from .of_eq rfl rfl rfl).trans
      (step.trans closed)
  unwound _ _ _ := trivial
  muted context last step :=
    ((show Settles tracked context { context with skipEnabled := false } from .of_eq rfl rfl rfl).trans
      step).trans (.of_eq rfl rfl rfl)
  unmuted _ _ _ := trivial
  silenced _ _ _ := trivial
  raised _ := trivial

theorem update_settled {context : Context CharT} {pos : Nat} {entry : RuleState}
    (settled : Settled tracked exempt context)
    (row : rule = tracked → entry.cachedResult.success = true ∨ (rule, pos) ∈ exempt ++ active context) :
    Settled tracked exempt (context.updateRuleState rule pos entry).2 := by
  unfold Context.updateRuleState
  split
  · refine settled.imp id fun rows pos' row' held => ?_
    rcases Memo.write_eq_some held with ⟨rfl, rfl, rfl⟩ | ⟨-, before⟩
    · exact row rfl
    · exact rows pos' row' before
  · exact settled

theorem update_settles {context : Context CharT} {pos : Nat} {entry : RuleState}
    (settled : Settled tracked [(rule, pos)] context) (success : entry.cachedResult.success = true) :
    Settled tracked [] (context.updateRuleState rule pos entry).2 := by
  unfold Context.updateRuleState
  split
  · refine settled.imp id fun rows pos' row' held => ?_
    rcases Memo.write_eq_some held with ⟨rfl, rfl, rfl⟩ | ⟨different, before⟩
    · exact Or.inl success
    · refine (rows pos' row' before).imp_right fun pending => ?_
      rcases List.mem_cons.mp pending with same | later
      · exact absurd (by simpa [eq_comm, and_comm] using same) different
      · exact later
  · next absent =>
      refine settled.imp id fun rows pos' row' held => ?_
      refine (rows pos' row' held).imp_right fun pending => ?_
      rcases List.mem_cons.mp pending with same | later
      · obtain ⟨rfl, rfl⟩ := Prod.mk.inj same
        rw [absent] at held
        cases held
      · exact later

theorem store_settled {context : Context CharT} {pos : Nat} {entry : RuleState}
    (settled : Settled tracked exempt context)
    (row : rule = tracked → entry.cachedResult.success = true ∨ (rule, pos) ∈ exempt ++ active context) :
    wp returning (NonTerminal.store rule pos entry)
      (fun _ last => Settled tracked exempt last ∧ active last = active context) context := by
  rw [NonTerminal.store, wp_bind, wp_modifyGet, wp_bind, announce, wp_announce]
  have frames := congrArg (List.map fun frame : LRFrame => (frame.rule, frame.pos))
    (update_framed context rule pos entry).2.1
  exact fun _ => ⟨trivial, update_settled settled row, frames⟩

theorem grow_loop_settled {startPos : Nat} {parseBody : Parser CharT ParseResult}
    (bodyKept : Preserves (Settles tracked) (fun _ _ => True) parseBody) (fuel : Nat)
    (best : ParseResult) (ruleState : RuleState) {context : Context CharT}
    (settled : Settled tracked [] context) (inProgress : (rule, startPos) ∈ active context) :
    wp returning (NonTerminal.growLoop rule startPos parseBody fuel best ruleState)
      (fun _ last => Settled tracked [] last ∧ active last = active context) context := by
  induction fuel generalizing best ruleState context with
  | zero => exact trivial
  | succ fuel induction =>
      rw [NonTerminal.growLoop, wp_bind, wp_modify, wp_bind, wp_read, wp_bind]
      have cleared : wp returning
          (Comp.onlyIf ((NonTerminal.frame (context.reset startPos)).isHead = true ∧
              best.success = true)
            (Comp.modify fun context => context.clearSiblingsAt startPos rule))
          (fun _ here => Settles tracked context here) (context.reset startPos) := by
        rw [wp_onlyIf, wp_modify]
        refine ⟨fun _ => .of_step id (fun pos row held => ?_) rfl, fun _ => .of_eq rfl rfl rfl⟩
        simp only [Context.clearSiblingsAt] at held
        split_ifs at held
        exact held
      refine wp_post cleared ?_
      rintro ⟨⟩ here ready
      rw [wp_bind]
      refine wp_post (preserves_iff_wp.mp bodyKept here) ?_
      rintro result after step
      have stepped := ready.trans step
      have settledAfter := stepped.2 settled
      rw [wp_bind, wp_read, wp_ite]
      dsimp only [id]
      refine ⟨fun success => ?_, fun _ => ⟨settledAfter, stepped.1⟩⟩
      have pending : (rule, startPos) ∈ active after := stepped.1 ▸ inProgress
      rw [wp_ite]
      constructor
      · intro _
        have marked : active (NonTerminal.setFrameLastPos after.position after) = active after := by
          unfold active NonTerminal.setFrameLastPos
          cases stack : after.lrStack <;> rfl
        have settledMarked : Settled tracked [] (NonTerminal.setFrameLastPos after.position after) :=
          settledAfter.moved id (fun _ _ => id) marked
        rw [wp_bind, wp_modify, wp_bind]
        refine wp_post (store_settled settledMarked fun _ => Or.inl success) ?_
        rintro present last ⟨settledLast, same⟩
        have sameActive : active last = active context := same.trans (marked.trans stepped.1)
        rw [wp_ite]
        refine ⟨fun _ => ?_, fun _ => ⟨settledLast, sameActive⟩⟩
        rw [← sameActive]
        exact induction result _ settledLast (by rw [sameActive]; exact inProgress)
      · intro _
        rw [wp_bind]
        refine wp_post (store_settled settledAfter fun _ => Or.inr pending) ?_
        rintro present last ⟨settledLast, same⟩
        exact ⟨settledLast, same.trans stepped.1⟩

/-- The default row that a first-time parse inserts belongs to a rule in progress. -/
theorem enter_settled {context : Context CharT} (settled : Settled tracked [] context) :
    Settled tracked [] (({ context with mem := context.mem.write context.position rule {} } :
      Context CharT).lrPush ⟨rule, context.position, context.position, false⟩) := by
  refine settled.imp id fun rows pos row held => ?_
  rcases Memo.write_eq_some held with ⟨rfl, rfl, -⟩ | ⟨-, before⟩
  · exact Or.inr List.mem_cons_self
  · exact (rows pos row before).imp_right (List.mem_cons_of_mem _)

theorem leave_settled {startPos : Nat} {context : Context CharT} {outer : List (RuleId × Nat)}
    (settled : Settled tracked [] context) (frames : active context = (rule, startPos) :: outer) :
    Settled tracked [(rule, startPos)] (NonTerminal.leave startPos context) ∧
      active (NonTerminal.leave startPos context) = outer := by
  have popped : active (NonTerminal.leave startPos context) = outer ∧
      (NonTerminal.leave startPos context).errors = context.errors ∧
      (NonTerminal.leave startPos context).mem = context.mem := by
    have tail : active context.lrPop = outer := by
      have tails := congrArg List.tail frames
      rwa [active, ← List.map_tail] at tails
    unfold NonTerminal.leave
    split_ifs
    · exact ⟨tail, rfl, rfl⟩
    · exact ⟨tail, rfl, rfl⟩
  refine ⟨settled.imp (fun recorded => by rw [popped.2.1]; exact recorded) ?_, popped.1⟩
  intro rows pos row held
  rw [popped.2.2] at held
  rw [popped.1]
  have pending := rows pos row held
  rw [frames] at pending
  exact pending

theorem invoke_settled {body : Option (Parser CharT ParseResult)}
    (bodyKept : ∀ parser ∈ body, Preserves (Settles tracked) (fun _ _ => True) parser) (fuel : Nat)
    {context : Context CharT} (settled : Settled tracked [] context) :
    wp returning (NonTerminal.invoke rule context.position body fuel)
      (fun _ last => Settled tracked [(rule, context.position)] last ∧ active last = active context)
      { context with mem := context.mem.write context.position rule {} } := by
  rw [NonTerminal.invoke, wp_bind, wp_modify, wp_bind]
  cases body with
  | none => exact trivial
  | some parseBody =>
      rw [NonTerminal.parseImpl, wp_bind]
      refine wp_post (store_settled (enter_settled settled) fun _ =>
        Or.inr List.mem_cons_self) ?_
      rintro present planted ⟨settledPlanted, same⟩
      have frames : active planted = (rule, context.position) :: active context := same
      rw [wp_bind]
      refine wp_post (grow_loop_settled (bodyKept parseBody rfl) fuel {} _ settledPlanted
        (by rw [frames]; exact List.mem_cons_self)) ?_
      rintro grown last ⟨settledLast, sameLast⟩
      rw [wp_bind, wp_modify, wp_pure, wp_bind, wp_modify, wp_pure]
      have reset : Settled tracked [] (last.reset (NonTerminal.frame last).lastPos) :=
        settledLast.moved id (fun _ _ => id) rfl
      exact leave_settled reset (sameLast.trans frames)

theorem finish_success_settled (nonTerminal : NonTerminal CharT NodeType) (startPos : Nat)
    (inner : ParseResult) (ruleState : RuleState) {context : Context CharT}
    (settled : Settled tracked [(rule, startPos)] context) :
    wp returning (NonTerminal.finishSuccess nonTerminal rule startPos inner ruleState)
      (fun result last => result.success = true ∧ Settled tracked [] last ∧
        active last = active context) context := by
  have built : wp returning (NonTerminal.buildNode nonTerminal rule startPos inner.tree)
      (fun _ last => Settled tracked [(rule, startPos)] last ∧ active last = active context)
      context := by
    unfold NonTerminal.buildNode
    split
    · rw [wp_bind, wp_modifyGet, wp_bind, wp_modify, wp_bind, wp_modify, wp_pure]
      cases inner.tree <;> exact ⟨settled.moved id (fun _ _ => id) rfl, rfl⟩
    · rw [wp_bind]
      cases inner.tree <;> exact ⟨settled.moved id (fun _ _ => id) rfl, rfl⟩
  rw [NonTerminal.finishSuccess, wp_bind]
  refine wp_post built ?_
  rintro node here ⟨settledHere, same⟩
  rw [wp_bind, NonTerminal.store, wp_bind, wp_modifyGet, wp_bind, announce, wp_announce]
  have frames := congrArg (List.map fun frame : LRFrame => (frame.rule, frame.pos))
    (update_framed here rule startPos ⟨ruleState.lastPos, ⟨true, some node⟩⟩).2.1
  exact fun _ => ⟨trivial, rfl, update_settles settledHere rfl, frames.trans same⟩

/-- The failure of a rule with a name or a label is recorded. -/
theorem record_rule_failure_recorded {nonTerminal : NonTerminal CharT NodeType}
    (named : nonTerminal.label ≠ [] ∨ nonTerminal.name ≠ []) (startPos : Nat)
    (context : Context CharT) :
    (NonTerminal.recordRuleFailure nonTerminal startPos context).errors.hasError = true := by
  unfold NonTerminal.recordRuleFailure
  split_ifs with labelled nameGiven
  · exact record_failure_has_error _ _ _
  · exact record_failure_has_error _ _ _
  · exact absurd named (by simp_all)

theorem record_rule_failure_kept (nonTerminal : NonTerminal CharT NodeType) (startPos : Nat)
    (context : Context CharT) :
    Incidental context (NonTerminal.recordRuleFailure nonTerminal startPos context) := by
  unfold NonTerminal.recordRuleFailure
  split_ifs
  · exact ⟨rfl, rfl, rfl, rfl, rfl, rfl, rfl, fun _ => record_failure_has_error _ _ _⟩
  · exact ⟨rfl, rfl, rfl, rfl, rfl, rfl, rfl, fun _ => record_failure_has_error _ _ _⟩
  · exact .refl context

theorem finish_failure_settled {nonTerminal : NonTerminal CharT NodeType}
    (named : rule = tracked → nonTerminal.label ≠ [] ∨ nonTerminal.name ≠ []) (startPos : Nat)
    (ruleState : RuleState) {context : Context CharT}
    (settled : Settled tracked [(rule, startPos)] context) :
    wp returning (NonTerminal.finishFailure nonTerminal rule startPos ruleState)
      (fun _ last => (rule = tracked → last.errors.hasError = true) ∧ Settled tracked [] last ∧
        active last = active context) context := by
  have step := record_rule_failure_kept nonTerminal startPos context
  have frames : active (NonTerminal.recordRuleFailure nonTerminal startPos context) =
      active context := by rw [active, step.lrStack, active]
  have recorded : rule = tracked →
      (NonTerminal.recordRuleFailure nonTerminal startPos context).errors.hasError = true :=
    fun same => record_rule_failure_recorded (named same) startPos context
  have settledHere : Settled tracked []
      (NonTerminal.recordRuleFailure nonTerminal startPos context) := by
    by_cases same : rule = tracked
    · exact Or.inl (recorded same)
    · refine settled.imp step.errors fun rows pos row held => ?_
      rw [step.mem] at held
      rw [frames]
      refine (rows pos row held).imp_right fun pending => ?_
      rcases List.mem_cons.mp pending with other | later
      · exact absurd (Prod.mk.inj other).1.symm same
      · exact later
  have finish : ∀ (here : Context CharT) (entry : RuleState) (result : ParseResult),
      here.errors.hasError = (NonTerminal.recordRuleFailure nonTerminal startPos context).errors.hasError →
      Settled tracked [] here → active here = active context →
      wp returning (NonTerminal.store rule startPos entry >>= fun _ =>
          (pure result : Parser CharT ParseResult))
        (fun _ last => (rule = tracked → last.errors.hasError = true) ∧ Settled tracked [] last ∧
          active last = active context) here := by
    intro here entry result errors settledHere same
    rw [wp_bind, NonTerminal.store, wp_bind, wp_modifyGet, wp_bind, announce, wp_announce]
    have unmoved : (here.updateRuleState rule startPos entry).2.errors = here.errors ∧
        active (here.updateRuleState rule startPos entry).2 = active here := by
      unfold Context.updateRuleState
      split <;> exact ⟨rfl, rfl⟩
    have hasError : rule = tracked →
        (here.updateRuleState rule startPos entry).2.errors.hasError = true := fun sameRule => by
      rw [unmoved.1, errors]
      exact recorded sameRule
    refine fun _ => ⟨trivial, hasError, ?_, unmoved.2.trans same⟩
    by_cases sameRule : rule = tracked
    · exact Or.inl (hasError sameRule)
    · exact update_settled settledHere fun equal => absurd equal sameRule
  rw [NonTerminal.finishFailure, wp_bind, wp_modify, wp_bind, wp_read]
  dsimp only [id]
  split
  · rw [wp_bind, wp_modify]
    exact finish _ _ _ rfl (settledHere.moved id (fun _ _ => id) rfl) frames
  · exact finish _ _ _ rfl settledHere frames

/-- What an application of a tracked rule owes when it fails. -/
def Accounted (tracked rule : RuleId) (startPos : Nat) (before : Context CharT)
    (result : ParseResult) (last : Context CharT) : Prop :=
  Settled tracked [] last ∧ (rule = tracked → result.success = true ∨
    last.errors.hasError = true ∨ (rule, startPos) ∈ active before)

theorem replay_accounted {startPos : Nat} {ruleState : RuleState} {context : Context CharT}
    (settled : Settled tracked [] context) (held : context.mem startPos rule = some ruleState) :
    wp returning (NonTerminal.replay rule startPos ruleState)
      (Accounted tracked rule startPos context) context := by
  have answer : rule = tracked → ruleState.cachedResult.success = true ∨
      context.errors.hasError = true ∨ (rule, startPos) ∈ active context := by
    rintro rfl
    rcases settled with recorded | rows
    · exact Or.inr (Or.inl recorded)
    · exact (rows startPos ruleState held).imp_right Or.inr
  have live : ∀ here : Context CharT, here.mem = context.mem →
      (here.memoGet rule startPos).cachedResult = ruleState.cachedResult := by
    intro here same
    rw [Context.memoGet, same, held, Option.getD_some]
  have jump : ∀ (target : Context CharT → Nat) (here : Context CharT) (result : ParseResult),
      result = ruleState.cachedResult → here.errors = context.errors → Settled tracked [] here →
      wp returning (Comp.modify (fun context => context.reset (target context)) >>= fun _ =>
          (pure result : Parser CharT ParseResult))
        (Accounted tracked rule startPos context) here := by
    rintro target here result rfl errors settledHere
    rw [wp_bind, wp_modify, wp_pure]
    refine ⟨settledHere.moved id (fun _ _ => id) rfl, fun same => ?_⟩
    refine (answer same).imp_right (Or.imp_left fun recorded => ?_)
    exact (congrArg Errors.hasError errors).trans recorded
  rw [NonTerminal.replay, wp_bind, wp_read]
  dsimp only [id]
  rw [wp_ite]
  refine ⟨fun _ => ?_, fun _ => ?_⟩
  · have marked : (context.markHead rule startPos).mem = context.mem ∧
        (context.markHead rule startPos).errors = context.errors := by
      unfold Context.markHead
      split
      · split_ifs <;> exact ⟨rfl, rfl⟩
      · exact ⟨rfl, rfl⟩
    rw [wp_bind, wp_modify]
    refine jump (fun here => (here.memoGet rule startPos).lastPos) _ _ (live _ rfl) marked.2 ?_
    refine settled.moved (fun recorded => by rw [marked.2]; exact recorded)
      (fun pos row held => by rw [← marked.1]; exact held) ?_
    exact active_of_frames (mark_head_stable rule startPos context).frames
  · split
    · rw [wp_ite]
      refine ⟨fun _ => ?_, fun _ => jump _ _ _ rfl rfl settled⟩
      exact jump (fun here => (here.memoGet rule startPos).lastPos) _ _ (live _ rfl) rfl settled
    · exact jump _ _ _ rfl rfl settled

theorem parse_accounted {nonTerminal : NonTerminal CharT NodeType}
    (named : rule = tracked → nonTerminal.label ≠ [] ∨ nonTerminal.name ≠ [])
    {body : Option (Parser CharT ParseResult)}
    (bodyKept : ∀ parser ∈ body, Preserves (Settles tracked) (fun _ _ => True) parser) (fuel : Nat)
    {context : Context CharT} (settled : Settled tracked [] context) :
    wp returning (NonTerminal.parse nonTerminal rule body fuel)
      (Accounted tracked rule context.position context) context := by
  rw [NonTerminal.parse, wp_bind, announce, wp_announce]
  refine fun _ => ⟨trivial, ?_⟩
  rw [wp_bind, wp_read, wp_bind, wp_modifyGet]
  unfold Context.ruleState
  cases held : context.mem context.position rule with
  | some row => exact replay_accounted settled held
  | none =>
      dsimp only
      rw [wp_ite]
      refine ⟨fun _ => ?_, fun absent => absurd rfl absent⟩
      rw [wp_bind]
      refine wp_post (invoke_settled bodyKept fuel settled) ?_
      rintro grown last ⟨settledLast, frames⟩
      rw [wp_ite]
      constructor
      · intro _
        refine wp_post (finish_success_settled nonTerminal _ grown.1 grown.2 settledLast) ?_
        rintro result finished ⟨success, settledFinished, -⟩
        exact ⟨settledFinished, fun _ => Or.inl success⟩
      · intro _
        refine wp_post (finish_failure_settled named _ grown.2 settledLast) ?_
        rintro result finished ⟨recorded, settledFinished, -⟩
        exact ⟨settledFinished, fun same => Or.inr (Or.inl (recorded same))⟩

end Settled

section Runs

variable [PegValue CharT] {grammar : Grammar CharT NodeType} {tracked : RuleId}

theorem apply_settles (named : NonTerminal.Reports (grammar.nonTerminal tracked)) (fuel : Nat) (rule : RuleId) :
    Preserves (Settles tracked) (fun _ _ => True) (grammar.apply fuel rule) ∧
      ∀ context, Settled tracked [] context → wp returning (grammar.apply fuel rule)
        (Accounted tracked rule context.position context) context := by
  induction fuel generalizing rule with
  | zero => exact ⟨preserves_exhaust, fun _ _ => trivial⟩
  | succ fuel induction =>
      have accounted : ∀ context, Settled tracked [] context →
          wp returning (grammar.apply (fuel + 1) rule)
            (Accounted tracked rule context.position context) context := by
        intro context settled
        refine parse_accounted (fun same => same ▸ named) (fun parser member => ?_) fuel settled
        obtain ⟨expr, -, rfl⟩ := Option.map_eq_some_iff.mp member
        exact expr_kept (fun id => (induction id).1) fuel expr
      refine ⟨fun context => ?_, accounted⟩
      have stable := apply_stable grammar (fuel + 1) rule context
      cases ended : (grammar.apply (fuel + 1) rule context).outcome with
      | exhausted => trivial
      | thrown exn => trivial
      | returned result =>
          rw [ended] at stable
          refine ⟨active_of_frames stable.frames, fun settled => ?_⟩
          exact (wp_returned (accounted context settled) (fun _ _ => trivial) ended).1

end Runs

section Claim

variable [PegValue CharT] {grammar : Grammar CharT NodeType} {input : List CharT}

/-- `take_error` hands out a diagnostic inside the input that expects something. -/
def Explained (input : List CharT) (context : Context CharT) : Prop :=
  ∃ diagnostic, context.errors.takeError.1 = some diagnostic ∧
    diagnostic.position ≤ input.length ∧ diagnostic.expected ≠ []

omit [PegValue CharT] in
theorem explained_iff_recorded {context : Context CharT}
    (inside : context.errors.Inside input.length) :
    Explained input context ↔ context.errors.hasError = true := by
  unfold Explained takeError
  by_cases recorded : context.errors.hasError = true
  · rw [if_pos recorded]
    exact iff_of_true ⟨_, rfl, (inside recorded).1, (inside recorded).2⟩ recorded
  · rw [if_neg recorded]
    refine iff_of_false ?_ recorded
    rintro ⟨diagnostic, taken, -⟩
    cases taken

omit [PegValue CharT] in
theorem fresh_settled (rule : RuleId) : Settled rule [] (Context.fresh input) :=
  Or.inr fun _ _ held => nomatch held

/-- The start rule is not in progress after the leading skip, and its failures
there are on record. -/
theorem leading_skip_settled {rule : RuleId} (named : NonTerminal.Reports (grammar.nonTerminal rule)) {fuel : Nat}
    {middle : Context CharT} {log : List (Moment CharT)}
    (run : grammar.leadingSkip fuel (Context.fresh input) = ⟨.returned (), middle, log⟩) :
    active middle = [] ∧ Settled rule [] middle := by
  have kept : Preserves (Settles rule) (fun _ _ => True) (runSkipper (grammar.apply fuel)) :=
    skip_kept fun id => (apply_settles named fuel id).1
  have ended : (runSkipper (grammar.apply fuel)
      { Context.fresh input with skipper := grammar.skipper }).outcome = .returned () := by
    have outcome := congrArg Run.outcome run
    exact outcome
  have step := kept.returned ended
  have state : (runSkipper (grammar.apply fuel)
      { Context.fresh input with skipper := grammar.skipper }).state = middle :=
    congrArg Run.state run
  rw [state] at step
  exact ⟨step.1, step.2 (@fresh_settled CharT input rule)⟩

theorem recorded_iff_missed {fuel : Nat} {rule : RuleId} {middle : Context CharT}
    {skipLog : List (Moment CharT)}
    (skipped : grammar.leadingSkip fuel (Context.fresh input) = ⟨.returned (), middle, skipLog⟩)
    (ended : (grammar.apply fuel rule middle).outcome ≠ .exhausted) :
    (grammar.apply fuel rule middle).state.errors.hasError = true ↔
      misses grammar fuel rule input ≠ [] := by
  have follows := observe_start_follows grammar fuel rule ⟨Context.fresh input, {}⟩
  rw [Comp.bind_returned skipped] at follows
  have fresh : Chronicled ⟨Context.fresh input, {}⟩ :=
    ⟨fun recorded => absurd recorded Bool.false_ne_true, fun missed => absurd rfl missed⟩
  have chronicled : Chronicled (observeStart grammar fuel rule ⟨Context.fresh input, {}⟩).state := by
    have step := observe_start_chronicles grammar fuel rule ⟨Context.fresh input, {}⟩
    unfold erase at follows
    cases run : (observeStart grammar fuel rule ⟨Context.fresh input, {}⟩).outcome with
    | returned value => rw [run] at step; exact step fresh
    | thrown exn => rw [run] at step; exact step fresh
    | exhausted =>
        rw [run] at follows
        exact absurd (congrArg Run.outcome follows).symm ended
  have plain := congrArg Run.state follows
  unfold erase at plain
  rw [← show _ = (grammar.apply fuel rule middle).state from plain]
  exact chronicled

/-- `S = cut >> !'a' >> 'b' | 'a'`. -/
def silentCommitment : Grammar UInt8 Unit where
  rules := [(ascii "S",
    { name := ascii "S"
      body := some (.alternation [
        .sequence [.cut, .not (.terminal (.value 97)), .terminal (.value 98)],
        .terminal (.value 97)]) })]

/-- `S = 'a'`. -/
def oneLetter : Grammar UInt8 Unit where
  rules := [(ascii "S", { name := ascii "S", body := some (.terminal (.value 97)) })]

end Claim

end Peglib.FailureReports
