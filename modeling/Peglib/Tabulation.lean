import Peglib.InvocationStack
import Peglib.SkippingRecursion

/-!
# Every rule is parsed once at a position

Without cuts and without re-entries no memo row is ever dropped, so the first-time
parses of a run, those that find no row and evaluate the body, are all different.
Their number is bounded by the rules and the length of the input.
-/

namespace Peglib.Tabulation

open Peglib.TracedComputation Peglib.LoggedSteps Peglib.EngineSteps
open Peglib.ParseError Peglib.ParseContext Peglib.Expressions Peglib.Rules
open Peglib.ControlDiscipline Peglib.ScopeBlindness Peglib.SuccessfulAnswers Peglib.Termination
open Peglib.MemoAnswers Peglib.EntryPoints Peglib.InvocationStack
open Peglib.LeftRecursion (Falls free_of_rank)
open Peglib.SkippingRecursion (ReentryFree reentry_free_of_left boundary_never_reentered)

set_option autoImplicit false

variable {CharT NodeType : Type}

/-- The rule and position of a first-time parse. -/
def firstTime (moment : Moment CharT) : Option (RuleId × Nat) :=
  match moment.event with
  | .apply rule =>
      if (moment.context.mem moment.context.position rule).isNone then
        some (rule, moment.context.position)
      else none
  | _ => none

/-- The first-time parses of a log, in their order. -/
def firstTimes (log : List (Moment CharT)) : List (RuleId × Nat) := log.filterMap firstTime

/-- No scope is committed, and no rule in progress is a head. -/
structure Calm (context : Context CharT) : Prop where
  uncommitted : Uncommitted context
  headless : ∀ frame ∈ context.lrStack, frame.isHead = false

/-- What a run leaves in the memo. -/
structure Tabulated (reach : RuleId → Prop) (before : Context CharT) (log : List (Moment CharT))
    (after : Context CharT) : Prop where
  calm : Calm after
  rows : ∀ pos rule, (before.mem pos rule).isSome = true → (after.mem pos rule).isSome = true
  distinct : (firstTimes log).Nodup
  absent : ∀ key ∈ firstTimes log, before.mem key.2 key.1 = none
  present : ∀ key ∈ firstTimes log, (after.mem key.2 key.1).isSome = true
  among : ∀ key ∈ firstTimes log, reach key.1

def Tabulates (reach : RuleId → Prop) (before : Context CharT) (log : List (Moment CharT))
    (after : Context CharT) : Prop :=
  Calm before → (∀ moment ∈ log, NotReentered moment) → Tabulated reach before log after

section Steps

variable {reach : RuleId → Prop} {context after : Context CharT}

theorem tabulates_plainly {log : List (Moment CharT)} (none : firstTimes log = [])
    (calm : Calm context → Calm after)
    (rows : Calm context → ∀ pos rule, (context.mem pos rule).isSome = true →
      (after.mem pos rule).isSome = true) : Tabulates reach context log after :=
  fun before _ => ⟨calm before, rows before, by simp [none], by simp [none], by simp [none], by simp [none]⟩

instance : Chained (@Tabulates CharT reach) where
  refl context := tabulates_plainly rfl id fun _ _ _ => id
  trans first middle last log rest early late := by
    intro calm quiet
    have before := early calm fun moment member => quiet moment (by simp [member])
    have later := late before.calm fun moment member => quiet moment (by simp [member])
    have both : firstTimes (log ++ rest) = firstTimes log ++ firstTimes rest := by simp [firstTimes]
    refine ⟨later.calm, fun pos rule held => later.rows pos rule (before.rows pos rule held), ?_, ?_, ?_, ?_⟩
    · rw [both, List.nodup_append]
      refine ⟨before.distinct, later.distinct, ?_⟩
      rintro key found _ again rfl
      have held := before.present key found
      simp [later.absent key again] at held
    · rw [both]
      intro key member
      rcases List.mem_append.mp member with found | found
      · exact before.absent key found
      · by_contra held
        have kept := before.rows key.2 key.1 (Option.isSome_iff_ne_none.mpr held)
        simp [later.absent key found] at kept
    · rw [both]
      intro key member
      rcases List.mem_append.mp member with found | found
      · exact later.rows _ _ (before.present key found)
      · exact later.present key found
    · rw [both]
      intro key member
      rcases List.mem_append.mp member with found | found
      · exact before.among key found
      · exact later.among key found

instance : Grounded (@Tabulates CharT reach) where
  aside before after aside := by
    refine tabulates_plainly rfl (fun calm => ⟨?_, ?_⟩) (by simp [aside.mem])
    · rw [Uncommitted, aside.cutStack]
      exact calm.uncommitted
    · rw [aside.lrStack]
      exact calm.headless
  opened context := by
    refine tabulates_plainly rfl (fun calm => ⟨?_, calm.headless⟩) fun _ _ _ => id
    intro scope member
    rcases List.mem_cons.mp member with rfl | outer
    · rfl
    · exact calm.uncommitted scope outer
  closed context := by
    have frames : context.removeCut.lrStack = context.lrStack := by
      unfold Context.removeCut
      split
      · rfl
      · split_ifs <;> rfl
    refine tabulates_plainly rfl (fun calm => ?_) fun calm pos rule held => ?_
    · exact ⟨(remove_cut_uncommitted calm.uncommitted).1, by rw [frames]; exact calm.headless⟩
    · rwa [(remove_cut_uncommitted calm.uncommitted).2]
  reopened context := by
    unfold Context.setCut
    cases scopes : context.cutStack with
    | nil => exact Chained.refl context
    | cons scope outer =>
        refine tabulates_plainly rfl (fun calm => ⟨?_, calm.headless⟩) fun _ _ _ => id
        have outside := calm.uncommitted
        rw [Uncommitted, scopes] at outside
        intro other member
        rcases List.mem_cons.mp member with rfl | inner
        · rfl
        · exact outside other (by simp [inner])
  failed context := tabulates_plainly rfl id fun _ _ _ => id
  stored rule pos entry context := by
    refine tabulates_plainly rfl (fun calm => ?_) fun _ pos' rule' held => ?_
    · unfold Context.updateRuleState
      split
      · exact ⟨calm.uncommitted, calm.headless⟩
      · exact calm
    · unfold Context.updateRuleState
      split
      · simp only [Memo.write]
        split_ifs <;> simp [held]
      · exact held
  grew pos context := by
    refine tabulates_plainly rfl (fun calm => ⟨calm.uncommitted, ?_⟩) fun _ _ _ => id
    have headless := calm.headless
    unfold NonTerminal.setFrameLastPos
    cases stack : context.lrStack with
    | nil => simp
    | cons top rest => simpa [stack] using headless
  cleared rule pos context head := by
    intro calm
    have plain : (NonTerminal.frame context).isHead = false := by
      unfold NonTerminal.frame
      cases stack : context.lrStack with
      | nil => rfl
      | cons top rest => exact calm.headless top (by simp [stack])
    simp [plain] at head
  left pos context := by
    have same : (NonTerminal.leave pos context).cutStack = context.cutStack ∧
        (NonTerminal.leave pos context).mem = context.mem ∧
        (NonTerminal.leave pos context).lrStack = context.lrStack.tail := by
      unfold NonTerminal.leave
      split_ifs <;> exact ⟨rfl, rfl, rfl⟩
    refine tabulates_plainly rfl (fun calm => ⟨?_, ?_⟩) (by simp [same.2.1])
    · rw [Uncommitted, same.1]
      exact calm.uncommitted
    · rw [same.2.2]
      exact fun frame member => calm.headless frame (List.mem_of_mem_tail member)

theorem tabulates_engine : EngineRules reach False (@Tabulates CharT reach) where
  committed := False.elim
  met rule context _ held := by
    intro calm quiet
    -- The rule is not in progress, so that no frame becomes a head.
    have idle : context.lrInProgress rule context.position = false :=
      quiet ⟨.apply rule, context⟩ (by simp)
    have stays : recognise rule context = context := by simp [recognise, idle]
    have hit : firstTimes [(⟨.apply rule, context⟩ : Moment CharT)] = [] := by
      simpa [firstTimes, firstTime, Option.isSome_iff_ne_none] using held
    rw [stays]
    exact tabulates_plainly hit id (fun _ _ _ => id) calm quiet
  entered rule context inside absent := by
    intro calm _
    have first : firstTimes [(⟨.apply rule, context⟩ : Moment CharT)] = [(rule, context.position)] := by
      simp [firstTimes, firstTime, absent]
    refine ⟨⟨calm.uncommitted, ?_⟩, fun pos rule' held => ?_, ?_, ?_, ?_, ?_⟩
    · intro frame member
      rcases List.mem_cons.mp member with rfl | outer
      · rfl
      · exact calm.headless frame outer
    · simp only [embark, Context.lrPush, Memo.write]
      split_ifs <;> simp [held]
    · simp [first]
    · simp [first, absent]
    · simp [first, embark, Context.lrPush, Memo.write]
    · simpa [first] using inside

end Steps

section Bounds

variable [PegValue CharT] {grammar : Grammar CharT NodeType} {rules : Finset RuleId}

/-- First-time parses are all different, as long as no rule in progress is applied again. -/
theorem first_times_distinct (closed : ClosedUnder grammar (· ∈ rules) False) (inRange : InRange grammar)
    (skips : ∀ skipper, grammar.skipper = some skipper → skipper ∈ rules) {name : Str} {start : RuleId}
    (found : grammar.find name = some start) (inside : start ∈ rules) (input : List CharT) (fuel : Nat)
    (quiet : ∀ moment ∈ (grammar.parse fuel name (Context.fresh input)).trace, NotReentered moment) :
    (firstTimes (grammar.parse fuel name (Context.fresh input)).trace).Nodup ∧
      (firstTimes (grammar.parse fuel name (Context.fresh input)).trace).length ≤
        rules.card * (input.length + 1) := by
  have raising : MayRaise grammar (· ∈ rules) fun _ => True := ⟨fun _ _ => trivial, fun _ _ _ => trivial⟩
  have followed := parse_moves (@tabulates_engine CharT (· ∈ rules)) closed raising fuel found inside
    skips (Context.fresh input)
  have calm : Calm { Context.fresh input with skipper := grammar.skipper } := by
    constructor <;> simp [Context.fresh, Uncommitted]
  have tabulated := followed.steps.kept calm quiet
  have layered := parse_layered closed inRange skips found inside input fuel
  refine ⟨tabulated.distinct, keys_bounded tabulated.distinct fun key member => ⟨tabulated.among key member, ?_⟩⟩
  obtain ⟨moment, logged, first⟩ := List.mem_filterMap.mp member
  have position : key.2 = moment.context.position := by
    unfold firstTime at first
    split at first
    · split_ifs at first
      exact congrArg Prod.snd (Option.some.inj first).symm
    · cases first
  rw [position]
  exact (layered moment logged).inside

/-- Packrat parsing: without left recursion and cuts a parse enters no rule twice at one
position, so the rules it enters are no more than there are rules and positions. -/
theorem rules_entered_once (closed : ClosedUnder grammar (· ∈ rules) False) (inRange : InRange grammar)
    (free : ReentryFree grammar)
    (skips : ∀ skipper, grammar.skipper = some skipper → skipper ∈ rules) {name : Str} {start : RuleId}
    (found : grammar.find name = some start) (inside : start ∈ rules) (input : List CharT) (fuel : Nat) :
    (firstTimes (grammar.parse fuel name (Context.fresh input)).trace).Nodup ∧
      (firstTimes (grammar.parse fuel name (Context.fresh input)).trace).length ≤
        rules.card * (input.length + 1) := by
  refine first_times_distinct closed inRange skips found inside input fuel ?_
  have calm := boundary_never_reentered free inRange input fuel start ParseResult.success false
  have entry : grammar.parse fuel name (Context.fresh input) =
      boundary grammar fuel start ParseResult.success false (Context.fresh input) := by
    rw [Grammar.parse, found]
    rfl
  rw [entry]
  exact calm

/-- `S = B >> 'x' | B` with `B = 'b'`. -/
def sharedPrefix : Grammar UInt8 Unit where
  rules := [
    (ascii "B", { body := some (.terminal (.value 98)) }),
    (ascii "S", { body := some (.alternation [
        .sequence [.rule 0, .terminal (.value 120)],
        .rule 0]) })]

theorem shared_prefix_bodies {holds : Expr UInt8 → Prop} {rule : RuleId} {body : Expr UInt8}
    (assigned : sharedPrefix.body rule = some body)
    (first : rule = 0 → (Expr.terminal (.value 98)).Every holds)
    (second : rule = 1 → (Expr.alternation [.sequence [.rule 0, .terminal (.value 120)],
      .rule 0]).Every holds) : body.Every holds := by
  cases rule with
  | zero =>
      obtain rfl := Option.some.inj assigned
      exact first rfl
  | succ rule =>
      cases rule with
      | zero =>
          obtain rfl := Option.some.inj assigned
          exact second rfl
      | succ rule => cases assigned

/-- Both branches apply `B` at the start of "b": it is entered once. -/
theorem shared_prefix_entered_once :
    firstTimes (sharedPrefix.parse 5 (ascii "S") (Context.fresh (ascii "b"))).trace = [(1, 0), (0, 0)] ∧
      (firstTimes (sharedPrefix.parse 5 (ascii "S") (Context.fresh (ascii "b"))).trace).Nodup ∧
      (firstTimes (sharedPrefix.parse 5 (ascii "S") (Context.fresh (ascii "b"))).trace).length ≤
        ({0, 1} : Finset RuleId).card * (1 + 1) := by
  refine ⟨by decide, rules_entered_once ?_ ?_ (reentry_free_of_left ?_ rfl) (by simp [sharedPrefix])
    (show sharedPrefix.find (ascii "S") = some 1 by decide) (by simp) (ascii "b") 5⟩
  · intro rule body _ assigned
    refine shared_prefix_bodies assigned (fun _ => ?_) fun _ => ?_
    · simp [Expr.Every, Confined]
    · simp [Expr.Every, Expr.EveryAll, Confined]
  · intro rule body assigned
    refine shared_prefix_bodies assigned (fun _ => ?_) fun _ => ?_
    · simp [Expr.Every, MatcherInRange]
    · simp [Expr.Every, Expr.EveryAll, MatcherInRange]
  · refine @free_of_rank _ _ sharedPrefix id fun rule body assigned => ?_
    refine shared_prefix_bodies assigned (fun _ => ?_) fun second => ?_
    · simp [Expr.Every, Falls]
    · subst second
      simp [Expr.Every, Expr.EveryAll, Falls]

end Bounds

end Peglib.Tabulation
