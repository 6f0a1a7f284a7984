import Peglib.CutScopes
import Peglib.Parametricity
import Peglib.Repetitions

/-!
# Which cuts commit what

A cut outside every choice and repetition of an expression is bare: it commits
the scope that the expression is evaluated in. Without bare cuts an expression
leaves the scopes around it alone. A predicate is no scope, a memo answer
repeats no cut, and a repetition counts its iterations before it looks for cuts.
-/

namespace Peglib.Commitments

open Peglib.TracedComputation Peglib.WeakestPrecondition Peglib.Preservation Peglib.Annotation
open Peglib.ParseError Peglib.ParseContext Peglib.Expressions Peglib.Rules
open Peglib.ExpressionSteps Peglib.ControlDiscipline Peglib.Parametricity
open Peglib.AcceptedParse Peglib.CutScopes Peglib.Repetitions

set_option autoImplicit false

variable {CharT NodeType : Type}

section Bare

/-- A cut that an expression may execute outside the choices and repetitions of
its own, of the rules it refers to and of the skipper. `skips` says whether
auto-skip is on. -/
inductive Bare (grammar : Grammar CharT NodeType) (skipper : Option RuleId) :
    Bool → Expr CharT → Prop
  | cut {skips} : Bare grammar skipper skips .cut
  | sequence {skips children child} : child ∈ children → Bare grammar skipper skips child →
      Bare grammar skipper skips (.sequence children)
  | skipped {children id} : skipper = some id → Bare grammar skipper false (.rule id) →
      Bare grammar skipper true (.sequence children)
  | not {skips child} : Bare grammar skipper skips child → Bare grammar skipper skips (.not child)
  | and {skips child} : Bare grammar skipper skips child → Bare grammar skipper skips (.and child)
  | lexeme {skips child} : Bare grammar skipper false child →
      Bare grammar skipper skips (.lexeme child)
  | rule {skips id body} : grammar.body id = some body → Bare grammar skipper skips body →
      Bare grammar skipper skips (.rule id)

variable {skipper : Option RuleId} {skips : Bool}

theorem aloof_trans (first second third : Noted CharT) (left : Aloof first second)
    (right : Aloof second third) : Aloof first third := by
  obtain ⟨same, cuts, noted, deeper⟩ := left
  obtain ⟨same', cuts', noted', deeper'⟩ := right
  rw [same] at deeper'
  refine ⟨same'.trans same, cuts ++ cuts', by rw [noted', noted, List.append_assoc], ?_⟩
  intro cut member
  exact (List.mem_append.mp member).elim (deeper cut) (deeper' cut)

def SkipsAs (skipper : Option RuleId) (skips : Bool) (context : Context CharT) : Prop :=
  context.skipper = skipper ∧ context.skipEnabled = skips

/-- Under a given skipper the scopes around are left alone. -/
def StaysAloof (skipper : Option RuleId) (skips : Bool) (before after : Noted CharT) : Prop :=
  SkipsAs skipper skips before.plain → Aloof before after ∧ SkipsAs skipper skips after.plain

def ThrowsAloof (skipper : Option RuleId) (skips : Bool) (before after : Noted CharT) : Prop :=
  SkipsAs skipper skips before.plain → Aloof before after

theorem untouched_aloof {before after : Noted CharT} (step : Untouched before.plain after.plain)
    (noted : after.notes.cuts = before.notes.cuts) : Aloof before after :=
  ⟨step.cutStack, [], by rw [noted, List.append_nil], by simp⟩

instance : QuietClosed (@StaysAloof CharT skipper skips) (ThrowsAloof skipper skips) where
  refl _ skipping := ⟨untouched_aloof ⟨rfl, rfl, rfl⟩ rfl, skipping⟩
  trans _ _ _ left right skipping :=
    ⟨aloof_trans _ _ _ (left skipping).1 (right (left skipping).2).1, (right (left skipping).2).2⟩
  before _ _ _ left right skipping :=
    aloof_trans _ _ _ (left skipping).1 (right (left skipping).2)
  quiet _ _ step noted _ skipping := ⟨untouched_aloof step.toUntouched noted,
    step.skipper.trans skipping.1, step.skipEnabled.trans skipping.2⟩
  missed _ _ step noted _ _ skipping := ⟨untouched_aloof step noted,
    step.skipper.trans skipping.1, step.skipEnabled.trans skipping.2⟩
  raised _ _ := untouched_aloof ⟨rfl, rfl, rfl⟩ rfl

abbrev AloofParser {Value : Type} (skipper : Option RuleId) (skips : Bool)
    (observer : Observer CharT Value) : Prop :=
  Preserves (StaysAloof skipper skips) (ThrowsAloof skipper skips) observer

theorem aloof_of_wp {Value : Type} {observer : Observer CharT Value}
    (meets : ∀ state : Noted CharT, SkipsAs skipper skips state.plain →
      wp (throwing (Aloof state)) observer
        (fun _ last => Aloof state last ∧ SkipsAs skipper skips last.plain) state) :
    AloofParser skipper skips observer := by
  intro state
  by_cases skipping : SkipsAs skipper skips state.plain
  · have met := meets state skipping
    unfold wp throwing at met
    rw [along_unconstrained] at met
    cases run : (observer state).outcome with
    | returned value => rw [run] at met; exact fun _ => met
    | thrown exn => rw [run] at met; exact fun _ => met
    | exhausted => trivial
  · cases (observer state).outcome with
    | returned value => exact fun other => absurd other skipping
    | thrown exn => exact fun other => absurd other skipping
    | exhausted => trivial

theorem aloof_wp {Value : Type} {observer : Observer CharT Value} {state : Noted CharT}
    (kept : AloofParser skipper skips observer) (skipping : SkipsAs skipper skips state.plain) :
    wp (throwing (Aloof state)) observer
      (fun _ last => Aloof state last ∧ SkipsAs skipper skips last.plain) state :=
  wp_mono (preserves_iff_wp.mp kept state) (fun _ => id) (fun _ _ => id)
    (fun _ _ aloof => aloof skipping) fun _ _ aloof => aloof skipping

theorem observe_skipper_aloof {observes : RuleId → Observer CharT Observed}
    (kept : ∀ rule, skips = true → skipper = some rule →
      AloofParser skipper false (observes rule)) :
    AloofParser skipper skips (observeSkipper observes) := by
  refine aloof_of_wp fun state skipping => ?_
  rw [observeSkipper, wp_bind, wp_lift_read]
  dsimp only [id]
  split
  · next rule enabled configured =>
      rw [wp_bind, wp_lift_modify, wp_bind]
      have inner := kept rule (skipping.2.symm.trans enabled) (skipping.1.symm.trans configured)
      refine wp_mono (aloof_wp inner ⟨skipping.1, rfl⟩) (fun _ => id) (fun _ _ => id)
        (fun _ _ => id) fun _ last step => ?_
      rw [wp_lift_modify]
      exact ⟨step.1, step.2.1, skipping.2⟩
  · exact ⟨untouched_aloof ⟨rfl, rfl, rfl⟩ rfl, skipping⟩

theorem observe_lexeme_aloof {child : Observer CharT Observed}
    (kept : AloofParser skipper false child) :
    AloofParser skipper skips (LexemeExpr.observe child) := by
  refine aloof_of_wp fun state skipping => ?_
  rw [LexemeExpr.observe, wp_bind, wp_lift_read, wp_bind, wp_lift_modify, wp_guarded]
  refine wp_mono (aloof_wp kept ⟨skipping.1, rfl⟩) (fun _ => id) (fun _ _ => id)
    (fun _ _ => id) fun _ last step => ?_
  exact ⟨step.1, step.2.1, skipping.2⟩

/-- Expressions with scopes of their own are aloof whatever is in them. -/
theorem aloof_of_scope {observer : Observer CharT Observed} {parser : Parser CharT ParseResult}
    (enclosed : Preserves Aloof Aloof observer) (follows : Follows Prod.fst observer parser)
    (stable : StableParser parser) : AloofParser skipper skips observer :=
  preserves_mono (preserves_and enclosed (follows.preserves stable))
    (fun _ _ step skipping => ⟨step.1, step.2.skipper.trans skipping.1,
      step.2.skipEnabled.trans skipping.2⟩)
    fun _ _ step _ => step.1

variable [PegValue CharT] {grammar : Grammar CharT NodeType}

theorem observe_expr_aloof {fuel : Nat}
    (rules : ∀ id skips, ¬Bare grammar skipper skips (.rule id) →
      AloofParser skipper skips (observe grammar fuel id))
    (expr : Expr CharT) (sealed : ¬Bare grammar skipper skips expr) :
    AloofParser skipper skips (observeExpr (observe grammar fuel) fuel expr) := by
  have recorded : ∀ expr, Preserves Recorded Recorded (observeExpr (observe grammar fuel) fuel expr) :=
    observe_expr_kept (observe_kept grammar fuel) fuel
  have skipped : Preserves Recorded Recorded (observeSkipper (observe grammar fuel)) :=
    observe_skipper_kept (observe_kept grammar fuel)
  have stable := fun expr => expr_stable (apply_stable grammar fuel) fuel expr
  have follows := expr_follows (observe_follows grammar fuel) fuel
  induction expr using Expr.induct generalizing skips with
  | terminal value => exact observe_attempt_kept (terminal_attempts value)
  | terminalSeq values => exact observe_attempt_kept (terminal_seq_attempts values)
  | token value => exact observe_attempt_kept (token_attempts value)
  | matcher fn => exact observe_leaf_kept (matcher_kept fn)
  | empty => exact observe_leaf_kept (preserves_pure _)
  | cut => exact absurd .cut sealed
  | sequence children induction =>
      refine observe_sequence_kept (observe_skipper_aloof fun id skipping configured => ?_)
        (observe_all_kept fun child member => ?_)
      · subst skipping
        exact rules id false fun bare => sealed (.skipped configured bare)
      · exact induction child member fun bare => sealed (.sequence member bare)
  | alternation children _ =>
      exact aloof_of_scope (observe_scope_aloof (observe_alt_kept
        (observe_all_kept fun child _ => enclosed_of_recorded (recorded child)) 0))
        (follows _) (stable _)
  | repetition kind child _ =>
      exact aloof_of_scope (observe_repeat_kept observe_scope_aloof (set_cut_enclosed false)
        (enclosed_of_recorded skipped) (enclosed_of_recorded (recorded child)) fuel _ _)
        (follows _) (stable _)
  | not child induction =>
      exact observe_predicate_kept (induction fun bare => sealed (.not bare)) true
  | and child induction =>
      exact observe_predicate_kept (induction fun bare => sealed (.and bare)) false
  | lexeme child induction =>
      exact observe_lexeme_aloof (induction fun bare => sealed (.lexeme bare))
  | rule id => exact rules id skips sealed

theorem observe_aloof (fuel : Nat) (id : RuleId) (skips : Bool)
    (sealed : ¬Bare grammar skipper skips (.rule id)) :
    AloofParser skipper skips (observe grammar fuel id) := by
  induction fuel generalizing id skips with
  | zero => exact preserves_exhaust
  | succ fuel induction =>
      refine observe_rule_kept _ id (fun observer member => ?_) fuel
      obtain ⟨body, assigned, rfl⟩ := Option.map_eq_some_iff.mp member
      exact observe_expr_aloof induction body fun bare => sealed (.rule assigned bare)

/-- Without bare cuts nothing is executed in the scope around. -/
theorem sealed_scope_cuts {fuel : Nat} {expr : Expr CharT} {context : Context CharT}
    (sealed : ¬Bare grammar context.skipper context.skipEnabled expr)
    (ended : (grammar.eval fuel expr context).outcome ≠ .exhausted) :
    scopeCuts grammar fuel expr context = [] := by
  have keeps := observe_expr_aloof (observe_aloof fuel) expr sealed
  obtain ⟨-, cuts, noted, deeper⟩ := observed_kept (preserves_mono keeps
    (fun _ _ step skipping => (step skipping).1) fun _ _ => id) ended ⟨rfl, rfl⟩
  rw [scopeCuts, noted, List.map_eq_nil_iff, List.filter_eq_nil_iff]
  intro cut member
  rw [decide_eq_true_eq]
  exact Nat.ne_of_gt (deeper cut member)

/-- The scopes around an expression without bare cuts stay as they were, however
the expression ends. -/
theorem enclosed_cuts_local {fuel : Nat} {expr : Expr CharT} {context : Context CharT}
    (sealed : ¬Bare grammar context.skipper context.skipEnabled expr)
    (ended : (grammar.eval fuel expr context).outcome ≠ .exhausted) :
    (grammar.eval fuel expr context).state.cutStack = context.cutStack := by
  rw [cut_stack_after ended, sealed_scope_cuts sealed ended]
  unfold commitLast
  cases context.cutStack <;> rfl

/-- `S = 'a' >> cut >> 'x' | 'a'`. -/
def committedChoice : Grammar UInt8 Unit where
  rules := [(ascii "S",
    { body := some (.alternation [
        .sequence [.terminal (.value 97), .cut, .terminal (.value 120)],
        .terminal (.value 97)]) })]

/-- The `ParseError` that leaves the rule commits nothing further out. -/
theorem choice_cuts_local :
    (committedChoice.eval 2 (.rule 0)
        { Context.fresh (ascii "ab") with cutStack := [⟨0, false⟩] }).outcome =
        .thrown (.parseError 1 [⟨.literal, ascii "'x'"⟩]) ∧
      (committedChoice.eval 2 (.rule 0)
        { Context.fresh (ascii "ab") with cutStack := [⟨0, false⟩] }).state.cutStack =
        [⟨0, false⟩] := by
  refine ⟨rfl, enclosed_cuts_local ?_ nofun⟩
  rintro (_ | _ | _ | _ | _ | _ | ⟨assigned, bare⟩)
  cases Option.some.inj assigned
  cases bare

end Bare

section Predicates

variable [PegValue CharT] {grammar : Grammar CharT NodeType}

def predicate (negate : Bool) (child : Expr CharT) : Expr CharT :=
  if negate then .not child else .and child

theorem predicate_scope_cuts (fuel : Nat) (negate : Bool) (child : Expr CharT)
    (context : Context CharT) :
    scopeCuts grammar fuel (predicate negate child) context =
      scopeCuts grammar fuel child context := by
  have observed : observeExpr (observe grammar fuel) fuel (predicate negate child) =
      observePredicate (observeExpr (observe grammar fuel) fuel child) negate := by
    cases negate <;> rfl
  have same : ∀ (observer : Observer CharT Observed) (state : Noted CharT),
      (observePredicate observer negate state).state.notes = (observer state).state.notes := by
    intro observer state
    have start : (lift (Comp.read Context.position) : Observer CharT Nat) state =
        ⟨.returned state.plain.position, state, []⟩ := rfl
    rw [observePredicate, Comp.bind_returned start]
    rcases run : observer state with ⟨outcome, last, log⟩
    cases outcome with
    | returned found => rw [Comp.bind_returned run]; rfl
    | thrown exn => rw [Comp.bind_thrown run]
    | exhausted => rw [Comp.bind_exhausted run]
  rw [scopeCuts, observed, same]
  rfl

theorem commit_last_same_iff {stack : List CutRecord} {cuts : List Nat} :
    commitLast stack cuts = stack ↔
      cuts = [] ∨ stack = [] ∨
        ∃ pos outer, cuts.getLast? = some pos ∧ stack = ⟨pos, true⟩ :: outer := by
  unfold commitLast
  cases stack with
  | nil => simp
  | cons scope outer =>
      cases last : cuts.getLast? with
      | none => simp [List.getLast?_eq_none_iff.mp last]
      | some pos =>
          have some : cuts ≠ [] := by
            rintro rfl
            cases last
          simp [some, eq_comm]

/-- A predicate leaves the scope around it as it was exactly when its operand
executes no cut there, unless nothing is left to commit. -/
theorem predicate_keeps_scope_iff {fuel : Nat} {negate : Bool} {child : Expr CharT}
    {context : Context CharT} {result : ParseResult}
    (returned : (grammar.eval fuel (predicate negate child) context).outcome = .returned result) :
    (grammar.eval fuel (predicate negate child) context).state.cutStack = context.cutStack ↔
      scopeCuts grammar fuel child context = [] ∨ context.cutStack = [] ∨
        ∃ pos outer, (scopeCuts grammar fuel child context).getLast? = some pos ∧
          context.cutStack = ⟨pos, true⟩ :: outer := by
  rw [cut_stack_after (by rw [returned]; nofun), predicate_scope_cuts]
  exact commit_last_same_iff

/-- `'a' >> cut >> 'b' | 'a'`, whose cut belongs to the choice. -/
def ownCut : Expr UInt8 := .alternation [
  .sequence [.terminal (.value 97), .cut, .terminal (.value 98)], .terminal (.value 97)]

/-- A lookahead at a choice that commits, in an open scope. -/
theorem lookahead_keeps_scope :
    (committedChoice.eval 1 (predicate false ownCut)
      { Context.fresh (ascii "ab") with cutStack := [⟨0, false⟩] }).state.cutStack =
      [⟨0, false⟩] := by
  have returned : (committedChoice.eval 1 (predicate false ownCut)
      { Context.fresh (ascii "ab") with cutStack := [⟨0, false⟩] }).outcome =
      .returned ⟨true, none⟩ := rfl
  have quiet : scopeCuts committedChoice 1 ownCut
      { Context.fresh (ascii "ab") with cutStack := [⟨0, false⟩] } = [] := by decide +kernel
  exact (predicate_keeps_scope_iff returned).mpr (Or.inl quiet)

/-- `!(cut >> 'x')` succeeds on "y" and commits the scope around it, so the choice
`!(cut >> 'x') >> 'z' | 'y'` raises where its second branch would match. -/
theorem negation_commits_scope :
    (committedChoice.eval 1 (predicate true (.sequence [.cut, .terminal (.value 120)]))
        { Context.fresh (ascii "y") with cutStack := [⟨0, false⟩] }).outcome =
        .returned ⟨true, none⟩ ∧
      (committedChoice.eval 1 (predicate true (.sequence [.cut, .terminal (.value 120)]))
        { Context.fresh (ascii "y") with cutStack := [⟨0, false⟩] }).state.cutStack ≠
        [⟨0, false⟩] ∧
      ∃ position expected, (committedChoice.eval 1 (.alternation [
        .sequence [predicate true (.sequence [.cut, .terminal (.value 120)]),
          .terminal (.value 122)],
        .terminal (.value 121)]) (Context.fresh (ascii "y"))).outcome =
        .thrown (.parseError position expected) :=
  ⟨rfl, by decide, _, _, rfl⟩

end Predicates

section Hits

variable [PegValue CharT] {grammar : Grammar CharT NodeType}

omit [PegValue CharT] in
theorem replay_silent (rule : RuleId) (startPos : Nat) (row : RuleState) :
    Silent (NonTerminal.replay rule startPos row : Parser CharT ParseResult) := by
  have jump : ∀ (target : Context CharT → Nat) (result : ParseResult),
      Silent (Comp.modify (fun context => context.reset (target context)) >>= fun _ =>
        (pure result : Parser CharT ParseResult)) := fun target result =>
    silent_bind (silent_modify _) fun _ => silent_pure result
  refine silent_bind (silent_read _) fun context => silent_ite ?_ ?_
  · exact silent_bind (silent_modify _) fun _ => jump _ _
  · split
    · exact silent_ite (jump _ _) (jump _ _)
    · exact jump _ _

/-- An answer from the memo writes to no scope. -/
theorem hit_cut_stack {fuel : Nat} {rule : RuleId} {context : Context CharT} {row : RuleState}
    (held : context.mem context.position rule = some row) :
    (grammar.apply (fuel + 1) rule context).state.cutStack = context.cutStack := by
  obtain ⟨result, last, run⟩ := replay_silent rule context.position row context
  have quiet := (replay_quiet rule context.position row).returned (congrArg Run.outcome run)
  rw [Grammar.apply, parse_hit _ _ _ held]
  exact quiet.cutStack

end Hits

section Iterations

variable {skip : Parser CharT Unit} {child : Parser CharT ParseResult}

theorem iteration_stable (skips : StableParser skip) {count : Nat}
    {here start after : Context CharT} {result : ParseResult}
    (iteration : Iteration skip child count here start after result) : Stable here start := by
  obtain ⟨log, skipped⟩ := iteration.skipped
  have kept : StableParser (Comp.onlyIf (0 < count) skip) := preserves_onlyIf fun _ => skips
  have step := kept.returned (congrArg Run.outcome skipped)
  rwa [skipped] at step

theorem matched_stable (skips : StableParser skip) (children : StableParser child) {node : NodePtr}
    {entered here : Context CharT} {count last : Nat}
    (matched : Matched skip child node entered count last here) : Stable entered here := by
  induction matched with
  | none => exact Kept.refl _
  | next _ iteration _ _ induction =>
      obtain ⟨log, parsed⟩ := iteration.parsed
      have step := children.returned (congrArg Run.outcome parsed)
      rw [parsed] at step
      exact induction.trans ((iteration_stable skips iteration).trans
        ((set_cut_stable false _).trans (step.trans (push_child_stable _ _ _))))

variable [PegValue CharT] {grammar : Grammar CharT NodeType}

/-- An iteration's scope is committed at its end exactly when the child executed a
cut there. -/
theorem iteration_cut {fuel count : Nat} {expr : Expr CharT} {here start after : Context CharT}
    {result : ParseResult}
    (iteration : Iteration skip (grammar.eval fuel expr) count here start after result)
    (open_ : start.cutStack ≠ []) :
    after.cut = true ↔ scopeCuts grammar fuel expr (start.setCut false) ≠ [] := by
  obtain ⟨log, parsed⟩ := iteration.parsed
  have flag := @cut_after _ _ _ grammar fuel expr (start.setCut false) (by rw [parsed]; nofun)
  rw [parsed] at flag
  obtain ⟨scope, outer, stack⟩ := List.exists_cons_of_ne_nil open_
  have reset : (start.setCut false).cutStack = ⟨start.position, false⟩ :: outer := by
    rw [Context.setCut, stack]
  have uncommitted : (start.setCut false).cut = false := by rw [Context.cut, reset]
  rw [flag, uncommitted, reset]
  simp

/-- How a repetition should end after an iteration that failed: with the Context's
furthest failure if the iteration was committed, with the iterations before it
otherwise. -/
structure EscalatesExactly (kind : RepKind) (count last : Nat) (cuts : List Nat)
    (run : Run (Moment CharT) (Context CharT) Exn ParseResult) : Prop where
  committed : cuts ≠ [] → run.outcome =
    .thrown (.parseError run.state.errors.furthestFailurePos run.state.errors.expected)
  uncommitted : cuts = [] → (∃ tree, run.outcome = .returned ⟨decide (kind.minRep ≤ count), tree⟩) ∧
    run.state.position = last

/-- An iteration of `*e` or `+e` that failed is escalated exactly as it should be when
it executed no cut, or when the iterations before it were enough. -/
theorem escalates_exactly_iff {kind : RepKind}
    (unbounded : kind = .zeroOrMore ∨ kind = .oneOrMore) {fuel count last : Nat}
    {expr : Expr CharT} {context here start after : Context CharT} {failure : ParseResult}
    (matched : Matched (runSkipper (grammar.apply fuel)) (grammar.eval fuel expr)
      context.initCut.makeNode.1 (entered context) count last here)
    (iteration : Iteration (runSkipper (grammar.apply fuel)) (grammar.eval fuel expr) count here
      start after failure)
    (failed : failure.success = false) (budget : count < fuel) :
    EscalatesExactly kind count last (scopeCuts grammar fuel expr (start.setCut false))
        (grammar.eval fuel (.repetition kind expr) context) ↔
      scopeCuts grammar fuel expr (start.setCut false) = [] ∨ kind.minRep ≤ count := by
  have skips : StableParser (runSkipper (grammar.apply fuel)) :=
    skip_stable (apply_stable grammar fuel)
  have endless : kind.maxRep < 0 := by rcases unbounded with rfl | rfl <;> decide
  have flag : after.cut = true ↔ scopeCuts grammar fuel expr (start.setCut false) ≠ [] := by
    refine iteration_cut iteration fun closed => ?_
    have depth := ((matched_stable skips (eval_stable grammar fuel expr) matched).trans
      (iteration_stable skips iteration)).depth
    rw [closed] at depth
    cases depth
  have loop : SameEnd (repeatLoop (runSkipper (grammar.apply fuel)) (grammar.eval fuel expr)
      kind.maxRep context.initCut.makeNode.1 fuel 0 context.position (entered context))
      ⟨.returned ⟨count, true, last⟩, after, []⟩ := by
    obtain ⟨left, rfl⟩ : ∃ left, fuel = left + 1 + count := ⟨fuel - 1 - count, by omega⟩
    have below := fun earlier (_ : earlier ≤ count) => not_bound_reached (Int.le_of_lt endless) earlier
    exact (matched_loop matched below (left + 1)).trans (loop_fails iteration failed)
  have ends := fun finished => @repeat_after_loop _ _ _ _ fuel kind.minRep _ _ _ loop finished
  change EscalatesExactly kind count last _ (repeatParseImpl fuel (runSkipper (grammar.apply fuel))
    (grammar.eval fuel expr) kind.minRep kind.maxRep context) ↔ _
  by_cases enough : kind.minRep ≤ count
  · refine iff_of_true ?_ (Or.inr enough)
    have finish := finish_failed endless context.initCut.makeNode.1 count last after
    rw [repeatEnd, if_neg (Nat.not_lt.mpr enough), finish.1, finish.2] at ends
    cases committed : after.cut with
    | true =>
        rw [committed, if_pos rfl] at ends
        obtain ⟨outcome, state⟩ := ends nofun
        refine ⟨fun _ => ?_, fun quiet => absurd quiet (flag.mp committed)⟩
        rw [outcome, state, remove_cut_errors]
        rfl
    | false =>
        rw [committed, if_neg nofun] at ends
        obtain ⟨outcome, state⟩ := ends nofun
        refine ⟨fun executed => ?_, fun _ => ⟨⟨some context.initCut.makeNode.1, ?_⟩, ?_⟩⟩
        · rw [← flag, committed] at executed
          cases executed
        · rw [decide_eq_true enough]
          exact outcome
        · rw [state, remove_cut_position]
          rfl
  · rw [repeatEnd, if_pos (Nat.not_le.mp enough)] at ends
    obtain ⟨outcome, state⟩ := ends nofun
    rw [or_iff_left enough]
    refine ⟨fun exact => ?_, fun quiet => ⟨fun executed => absurd quiet executed, fun _ =>
      ⟨⟨none, ?_⟩, ?_⟩⟩⟩
    · by_contra executed
      have raised := exact.committed executed
      rw [outcome] at raised
      cases raised
    · rw [decide_eq_false enough]
      exact outcome
    · -- Only `+e` asks for an iteration, so the one that failed is the first.
      have first : count = 0 := by
        rcases unbounded with rfl | rfl
        · exact absurd (Nat.zero_le count) enough
        · exact Nat.lt_one_iff.mp (Nat.not_le.mp enough)
      subst first
      cases matched
      rw [state, remove_cut_position]
      rfl

/-- `R = 'a' >> cut`, whose cut belongs to whoever applies it, and `Q = 'a'`. -/
def bareCut : Grammar UInt8 Unit where
  rules := [(ascii "R", { body := some (.sequence [.terminal (.value 97), .cut]) }),
    (ascii "Q", { body := some (.terminal (.value 97)) })]

/-- `'a' >> cut >> 'x'`. -/
def committedItem : Expr UInt8 := .sequence [.terminal (.value 97), .cut, .terminal (.value 120)]

theorem star_escalates :
    EscalatesExactly .zeroOrMore 0 0
      (scopeCuts bareCut 2 committedItem ((entered (Context.fresh (ascii "ab"))).setCut false))
      (bareCut.eval 2 (.repetition .zeroOrMore committedItem) (Context.fresh (ascii "ab"))) := by
  have first : Iteration (runSkipper (bareCut.apply 2)) (bareCut.eval 2 committedItem) 0
      (entered (Context.fresh (ascii "ab"))) (entered (Context.fresh (ascii "ab")))
      (bareCut.eval 2 committedItem ((entered (Context.fresh (ascii "ab"))).setCut false)).state
      ⟨false, none⟩ := ⟨⟨_, rfl⟩, ⟨_, rfl⟩⟩
  exact (escalates_exactly_iff (Or.inl rfl) .none first rfl (by decide)).mpr (Or.inr (by decide))

/-- On "ab" the first iteration of `+e` commits and fails, and so does `+e` itself. -/
theorem plus_misses_escalation :
    scopeCuts bareCut 2 committedItem ((entered (Context.fresh (ascii "ab"))).setCut false) = [1] ∧
      (bareCut.eval 2 (.repetition .oneOrMore committedItem) (Context.fresh (ascii "ab"))).outcome =
        .returned ⟨false, none⟩ ∧
      ¬EscalatesExactly .oneOrMore 0 0 [1]
        (bareCut.eval 2 (.repetition .oneOrMore committedItem) (Context.fresh (ascii "ab"))) :=
  ⟨rfl, rfl, fun exact => nomatch exact.committed nofun⟩

end Iterations

end Peglib.Commitments
