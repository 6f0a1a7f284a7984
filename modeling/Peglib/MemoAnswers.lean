import Peglib.Packrat

/-!
# What a rule answers after other parses

The memo carries answers from one parse to the next. Without left recursion and
with one skip mode for each rule and position, every application answers as the
memo-free semantics does. With direct left recursion it answers as the growth of
its own seed does.
-/

namespace Peglib.MemoAnswers

open Peglib.TracedComputation Peglib.WeakestPrecondition Peglib.Halting
open Peglib.ParseError Peglib.ParseContext Peglib.Expressions Peglib.Rules
open Peglib.ControlDiscipline Peglib.PegSemantics Peglib.Evaluation Peglib.SuccessfulAnswers
open Peglib.Termination Peglib.GrowthSemantics Peglib.Packrat

set_option autoImplicit false

variable {CharT NodeType : Type}

/-- A matcher that is a function of the input and the position, never ends before it,
and from a position of the input ends in the input. -/
structure PureMatcher (fn : Context CharT → Span → Option Span) : Prop where
  pure : ∀ (context other : Context CharT) (span : Span), context.input = other.input →
    context.position = other.position → fn context span = fn other span
  forward : ∀ (context : Context CharT) (consumed : Span),
    fn context ⟨context.position, context.position⟩ = some consumed →
    context.position ≤ consumed.stop
  range : ∀ (context : Context CharT) (consumed : Span), context.position ≤ context.inputSize →
    fn context ⟨context.position, context.position⟩ = some consumed →
    consumed.stop ≤ context.inputSize

theorem PureMatcher.in_range {fn : Context CharT → Span → Option Span} (matcher : PureMatcher fn) :
    MatcherInRange (.matcher fn) := fun context consumed inside found =>
  ⟨matcher.forward context consumed found, matcher.range context consumed inside found⟩

def MatcherPure : Expr CharT → Prop
  | .matcher fn => PureMatcher fn
  | _ => True

/-- What a matcher answers over an input. -/
def reading (input : List CharT) (fn : Context CharT → Span → Option Span) (pos : Nat)
    (outcome : Option Nat) : Prop :=
  PureMatcher fn ∧
    outcome = (fn { Context.fresh input with position := pos } ⟨pos, pos⟩).map Span.stop

theorem reading_functional (input : List CharT) (fn : Context CharT → Span → Option Span)
    (pos : Nat) (first second : Option Nat) (left : reading input fn pos first)
    (right : reading input fn pos second) : first = second :=
  left.2.trans right.2.symm

theorem reading_forward (input : List CharT) (fn : Context CharT → Span → Option Span)
    (pos stop : Nat) (read : reading input fn pos (some stop)) : pos ≤ stop := by
  obtain ⟨matcher, ended⟩ := read
  obtain ⟨consumed, found, rfl⟩ := Option.map_eq_some_iff.mp ended.symm
  exact matcher.forward { Context.fresh input with position := pos } consumed found

theorem matcher_faithful {input : List CharT} {expr : Expr CharT}
    (pure : expr.Every MatcherPure) : expr.Every (Faithful input (reading input)) := by
  refine pure.mono fun part holds => ?_
  cases part with
  | matcher fn =>
      intro context source
      refine ⟨holds, ?_⟩
      rw [holds.pure context { Context.fresh input with position := context.position } _ source rfl]
  | _ => trivial

/-- A grammar without cut and recovery, with pure matchers. -/
structure Pure (grammar : Grammar CharT NodeType) : Prop where
  cutFree : CutFree grammar
  matchers : ∀ rule body, grammar.body rule = some body → body.Every MatcherPure

theorem Pure.in_range {grammar : Grammar CharT NodeType} (pure : Pure grammar) :
    InRange grammar := by
  refine fun rule body assigned => (pure.matchers rule body assigned).mono fun part holds => ?_
  cases part with
  | matcher fn => exact holds.in_range
  | _ => trivial

section Histories

variable [PegValue CharT] {grammar : Grammar CharT NodeType} {input : List CharT}

/-- The contexts over one input that finished parses lead to, each of whose
steps met a condition. -/
inductive History (grammar : Grammar CharT NodeType) (input : List CharT)
    (meets : Moment CharT → Prop) : Context CharT → Prop where
  | fresh : History grammar input meets (Context.fresh input)
  | adjusted {before after : Context CharT} : History grammar input meets before →
      after.input = before.input → after.mem = before.mem → after.lrStack = before.lrStack →
      after.cutStack = before.cutStack →
      after.skipper = before.skipper ∨ after.skipper = grammar.skipper →
      History grammar input meets after
  | applied {context : Context CharT} (fuel : Nat) (rule : RuleId) :
      History grammar input meets context → (grammar.body rule).isSome = true →
      (∀ moment ∈ (grammar.apply fuel rule context).trace, meets moment) →
      (∃ result, (grammar.apply fuel rule context).outcome = .returned result) →
      History grammar input meets (grammar.apply fuel rule context).state

variable {meets : Moment CharT → Prop} {single : RuleId → Nat → Option RuleId} {reentry : Bool}

theorem History.reset {context : Context CharT} (history : History grammar input meets context)
    (pos : Nat) : History grammar input meets (context.reset pos) :=
  .adjusted history rfl rfl rfl rfl (Or.inl rfl)

theorem pure_consults (pure : Pure grammar) {skipper : Option RuleId}
    (set : skipper = none ∨ skipper = grammar.skipper) (fuel : Nat) (rule : RuleId)
    (assigned : (grammar.body rule).isSome = true) :
    Consults grammar input skipper (reading input) single reentry rule (grammar.apply fuel rule) :=
  apply_answers pure.cutFree (fun id body given => matcher_faithful (pure.matchers id body given))
    set fuel rule assigned

theorem fresh_upright : Upright grammar input none (reading input) single reentry []
    (Context.fresh input) :=
  ⟨rfl, rfl, nofun, rfl, List.nodup_nil, nofun, fun _ _ _ found => nomatch found⟩

/-- The memo that orderly parses leave behind. -/
theorem history_upright (pure : Pure grammar)
    (orderly : ∀ moment, meets moment → Orderly reentry single moment) {context : Context CharT}
    (history : History grammar input meets context) :
    (context.skipper = none ∨ context.skipper = grammar.skipper) ∧
      Upright grammar input context.skipper (reading input) single reentry [] context := by
  induction history with
  | fresh => exact ⟨Or.inl rfl, fresh_upright⟩
  | adjusted _ source mem lrStack cutStack skipper earlier =>
      obtain ⟨choice, upright⟩ := earlier
      refine ⟨?_, source.trans upright.source, rfl, by rw [cutStack]; exact upright.uncut, ?_,
        List.nodup_nil, nofun, by rw [mem]; exact upright.rows⟩
      · rcases skipper with kept | set
        · rwa [kept]
        · exact Or.inr set
      · rw [← upright.active]
        unfold active
        rw [lrStack]
  | @applied before fuel rule _ assigned met ended earlier =>
      obtain ⟨choice, upright⟩ := earlier
      obtain ⟨result, returned⟩ := ended
      have runs := pure_consults pure choice fuel rule assigned [] before upright
      have after := wp_returned runs (fun moment member => orderly moment (met moment member)) returned
      rw [after.1.skipper]
      exact ⟨choice, after.1⟩

theorem history_visited {context : Context CharT} (history : History grammar input meets context) :
    Visited grammar input context := by
  induction history with
  | fresh => exact .fresh
  | adjusted _ source mem _ _ skipper earlier => exact .adjusted earlier source mem skipper
  | applied fuel rule _ _ _ ended earlier => exact .applied fuel rule earlier (Or.inl ended)

/-- From some budget on the application returns, with the one outcome that
`answer` allows, and a failure is back at its start. -/
def Delivers (grammar : Grammar CharT NodeType) (rule : RuleId) (context : Context CharT)
    (answer : Option Nat → Prop) : Prop :=
  ∃ result last log, (∃ enough, ∀ fuel, enough ≤ fuel →
      grammar.apply fuel rule context = ⟨.returned result, last, log⟩) ∧
    (result.success = false → last.position = context.position) ∧
    ∀ outcome, answer outcome ↔ outcome = if result.success then some last.position else none

theorem application_runs (pure : Pure grammar)
    (orderly : ∀ moment, meets moment → Orderly reentry single moment) {context : Context CharT}
    (history : History grammar input meets context) {rule : RuleId}
    (assigned : (grammar.body rule).isSome = true) (fuel : Nat) :
    wp (Packrat.orderly single reentry) (grammar.apply fuel rule)
      (fun result last => Answers (fun pos outcome =>
        Answer grammar input (reading input) reentry none (mode context) rule pos outcome)
        context.position result last.position) context := by
  obtain ⟨choice, upright⟩ := history_upright pure orderly history
  exact wp_post (pure_consults pure choice fuel rule assigned [] context upright)
    fun _ _ met => met.2.2

/-- A run that never throws and keeps the rows of the rules in progress comes to
an end, with the one outcome that its answer allows. -/
theorem delivers_of_answers {contract : Contract (Moment CharT) (Context CharT) Exn}
    {sem : Nat → Option Nat → Prop} (inRange : InRange grammar) {context : Context CharT}
    (visited : Visited grammar input context) (inside : context.position ≤ input.length)
    {rule : RuleId}
    (runs : ∀ fuel, wp contract (grammar.apply fuel rule)
      (fun result last => Answers sem context.position result last.position) context)
    (assumed : ∀ fuel, ∀ moment ∈ (grammar.apply fuel rule context).trace, contract.assume moment)
    (keeps : ∀ moment, contract.guarantee moment → RowKept moment)
    (quiet : ∀ exn last, ¬contract.onThrow exn last)
    (functional : ∀ first second, sem context.position first → sem context.position second →
      first = second) :
    Delivers grammar rule context (sem context.position) := by
  have sound := (visited_sound (fun _ _ => bounded_reading inRange) visited).2
  have total : Total input context.skipper (active context) fun fuel => grammar.apply fuel rule :=
    apply_total inRange _ (Nat.le_refl _) rule
  have kept : ∀ fuel, ∀ moment ∈ (grammar.apply fuel rule context).trace, RowKept moment :=
    fun fuel moment member => keeps moment ((wp_elim (runs fuel) (assumed fuel)).1 moment member)
  obtain ⟨⟨outcome, last, log⟩, finished, enough, settled⟩ :=
    total.terminates context ⟨sound, inside, rfl⟩ ⟨0, fun fuel _ => kept fuel⟩
  have same : grammar.apply enough rule context = ⟨outcome, last, log⟩ :=
    settled enough (Nat.le_refl _)
  cases outcome with
  | exhausted => exact absurd rfl finished
  | thrown exn =>
      have ended : (grammar.apply enough rule context).outcome = .thrown exn := by rw [same]
      exact (quiet _ _ (wp_thrown (runs enough) (assumed enough) ended)).elim
  | returned result =>
      have ended : (grammar.apply enough rule context).outcome = .returned result := by rw [same]
      have answers := wp_returned (runs enough) (assumed enough) ended
      rw [same] at answers
      refine ⟨result, last, log, ⟨enough, settled⟩, ?_, fun outcome => ?_⟩
      · intro failure
        exact (answers.of_failure (by simp [failure])).1
      · have own : sem context.position (if result.success then some last.position else none) := by
          split_ifs with success
          · exact answers.of_success success
          · exact (answers.of_failure success).2
        refine ⟨fun answer => functional _ _ answer own, ?_⟩
        rintro rfl
        exact own

theorem application_delivers (pure : Pure grammar)
    (orderly : ∀ moment, meets moment → Orderly reentry single moment) {context : Context CharT}
    (history : History grammar input meets context) (inside : context.position ≤ input.length)
    {rule : RuleId} (assigned : (grammar.body rule).isSome = true)
    (met : ∀ fuel, ∀ moment ∈ (grammar.apply fuel rule context).trace, meets moment) :
    Delivers grammar rule context fun outcome =>
      Answer grammar input (reading input) reentry none (mode context) rule context.position
        outcome :=
  delivers_of_answers pure.in_range (history_visited history) inside
    (application_runs pure orderly history assigned)
    (fun fuel moment member => orderly moment (met fuel moment member)) (fun _ => id)
    (fun _ _ => id) fun _ _ => answer_unique (reading_functional input)

end Histories

section Conditions

/-- The rule applied is not in progress at the position. -/
def NotReentered (moment : Moment CharT) : Prop :=
  match moment.event with
  | .apply rule => moment.context.lrInProgress rule moment.context.position = false
  | _ => True

/-- A rule in progress at the position is applied from its own body only. -/
def Direct (moment : Moment CharT) : Prop :=
  match moment.event with
  | .apply rule => moment.context.lrInProgress rule moment.context.position = true →
      moment.context.lrStack.head?.any (LRFrame.isOf rule moment.context.position) = true
  | _ => True

/-- The rule is applied in its skip mode at the position. -/
def InMode (single : RuleId → Nat → Option RuleId) (moment : Moment CharT) : Prop :=
  match moment.event with
  | .apply rule => mode moment.context = single rule moment.context.position
  | _ => True

instance : DecidablePred (@NotReentered CharT) := fun ⟨event, context⟩ =>
  match event with
  | .apply rule => inferInstanceAs (Decidable (context.lrInProgress rule context.position = false))
  | .store _ _ | .failure | .onMatch _ _ => inferInstanceAs (Decidable True)

instance (single : RuleId → Nat → Option RuleId) : DecidablePred (@InMode CharT single) :=
  fun ⟨event, context⟩ =>
    match event with
    | .apply rule => inferInstanceAs (Decidable (mode context = single rule context.position))
    | .store _ _ | .failure | .onMatch _ _ => inferInstanceAs (Decidable True)

theorem not_reentered_orderly {single : RuleId → Nat → Option RuleId} {moment : Moment CharT}
    (free : NotReentered moment) (inMode : InMode single moment) : Orderly false single moment := by
  obtain ⟨event, context⟩ := moment
  cases event with
  | apply rule =>
      refine ⟨inMode, fun inProgress => ?_⟩
      have idle : context.lrInProgress rule context.position = false := free
      rw [idle] at inProgress
      cases inProgress
  | _ => trivial

theorem direct_orderly {single : RuleId → Nat → Option RuleId} {moment : Moment CharT}
    (direct : Direct moment) (inMode : InMode single moment) : Orderly true single moment := by
  obtain ⟨event, context⟩ := moment
  cases event with
  | apply rule => exact ⟨inMode, fun inProgress => ⟨rfl, direct inProgress⟩⟩
  | _ => trivial

variable [PegValue CharT] {grammar : Grammar CharT NodeType} {input : List CharT}
  {meets : Moment CharT → Prop}

/-- Without a skipper every rule is applied with auto-skip off. -/
theorem off_in_mode (inRange : InRange grammar) {context : Context CharT}
    (visited : Visited grammar input context) (off : context.skipper = none) (fuel : Nat)
    (rule : RuleId) :
    ∀ moment ∈ (grammar.apply fuel rule context).trace, InMode (fun _ _ => none) moment := by
  have sound := (visited_sound (fun _ _ => bounded_reading inRange) visited).2
  have runs := apply_sound (bounded_reading inRange) fuel rule context sound
  intro moment member
  have kept := ((wp_elim runs fun _ _ => trivial).1 moment member).skipper
  obtain ⟨event, here⟩ := moment
  cases event with
  | apply id =>
      change mode here = none
      unfold mode
      rw [show here.skipper = none from kept.trans off, ite_self]
  | _ => trivial

theorem history_off (inRange : InRange grammar) (off : grammar.skipper = none)
    {context : Context CharT} (history : History grammar input meets context) :
    context.skipper = none ∧
      History grammar input (fun moment => meets moment ∧ InMode (fun _ _ => none) moment)
        context := by
  induction history with
  | fresh => exact ⟨rfl, .fresh⟩
  | adjusted _ source mem lrStack cutStack skipper earlier =>
      refine ⟨?_, .adjusted earlier.2 source mem lrStack cutStack skipper⟩
      rcases skipper with kept | set
      · exact kept.trans earlier.1
      · exact set.trans off
  | @applied before fuel rule before' assigned met ended earlier =>
      have visited := history_visited before'
      have modes := off_in_mode inRange visited earlier.1 fuel rule
      have sound := (visited_sound (fun _ _ => bounded_reading inRange) visited).2
      obtain ⟨result, returned⟩ := ended
      have after := wp_returned (apply_sound (bounded_reading inRange) fuel rule before sound)
        (fun _ _ => trivial) returned
      refine ⟨after.1.skipper.trans earlier.1, .applied fuel rule earlier.2 assigned ?_
        ⟨result, returned⟩⟩
      exact fun moment member => ⟨met moment member, modes moment member⟩

theorem Delivers.mono {rule : RuleId} {context : Context CharT} {answer answer' : Option Nat → Prop}
    (delivers : Delivers grammar rule context answer)
    (weaker : ∀ outcome, answer outcome → answer' outcome)
    (functional : ∀ first second, answer' first → answer' second → first = second) :
    Delivers grammar rule context answer' := by
  obtain ⟨result, last, log, settled, failed, exact'⟩ := delivers
  refine ⟨result, last, log, settled, failed, fun outcome => ⟨fun found => ?_, fun same => ?_⟩⟩
  · exact functional _ _ found (weaker _ ((exact' _).mpr rfl))
  · exact weaker _ ((exact' _).mpr same)

theorem Delivers.answer_at {rule : RuleId} {context : Context CharT} {answer : Option Nat → Prop}
    (delivers : Delivers grammar rule context answer) (fuel : Nat) (success : Bool)
    (ended : (grammar.apply fuel rule context).outcome.value?.map ParseResult.success = some success) :
    answer (if success then some (grammar.apply fuel rule context).state.position else none) := by
  obtain ⟨result, last, log, ⟨enough, settled⟩, -, exact'⟩ := delivers
  have finished : (grammar.apply fuel rule context).outcome ≠ .exhausted :=
    Outcome.finished_of_value (Option.isSome_map ▸ Option.isSome_of_mem ended)
  have same : grammar.apply fuel rule context = ⟨.returned result, last, log⟩ := by
    rw [(apply_extends grammar rule (Nat.le_max_left fuel enough)).run_eq finished]
    exact settled _ (Nat.le_max_right _ _)
  rw [same] at ended ⊢
  obtain rfl : result.success = success := Option.some.inj ended
  exact (exact' _).mpr rfl

end Conditions

section Packrat

variable [PegValue CharT] {grammar : Grammar CharT NodeType} {input : List CharT}

/-- The expressions of a plain parsing expression grammar. -/
def PlainPart (grammar : Grammar CharT NodeType) : Expr CharT → Prop
  | .matcher fn => PureMatcher fn
  | .repetition (.nTimes _) _ | .cut | .lexeme _ => False
  | .rule id => (grammar.body id).isSome = true
  | _ => True

structure PlainGrammar (grammar : Grammar CharT NodeType) : Prop where
  bodies : ∀ rule body, grammar.body rule = some body → body.Every (PlainPart grammar)
  recovers : ∀ rule, (grammar.nonTerminal rule).recover.isSyncToken = none
  skipper : grammar.skipper = none

omit [PegValue CharT] in
theorem PlainGrammar.pure (plain : PlainGrammar grammar) : Pure grammar where
  cutFree :=
    { bodies := fun rule body assigned => (plain.bodies rule body assigned).mono fun part holds => by
        cases part with
        | cut => exact holds
        | rule id => exact holds
        | _ => trivial
      recovers := plain.recovers
      skipper := fun rule set => by
        rw [plain.skipper] at set
        cases set }
  matchers rule body assigned := (plain.bodies rule body assigned).mono fun part holds => by
    cases part with
    | matcher fn => exact holds
    | _ => trivial

/-- Where no rule is entered while it is active at the position, a parse answers
as the memo-free semantics does, whatever was parsed before. -/
theorem packrat_refines_peg (plain : PlainGrammar grammar) {context : Context CharT}
    (history : History grammar input NotReentered context)
    (inside : context.position ≤ input.length) {rule : RuleId}
    (assigned : (grammar.body rule).isSome = true)
    (free : ∀ fuel, ∀ moment ∈ (grammar.apply fuel rule context).trace, NotReentered moment) :
    Delivers grammar rule context
      (PegAnswer grammar input (reading input) () none rule context.position) := by
  have pure := plain.pure
  obtain ⟨off, history'⟩ := history_off pure.in_range plain.skipper history
  have quiet : mode context = none := by
    unfold mode
    rw [off, ite_self]
  have delivers := application_delivers pure
    (fun moment met => not_reentered_orderly met.1 met.2) history' inside assigned
    fun fuel moment member => ⟨free fuel moment member,
      off_in_mode pure.in_range (history_visited history) off fuel rule moment member⟩
  rw [quiet] at delivers
  exact delivers.mono (fun _ => peg_of_answer (reading_forward input))
    fun _ _ => peg_answer_unique (reading_functional input)

/-- `S = 'a' >> *T`, `T = 'b'`. -/
def plainGrammar : Grammar UInt8 Unit where
  rules := [
    (ascii "S", { body := some (.sequence [
      .terminal (.value 97), .repetition .zeroOrMore (.rule 1)]) }),
    (ascii "T", { body := some (.terminal (.value 98)) })]

theorem plain_grammar_plain : PlainGrammar plainGrammar where
  bodies rule body assigned := by
    match rule with
    | 0 =>
        obtain rfl := Option.some.inj assigned
        simp only [Expr.Every, Expr.EveryAll, PlainPart, true_and, and_true]
        rfl
    | 1 =>
        obtain rfl := Option.some.inj assigned
        exact trivial
    | _ + 2 => cases assigned
  recovers rule := match rule with
    | 0 | 1 | _ + 2 => rfl
  skipper := rfl

/-- `S` on "abb", where `T` has been tried at its position before. -/
theorem plain_grammar_refines :
    Delivers plainGrammar 0 (plainGrammar.apply 4 1 (Context.fresh (ascii "abb"))).state
      (PegAnswer plainGrammar (ascii "abb") (reading (ascii "abb")) () none 0
        (plainGrammar.apply 4 1 (Context.fresh (ascii "abb"))).state.position) := by
  have earlier : History plainGrammar (ascii "abb") NotReentered
      (plainGrammar.apply 4 1 (Context.fresh (ascii "abb"))).state :=
    .applied 4 1 .fresh rfl (by decide) ⟨_, rfl⟩
  refine packrat_refines_peg plain_grammar_plain earlier (by decide) rfl ?_
  refine moments_of_finished (fun larger => apply_extends plainGrammar 0 larger) 8 ?_ ?_
  · exact Outcome.finished_of_value (by decide +kernel)
  · decide +kernel

end Packrat

end Peglib.MemoAnswers
