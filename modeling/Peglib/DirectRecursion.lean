import Peglib.SkippingRecursion
import Peglib.StaleAnswers

/-!
# Direct left recursion

Grammars in which a rule comes back to itself in one step or not at all. There a
rule in progress is applied again from its own body only, so what was parsed
before never changes an answer. Such a rule, a choice of growing branches in
front of seeds that consume, matches what the loop does that starts with a seed
and repeats the rests of the branches.
-/

namespace Peglib.DirectRecursion

open Peglib.TracedComputation Peglib.WeakestPrecondition
open Peglib.ParseError Peglib.ParseContext Peglib.Expressions Peglib.Rules
open Peglib.ControlDiscipline Peglib.PegSemantics Peglib.Evaluation Peglib.SuccessfulAnswers
open Peglib.Termination Peglib.GrowthSemantics Peglib.Packrat Peglib.MemoAnswers Peglib.StaleAnswers
open Peglib.LeftRecursion (Nullable Measured measured_reading measured_within paced stays)
open Peglib.SkippingRecursion

set_option autoImplicit false

variable {CharT NodeType : Type}

section Analysis

variable (grammar : Grammar CharT NodeType)

def OtherStep (caller callee : RuleId) : Prop :=
  caller ≠ callee ∧ ∃ on on', StartStep grammar (caller, on) (callee, on')

/-- Rules come back to themselves in one step or not at all. -/
def DirectOnly : Prop :=
  ∀ rule, ¬Relation.TransGen (OtherStep grammar) rule rule

variable {grammar}

theorem direct_only_of_rank {rank : RuleId → Nat}
    (falls : ∀ caller callee, StartStep grammar caller callee → caller.1 ≠ callee.1 →
      rank callee.1 < rank caller.1) : DirectOnly grammar := by
  have far : ∀ caller callee, Relation.TransGen (OtherStep grammar) caller callee →
      rank callee < rank caller := by
    intro caller callee steps
    induction steps with
    | single step =>
        obtain ⟨other, on, on', step⟩ := step
        exact falls _ _ step other
    | tail _ step earlier =>
        obtain ⟨other, on, on', step⟩ := step
        exact (falls _ _ step other).trans earlier
  exact fun rule steps => Nat.lt_irrefl _ (far rule rule steps)

/-- The rules in progress at a position lead to other rules, the innermost one to itself too. -/
theorem direct_guide (direct : DirectOnly grammar) :
    Guide grammar (fun keys pos callee => ∀ key ∈ keys, key.2 = pos →
      Relation.TransGen (OtherStep grammar) key.1.1 callee.1 ∨
        callee.1 = key.1.1 ∧ ∃ on, keys.head? = some ((key.1.1, on), pos)) Direct where
  idle _ _ _ elsewhere key member here := absurd here (elsewhere key member)
  entered keys pos caller callee leads step := by
    obtain ⟨rule, on⟩ := caller
    have onward : ∀ outer, Relation.TransGen (OtherStep grammar) outer rule →
        Relation.TransGen (OtherStep grammar) outer callee.1 := by
      intro outer steps
      by_cases same : rule = callee.1
      · exact same ▸ steps
      · exact steps.tail ⟨same, on, callee.2, step⟩
    have again : Relation.TransGen (OtherStep grammar) rule callee.1 ∨
        callee.1 = rule ∧ ∃ on', (((rule, on), pos) :: keys).head? = some ((rule, on'), pos) := by
      by_cases same : rule = callee.1
      · exact Or.inr ⟨same.symm, on, rfl⟩
      · exact Or.inl (.single ⟨same, on, callee.2, step⟩)
    refine List.forall_mem_cons.mpr ⟨fun _ => again, fun key member here => ?_⟩
    rcases leads key member here with steps | ⟨same, -⟩
    · exact Or.inl (onward key.1.1 steps)
    · have same : rule = key.1.1 := same
      rw [← same]
      exact again
  applied keys rule on context ready leads := by
    intro inProgress
    obtain ⟨before, member⟩ := frame_in_progress ready inProgress
    rcases leads _ member rfl with steps | ⟨-, on', top⟩
    · exact absurd steps (direct rule)
    · have head : (active context).head? = some (rule, context.position) := by
        rw [ready, List.head?_map, top]
        rfl
      rw [active, List.head?_map, Option.map_eq_some_iff] at head
      obtain ⟨frame, first, same⟩ := head
      obtain ⟨rfl, here⟩ := Prod.mk.inj same
      change context.lrStack.head?.any (LRFrame.isOf frame.rule context.position) = true
      rw [first]
      simp [LRFrame.isOf, here]
  stored _ _ _ := trivial
  failed _ := trivial

end Analysis

section Sessions

variable [PegValue CharT] {grammar : Grammar CharT NodeType} {input : List CharT}
  {context : Context CharT} {rule : RuleId}

/-- The contexts that finished parses of rules, at any positions of the input, lead to. -/
inductive Session (grammar : Grammar CharT NodeType) (input : List CharT) : Context CharT → Prop where
  | fresh : Session grammar input (Context.fresh input)
  | adjusted {before after : Context CharT} : Session grammar input before →
      after.input = before.input → after.mem = before.mem → after.lrStack = before.lrStack →
      after.cutStack = before.cutStack →
      after.skipper = before.skipper ∨ after.skipper = grammar.skipper →
      after.position ≤ input.length → Session grammar input after
  | applied {context : Context CharT} (fuel : Nat) (rule : RuleId) : Session grammar input context →
      (grammar.body rule).isSome = true →
      (∃ result, (grammar.apply fuel rule context).outcome = .returned result) →
      Session grammar input (grammar.apply fuel rule context).state

theorem Session.reset (session : Session grammar input context) {pos : Nat}
    (inside : pos ≤ input.length) : Session grammar input (context.reset pos) :=
  .adjusted session rfl rfl rfl rfl (Or.inl rfl) inside

theorem history_direct (pure : Pure grammar) (off : grammar.skipper = none)
    (direct : DirectOnly grammar) (history : History grammar input Direct context)
    (inside : context.position ≤ input.length) (fuel : Nat) (rule : RuleId) :
    ∀ moment ∈ (grammar.apply fuel rule context).trace, Direct moment := by
  obtain ⟨quiet, history'⟩ := history_off pure.in_range off history
  have upright := (history_upright pure
    (fun moment held => direct_orderly held.1 held.2) history').2
  exact application_guided (direct_guide direct) pure.in_range (history_visited history)
    (quiet.trans off.symm) upright.active inside fuel rule

theorem session_history (pure : Pure grammar) (off : grammar.skipper = none)
    (direct : DirectOnly grammar) (session : Session grammar input context) :
    History grammar input Direct context ∧ context.position ≤ input.length := by
  induction session with
  | fresh => exact ⟨.fresh, Nat.zero_le _⟩
  | adjusted _ source mem lrStack cutStack skipper inside earlier =>
      exact ⟨.adjusted earlier.1 source mem lrStack cutStack skipper, inside⟩
  | @applied before fuel rule _ assigned ended earlier =>
      obtain ⟨history, inside⟩ := earlier
      refine ⟨.applied fuel rule history assigned
        (history_direct pure off direct history inside fuel rule) ended, ?_⟩
      obtain ⟨result, returned⟩ := ended
      have bounded := fun skipper => @bounded_reading _ _ _ grammar input skipper pure.in_range
      have sound := (visited_sound (fun skipper _ => bounded skipper) (history_visited history)).2
      have answers := (wp_returned (apply_sound (bounded before.skipper) fuel rule before sound)
        (fun _ _ => trivial) returned).2.2
      by_cases success : result.success = true
      · exact (answers.of_success success _ rfl inside).2
      · rw [(answers.of_failure success).1]
        exact inside

/-- A rule answers as the growth of its seed does. -/
theorem session_delivers (pure : Pure grammar) (off : grammar.skipper = none)
    (direct : DirectOnly grammar) (session : Session grammar input context)
    (assigned : (grammar.body rule).isSome = true) :
    Delivers grammar rule context fun outcome =>
      Answer grammar input (reading input) true none none rule context.position outcome := by
  obtain ⟨history, inside⟩ := session_history pure off direct session
  obtain ⟨quiet, history'⟩ := history_off pure.in_range off history
  have off' : mode context = none := by
    unfold mode
    rw [quiet, ite_self]
  have found := application_delivers pure (fun moment held => direct_orderly held.1 held.2) history'
    inside assigned fun fuel moment member =>
      ⟨history_direct pure off direct history inside fuel rule moment member,
        off_in_mode pure.in_range (history_visited history) quiet fuel rule moment member⟩
  rwa [off'] at found

/-- Where left recursion is direct, nothing that was parsed before changes an answer. -/
theorem direct_answers_as_fresh (pure : Pure grammar) (off : grammar.skipper = none)
    (direct : DirectOnly grammar) (session : Session grammar input context)
    (assigned : (grammar.body rule).isSome = true) :
    AnswersAlike grammar rule context { Context.fresh input with position := context.position } := by
  have inside := (session_history pure off direct session).2
  have plain : Session grammar input { Context.fresh input with position := context.position } :=
    .adjusted .fresh rfl rfl rfl rfl (Or.inl rfl) inside
  exact Delivers.alike (session_delivers pure off direct session assigned)
    (session_delivers pure off direct plain assigned) rfl

end Sessions

section Derivations

variable [PegValue CharT] {input : List CharT} {Env Env' : Type}
  {matched matched' : (Context CharT → Span → Option Span) → Nat → Option Nat → Prop}
  {call : Env → Option RuleId → RuleId → Nat → Option Nat → Prop}
  {call' : Env' → Option RuleId → RuleId → Nat → Option Nat → Prop} {env : Env} {env' : Env'}
  {mode : Option RuleId} {task : Pending CharT} {pos : Nat} {outcome : Option Nat}

/-- What holds of every part of what is left to match. -/
def PartsHold (holds : Expr CharT → Prop) : Pending CharT → Prop
  | .expr expr => expr.Every holds
  | .seq _ children | .alt children => ∀ child ∈ children, child.Every holds
  | .loop _ child _ => child.Every holds
  | .skip => True

omit [PegValue CharT] in
theorem parts_hold {task : Pending CharT} : PartsHold (fun _ => True) task := by
  have each : ∀ expr : Expr CharT, expr.Every fun _ => True := Expr.every_of_all fun _ => trivial
  cases task with
  | expr expr => exact each expr
  | seq _ children | alt children => exact fun child _ => each child
  | loop _ child _ => exact each child
  | skip => trivial

/-- Without skips a derivation stays one where other readings of the rules agree with the first,
for the rules that it refers to and from its position on. -/
theorem peg_recalled {holds : Expr CharT → Prop} {start : Nat}
    (matches' : ∀ fn pos outcome, matched fn pos outcome → matched' fn pos outcome)
    (forward : ∀ fn pos stop, matched fn pos (some stop) → pos ≤ stop)
    (calls : ∀ id pos outcome, holds (.rule id) → start ≤ pos → call env none id pos outcome →
      call' env' none id pos outcome ∧ ∀ stop, outcome = some stop → pos ≤ stop)
    (peg : Peg input matched call env mode task pos outcome) (off : mode = none)
    (every : PartsHold holds task) (ahead : start ≤ pos) :
    Peg input matched' call' env' mode task pos outcome ∧ ∀ stop, outcome = some stop → pos ≤ stop := by
  induction peg with
  | terminal => exact ⟨.terminal, fun stop ended => (consume_bounds ended).1 ▸ Nat.le_succ _⟩
  | terminalSeq => exact ⟨.terminalSeq, fun stop ended => (consume_all_bounds ended).1 ▸ Nat.le_add_right _ _⟩
  | token => exact ⟨.token, fun stop ended => (consume_bounds ended).1 ▸ Nat.le_succ _⟩
  | matcher held => exact ⟨.matcher (matches' _ _ _ held), fun stop ended => forward _ _ _ (ended ▸ held)⟩
  | empty => exact ⟨.empty, fun stop ended => Nat.le_of_eq (Option.some.inj ended)⟩
  | cut => exact ⟨.cut, fun stop ended => Nat.le_of_eq (Option.some.inj ended)⟩
  | sequence _ induction =>
      unfold PartsHold Expr.Every at every
      exact (induction off (Expr.every_all_iff.mp every.2) ahead).imp .sequence id
  | alternation _ induction =>
      unfold PartsHold Expr.Every at every
      exact (induction off (Expr.every_all_iff.mp every.2) ahead).imp .alternation id
  | repetition _ induction =>
      unfold PartsHold Expr.Every at every
      exact (induction off every.2 ahead).imp .repetition id
  | not _ induction =>
      unfold PartsHold Expr.Every at every
      refine ⟨.not (induction off every.2 ahead).1, fun stop ended => ?_⟩
      split_ifs at ended
      exact Nat.le_of_eq (Option.some.inj ended)
  | and _ induction =>
      unfold PartsHold Expr.Every at every
      refine ⟨.and (induction off every.2 ahead).1, fun stop ended => ?_⟩
      split_ifs at ended
      exact Nat.le_of_eq (Option.some.inj ended)
  | lexeme _ induction =>
      unfold PartsHold Expr.Every at every
      exact (induction rfl every.2 ahead).imp .lexeme id
  | rule held =>
      subst off
      exact (calls _ _ _ (Expr.Every.here every) ahead held).imp .rule id
  | seqNil => exact ⟨.seqNil, fun stop ended => Nat.le_of_eq (Option.some.inj ended)⟩
  | seqFail _ _ skipped failed =>
      obtain ⟨skip, passed⟩ := skipped (by rw [off, ite_self]) trivial ahead
      have here := passed _ rfl
      exact ⟨.seqFail skip (failed off (every _ (by simp)) (ahead.trans here)).1, by simp⟩
  | seqStep _ _ _ skipped hit rest =>
      obtain ⟨skip, passed⟩ := skipped (by rw [off, ite_self]) trivial ahead
      have here := ahead.trans (passed _ rfl)
      obtain ⟨found, moved⟩ := hit off (every _ (by simp)) here
      have there := here.trans (moved _ rfl)
      obtain ⟨later, onward⟩ := rest off (fun child member => every child (by simp [member])) there
      refine ⟨.seqStep skip found later, fun stop ended => ?_⟩
      exact (passed _ rfl).trans ((moved _ rfl).trans (onward stop ended))
  | altNil => exact ⟨.altNil, by simp⟩
  | altHit _ hit =>
      obtain ⟨found, moved⟩ := hit off (every _ (by simp)) ahead
      exact ⟨.altHit found, moved⟩
  | altMiss _ _ missed rest =>
      obtain ⟨later, onward⟩ := rest off (fun child member => every child (by simp [member])) ahead
      exact ⟨.altMiss (missed off (every _ (by simp)) ahead).1 later, onward⟩
  | loopFail _ _ skipped failed =>
      obtain ⟨skip, passed⟩ := skipped (by rw [off, ite_self]) trivial ahead
      refine ⟨.loopFail skip (failed off every (ahead.trans (passed _ rfl))).1, fun stop ended => ?_⟩
      exact repeated_travels (Nat.le_refl _) ended
  | loopLast _ _ last skipped hit =>
      obtain ⟨skip, passed⟩ := skipped (by rw [off, ite_self]) trivial ahead
      obtain ⟨found, moved⟩ := hit off every (ahead.trans (passed _ rfl))
      refine ⟨.loopLast skip found last, fun stop ended => ?_⟩
      exact repeated_travels ((passed _ rfl).trans (moved _ rfl)) ended
  | loopMore _ _ more _ skipped hit rest =>
      obtain ⟨skip, passed⟩ := skipped (by rw [off, ite_self]) trivial ahead
      have here := ahead.trans (passed _ rfl)
      obtain ⟨found, moved⟩ := hit off every here
      obtain ⟨later, onward⟩ := rest off every (here.trans (moved _ rfl))
      refine ⟨.loopMore skip found more later, fun stop ended => ?_⟩
      exact (passed _ rfl).trans ((moved _ rfl).trans (onward stop ended))
  | skipOff => exact ⟨.skipOff, fun stop ended => Nat.le_of_eq (Option.some.inj ended)⟩
  | skipHit _ | skipMiss _ => cases off

end Derivations

section Choices

variable [PegValue CharT] {input : List CharT} {Env : Type}
  {matched : (Context CharT → Span → Option Span) → Nat → Option Nat → Prop}
  {call : Env → Option RuleId → RuleId → Nat → Option Nat → Prop} {env : Env}
  {mode : Option RuleId} {pos : Nat} {outcome : Option Nat}

/-- A choice of branches, a single one being itself. -/
def choice : List (Expr CharT) → Expr CharT
  | [only] => only
  | branches => .alternation branches

/-- A sequence of parts, a single one being itself. -/
def chain : List (Expr CharT) → Expr CharT
  | [only] => only
  | parts => .sequence parts

theorem choice_iff {branches : List (Expr CharT)} :
    Peg input matched call env mode (.expr (choice branches)) pos outcome ↔
      Peg input matched call env mode (.alt branches) pos outcome := by
  have listed : Peg input matched call env mode (.expr (.alternation branches)) pos outcome ↔
      Peg input matched call env mode (.alt branches) pos outcome := by
    constructor
    · intro peg
      cases peg with
      | alternation inner => exact inner
    · exact .alternation
  match branches with
  | [] => exact listed
  | [only] =>
      constructor
      · intro peg
        cases outcome with
        | none => exact .altMiss peg .altNil
        | some stop => exact .altHit peg
      · intro peg
        cases peg with
        | altHit hit => exact hit
        | altMiss missed rest =>
            cases rest
            exact missed
  | _ :: _ :: _ => exact listed

theorem seq_off {first first' : Bool} {parts : List (Expr CharT)}
    (peg : Peg input matched call env none (.seq first parts) pos outcome) :
    Peg input matched call env none (.seq first' parts) pos outcome := by
  cases peg with
  | seqNil => exact .seqNil
  | seqFail skip failed =>
      rw [ite_self] at skip
      exact .seqFail (by rwa [ite_self]) failed
  | seqStep skip hit rest =>
      rw [ite_self] at skip
      exact .seqStep (by rwa [ite_self]) hit rest

theorem chain_iff {parts : List (Expr CharT)} :
    Peg input matched call env none (.expr (chain parts)) pos outcome ↔
      Peg input matched call env none (.seq true parts) pos outcome := by
  have listed : Peg input matched call env none (.expr (.sequence parts)) pos outcome ↔
      Peg input matched call env none (.seq true parts) pos outcome := by
    constructor
    · intro peg
      cases peg with
      | sequence inner => exact inner
    · exact .sequence
  match parts with
  | [] => exact listed
  | [only] =>
      constructor
      · intro peg
        cases outcome with
        | none => exact .seqFail .skipOff peg
        | some stop => exact .seqStep .skipOff peg .seqNil
      · intro peg
        cases peg with
        | seqFail skip failed =>
            cases skip
            exact failed
        | seqStep skip hit rest =>
            cases skip
            cases rest
            exact hit
  | _ :: _ :: _ => exact listed

end Choices

section Goodness

variable {evaluates : Option Nat → Option Nat → Prop} {start : Nat} {best outcome : Option Nat}

theorem grows_good {Good : Nat → Prop} (forward : ∀ stop, Good stop → start ≤ stop)
    (finds : ∀ best stop, (∀ seed, best = some seed → Good seed) → evaluates best (some stop) → Good stop)
    (grows : Grows evaluates start best outcome) (seeded : ∀ seed, best = some seed → Good seed) :
    ∀ stop, outcome = some stop → Good stop := by
  induction grows with
  | failed _ => exact seeded
  | @stuck best stop found behind =>
      intro last ended
      obtain rfl := Option.some.inj ended
      cases best with
      | none =>
          have good := finds none stop seeded found
          have ahead := forward stop good
          rw [Option.getD_none] at behind ⊢
          exact Nat.le_antisymm behind ahead ▸ good
      | some seed => exact seeded seed rfl
  | more found _ _ induction =>
      refine induction fun seed same => ?_
      obtain rfl := Option.some.inj same
      exact finds _ _ seeded found

variable [PegValue CharT] {grammar : Grammar CharT NodeType} {input : List CharT}
  {matched matched' : (Context CharT → Span → Option Span) → Nat → Option Nat → Prop} {reentry : Bool}
  {Good : RuleId → Nat → Nat → Prop}

/-- A success that is good where the input reaches. -/
def Fine (input : List CharT) (Good : RuleId → Nat → Nat → Prop) (rule : RuleId) (pos : Nat)
    (outcome : Option Nat) : Prop :=
  ∀ stop, outcome = some stop → pos ≤ stop ∧ (pos ≤ input.length → Good rule pos stop)

/-- Answers are as good as the bodies make them. -/
theorem answers_good (reads : Reading grammar input none matched' Good)
    (matches' : ∀ fn pos outcome, matched fn pos outcome → matched' fn pos outcome)
    (forward : ∀ fn pos stop, matched fn pos (some stop) → pos ≤ stop) {env : Option Seed}
    (seeded : ∀ seed, env = some seed → Fine input Good seed.rule seed.pos seed.outcome)
    {rule : RuleId} {pos : Nat} {outcome : Option Nat}
    (answer : Answer grammar input matched reentry env none rule pos outcome) :
    Fine input Good rule pos outcome := by
  obtain ⟨depth, answer⟩ := answer
  induction depth generalizing env rule pos outcome with
  | zero => exact answer.elim
  | succ depth induction =>
      unfold answersWithin at answer
      split_ifs at answer with own
      · cases env with
        | none => cases own
        | some seed =>
            obtain ⟨rfl, rfl⟩ := Prod.mk.inj (Option.some.inj own)
            exact answer.2 ▸ seeded seed rfl
      · obtain ⟨body, assigned, grows⟩ := answer
        refine @grows_good _ pos none outcome
          (fun stop => pos ≤ stop ∧ (pos ≤ input.length → Good rule pos stop)) (fun _ => And.left) ?_
          grows (by simp)
        intro best stop seeds peg
        have calls : ∀ id here found, True → 0 ≤ here →
            answersWithin grammar input matched reentry depth (some ⟨rule, pos, best⟩) none id here found →
            Held input Good () none id here found ∧ ∀ stop, found = some stop → here ≤ stop := by
          intro id here found _ _ call
          have fine : Fine input Good id here found := by
            refine induction (fun seed same => ?_) call
            obtain rfl := Option.some.inj same
            exact fun stop ended => seeds stop ended
          exact ⟨fun stop ended => (fine stop ended).2, fun stop ended => (fine stop ended).1⟩
        obtain ⟨recalled, ahead⟩ := peg_recalled matches' forward calls peg rfl parts_hold (Nat.zero_le _)
        exact ⟨ahead stop rfl, reads.bodies rule body none pos stop assigned (Or.inl rfl) recalled⟩

end Goodness

section Elimination

variable [PegValue CharT] {grammar : Grammar CharT NodeType} {input : List CharT}
  {head loop : RuleId} {lefts : List (List (Expr CharT))} {bases : List (Expr CharT)}
  {seed : Option Nat} {pos stop : Nat} {outcome : Option Nat}

/-- `head = (head >> left) | … | base | …` and `loop = (base | …) >> *(left | …)`. -/
structure LeftRecursive (grammar : Grammar CharT NodeType) (head loop : RuleId)
    (lefts : List (List (Expr CharT))) (bases : List (Expr CharT)) : Prop where
  recursive : grammar.body head = some
    (choice (lefts.map (fun left => chain (.rule head :: left)) ++ bases))
  iterative : grammar.body loop = some
    (.sequence [choice bases, .repetition .zeroOrMore (choice (lefts.map chain))])
  apart : ∀ base ∈ bases, base.Every fun part => part ≠ .rule head ∧ part ≠ .rule loop
  consumes : ∀ base ∈ bases, ¬Nullable grammar base

/-- The growth of seeds, without a skipper, in a rule in progress or in none. -/
abbrev Reads (grammar : Grammar CharT NodeType) (input : List CharT) (env : Option Seed)
    (task : Pending CharT) (pos : Nat) (outcome : Option Nat) : Prop :=
  Peg input (reading input) (Answer grammar input (reading input) true) env none task pos outcome

omit [PegValue CharT] in
theorem reading_paced (fn : Context CharT → Span → Option Span) (pos : Nat) (outcome : Option Nat)
    (read : reading input fn pos outcome) : paced input fn pos outcome := by
  obtain ⟨matcher, answer⟩ := read
  constructor
  · rintro stop rfl inside
    obtain ⟨consumed, found, rfl⟩ := Option.map_eq_some_iff.mp answer.symm
    exact matcher.in_range { Context.fresh input with position := pos } consumed inside found
  · rintro inside rfl
    obtain ⟨consumed, found, stayed⟩ := Option.map_eq_some_iff.mp answer.symm
    exact ⟨_, consumed, inside, found, stayed⟩

theorem answer_ahead {rule : RuleId} (inRange : InRange grammar)
    (answer : Answer grammar input (reading input) true none none rule pos outcome) :
    Fine input (Measured grammar input) rule pos outcome :=
  answers_good (measured_reading inRange) reading_paced (reading_forward input) (by simp) answer

theorem reads_free (inRange : InRange grammar) {env env' : Option Seed} {holds : Expr CharT → Prop}
    {task : Pending CharT} {start : Nat}
    (apart : ∀ id pos, holds (.rule id) → start ≤ pos → env.map Seed.key ≠ some (id, pos))
    (apart' : ∀ id pos, holds (.rule id) → start ≤ pos → env'.map Seed.key ≠ some (id, pos))
    (peg : Reads grammar input env task pos outcome) (every : PartsHold holds task) (ahead : start ≤ pos) :
    Reads grammar input env' task pos outcome ∧ ∀ stop, outcome = some stop → pos ≤ stop := by
  refine peg_recalled (fun _ _ _ => id) (reading_forward input) ?_ peg rfl every ahead
  intro id here found held beyond call
  have plain := (answer_free (apart id here held beyond)).mp call
  exact ⟨(answer_free (apart' id here held beyond)).mpr plain,
    fun stop ended => (answer_ahead inRange plain stop ended).1⟩

theorem reads_forward (inRange : InRange grammar) {task : Pending CharT}
    (peg : Reads grammar input none task pos (some stop)) : pos ≤ stop := by
  have nowhere : ∀ id here, True → 0 ≤ here → (none : Option Seed).map Seed.key ≠ some (id, here) := by
    simp
  exact (reads_free inRange nowhere nowhere peg parts_hold (Nat.zero_le _)).2 stop rfl

theorem bases_free (inRange : InRange grammar) (shape : LeftRecursive grammar head loop lefts bases)
    {env env' : Option Seed} (own : ∀ seed, env = some seed → seed.rule = head ∨ seed.rule = loop)
    (own' : ∀ seed, env' = some seed → seed.rule = head ∨ seed.rule = loop)
    (peg : Reads grammar input env (.alt bases) pos outcome) :
    Reads grammar input env' (.alt bases) pos outcome := by
  have apart : ∀ env : Option Seed, (∀ seed, env = some seed → seed.rule = head ∨ seed.rule = loop) →
      ∀ id pos, (Expr.rule id : Expr CharT) ≠ .rule head ∧ (Expr.rule id : Expr CharT) ≠ .rule loop →
        0 ≤ pos → env.map Seed.key ≠ some (id, pos) := by
    intro env own id pos other _ same
    obtain ⟨seed, rfl, key⟩ := Option.map_eq_some_iff.mp same
    obtain rfl : seed.rule = id := congrArg Prod.fst key
    rcases own seed rfl with called | called
    · exact other.1 (by rw [called])
    · exact other.2 (by rw [called])
  exact (reads_free inRange (apart env own) (apart env' own') peg shape.apart (Nat.zero_le _)).1

theorem later_free (inRange : InRange grammar) {env env' : Option Seed} {task : Pending CharT}
    (behind : ∀ seed, env = some seed → seed.pos < pos)
    (behind' : ∀ seed, env' = some seed → seed.pos < pos)
    (peg : Reads grammar input env task pos outcome) : Reads grammar input env' task pos outcome := by
  have apart : ∀ env : Option Seed, (∀ seed, env = some seed → seed.pos < pos) →
      ∀ id here, True → pos ≤ here → env.map Seed.key ≠ some (id, here) := by
    intro env behind id here _ ahead same
    obtain ⟨seed, rfl, key⟩ := Option.map_eq_some_iff.mp same
    obtain rfl : seed.pos = here := congrArg Prod.snd key
    exact Nat.lt_irrefl _ (Nat.lt_of_lt_of_le (behind seed rfl) ahead)
  exact (reads_free inRange (apart env behind) (apart env' behind') peg parts_hold (Nat.le_refl _)).1

theorem seed_answer (answer : Answer grammar input (reading input) true (some ⟨head, pos, seed⟩) none head
    pos outcome) : outcome = seed :=
  answer_unique (reading_functional input) answer (answer_seed rfl)

/-- A growing branch on a seed is its rest, tried where the seed ends. -/
theorem left_reads {left : List (Expr CharT)} (inRange : InRange grammar)
    (peg : Reads grammar input (some ⟨head, pos, seed⟩) (.expr (chain (.rule head :: left))) pos outcome) :
    (seed = none ∧ outcome = none) ∨ ∃ here, seed = some here ∧
      (pos < here → Reads grammar input none (.expr (chain left)) here outcome) := by
  cases chain_iff.mp peg with
  | seqFail skip failed =>
      cases skip
      cases failed with
      | rule call => exact Or.inl ⟨(seed_answer call).symm, rfl⟩
  | @seqStep _ _ _ _ _ _ middle _ skip hit rest =>
      cases skip
      cases hit with
      | rule call =>
          refine Or.inr ⟨middle, (seed_answer call).symm, fun ahead => ?_⟩
          refine chain_iff.mpr (seq_off (later_free inRange (fun seed same => ?_) (by simp) rest))
          obtain rfl := Option.some.inj same
          exact ahead

/-- The first growing branch that matches on the seed, or the bases if none does. -/
theorem branches_read (inRange : InRange grammar) (ahead : ∀ here, seed = some here → pos < here)
    (peg : Reads grammar input (some ⟨head, pos, seed⟩)
      (.alt (lefts.map (fun left => chain (.rule head :: left)) ++ bases)) pos outcome) :
    (∃ here stop, seed = some here ∧ outcome = some stop ∧
      Reads grammar input none (.alt (lefts.map chain)) here (some stop)) ∨
    ((∀ here, seed = some here → Reads grammar input none (.alt (lefts.map chain)) here none) ∧
      Reads grammar input (some ⟨head, pos, seed⟩) (.alt bases) pos outcome) := by
  induction lefts with
  | nil => exact Or.inr ⟨fun _ _ => .altNil, peg⟩
  | cons left rest induction =>
      rw [List.map_cons, List.cons_append] at peg
      rw [List.map_cons]
      cases peg with
      | @altHit _ _ _ _ stop hit =>
          rcases left_reads inRange hit with ⟨-, failed⟩ | ⟨here, grown, reads⟩
          · cases failed
          · exact Or.inl ⟨here, stop, grown, rfl, .altHit (reads (ahead here grown))⟩
      | altMiss missed later =>
          have failed : ∀ here, seed = some here →
              Reads grammar input none (.expr (chain left)) here none := by
            intro here grown
            rcases left_reads inRange missed with ⟨absent, -⟩ | ⟨other, same, reads⟩
            · rw [absent] at grown
              cases grown
            · obtain rfl := Option.some.inj (grown.symm.trans same)
              exact reads (ahead here grown)
          rcases induction later with ⟨here, stop, grown, ended, reads⟩ | ⟨others, bases'⟩
          · exact Or.inl ⟨here, stop, grown, ended, .altMiss (failed here grown) reads⟩
          · exact Or.inr ⟨fun here grown => .altMiss (failed here grown) (others here grown), bases'⟩

omit [PegValue CharT] in
theorem star_repeated (count stop : Nat) : repeated .zeroOrMore count stop = some stop :=
  if_neg (Nat.not_lt_zero count)

theorem loop_ends {child : Expr CharT} {here : Nat} (count : Nat)
    (round : Reads grammar input none (.expr child) here outcome)
    (idle : ∀ stop, outcome = some stop → stop = here) :
    Reads grammar input none (.loop .zeroOrMore child count) here (some here) := by
  have skip : Peg input (reading input) (Answer grammar input (reading input) true) none
      (if count = 0 then none else none) .skip here (some here) := by
    rw [ite_self]
    exact .skipOff
  cases outcome with
  | none =>
      rw [← star_repeated count here]
      exact .loopFail skip round
  | some stop =>
      obtain rfl := idle stop rfl
      rw [← star_repeated (count + 1) stop]
      exact .loopLast skip round (by simp)

theorem loop_goes_on {child : Expr CharT} {here : Nat} (count : Nat)
    (round : Reads grammar input none (.expr child) here (some stop)) (moved : here < stop)
    (later : Reads grammar input none (.loop .zeroOrMore child (count + 1)) stop outcome) :
    Reads grammar input none (.loop .zeroOrMore child count) here outcome := by
  have skip : Peg input (reading input) (Answer grammar input (reading input) true) none
      (if count = 0 then none else none) .skip here (some here) := by
    rw [ite_self]
    exact .skipOff
  have unbounded : boundReached RepKind.zeroOrMore.maxRep (count + 1) = false := rfl
  have more : (boundReached RepKind.zeroOrMore.maxRep (count + 1) || decide (stop = here)) = false := by
    rw [unbounded, Bool.false_or]
    exact decide_eq_false (Nat.ne_of_lt moved).symm
  exact Peg.loopMore skip round more later

/-- A seed beyond every match of the bases grows as the loop goes on from its end. -/
theorem grows_as_loop (inRange : InRange grammar) {here : Nat} (ahead : pos < here)
    (furthest : ∀ seed stop, Reads grammar input (some ⟨head, pos, seed⟩) (.alt bases) pos (some stop) →
      stop ≤ here)
    (grows : Grows (fun best result => Reads grammar input (some ⟨head, pos, best⟩)
      (.alt (lefts.map (fun left => chain (.rule head :: left)) ++ bases)) pos result)
      pos (some here) outcome) :
    ∃ stop, outcome = some stop ∧ ∀ count, Reads grammar input none
      (.loop .zeroOrMore (choice (lefts.map chain)) count) here (some stop) := by
  generalize grown : some here = best at grows
  induction grows generalizing here with
  | failed found =>
      subst grown
      rcases branches_read inRange (by simpa using ahead) found with ⟨_, _, _, ended, _⟩ | ⟨missed, _⟩
      · cases ended
      · exact ⟨here, rfl, fun count => loop_ends count (choice_iff.mpr (missed here rfl)) (by simp)⟩
  | @stuck best stop found behind =>
      subst grown
      rw [Option.getD_some] at behind ⊢
      refine ⟨here, rfl, fun count => ?_⟩
      rcases branches_read inRange (by simpa using ahead) found with
        ⟨from_, last, same, ended, round⟩ | ⟨missed, _⟩
      · obtain rfl := Option.some.inj same
        obtain rfl := Option.some.inj ended
        refine loop_ends count (choice_iff.mpr round) fun stop same => ?_
        obtain rfl := Option.some.inj same
        exact Nat.le_antisymm behind (reads_forward inRange round)
      · exact loop_ends count (choice_iff.mpr (missed here rfl)) (by simp)
  | @more best stop outcome found further _ induction =>
      subst grown
      rw [Option.getD_some] at further
      obtain ⟨last, ended, loops⟩ := induction (ahead.trans further)
        (fun seed stop reads => (furthest seed stop reads).trans (Nat.le_of_lt further)) rfl
      refine ⟨last, ended, fun count => ?_⟩
      rcases branches_read inRange (by simpa using ahead) found with
        ⟨from_, next, same, grown, round⟩ | ⟨_, again⟩
      · obtain rfl := Option.some.inj same
        obtain rfl := Option.some.inj grown
        exact loop_goes_on count (choice_iff.mpr round) further (loops (count + 1))
      · exact absurd (furthest _ _ again) (Nat.not_le.mpr further)

theorem bases_consume (inRange : InRange grammar) (consumes : ∀ base ∈ bases, ¬Nullable grammar base)
    (inside : pos ≤ input.length) (peg : Reads grammar input none (.alt bases) pos (some stop)) :
    pos < stop := by
  have calls : ∀ id here found, True → 0 ≤ here →
      Answer grammar input (reading input) true none none id here found →
      Held input (Measured grammar input) () none id here found ∧
        ∀ stop, found = some stop → here ≤ stop := by
    intro id here found _ _ answer
    have fine := answer_ahead inRange answer
    exact ⟨fun stop ended => (fine stop ended).2, fun stop ended => (fine stop ended).1⟩
  obtain ⟨measured, ahead⟩ := peg_recalled reading_paced (reading_forward input) calls peg rfl
    parts_hold (Nat.zero_le pos)
  refine Nat.lt_of_le_of_ne (ahead stop rfl) fun same => ?_
  subst same
  obtain ⟨base, member, nullable⟩ := stays measured inside rfl
  exact consumes base member nullable

/-- What the left-recursive rule answers its elimination matches. -/
theorem head_reads (inRange : InRange grammar) (shape : LeftRecursive grammar head loop lefts bases)
    (inside : pos ≤ input.length)
    (answer : Answer grammar input (reading input) true none none head pos outcome) :
    Reads grammar input none
      (.expr (.sequence [choice bases, .repetition .zeroOrMore (choice (lefts.map chain))])) pos outcome := by
  obtain ⟨body, assigned, grows⟩ := (answer_grown (by simp)).mp answer
  obtain rfl := Option.some.inj (shape.recursive.symm.trans assigned)
  have grows := grows.mono fun best result => choice_iff.mp
  have freed : ∀ seed outcome, Reads grammar input (some ⟨head, pos, seed⟩) (.alt bases) pos outcome →
      Reads grammar input none (.alt bases) pos outcome := by
    intro seed outcome reads
    refine bases_free inRange shape (fun seed same => ?_) (by simp) reads
    obtain rfl := Option.some.inj same
    exact Or.inl rfl
  have start : ∀ outcome, Reads grammar input (some ⟨head, pos, none⟩)
      (.alt (lefts.map (fun left => chain (.rule head :: left)) ++ bases)) pos outcome →
      Reads grammar input none (.alt bases) pos outcome := by
    intro outcome reads
    rcases branches_read inRange (by simp) reads with ⟨_, _, grown, -⟩ | ⟨-, reads⟩
    · cases grown
    · exact freed none outcome reads
  refine .sequence ?_
  cases grows with
  | failed found => exact .seqFail .skipOff (choice_iff.mpr (start none found))
  | stuck found behind =>
      have moved := bases_consume inRange shape.consumes inside (start _ found)
      exact absurd behind (Nat.not_le.mpr moved)
  | @more _ here _ found ahead later =>
      have first := start _ found
      have furthest : ∀ seed stop, Reads grammar input (some ⟨head, pos, seed⟩) (.alt bases) pos (some stop) →
          stop ≤ here := by
        intro seed stop reads
        have same := peg_unique id (reading_functional input)
          (fun _ _ _ _ _ _ one other => answer_unique (reading_functional input) one other)
          (freed seed _ reads) first
        exact Nat.le_of_eq (Option.some.inj same)
      obtain ⟨stop, rfl, loops⟩ := grows_as_loop inRange ahead furthest later
      refine .seqStep .skipOff (choice_iff.mpr first) (.seqStep .skipOff (.repetition (loops 0)) .seqNil)

/-- What the elimination matches the looping rule answers. -/
theorem loop_answers (inRange : InRange grammar) (shape : LeftRecursive grammar head loop lefts bases)
    (inside : pos ≤ input.length) (peg : Reads grammar input none
      (.expr (.sequence [choice bases, .repetition .zeroOrMore (choice (lefts.map chain))])) pos outcome) :
    Answer grammar input (reading input) true none none loop pos outcome := by
  have freed : ∀ seed outcome, Reads grammar input none (.alt bases) pos outcome →
      Reads grammar input (some ⟨loop, pos, seed⟩) (.alt bases) pos outcome := by
    intro seed outcome reads
    refine bases_free inRange shape (by simp) (fun seed same => ?_) reads
    obtain rfl := Option.some.inj same
    exact Or.inr rfl
  have both : (∀ seed, Reads grammar input (some ⟨loop, pos, seed⟩)
      (.expr (.sequence [choice bases, .repetition .zeroOrMore (choice (lefts.map chain))])) pos outcome) ∧
      ∀ stop, outcome = some stop → pos < stop := by
    cases peg with
    | sequence peg =>
        cases peg with
        | seqFail skip failed =>
            cases skip
            refine ⟨fun seed => .sequence (.seqFail .skipOff ?_), by simp⟩
            exact choice_iff.mpr (freed seed none (choice_iff.mp failed))
        | @seqStep _ _ _ _ _ _ middle _ skip hit rest =>
            cases skip
            have first := choice_iff.mp hit
            have moved := bases_consume inRange shape.consumes inside first
            refine ⟨fun seed => .sequence (.seqStep .skipOff (choice_iff.mpr (freed seed _ first)) ?_), ?_⟩
            · refine later_free inRange (by simp) (fun seed same => ?_) rest
              obtain rfl := Option.some.inj same
              exact moved
            · rintro stop rfl
              exact Nat.lt_of_lt_of_le moved (reads_forward inRange rest)
  obtain ⟨reads, moves⟩ := both
  refine (answer_grown (by simp)).mpr ⟨_, shape.iterative, ?_⟩
  cases outcome with
  | none => exact .failed (reads none)
  | some stop => exact .more (reads none) (moves stop rfl) (.stuck (reads (some stop)) (Nat.le_refl _))

theorem delivers_together {rule rule' : RuleId} {first second : Context CharT}
    {answer answer' : Option Nat → Prop} (left : Delivers grammar rule first answer)
    (right : Delivers grammar rule' second answer') (follows : ∀ outcome, answer outcome → answer' outcome)
    (same : first.position = second.position) :
    ∃ enough, ∀ fuel, enough ≤ fuel → ∃ result result',
      (grammar.apply fuel rule first).outcome = .returned result ∧
      (grammar.apply fuel rule' second).outcome = .returned result' ∧
      result.success = result'.success ∧
      (grammar.apply fuel rule first).state.position =
        (grammar.apply fuel rule' second).state.position := by
  obtain ⟨result, last, log, ⟨enough, settled⟩, failed, exactly⟩ := left
  obtain ⟨result', last', log', ⟨enough', settled'⟩, failed', exactly'⟩ := right
  have ended := (exactly' _).mp (follows _ ((exactly _).mpr rfl))
  refine ⟨max enough enough', fun fuel larger => ⟨result, result', ?_⟩⟩
  rw [settled fuel (by omega), settled' fuel (by omega)]
  refine ⟨rfl, rfl, ?_⟩
  cases success : result.success <;> cases success' : result'.success <;>
    simp only [success, success', if_true, Bool.false_eq_true, if_false, reduceCtorEq] at ended
  · exact ⟨rfl, (failed success).trans (same.trans (failed' success').symm)⟩
  · exact ⟨rfl, Option.some.inj ended⟩

end Elimination

section Differences

/-- `E = (E >> '+' >> T) | (E >> '-' >> T) | T` and `L = T >> *(('+' >> T) | ('-' >> T))`, where `T`
is a digit. -/
def differences : Grammar UInt8 Unit where
  rules := [
    (ascii "E", { body := some (.alternation [
      .sequence [.rule 0, .terminal (.value 43), .rule 1],
      .sequence [.rule 0, .terminal (.value 45), .rule 1], .rule 1]) }),
    (ascii "T", { body := some (.token (.range 48 57)) }),
    (ascii "L", { body := some (.sequence [.rule 1, .repetition .zeroOrMore (.alternation [
      .sequence [.terminal (.value 43), .rule 1], .sequence [.terminal (.value 45), .rule 1]])]) })]

theorem differences_bodies {holds : RuleId → Expr UInt8 → Prop} {rule : RuleId} {body : Expr UInt8}
    (assigned : differences.body rule = some body)
    (growing : holds 0 (.alternation [
      .sequence [.rule 0, .terminal (.value 43), .rule 1],
      .sequence [.rule 0, .terminal (.value 45), .rule 1], .rule 1]))
    (digit : holds 1 (.token (.range 48 57)))
    (looping : holds 2 (.sequence [.rule 1, .repetition .zeroOrMore (.alternation [
      .sequence [.terminal (.value 43), .rule 1], .sequence [.terminal (.value 45), .rule 1]])])) :
    holds rule body := by
  match rule with
  | 0 | 1 | 2 =>
      obtain rfl := Option.some.inj assigned
      assumption
  | _ + 3 => cases assigned

theorem differences_unrecovered (rule : RuleId) :
    (differences.nonTerminal rule).recover.isSyncToken = none := by
  match rule with
  | 0 | 1 | 2 | _ + 3 => rfl

theorem differences_pure : Pure differences where
  cutFree :=
    { bodies := fun rule body assigned => by
        refine @differences_bodies (fun _ body => body.Every (Uncut differences)) rule body assigned
          ?_ ?_ ?_ <;> simp [Expr.Every, Expr.EveryAll, Uncut, Grammar.body, Grammar.nonTerminal, differences]
      recovers := differences_unrecovered
      skipper := by simp [differences] }
  matchers rule body assigned := by
    refine @differences_bodies (fun _ body => body.Every MatcherPure) rule body assigned ?_ ?_ ?_ <;>
      simp [Expr.Every, Expr.EveryAll, MatcherPure]

/-- Apart from `E` itself, `E` and `L` start `T` only. -/
theorem differences_direct : DirectOnly differences := by
  refine @direct_only_of_rank _ _ _ (fun rule => if rule = 1 then 0 else 1) ?_
  rintro ⟨rule, on⟩ callee ⟨body, assigned, starts⟩
  revert starts
  have part : ∀ body, Starts differences on body callee →
      ∀ ids : RuleId → Prop, body.Every (fun part => ∀ id, part = .rule id → ids id) → ids callee.1 := by
    intro body starts ids every
    exact starts.part every (by simp [differences]) callee.1 rfl
  refine @differences_bodies (fun rule body => Starts differences on body callee → rule ≠ callee.1 →
    (if callee.1 = 1 then 0 else 1) < (if rule = 1 then 0 else 1)) rule body assigned ?_ ?_ ?_
  · intro starts other
    have found := part _ starts (fun id => id = 0 ∨ id = 1) (by simp [Expr.Every, Expr.EveryAll])
    rcases found with same | same
    · exact absurd same.symm other
    · simp [same]
  · intro starts
    cases starts
  · intro starts other
    have found := part _ starts (fun id => id = 1) (by simp [Expr.Every, Expr.EveryAll])
    simp [found]

theorem differences_shape : LeftRecursive differences 0 2
    [[.terminal (.value 43), .rule 1], [.terminal (.value 45), .rule 1]] [.rule 1] where
  recursive := rfl
  iterative := rfl
  apart := by simp [Expr.Every]
  consumes := by
    intro base member nullable
    obtain rfl : base = .rule 1 := by simpa using member
    cases nullable with
    | rule assigned inner =>
        obtain rfl := Option.some.inj assigned
        cases inner
    | recovered configured =>
        rw [differences_unrecovered] at configured
        cases configured

/-- `E` on "1-2" from its second digit on, after `E` has been parsed from the first. -/
theorem differences_as_fresh :
    AnswersAlike differences 0
      ((differences.apply 12 0 (Context.fresh (ascii "1-2"))).state.reset 2)
      { Context.fresh (ascii "1-2") with position := 2 } := by
  have returned : (differences.apply 12 0 (Context.fresh (ascii "1-2"))).outcome.value?.isSome = true := by
    decide +kernel
  have session : Session differences (ascii "1-2")
      (differences.apply 12 0 (Context.fresh (ascii "1-2"))).state :=
    .applied 12 0 .fresh rfl (Outcome.returned_of_value returned)
  exact direct_answers_as_fresh differences_pure rfl differences_direct (session.reset (by decide)) rfl

end Differences

end Peglib.DirectRecursion
