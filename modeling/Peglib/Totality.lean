import Peglib.EntryPoints
import Peglib.InvocationStack
import Peglib.RuleGraph

/-!
# What a validated grammar never does

When all rules that the start rule and the skipper lead to are defined, a parse
never evaluates a missing body. Without cuts it moreover always comes to an end,
with an answer: left-recursive rules, skipper and recovery included.
-/

namespace Peglib.Totality

open Peglib.TracedComputation Peglib.LoggedSteps Peglib.EngineSteps Peglib.Halting
open Peglib.ParseError Peglib.ParseContext Peglib.Expressions Peglib.Rules Peglib.RuleGraph
open Peglib.ControlDiscipline Peglib.ScopeBlindness Peglib.SuccessfulAnswers Peglib.Termination
open Peglib.CommittedFailures Peglib.EntryPoints Peglib.InvocationStack

set_option autoImplicit false

variable {CharT NodeType : Type}

/-- No part of the expression is a cut. -/
def NoCut : Expr CharT → Prop
  | .cut => False
  | _ => True

section Enterable

variable {grammar : Grammar CharT NodeType} {start : RuleId}

theorem enterable_start : Enterable grammar start start := Or.inl .refl

theorem enterable_skipper {skipper : RuleId} (configured : grammar.skipper = some skipper) :
    Enterable grammar start skipper := Or.inr ⟨skipper, configured, .refl⟩

theorem enterable_refers {rule other : RuleId} (entered : Enterable grammar start rule)
    (refers : Refers grammar rule other) : Enterable grammar start other := by
  rcases entered with reached | ⟨skipper, configured, reached⟩
  · exact Or.inl (reached.tail refers)
  · exact Or.inr ⟨skipper, configured, reached.tail refers⟩

theorem confined_of_mentions {reach : RuleId → Prop} {expr : Expr CharT}
    (mentioned : ∀ id, Mentions id expr → reach id) : expr.Every (Confined reach True) := by
  induction expr using Expr.induct with
  | sequence children induction =>
      unfold Expr.Every
      refine ⟨trivial, Expr.every_all_iff.mpr fun child member => ?_⟩
      exact induction child member fun id mentions => mentioned id (.sequence member mentions)
  | alternation children induction =>
      unfold Expr.Every
      refine ⟨trivial, Expr.every_all_iff.mpr fun child member => ?_⟩
      exact induction child member fun id mentions => mentioned id (.alternation member mentions)
  | repetition kind child induction =>
      unfold Expr.Every
      exact ⟨trivial, induction fun id mentions => mentioned id (.repetition mentions)⟩
  | not child induction =>
      unfold Expr.Every
      exact ⟨trivial, induction fun id mentions => mentioned id (.not mentions)⟩
  | and child induction =>
      unfold Expr.Every
      exact ⟨trivial, induction fun id mentions => mentioned id (.and mentions)⟩
  | lexeme child induction =>
      unfold Expr.Every
      exact ⟨trivial, induction fun id mentions => mentioned id (.lexeme mentions)⟩
  | rule id =>
      unfold Expr.Every
      exact mentioned id .rule
  | terminal _ | terminalSeq _ | token _ | matcher _ | empty | cut =>
      unfold Expr.Every
      trivial

theorem enterable_closed : ClosedUnder grammar (Enterable grammar start) True :=
  fun _ _ entered assigned => confined_of_mentions fun _ mentions =>
    enterable_refers entered ⟨_, assigned, mentions⟩

theorem enterable_cut_free
    (cutFree : ∀ rule body, Enterable grammar start rule → grammar.body rule = some body →
      body.Every NoCut) : ClosedUnder grammar (Enterable grammar start) False := by
  intro rule body entered assigned
  refine ((enterable_closed rule body entered assigned).and (cutFree rule body entered assigned)).mono ?_
  rintro part ⟨confined, noCut⟩
  cases part <;> first | exact confined | exact noCut

end Enterable

def Anyhow (_ : Context CharT) (_ : List (Moment CharT)) (_ : Context CharT) : Prop := True

instance : Grounded (@Anyhow CharT) where
  refl _ := trivial
  trans _ _ _ _ _ _ _ := trivial
  aside _ _ _ := trivial
  opened _ := trivial
  closed _ := trivial
  reopened _ := trivial
  failed _ := trivial
  stored _ _ _ _ := trivial
  grew _ _ := trivial
  cleared _ _ _ _ := trivial
  left _ _ := trivial

section Validated

variable [PegValue CharT] {grammar : Grammar CharT NodeType} {start : RuleId} {name : Str}

/-- Where every rule that can be entered is defined, nothing but a `ParseError` can leave
an entry point. -/
theorem only_parse_errors {Value : Type}
    (defined : ∀ rule, Enterable grammar start rule → (grammar.body rule).isSome = true)
    (fuel : Nat) (view : ParseResult → Value) (fallback : Value) (context : Context CharT) (exn : Exn)
    (thrown : (boundary grammar fuel start view fallback context).outcome = .thrown exn) :
    ∃ position expected, exn = .parseError position expected := by
  have raising : MayRaise grammar (Enterable grammar start) fun exn =>
      ∃ position expected, exn = .parseError position expected := by
    refine ⟨fun position expected => ⟨position, expected, rfl⟩, fun rule entered missing => ?_⟩
    have assigned := defined rule entered
    simp [missing] at assigned
  have engine : EngineRules (Enterable grammar start) True (@Anyhow CharT) :=
    ⟨fun _ _ => trivial, fun _ _ _ _ => trivial, fun _ _ _ _ => trivial⟩
  have followed := boundary_moves engine enterable_closed raising fuel enterable_start
    (fun _ configured => enterable_skipper configured) view fallback context
  exact followed.raised exn thrown

theorem boundary_answers {Value : Type}
    (defined : ∀ rule, Enterable grammar start rule → (grammar.body rule).isSome = true)
    (fuel : Nat) (view : ParseResult → Value) (fallback : Value) (context : Context CharT)
    (ends : (boundary grammar fuel start view fallback context).outcome ≠ .exhausted) :
    (∃ answer, (boundary grammar fuel start view fallback context).outcome = .returned answer) ∨
      Raised (boundary grammar fuel start view fallback context).outcome := by
  cases ended : (boundary grammar fuel start view fallback context).outcome with
  | returned answer => exact Or.inl ⟨answer, rfl⟩
  | exhausted => exact absurd ended ends
  | thrown exn =>
      obtain ⟨position, expected, rfl⟩ := only_parse_errors defined fuel view fallback context exn ended
      exact Or.inr ⟨position, expected, rfl⟩

theorem parse_boundary (found : grammar.find name = some start) (fuel : Nat) (context : Context CharT) :
    grammar.parse fuel name context =
      boundary grammar fuel start ParseResult.success false context := by
  unfold Grammar.parse
  rw [found]
  rfl

/-- A call of `parse` or `parse_tree` that ends, from a rule that only leads to defined rules,
answers or lets a `ParseError` pass: no assertion fails for want of a body, whatever the
context. -/
theorem validated_never_asserts (found : grammar.find name = some start)
    (defined : ∀ rule, Enterable grammar start rule → (grammar.body rule).isSome = true)
    (fuel : Nat) (context : Context CharT) :
    ((grammar.parse fuel name context).outcome ≠ .exhausted →
      (∃ answer, (grammar.parse fuel name context).outcome = .returned answer) ∨
        Raised (grammar.parse fuel name context).outcome) ∧
    ((grammar.parseTree fuel name context).outcome ≠ .exhausted →
      (∃ tree, (grammar.parseTree fuel name context).outcome = .returned tree) ∨
        Raised (grammar.parseTree fuel name context).outcome) := by
  constructor
  · rw [parse_boundary found]
    exact boundary_answers defined fuel ParseResult.success false context
  · unfold Grammar.parseTree
    rw [found]
    exact boundary_answers defined fuel ParseResult.tree none context

/-- The log of the leading skip opens the log of the call. -/
theorem leading_skip_logged (found : grammar.find name = some start) (fuel : Nat)
    (context : Context CharT) :
    ∀ moment ∈ (grammar.leadingSkip fuel context).trace,
      moment ∈ (grammar.parse fuel name context).trace := by
  unfold Grammar.parse
  rw [found]
  dsimp only
  rcases run : grammar.leadingSkip fuel context with ⟨outcome, middle, log⟩
  cases outcome with
  | returned value =>
      rw [Comp.bind_returned run]
      exact fun moment member => List.mem_append_left _ member
  | thrown exn => rw [Comp.bind_thrown run]; exact fun _ member => member
  | exhausted => rw [Comp.bind_exhausted run]; exact fun _ member => member

/-- A grammar without cuts whose rules are defined answers every input: from some recursion
depth on, `parse` returns true or false. -/
theorem cut_free_answers (found : grammar.find name = some start) (inRange : InRange grammar)
    (defined : ∀ rule, Enterable grammar start rule → (grammar.body rule).isSome = true)
    (cutFree : ∀ rule body, Enterable grammar start rule → grammar.body rule = some body →
      body.Every NoCut) (input : List CharT) :
    ∃ answer enough, ∀ fuel, enough ≤ fuel →
      (grammar.parse fuel name (Context.fresh input)).outcome = .returned answer := by
  have layered := parse_layered (enterable_cut_free cutFree) inRange
    (fun _ configured => enterable_skipper configured) found enterable_start input
  have kept : ∀ fuel, ∀ moment ∈ (grammar.parse fuel name (Context.fresh input)).trace,
      RowKept moment := by
    intro fuel moment member
    have rows := (layered fuel moment member).rows
    unfold RowKept
    split
    · exact fun progress => rows _ (in_progress_iff.mp progress)
    · trivial
  obtain ⟨run, finished, enough, settled⟩ :=
    parse_entry_terminates inRange .fresh (Nat.zero_le _) name ⟨0, fun fuel _ => kept fuel⟩
  have settles : ∀ fuel, enough ≤ fuel → grammar.parse fuel name (Context.fresh input) = run := settled
  cases ended : run.outcome with
  | exhausted => exact absurd ended finished
  | returned answer =>
      refine ⟨answer, enough, fun fuel larger => ?_⟩
      rw [settles fuel larger, ended]
  | thrown exn =>
      -- Only a committed failure of the leading skip could have thrown.
      have thrown : (grammar.parse enough name (Context.fresh input)).outcome = .thrown exn := by
        rw [settles enough (Nat.le_refl _), ended]
      obtain ⟨position, expected, rfl⟩ :=
        only_parse_errors defined enough ParseResult.success false (Context.fresh input) exn
          (by rw [← parse_boundary found]; exact thrown)
      have facts : EntryFacts grammar enough (Context.fresh input)
          (grammar.parse enough name (Context.fresh input)) := by
        rw [Grammar.parse, found]
        exact boundary_facts grammar enough start ParseResult.success false (Context.fresh input)
      obtain ⟨moment, member, -, committed⟩ := facts.raised.mp ⟨position, expected, thrown⟩
      have logged := leading_skip_logged found enough (Context.fresh input) moment member
      have calm := (layered enough moment logged).uncommitted.cut_eq
      rw [calm] at committed
      cases committed

theorem left_recursion_enterable {rule : RuleId} (entered : Enterable leftRecursion 0 rule) :
    rule = 0 := by
  rcases entered with reached | ⟨skipper, configured, -⟩
  · induction reached with
    | refl => rfl
    | tail _ refers induction =>
        obtain ⟨body, assigned, mentions⟩ := refers
        subst induction
        obtain rfl := Option.some.inj assigned
        cases mentions with
        | alternation branch mentions =>
            simp only [List.mem_cons, List.not_mem_nil, or_false] at branch
            rcases branch with rfl | rfl
            · cases mentions with
              | sequence part mentions =>
                  simp only [List.mem_cons, List.not_mem_nil, or_false] at part
                  rcases part with rfl | rfl
                  · cases mentions
                    rfl
                  · cases mentions
            · cases mentions
  · cases configured

theorem left_recursion_never_asserts :
    ((∃ answer, (leftRecursion.parse 5 (ascii "A") (Context.fresh (ascii "ab"))).outcome =
          .returned answer) ∨
        Raised (leftRecursion.parse 5 (ascii "A") (Context.fresh (ascii "ab"))).outcome) ∧
      ((∃ tree, (leftRecursion.parseTree 5 (ascii "A") (Context.fresh (ascii "ab"))).outcome =
          .returned tree) ∨
        Raised (leftRecursion.parseTree 5 (ascii "A") (Context.fresh (ascii "ab"))).outcome) := by
  have defined : ∀ rule, Enterable leftRecursion 0 rule →
      (leftRecursion.body rule).isSome = true := by
    intro rule entered
    rw [left_recursion_enterable entered]
    rfl
  have answers := validated_never_asserts (show leftRecursion.find (ascii "A") = some 0 by decide)
    defined 5 (Context.fresh (ascii "ab"))
  have parsed : (leftRecursion.parse 5 (ascii "A") (Context.fresh (ascii "ab"))).outcome =
      .returned true := rfl
  obtain ⟨root, built⟩ : ∃ root,
      (leftRecursion.parseTree 5 (ascii "A") (Context.fresh (ascii "ab"))).outcome =
        .returned (some root) := ⟨_, rfl⟩
  exact ⟨answers.1 (by rw [parsed]; simp), answers.2 (by rw [built]; simp)⟩

/-- `A = A >> 'a' | 'a'` answers every input. -/
theorem left_recursion_answers :
    ∃ answer enough, ∀ fuel, enough ≤ fuel →
      (leftRecursion.parse fuel (ascii "A") (Context.fresh (ascii "ab"))).outcome = .returned answer := by
  refine cut_free_answers (show leftRecursion.find (ascii "A") = some 0 by decide)
    left_recursion_in_range (fun rule entered => ?_) (fun rule body entered assigned => ?_) (ascii "ab")
  · rw [left_recursion_enterable entered]
    rfl
  · rw [left_recursion_enterable entered] at assigned
    obtain rfl := Option.some.inj assigned
    simp [Expr.Every, Expr.EveryAll, NoCut]

end Validated

end Peglib.Totality
