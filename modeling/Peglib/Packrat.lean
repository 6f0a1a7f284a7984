import Peglib.PlantedSeeds

/-!
# The memo answers as the semantics does

Cut-free grammars whose rules are applied in an orderly way: at each position a
rule is applied under one skip mode only, and a rule in progress is applied
again at its position only from its own body. Then the row of a rule that is
not in progress holds the rule's own answer, which depends on nothing that was
parsed before, and the row of a rule in progress holds its current seed.
-/

namespace Peglib.Packrat

open Peglib.TracedComputation Peglib.WeakestPrecondition Peglib.Preservation
open Peglib.ParseError Peglib.ParseContext Peglib.Expressions Peglib.Rules
open Peglib.ControlDiscipline Peglib.PegSemantics Peglib.Evaluation Peglib.SuccessfulAnswers
open Peglib.Termination Peglib.GrowthSemantics Peglib.PlantedSeeds

set_option autoImplicit false

variable {CharT NodeType : Type}

/-- A rule is applied in its mode, and while in progress from its own body. -/
def Orderly (reentry : Bool) (single : RuleId → Nat → Option RuleId) (moment : Moment CharT) : Prop :=
  match moment.event with
  | .apply rule => mode moment.context = single rule moment.context.position ∧
      (moment.context.lrInProgress rule moment.context.position = true → reentry = true ∧
        moment.context.lrStack.head?.any (LRFrame.isOf rule moment.context.position) = true)
  | _ => True

/-- The contract of orderly runs. -/
abbrev orderly (single : RuleId → Nat → Option RuleId) (reentry : Bool) :
    Contract (Moment CharT) (Context CharT) Exn := keeping (Orderly reentry single)

section Answers

variable [PegValue CharT] (grammar : Grammar CharT NodeType) (input : List CharT)
  (skipper : Option RuleId)
  (matched : (Context CharT → Span → Option Span) → Nat → Option Nat → Prop)
  (single : RuleId → Nat → Option RuleId) (reentry : Bool)

/-- The row holds the rule's own answer. -/
def Answered (rule : RuleId) (pos : Nat) (row : RuleState) : Prop :=
  ∃ outcome, Shows row pos outcome ∧
    Answer grammar input matched reentry none (single rule pos) rule pos outcome

/-- The rows of the rules in progress hold their seeds, all other rows the answers of
their rules. -/
abbrev Upright (held : List Seed) (context : Context CharT) : Prop :=
  Planted input skipper (Answered grammar input matched single reentry) held context

/-- What a rule application promises in every orderly state. -/
def Consults (rule : RuleId) (parser : Parser CharT ParseResult) : Prop :=
  ∀ held, Evaluates (orderly single reentry)
    (Upright grammar input skipper matched single reentry held) parser fun mode pos outcome =>
      Answer grammar input matched reentry held.head? mode rule pos outcome

variable {grammar input skipper matched single reentry}

omit [PegValue CharT] in
theorem innermost_other {held : List Seed} {key : RuleId × Nat} (outside : key ∉ held.map Seed.key) :
    held.head?.map Seed.key ≠ some key := by
  cases held with
  | nil => simp
  | cons seed outer =>
      intro same
      rw [List.head?_cons, Option.map_some, Option.some.injEq] at same
      rw [List.map_cons, same] at outside
      exact outside List.mem_cons_self

/-- The rule in progress that is applied from its own body is the innermost one, and
its row is the seed. Any other row is an answer. -/
theorem upright_hit {rule : RuleId} {held : List Seed} {context : Context CharT} {row : RuleState}
    (upright : Upright grammar input skipper matched single reentry held context)
    (met : Orderly reentry single ⟨.apply rule, context⟩)
    (present : context.mem context.position rule = some row) :
    ∃ outcome, Shows row context.position outcome ∧
      Answer grammar input matched reentry held.head? (mode context) rule context.position
        outcome := by
  obtain ⟨inMode, direct⟩ := met
  dsimp only at inMode direct
  by_cases inProgress : context.lrInProgress rule context.position = true
  · have keys := upright.active
    obtain ⟨allowed, own⟩ := direct inProgress
    cases held with
    | nil =>
        rw [upright.in_progress] at inProgress
        cases inProgress
    | cons seed outer =>
        have key : seed.key = (rule, context.position) := by
          unfold active at keys
          cases stack : context.lrStack with
          | nil => rw [stack] at keys; cases keys
          | cons top rest =>
              rw [stack] at keys own
              rw [List.map_cons, List.map_cons, List.cons.injEq] at keys
              simp only [List.head?_cons, Option.any_some, LRFrame.isOf, Bool.and_eq_true,
                decide_eq_true_eq] at own
              rw [← keys.1, own.1, own.2]
        obtain ⟨rfl, at_pos⟩ := Prod.mk.inj key
        obtain ⟨row', present', shown⟩ := upright.seeds seed List.mem_cons_self
        rw [at_pos, present] at present'
        obtain rfl := Option.some.inj present'
        refine ⟨seed.outcome, at_pos ▸ shown, ?_⟩
        rw [← at_pos]
        exact answer_seed allowed
  · have outside : (rule, context.position) ∉ held.map Seed.key :=
      fun member => inProgress (upright.in_progress.mpr member)
    obtain ⟨outcome, shown, answer⟩ := upright.rows _ _ _ present outside
    rw [← inMode, ← answer_free (innermost_other outside)] at answer
    exact ⟨outcome, shown, answer⟩

/-- What grows in the mode of the rule is its own answer. -/
theorem grown_answered (single : RuleId → Nat → Option RuleId) {rule : RuleId} {body : Expr CharT}
    (assigned : grammar.body rule = some body) {context : Context CharT}
    (inMode : mode context = single rule context.position) {final : Option Nat}
    (grows : Grows (fun best result => Peg input matched (Answer grammar input matched reentry)
      (some ⟨rule, context.position, best⟩) (mode context) (.expr body) context.position result)
      context.position none final) :
    Answer grammar input matched reentry none (single rule context.position) rule context.position
      final := by
  rw [inMode] at grows
  exact (answer_grown (by simp)).mpr ⟨body, assigned, grows⟩

theorem parse_answers {rule : RuleId} {body : Expr CharT} (assigned : grammar.body rule = some body)
    (plain : (grammar.nonTerminal rule).recover.isSyncToken = none)
    {parseBody : Parser CharT ParseResult}
    (evaluates : ∀ held, Evaluates (orderly single reentry)
      (Upright grammar input skipper matched single reentry held) parseBody fun mode pos result =>
        Peg input matched (Answer grammar input matched reentry) held.head? mode (.expr body) pos result)
    (stable : StableParser parseBody) (fuel : Nat) :
    Consults grammar input skipper matched single reentry rule
      (NonTerminal.parse (grammar.nonTerminal rule) rule (some parseBody) fuel) := by
  intro held
  refine parse_evaluates plain (fun pos outcome => evaluates (⟨rule, pos, outcome⟩ :: held)) stable
    fuel (fun context row upright met present => upright_hit upright met present) ?_
  intro context final upright met outside grows
  have inMode : mode context = single rule context.position := met.1
  have answer := grown_answered single assigned inMode grows
  refine ⟨?_, fun row shown => ⟨final, shown, answer⟩⟩
  rw [inMode]
  exact (answer_free (innermost_other outside)).mpr answer

end Answers

/-- No cut, and no reference to an unassigned rule. -/
def Uncut (grammar : Grammar CharT NodeType) : Expr CharT → Prop
  | .cut => False
  | .rule id => (grammar.body id).isSome = true
  | _ => True

/-- A matcher whose answers `matched` knows. -/
def Faithful (input : List CharT)
    (matched : (Context CharT → Span → Option Span) → Nat → Option Nat → Prop) :
    Expr CharT → Prop
  | .matcher fn => ∀ context : Context CharT, context.input = input →
      matched fn context.position ((fn context ⟨context.position, context.position⟩).map Span.stop)
  | _ => True

/-- A grammar without cut and recovery, whose rule references are assigned. -/
structure CutFree (grammar : Grammar CharT NodeType) : Prop where
  bodies : ∀ rule body, grammar.body rule = some body → body.Every (Uncut grammar)
  recovers : ∀ rule, (grammar.nonTerminal rule).recover.isSyncToken = none
  skipper : ∀ rule, grammar.skipper = some rule → (grammar.body rule).isSome = true

section Applications

variable [PegValue CharT] {grammar : Grammar CharT NodeType} {input : List CharT}
  {matched : (Context CharT → Span → Option Span) → Nat → Option Nat → Prop}
  {single : RuleId → Nat → Option RuleId} {reentry : Bool}

theorem apply_answers (cutFree : CutFree grammar)
    (faithful : ∀ rule body, grammar.body rule = some body → body.Every (Faithful input matched))
    {skipper : Option RuleId} (set : skipper = none ∨ skipper = grammar.skipper) (fuel : Nat)
    (rule : RuleId) (assigned : (grammar.body rule).isSome = true) :
    Consults grammar input skipper matched single reentry rule (grammar.apply fuel rule) := by
  induction fuel generalizing rule with
  | zero => exact fun _ _ _ => trivial
  | succ fuel induction =>
      obtain ⟨body, given⟩ := Option.isSome_iff_exists.mp assigned
      rw [Grammar.apply, given, Option.map_some]
      refine parse_answers given (cutFree.recovers rule) (fun held => ?_)
        (expr_stable (apply_stable grammar fuel) fuel body) fuel
      have applies := fun id (present : (grammar.body id).isSome = true) => induction id present held
      refine expr_evaluates (planted_invariant held) applies ?_ fuel ?_
      · intro context upright id configured
        rw [upright.skipper] at configured
        rcases set with rfl | rfl
        · cases configured
        · exact cutFree.skipper id configured
      · have uncut := cutFree.bodies rule body given
        have known := faithful rule body given
        refine (Expr.Every.and uncut known).mono fun part holds => ?_
        cases part with
        | cut => exact holds.1.elim
        | rule id => exact holds.1
        | matcher fn => exact fun context upright => holds.2 context upright.source
        | _ => trivial

end Applications

end Peglib.Packrat
