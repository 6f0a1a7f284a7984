import Peglib.NestedRepetitions

/-!
# The operators

The operators build an expression from its operands. `>>` and `|` take over the
children of operands of their own class, and a repetition operator takes over an
operand of its own class as it is. The overloads of `!` and `&` for their own
class do not compile. Where no `*` or `+` takes over its operand, the tree parses
as the term that was written down, in every grammar whose rules were built so.
-/

namespace Peglib.Operators

open Peglib.TracedComputation Peglib.Coupling
open Peglib.ParseError Peglib.ParseContext Peglib.Expressions Peglib.Rules
open Peglib.Lockstep Peglib.NodeBlindness Peglib.Flattening Peglib.NestedRepetitions

set_option autoImplicit false

variable {CharT NodeType : Type}

section Operators

/-- The four overloads of `operator>>`. A value operand is wrapped in a `TerminalExpr`. -/
def operatorShr : Expr CharT → Expr CharT → Expr CharT
  | .sequence children1, .sequence children2 => .sequence (children1 ++ children2)
  | .sequence children1, expr2 => .sequence (children1 ++ [expr2])
  | expr1, .sequence children2 => .sequence (expr1 :: children2)
  | expr1, expr2 => .sequence [expr1, expr2]

/-- The four overloads of `operator|`. -/
def operatorBar : Expr CharT → Expr CharT → Expr CharT
  | .alternation children1, .alternation children2 => .alternation (children1 ++ children2)
  | .alternation children1, expr2 => .alternation (children1 ++ [expr2])
  | expr1, .alternation children2 => .alternation (expr1 :: children2)
  | expr1, expr2 => .alternation [expr1, expr2]

/-- The two overloads of a repetition operator. -/
def operatorRepeat (kind : RepKind) : Expr CharT → Expr CharT
  | .repetition kind' child =>
      if kind' = kind then .repetition kind' child else .repetition kind (.repetition kind' child)
  | expr => .repetition kind expr

def operatorStar : Expr CharT → Expr CharT := operatorRepeat .zeroOrMore

def operatorPlus : Expr CharT → Expr CharT := operatorRepeat .oneOrMore

def operatorMinus : Expr CharT → Expr CharT := operatorRepeat .optional

/-- `n * expr` has no overload of its own for an `NTimesExpr`. -/
def operatorTimes (count : Nat) (expr : Expr CharT) : Expr CharT := .repetition (.nTimes count) expr

/-- The overload for a `NotExpr` returns `n.child()`, of a constant `n` although
`child()` is no constant member: it does not compile. -/
def operatorNot : Expr CharT → Expr CharT
  | .not child => child
  | expr => .not expr

/-- The overload for an `AndExpr` returns `n.child()` likewise. -/
def operatorAnd : Expr CharT → Expr CharT
  | .and child => child
  | expr => .and expr

/-- The repetitions whose loop has no bound. -/
abbrev Loop (kind : RepKind) : Prop := kind = .zeroOrMore ∨ kind = .oneOrMore

def operatorOf : RepKind → Expr CharT → Expr CharT
  | .zeroOrMore => operatorStar
  | .oneOrMore => operatorPlus
  | .nTimes count => operatorTimes count
  | .optional => operatorMinus

/-- What an operand brings into a sequence. -/
def sequenceParts : Expr CharT → List (Expr CharT)
  | .sequence children => children
  | expr => [expr]

/-- What an operand brings into a choice. -/
def alternationParts : Expr CharT → List (Expr CharT)
  | .alternation children => children
  | expr => [expr]

theorem operator_shr_eq (expr1 expr2 : Expr CharT) :
    operatorShr expr1 expr2 = .sequence (sequenceParts expr1 ++ sequenceParts expr2) := by
  cases expr1 <;> cases expr2 <;> rfl

theorem operator_bar_eq (expr1 expr2 : Expr CharT) :
    operatorBar expr1 expr2 = .alternation (alternationParts expr1 ++ alternationParts expr2) := by
  cases expr1 <;> cases expr2 <;> rfl

theorem operator_repeat_own (kind : RepKind) (child : Expr CharT) :
    operatorRepeat kind (.repetition kind child) = .repetition kind child :=
  if_pos rfl

theorem operator_repeat_other {kind : RepKind} {expr : Expr CharT}
    (other : ∀ child, expr ≠ .repetition kind child) :
    operatorRepeat kind expr = .repetition kind expr := by
  cases expr with
  | repetition kind' child =>
      have different : kind' ≠ kind := fun same => other child (same ▸ rfl)
      exact if_neg different
  | _ => rfl

theorem operator_of_eq {kind : RepKind} (uncounted : ∀ count, kind ≠ .nTimes count) :
    operatorOf kind = (operatorRepeat kind : Expr CharT → Expr CharT) := by
  cases kind with
  | nTimes count => exact absurd rfl (uncounted count)
  | zeroOrMore | oneOrMore | optional => rfl

theorem operator_of_own {kind : RepKind} (loop : Loop kind) (child : Expr CharT) :
    operatorOf kind (.repetition kind child) = .repetition kind child := by
  rcases loop with rfl | rfl
  · exact operator_repeat_own .zeroOrMore child
  · exact operator_repeat_own .oneOrMore child

/-- A repetition operator adds a node or leaves its operand as it is. -/
theorem operator_of_cases (kind : RepKind) (expr : Expr CharT) :
    operatorOf kind expr = .repetition kind expr ∨
      (operatorOf kind expr = expr ∧ ∃ child, expr = .repetition kind child) := by
  by_cases counted : ∃ count, kind = .nTimes count
  · obtain ⟨count, rfl⟩ := counted
    exact Or.inl rfl
  · rw [operator_of_eq (not_exists.mp counted)]
    by_cases own : ∃ child, expr = .repetition kind child
    · obtain ⟨child, rfl⟩ := own
      exact Or.inr ⟨operator_repeat_own kind child, child, rfl⟩
    · exact Or.inl (operator_repeat_other (not_exists.mp own))

theorem operator_not_cases (expr : Expr CharT) :
    operatorNot expr = .not expr ∨ expr = .not (operatorNot expr) := by
  cases expr with
  | not child => exact Or.inr rfl
  | _ => exact Or.inl rfl

theorem operator_and_cases (expr : Expr CharT) :
    operatorAnd expr = .and expr ∨ expr = .and (operatorAnd expr) := by
  cases expr with
  | and child => exact Or.inr rfl
  | _ => exact Or.inl rfl

theorem operator_not_other {expr : Expr CharT} (other : ∀ child, expr ≠ .not child) :
    operatorNot expr = .not expr := by
  cases expr with
  | not child => exact absurd rfl (other child)
  | _ => rfl

theorem operator_and_other {expr : Expr CharT} (other : ∀ child, expr ≠ .and child) :
    operatorAnd expr = .and expr := by
  cases expr with
  | and child => exact absurd rfl (other child)
  | _ => rfl

end Operators

section Terms

/-- A term of the DSL over operands at hand. -/
inductive Term (CharT : Type) where
  | operand (expr : Expr CharT)
  | shr (left right : Term CharT)
  | bar (left right : Term CharT)
  | rep (kind : RepKind) (child : Term CharT)
  | bang (child : Term CharT)
  | amp (child : Term CharT)
  | lexeme (child : Term CharT)

namespace Term

/-- The tree that the operators build. -/
def tree : Term CharT → Expr CharT
  | .operand expr => expr
  | .shr left right => operatorShr left.tree right.tree
  | .bar left right => operatorBar left.tree right.tree
  | .rep kind child => operatorOf kind child.tree
  | .bang child => operatorNot child.tree
  | .amp child => operatorAnd child.tree
  | .lexeme child => .lexeme child.tree

/-- The term as it is written, a node for each operator. -/
def written : Term CharT → Expr CharT
  | .operand expr => expr
  | .shr left right => .sequence [left.written, right.written]
  | .bar left right => .alternation [left.written, right.written]
  | .rep kind child => .repetition kind child.written
  | .bang child => .not child.written
  | .amp child => .and child.written
  | .lexeme child => .lexeme child.written

/-- No `!` or `&` of the term selects the overload for its own class. -/
def Compiles : Term CharT → Prop
  | .operand _ => True
  | .shr left right => left.Compiles ∧ right.Compiles
  | .bar left right => left.Compiles ∧ right.Compiles
  | .rep _ child => child.Compiles
  | .bang child => child.Compiles ∧ ∀ part, child.tree ≠ .not part
  | .amp child => child.Compiles ∧ ∀ part, child.tree ≠ .and part
  | .lexeme child => child.Compiles

/-- A `*` or a `+` over a tree of its own class, which it leaves as it is. -/
def Collapses (kind : RepKind) (child : Term CharT) : Prop :=
  Loop kind ∧ ∃ part, child.tree = .repetition kind part

/-- No `*`, `+`, `!` or `&` of the term is applied to a tree of its own class. -/
def Plain : Term CharT → Prop
  | .operand _ => True
  | .shr left right => left.Plain ∧ right.Plain
  | .bar left right => left.Plain ∧ right.Plain
  | .rep kind child =>
      child.Plain ∧ (Loop kind → ∀ part, child.tree ≠ .repetition kind part)
  | .bang child => child.Plain ∧ ∀ part, child.tree ≠ .not part
  | .amp child => child.Plain ∧ ∀ part, child.tree ≠ .and part
  | .lexeme child => child.Plain

theorem Plain.compiles {term : Term CharT} (plain : term.Plain) : term.Compiles := by
  induction term with
  | operand _ => trivial
  | shr _ _ left_ih right_ih => exact ⟨left_ih plain.1, right_ih plain.2⟩
  | bar _ _ left_ih right_ih => exact ⟨left_ih plain.1, right_ih plain.2⟩
  | rep _ _ induction => exact induction plain.1
  | bang _ induction => exact ⟨induction plain.1, plain.2⟩
  | amp _ induction => exact ⟨induction plain.1, plain.2⟩
  | lexeme _ induction => exact induction plain

end Term

end Terms

section Splicing

theorem repetition_blind (kind : RepKind) {expr : Expr CharT} (blind : expr.Every NodeBlind) :
    (Expr.repetition kind expr).Every NodeBlind := by
  unfold Expr.Every
  exact ⟨trivial, blind⟩

theorem sequence_parts_blind {expr : Expr CharT} (blind : expr.Every NodeBlind) :
    ∀ child ∈ sequenceParts expr, child.Every NodeBlind := by
  cases expr with
  | sequence children =>
      unfold Expr.Every at blind
      exact Expr.every_all_iff.mp blind.2
  | _ => exact List.forall_mem_singleton.mpr blind

theorem alternation_parts_blind {expr : Expr CharT} (blind : expr.Every NodeBlind) :
    ∀ child ∈ alternationParts expr, child.Every NodeBlind := by
  cases expr with
  | alternation children =>
      unfold Expr.Every at blind
      exact Expr.every_all_iff.mp blind.2
  | _ => exact List.forall_mem_singleton.mpr blind

variable [PegValue CharT] {apply : RuleId → Parser CharT ParseResult}
  (applies : ∀ rule, InStep (apply rule) (apply rule)) (fuel : Nat)

include applies in
theorem all_in_step {children : List (Expr CharT)}
    (blind : ∀ child ∈ children, child.Every NodeBlind) :
    List.Forall₂ InStep (Expr.parseAll apply fuel children) (Expr.parseAll apply fuel children) := by
  rw [Expr.parse_all_eq_map, List.forall₂_map_left_iff, List.forall₂_map_right_iff]
  exact List.forall₂_same.mpr fun child member => expr_in_step applies fuel (blind child member)

include applies in
/-- The parts of an operand in the place of the operand. -/
theorem sequence_parts_in_step {before after : List (Parser CharT ParseResult)} {expr : Expr CharT}
    (befores : List.Forall₂ InStep before before) (afters : List.Forall₂ InStep after after)
    (blind : expr.Every NodeBlind) :
    InStep (SequenceExpr.parse (runSkipper apply)
        (before ++ (Expr.parseAll apply fuel (sequenceParts expr) ++ after)))
      (SequenceExpr.parse (runSkipper apply) (before ++ expr.parse apply fuel :: after)) := by
  have idle : Idle (runSkipper apply) := fun _ => skip_idle apply
  have whole : InStep (SequenceExpr.parse (runSkipper apply) (before ++ expr.parse apply fuel :: after))
      (SequenceExpr.parse (runSkipper apply) (before ++ expr.parse apply fuel :: after)) :=
    sequence_in_step idle idle (List.rel_append befores (.cons (expr_in_step applies fuel blind) afters))
  cases expr with
  | sequence children =>
      unfold Expr.Every at blind
      exact sequence_spliced idle befores (all_in_step applies fuel (Expr.every_all_iff.mp blind.2)) afters
  | _ => exact whole

include applies in
theorem alternation_parts_in_step {before after : List (Parser CharT ParseResult)}
    {expr : Expr CharT} (befores : List.Forall₂ InStep before before)
    (afters : List.Forall₂ InStep after after) (blind : expr.Every NodeBlind) :
    InStep (AlternationExpr.parse
        (before ++ (Expr.parseAll apply fuel (alternationParts expr) ++ after)))
      (AlternationExpr.parse (before ++ expr.parse apply fuel :: after)) := by
  have whole : InStep (AlternationExpr.parse (before ++ expr.parse apply fuel :: after))
      (AlternationExpr.parse (before ++ expr.parse apply fuel :: after)) :=
    alternation_in_step (List.rel_append befores (.cons (expr_in_step applies fuel blind) afters))
  cases expr with
  | alternation children =>
      unfold Expr.Every at blind
      exact alternation_spliced befores (all_in_step applies fuel (Expr.every_all_iff.mp blind.2)) afters
  | _ => exact whole

include applies in
theorem operator_shr_in_step {expr1 expr2 : Expr CharT} (blind1 : expr1.Every NodeBlind)
    (blind2 : expr2.Every NodeBlind) :
    InStep ((operatorShr expr1 expr2).parse apply fuel)
      ((Expr.sequence [expr1, expr2]).parse apply fuel) := by
  have parts2 : List.Forall₂ InStep (Expr.parseAll apply fuel (sequenceParts expr2))
      (Expr.parseAll apply fuel (sequenceParts expr2)) :=
    all_in_step applies fuel (sequence_parts_blind blind2)
  have first := sequence_parts_in_step applies fuel .nil parts2 blind1
  have second := sequence_parts_in_step applies fuel (.cons (expr_in_step applies fuel blind1) .nil)
    .nil blind2
  rw [List.append_nil] at second
  rw [operator_shr_eq, Expr.parse, Expr.parse_all_eq_map, List.map_append, ← Expr.parse_all_eq_map,
    ← Expr.parse_all_eq_map, Expr.parse]
  exact first.trans second

include applies in
theorem operator_bar_in_step {expr1 expr2 : Expr CharT} (blind1 : expr1.Every NodeBlind)
    (blind2 : expr2.Every NodeBlind) :
    InStep ((operatorBar expr1 expr2).parse apply fuel)
      ((Expr.alternation [expr1, expr2]).parse apply fuel) := by
  have parts2 : List.Forall₂ InStep (Expr.parseAll apply fuel (alternationParts expr2))
      (Expr.parseAll apply fuel (alternationParts expr2)) :=
    all_in_step applies fuel (alternation_parts_blind blind2)
  have first := alternation_parts_in_step applies fuel .nil parts2 blind1
  have second := alternation_parts_in_step applies fuel
    (.cons (expr_in_step applies fuel blind1) .nil) .nil blind2
  rw [List.append_nil] at second
  rw [operator_bar_eq, Expr.parse, Expr.parse_all_eq_map, List.map_append, ← Expr.parse_all_eq_map,
    ← Expr.parse_all_eq_map, Expr.parse]
  exact first.trans second

include applies in
theorem operator_minus_in_step {expr : Expr CharT} (blind : expr.Every NodeBlind) :
    InStep ((operatorMinus expr).parse apply fuel)
      ((Expr.repetition .optional expr).parse apply fuel) := by
  have idle : Idle (runSkipper apply) := fun _ => skip_idle apply
  by_cases own : ∃ child, expr = .repetition .optional child
  · obtain ⟨child, rfl⟩ := own
    unfold Expr.Every at blind
    rw [operatorMinus, operator_repeat_own, Expr.parse, Expr.parse, Expr.parse]
    exact optional_in_step idle (expr_in_step applies fuel blind.2) fuel
  · rw [operatorMinus, operator_repeat_other (not_exists.mp own)]
    exact expr_in_step applies fuel (repetition_blind .optional blind)

end Splicing

section Trees

theorem tree_blind {term : Term CharT} (blind : term.written.Every NodeBlind) :
    term.tree.Every NodeBlind := by
  induction term with
  | operand expr => exact blind
  | shr left right left_ih right_ih =>
      rw [Term.written] at blind
      unfold Expr.Every at blind
      rw [Term.tree, operator_shr_eq]
      unfold Expr.Every
      refine ⟨trivial, Expr.every_all_iff.mpr fun child member => ?_⟩
      rcases List.mem_append.mp member with inLeft | inRight
      · exact sequence_parts_blind (left_ih blind.2.1) child inLeft
      · exact sequence_parts_blind (right_ih blind.2.2.1) child inRight
  | bar left right left_ih right_ih =>
      rw [Term.written] at blind
      unfold Expr.Every at blind
      rw [Term.tree, operator_bar_eq]
      unfold Expr.Every
      refine ⟨trivial, Expr.every_all_iff.mpr fun child member => ?_⟩
      rcases List.mem_append.mp member with inLeft | inRight
      · exact alternation_parts_blind (left_ih blind.2.1) child inLeft
      · exact alternation_parts_blind (right_ih blind.2.2.1) child inRight
  | rep kind child induction =>
      rw [Term.written] at blind
      unfold Expr.Every at blind
      have below := induction blind.2
      rw [Term.tree]
      rcases operator_of_cases kind child.tree with node | ⟨same, -⟩
      · rw [node]
        exact repetition_blind kind below
      · rw [same]
        exact below
  | bang child induction =>
      rw [Term.written] at blind
      unfold Expr.Every at blind
      have below := induction blind.2
      rw [Term.tree]
      rcases operator_not_cases child.tree with node | held
      · rw [node]
        unfold Expr.Every
        exact ⟨trivial, below⟩
      · rw [held] at below
        unfold Expr.Every at below
        exact below.2
  | amp child induction =>
      rw [Term.written] at blind
      unfold Expr.Every at blind
      have below := induction blind.2
      rw [Term.tree]
      rcases operator_and_cases child.tree with node | held
      · rw [node]
        unfold Expr.Every
        exact ⟨trivial, below⟩
      · rw [held] at below
        unfold Expr.Every at below
        exact below.2
  | lexeme child induction =>
      rw [Term.written] at blind
      unfold Expr.Every at blind
      rw [Term.tree]
      unfold Expr.Every
      exact ⟨trivial, induction blind.2⟩

variable [PegValue CharT]

theorem plain_in_step {apply apply' : RuleId → Parser CharT ParseResult}
    (applies : ∀ rule, InStep (apply rule) (apply rule))
    (crosses : ∀ rule, InStep (apply rule) (apply' rule)) (fuel : Nat) {term : Term CharT}
    (plain : term.Plain) (blind : term.written.Every NodeBlind) :
    InStep (term.tree.parse apply fuel) (term.written.parse apply' fuel) := by
  have idle : Idle (runSkipper apply) := fun _ => skip_idle apply
  have idle' : Idle (runSkipper apply') := fun _ => skip_idle apply'
  induction term with
  | operand expr => exact expr_in_step crosses fuel blind
  | shr left right left_ih right_ih =>
      rw [Term.written] at blind
      unfold Expr.Every at blind
      obtain ⟨-, blind1, blind2, -⟩ := blind
      have spliced := operator_shr_in_step applies fuel (tree_blind blind1) (tree_blind blind2)
      refine spliced.trans ?_
      rw [Term.written, Expr.parse, Expr.parse]
      exact sequence_in_step idle idle'
        (.cons (left_ih plain.1 blind1) (.cons (right_ih plain.2 blind2) .nil))
  | bar left right left_ih right_ih =>
      rw [Term.written] at blind
      unfold Expr.Every at blind
      obtain ⟨-, blind1, blind2, -⟩ := blind
      have spliced := operator_bar_in_step applies fuel (tree_blind blind1) (tree_blind blind2)
      refine spliced.trans ?_
      rw [Term.written, Expr.parse, Expr.parse]
      exact alternation_in_step (.cons (left_ih plain.1 blind1) (.cons (right_ih plain.2 blind2) .nil))
  | rep kind child induction =>
      rw [Term.written] at blind
      unfold Expr.Every at blind
      have below := induction plain.1 blind.2
      have node : InStep ((operatorOf kind child.tree).parse apply fuel)
          ((Expr.repetition kind child.tree).parse apply fuel) := by
        rcases operator_of_cases kind child.tree with node | ⟨same, part, own⟩
        · rw [node]
          exact expr_in_step applies fuel (repetition_blind kind (tree_blind blind.2))
        · cases kind with
          | zeroOrMore => exact absurd own (plain.2 (Or.inl rfl) part)
          | oneOrMore => exact absurd own (plain.2 (Or.inr rfl) part)
          | nTimes count =>
              exact expr_in_step applies fuel (repetition_blind _ (tree_blind blind.2))
          | optional => exact operator_minus_in_step applies fuel (tree_blind blind.2)
      refine node.trans ?_
      rw [Term.written, Expr.parse, Expr.parse]
      exact in_step_of_step fun _ _ _ => repeat_step idle idle' fuel below kind.minRep kind.maxRep
  | bang child induction =>
      rw [Term.written] at blind
      unfold Expr.Every at blind
      rw [Term.tree, operator_not_other plain.2, Term.written, Expr.parse, Expr.parse]
      exact predicate_in_step (induction plain.1 blind.2) true
  | amp child induction =>
      rw [Term.written] at blind
      unfold Expr.Every at blind
      rw [Term.tree, operator_and_other plain.2, Term.written, Expr.parse, Expr.parse]
      exact predicate_in_step (induction plain.1 blind.2) false
  | lexeme child induction =>
      rw [Term.written] at blind
      unfold Expr.Every at blind
      rw [Term.tree, Term.written, Expr.parse, Expr.parse]
      exact lexeme_in_step (induction plain blind.2)

end Trees

section Grammars

/-- Two grammars of the same rules: the bodies of one are built by the operators
from the terms that the bodies of the other spell out. -/
structure Spelt (built written : Grammar CharT NodeType) : Prop where
  rules : ∀ rule, { built.nonTerminal rule with body := none } =
    { written.nonTerminal rule with body := none }
  bodies : ∀ rule, Option.Rel
    (fun tree expr => ∃ term : Term CharT, term.Plain ∧ tree = term.tree ∧ expr = term.written)
    (built.body rule) (written.body rule)

theorem spelt_refl (grammar : Grammar CharT NodeType) : Spelt grammar grammar where
  rules := fun _ => rfl
  bodies := fun rule => by
    cases grammar.body rule with
    | none => exact .none
    | some expr => exact .some ⟨.operand expr, trivial, rfl, rfl⟩

variable {built written : Grammar CharT NodeType}

theorem Spelt.blind (spelt : Spelt built written) (blind : BlindRules written) :
    BlindRules built := by
  intro rule body assigned
  have related := spelt.bodies rule
  rw [assigned] at related
  cases other : written.body rule with
  | none =>
      rw [other] at related
      cases related
  | some expr =>
      rw [other] at related
      cases related with
      | some same =>
          obtain ⟨term, -, rfl, rfl⟩ := same
          exact tree_blind (blind rule _ other)

variable [PegValue CharT]

/-- The rules that the operators built are in step with the rules as written. -/
theorem Spelt.applies (spelt : Spelt built written) (blind : BlindRules written) (fuel : Nat)
    (rule : RuleId) : InStep (built.apply fuel rule) (written.apply fuel rule) := by
  induction fuel generalizing rule with
  | zero => exact in_step_of_step fun _ _ _ => mirrors_exhaust
  | succ fuel induction =>
      have ours : built.apply (fuel + 1) rule =
          NonTerminal.parse { built.nonTerminal rule with body := none } rule
            ((built.body rule).map (Expr.parse (built.apply fuel) fuel)) fuel := rfl
      have theirs : written.apply (fuel + 1) rule =
          NonTerminal.parse { written.nonTerminal rule with body := none } rule
            ((written.body rule).map (Expr.parse (written.apply fuel) fuel)) fuel := rfl
      rw [ours, theirs, spelt.rules rule]
      refine parse_in_step _ rule ?_ fuel
      have related := spelt.bodies rule
      cases assigned : built.body rule with
      | none =>
          rw [assigned] at related
          cases other : written.body rule with
          | none => exact .none
          | some expr =>
              rw [other] at related
              cases related
      | some body =>
          rw [assigned] at related
          cases other : written.body rule with
          | none =>
              rw [other] at related
              cases related
          | some expr =>
              rw [other] at related
              cases related with
              | some same =>
                  obtain ⟨term, plain, rfl, rfl⟩ := same
                  exact .some (plain_in_step (apply_in_step (spelt.blind blind) fuel) induction fuel
                    plain (blind rule _ other))

/-- A tree without the last three rules parses as its term. -/
theorem Spelt.evals (spelt : Spelt built written) (blind : BlindRules written) (fuel : Nat)
    {term : Term CharT} (plain : term.Plain) (every : term.written.Every NodeBlind) :
    InStep (built.eval fuel term.tree) (written.eval fuel term.written) :=
  plain_in_step (apply_in_step (spelt.blind blind) fuel) (spelt.applies blind fuel) fuel plain every

end Grammars

end Peglib.Operators
