import Peglib.ControlDiscipline
import Peglib.Parametricity
import Peglib.Repetitions
import Peglib.TypedFold

/-!
# Committed failures and the entry points

A run ends in a `ParseError` exactly when some choice or unbounded repetition
of it failed while its own scope was committed. What an entry point lets out
of its handler, and whether it restores the control state of the context, are
both decided by where such a failure happens.
-/

namespace Peglib.CommittedFailures

open Peglib.TracedComputation Peglib.WeakestPrecondition Peglib.Preservation
open Peglib.ParseError Peglib.ParseContext Peglib.Expressions Peglib.Rules Peglib.TypedFold
open Peglib.ControlDiscipline Peglib.Parametricity Peglib.Repetitions

set_option autoImplicit false

variable {CharT NodeType : Type}

/-- A choice branch or an unbounded repetition failed in a committed scope. -/
def Committed (moment : Moment CharT) : Prop :=
  moment.event = .failure ∧ moment.context.cut = true

instance (moment : Moment CharT) : Decidable (Committed moment) :=
  inferInstanceAs (Decidable (_ ∧ _))

def Raised {Value : Type} (outcome : Outcome Exn Value) : Prop :=
  ∃ position expected, outcome = .thrown (.parseError position expected)

theorem returned_not_raised {Value : Type} (value : Value) :
    ¬Raised (.returned value : Outcome Exn Value) := by
  rintro ⟨position, expected, raised⟩
  cases raised

theorem exhausted_not_raised {Value : Type} : ¬Raised (.exhausted : Outcome Exn Value) := by
  rintro ⟨position, expected, raised⟩
  cases raised

theorem thrown_raised {Value : Type} (exn : Exn) :
    Raised (.thrown exn : Outcome Exn Value) ↔ ∃ position expected, exn = .parseError position expected := by
  simp [Raised]

section Announced

variable {Value Other : Type}

/-- The log of every run shows whether it ended in a `ParseError`. -/
def Announced (parser : Parser CharT Value) : Prop :=
  ∀ context, Raised (parser context).outcome ↔ ∃ moment ∈ (parser context).trace, Committed moment

theorem silent_announced {step : Parser CharT Value} (silent : Silent step) : Announced step := by
  intro context
  obtain ⟨value, last, run⟩ := silent context
  simp [run, Raised]

theorem plain_announced {parser : Parser CharT Value}
    (plain : ∀ context, ¬Raised (parser context).outcome)
    (quiet : ∀ context, ∀ moment ∈ (parser context).trace, moment.event ≠ .failure) :
    Announced parser := by
  intro context
  constructor
  · exact fun raised => absurd raised (plain context)
  · rintro ⟨moment, member, failed, -⟩
    exact absurd failed (quiet context moment member)

theorem bind_announced {first : Parser CharT Value} {next : Value → Parser CharT Other}
    (firstAnnounced : Announced first) (later : ∀ value, Announced (next value)) :
    Announced (first >>= next) := by
  intro context
  have here := firstAnnounced context
  rcases run : first context with ⟨outcome, middle, trace⟩
  rw [run] at here
  cases outcome with
  | returned value =>
      have there := later value middle
      have none : ¬∃ moment ∈ trace, Committed moment := by
        rw [← here]
        simp [Raised]
      rw [Comp.bind_returned run, there]
      simp only [List.mem_append, or_and_right, exists_or, none, false_or]
  | thrown exn =>
      rw [Comp.bind_thrown run, ← here]
      simp [Raised]
  | exhausted =>
      rw [Comp.bind_exhausted run, ← here]
      simp [Raised]

theorem guarded_announced {body : Parser CharT Value} (cleanup : Context CharT → Context CharT)
    (announced : Announced body) : Announced (Comp.guarded body cleanup) := by
  intro context
  have here := announced context
  unfold Comp.guarded
  rcases run : body context with ⟨outcome, last, trace⟩
  rw [run] at here
  cases outcome <;> exact here

theorem raise_announced : Announced (raiseIfCommitted : Parser CharT Unit) := by
  intro context
  rw [raise_run]
  split_ifs with committed <;> simp [Raised, Committed, committed]

theorem announced_rules :
    ParserRelation fun _ (parser _ : Parser CharT _) => Announced parser where
  silent _ silent := silent_announced silent
  throw exn plain := plain_announced
    (fun _ raised => by
      obtain ⟨position, expected, same⟩ := (thrown_raised exn).mp raised
      exact plain position expected same)
    fun _ _ member => absurd member List.not_mem_nil
  exhaust _ := plain_announced (fun _ => exhausted_not_raised)
    fun _ _ member => absurd member List.not_mem_nil
  announce event notFailure := plain_announced (fun _ => returned_not_raised ()) (by
    intro context moment member
    rw [List.mem_singleton.mp (show moment ∈ [_] from member)]
    exact notFailure)
  raise := raise_announced
  bind first later := bind_announced first later
  guarded cleanup _ body := guarded_announced cleanup body

variable [PegValue CharT]

theorem apply_announced (grammar : Grammar CharT NodeType) (fuel : Nat) (rule : RuleId) :
    Announced (grammar.apply fuel rule) :=
  apply_related announced_rules grammar (Nat.le_refl fuel) rule

theorem leading_skip_announced (grammar : Grammar CharT NodeType) (fuel : Nat) :
    Announced (grammar.leadingSkip fuel) :=
  leading_skip_related announced_rules grammar (Nat.le_refl fuel)

end Announced

section Plain

variable {Value Other : Type}

/-- A parser that never raises, meets no committed failure and leaves the
context alone. -/
def Plain (parser : Parser CharT Value) : Prop :=
  ∀ context, ¬Raised (parser context).outcome ∧
    (∀ moment ∈ (parser context).trace, ¬Committed moment) ∧
    ∀ value, (parser context).outcome = .returned value → (parser context).state = context

theorem plain_pure (value : Value) : Plain (pure value : Parser CharT Value) :=
  fun _ => ⟨returned_not_raised value, nofun, fun _ _ => rfl⟩

theorem plain_exhaust : Plain (Comp.exhaust : Parser CharT Value) :=
  fun _ => ⟨exhausted_not_raised, nofun, nofun⟩

theorem plain_ask {view : Context CharT → Outcome Exn Value}
    (plain : ∀ context, ¬Raised (view context)) : Plain (Comp.ask view) :=
  fun context => ⟨plain context, nofun, fun _ _ => rfl⟩

theorem plain_on_match (rule : RuleId) (node : NodePtr) :
    Plain (announce (.onMatch rule node) : Parser CharT Unit) := by
  refine fun context => ⟨returned_not_raised (), ?_, fun _ _ => rfl⟩
  intro moment member
  rw [List.mem_singleton.mp (show moment ∈ [_] from member)]
  rintro ⟨failed, -⟩
  cases failed

theorem plain_bind {first : Parser CharT Value} {next : Value → Parser CharT Other}
    (firstPlain : Plain first) (later : ∀ value, Plain (next value)) : Plain (first >>= next) := by
  intro context
  obtain ⟨calm, quiet, same⟩ := firstPlain context
  rcases run : first context with ⟨outcome, middle, trace⟩
  rw [run] at calm quiet same
  cases outcome with
  | returned value =>
      obtain rfl : middle = context := same value rfl
      obtain ⟨calmLater, quietLater, sameLater⟩ := later value middle
      rw [Comp.bind_returned run]
      refine ⟨calmLater, ?_, sameLater⟩
      intro moment member
      rcases List.mem_append.mp member with early | late
      · exact quiet moment early
      · exact quietLater moment late
  | thrown exn =>
      rw [Comp.bind_thrown run]
      exact ⟨by rw [thrown_raised] at calm ⊢; exact calm, quiet, nofun⟩
  | exhausted =>
      rw [Comp.bind_exhausted run]
      exact ⟨exhausted_not_raised, quiet, nofun⟩

end Plain

section Folds

variable {Value Other : Type}

theorem bind_not_raised {first : Outcome Exn Value} {next : Value → Outcome Exn Other}
    (calm : ¬Raised first) (later : ∀ value, ¬Raised (next value)) : ¬Raised (first >>= next) := by
  cases first with
  | returned value => exact later value
  | thrown exn => exact fun raised => calm ((thrown_raised exn).mpr ((thrown_raised exn).mp raised))
  | exhausted => exact exhausted_not_raised

theorem deref_not_raised (context : Context CharT) (node : Option NodePtr) :
    ¬Raised (deref context node) := by
  rintro ⟨position, expected, raised⟩
  unfold deref at raised
  split at raised <;> cases raised

theorem element_not_raised (context : Context CharT) (offset : Nat) :
    ¬Raised (elementAt context offset) := by
  rintro ⟨position, expected, raised⟩
  unfold elementAt at raised
  split at raised <;> cases raised

theorem child_not_raised (fields : ParseTreeNode) (index : Nat) :
    ¬Raised (childAt fields index) := by
  rintro ⟨position, expected, raised⟩
  unfold childAt at raised
  split at raised <;> cases raised

theorem fold_each_not_raised {fold : Option NodePtr → Outcome Exn (Option (Val CharT NodeType))}
    (calm : ∀ child, ¬Raised (fold child)) (children : List (Option NodePtr)) :
    ¬Raised (foldEach fold children) := by
  induction children with
  | nil => exact returned_not_raised _
  | cons child rest induction =>
      refine bind_not_raised (calm child) fun value => bind_not_raised induction fun values => ?_
      exact returned_not_raised _

theorem fold_expr_not_raised {foldRule : Option NodePtr → Outcome Exn NodeType}
    (calm : ∀ node, ¬Raised (foldRule node)) (context : Context CharT) (expr : Expr CharT) :
    ∀ node cursor, ¬Raised (foldExpr foldRule context expr node cursor) := by
  induction expr using Expr.induct with
  | terminal _ | terminalSeq _ | matcher _ | empty | cut | not _ _ | and _ _ =>
      intro node cursor
      unfold foldExpr
      exact returned_not_raised none
  | token value =>
      intro node cursor
      unfold foldExpr
      refine bind_not_raised (deref_not_raised _ _) fun fields => ?_
      exact bind_not_raised (element_not_raised _ _) fun letter => returned_not_raised _
  | rule id =>
      intro node cursor
      unfold foldExpr
      exact bind_not_raised (calm node) fun value => returned_not_raised _
  | lexeme child induction =>
      intro node cursor
      unfold foldExpr
      exact induction node cursor
  | sequence children induction =>
      have steps : ∀ (parts : List (Expr CharT)), (∀ part ∈ parts, part ∈ children) →
          ∀ fields cursor, ¬Raised (foldSeq foldRule context parts fields cursor) := by
        intro parts
        induction parts with
        | nil => exact fun _ fields cursor => by unfold foldSeq; exact returned_not_raised _
        | cons part rest ih =>
            intro within fields cursor
            unfold foldSeq
            split_ifs
            · exact ih (fun other member => within other (by simp [member])) _ _
            · exact ih (fun other member => within other (by simp [member])) _ _
            · refine bind_not_raised (child_not_raised _ _) fun below => ?_
              refine bind_not_raised (induction part (within part (by simp)) _ _) fun value => ?_
              refine bind_not_raised (ih (fun other member => within other (by simp [member])) _ _)
                fun values => returned_not_raised _
      intro node cursor
      unfold foldExpr
      split_ifs
      · exact returned_not_raised _
      · refine bind_not_raised (deref_not_raised _ _) fun fields => ?_
        exact bind_not_raised (steps children (fun _ => id) _ _) fun values => returned_not_raised _
  | alternation children induction =>
      have branches : ∀ (parts : List (Expr CharT)), (∀ part ∈ parts, part ∈ children) →
          ∀ index node cursor, ¬Raised (foldAlt foldRule context index parts node cursor) := by
        intro parts
        induction parts with
        | nil => exact fun _ index node cursor => by unfold foldAlt; exact returned_not_raised _
        | cons part rest ih =>
            intro within index node cursor
            cases rest with
            | nil => unfold foldAlt; exact induction part (within part (by simp)) _ _
            | cons next others =>
                unfold foldAlt
                refine bind_not_raised (deref_not_raised _ _) fun fields => ?_
                split_ifs
                · exact induction part (within part (by simp)) _ _
                · exact ih (fun other member => within other (by simp [member])) _ _ _
      intro node cursor
      unfold foldExpr
      exact branches children (fun _ => id) 0 node cursor
  | repetition kind child induction =>
      intro node cursor
      unfold foldExpr
      split_ifs
      · exact returned_not_raised _
      · refine bind_not_raised (deref_not_raised _ _) fun fields => ?_
        split
        · exact bind_not_raised (induction _ _) fun value => returned_not_raised _
        · exact returned_not_raised _
      · refine bind_not_raised (deref_not_raised _ _) fun fields => ?_
        refine bind_not_raised (fold_each_not_raised (fun below => induction below 0) _) ?_
        exact fun values => returned_not_raised _

theorem fold_and_invoke_not_raised (grammar : Grammar CharT NodeType) (context : Context CharT)
    {foldRule : Option NodePtr → Outcome Exn NodeType} (calm : ∀ node, ¬Raised (foldRule node))
    (rule : RuleId) (action : Action CharT NodeType) (node : Option NodePtr) :
    ¬Raised (foldAndInvoke grammar context foldRule rule action node) := by
  refine bind_not_raised (deref_not_raised _ _) fun fields => ?_
  dsimp only
  split
  · rintro ⟨position, expected, raised⟩
    cases raised
  · split_ifs
    · exact returned_not_raised _
    · refine bind_not_raised (fold_expr_not_raised calm context _ _ _) fun value => ?_
      exact returned_not_raised _

variable [Inhabited NodeType]

theorem fold_rule_not_raised (grammar : Grammar CharT NodeType) (context : Context CharT)
    (fuel : Nat) (node : Option NodePtr) : ¬Raised (foldRule grammar context fuel node) := by
  induction fuel generalizing node with
  | zero => exact exhausted_not_raised
  | succ fuel induction =>
      unfold foldRule
      refine bind_not_raised (deref_not_raised _ _) fun fields => ?_
      split
      · exact returned_not_raised _
      · split
        · exact returned_not_raised _
        · exact fold_and_invoke_not_raised grammar context induction _ _ node

theorem fold_start_not_raised (grammar : Grammar CharT NodeType) (fuel : Nat) (start : RuleId)
    (node : NodePtr) (context : Context CharT) :
    ¬Raised (foldStart grammar fuel start node context) := by
  unfold foldStart
  split
  · exact fold_and_invoke_not_raised grammar context (fold_rule_not_raised grammar context fuel) _ _ _
  · exact fold_rule_not_raised grammar context fuel _

omit [Inhabited NodeType] in
theorem fire_plain (grammar : Grammar CharT NodeType) (fuel : Nat) :
    (∀ start node, Plain (fireOnMatch grammar fuel start node : Parser CharT Unit)) ∧
      ∀ children, Plain (fireAll grammar fuel children : Parser CharT Unit) := by
  induction fuel with
  | zero =>
      refine ⟨fun start node => ?_, fun children => ?_⟩
      · cases node <;> unfold fireOnMatch
        · exact plain_pure ()
        · exact plain_exhaust
      · cases children <;> unfold fireAll
        · exact plain_pure ()
        · exact plain_exhaust
  | succ fuel induction =>
      refine ⟨fun start node => ?_, fun children => ?_⟩
      · cases node <;> unfold fireOnMatch
        · exact plain_pure ()
        · refine plain_bind (plain_ask fun context => deref_not_raised context _) fun fields => ?_
          dsimp only
          split
          · exact plain_bind (plain_on_match _ _) fun _ => induction.2 _
          · exact plain_bind (plain_pure ()) fun _ => induction.2 _
      · cases children <;> unfold fireAll
        · exact plain_pure ()
        · exact plain_bind (induction.1 _ _) fun _ => induction.2 _

end Folds

end Peglib.CommittedFailures
