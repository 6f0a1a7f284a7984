import Peglib.DiscreetRuns

/-!
# Memo answers and commitment

A row holds what a rule answered, not what it committed: a memo hit executes no
cut. It does to the scope around what the memo-free evaluation of the rule does
exactly where that executes no cut there. While this holds of every rule applied, an
earlier lookahead at a rule has no effect on the choices that start with it.
-/

namespace Peglib.HitCommitments

open Peglib.TracedComputation Peglib.WeakestPrecondition Peglib.Halting
open Peglib.ParseError Peglib.ParseContext Peglib.Expressions Peglib.Rules
open Peglib.ControlDiscipline Peglib.PegSemantics Peglib.Termination Peglib.MemoAnswers
open Peglib.CommitSemantics Peglib.CommitEvaluation Peglib.DiscreetRuns
open Peglib.Commitments (Bare hit_cut_stack)
open Peglib.Evaluation (Invariant Admits mode)

set_option autoImplicit false

variable {CharT NodeType : Type} [PegValue CharT]

section Claim

variable {grammar : Grammar CharT NodeType} {input : List CharT}
  {single : RuleId → Nat → Option RuleId}

/-- A rule evaluated without the memo: its body is, each time it is applied. -/
def unmemoized (grammar : Grammar CharT NodeType) : Nat → RuleId → Parser CharT ParseResult
  | 0, _ => Comp.exhaust
  | fuel + 1, rule =>
      ((grammar.body rule).map (Expr.parse (unmemoized grammar fuel) fuel)).getD
        (Comp.throw .assertion)

/-- What the memo-free evaluation relies on: the input, and a skipper that is known. -/
def Sourced (grammar : Grammar CharT NodeType) (input : List CharT) (context : Context CharT) : Prop :=
  context.input = input ∧ (context.skipper = none ∨ context.skipper = grammar.skipper)

omit [PegValue CharT] in
theorem sourced_invariant : Invariant anything input (Sourced grammar input) where
  input _ sourced := sourced.1
  moved _ _ sourced step := ⟨step.input.trans sourced.1, by rw [step.skipper]; exact sourced.2⟩
  opened _ sourced := sourced
  cleared context sourced := by
    unfold Context.setCut
    split <;> exact sourced
  closed context sourced := by
    unfold Context.removeCut
    split
    · exact sourced
    · split_ifs <;> exact sourced
  failure _ _ := trivial
  throws _ _ _ _ _ := trivial
  unwinds _ _ _ := trivial
  relabels _ _ _ _ := trivial

theorem unmemoized_conforms (free : RecoveryFree grammar) (fuel : Nat) (rule : RuleId)
    (assigned : (grammar.body rule).isSome = true) :
    Conforms anything (Sourced grammar input) (unmemoized grammar fuel rule)
      fun mode pos verdict => RuleVerdict grammar input mode rule pos verdict := by
  induction fuel generalizing rule with
  | zero => exact fun _ _ _ _ => trivial
  | succ fuel induction =>
      obtain ⟨body, given⟩ := Option.isSome_iff_exists.mp assigned
      rw [unmemoized, given, Option.map_some, Option.getD_some]
      have admitted : body.Every (Admits (fun rule => (grammar.body rule).isSome = true)
          (reading input) (Sourced grammar input)) := by
        refine (free.bodies rule body given).mono fun part holds => ?_
        cases part with
        | matcher fn =>
            intro context sourced
            refine ⟨holds, ?_⟩
            rw [holds.pure context { Context.fresh input with position := context.position } _
              sourced.1 rfl]
        | cut =>
            intro context sourced
            unfold Context.setCut
            split <;> exact sourced
        | rule id => exact holds
        | _ => trivial
      intro context sourced permits raises
      refine wp_post (expr_conforms sourced_invariant (fun id present => induction id present)
        (fun here sourced id configured => ?_) fuel admitted context sourced permits
        fun raised => raises (.rule given raised)) ?_
      · rcases sourced.2 with off | set
        · rw [off] at configured
          cases configured
        · exact free.skipper id (set.symm.trans configured)
      · rintro result last ⟨kept, framed, committed, commits, verdict, back⟩
        exact ⟨kept, framed, committed, commits, .rule given verdict, back⟩

omit [PegValue CharT] in
theorem commits_flag_iff {committed : Bool} {before after : Context CharT}
    (commits : Commits committed before.cutStack after.cutStack) :
    before.cut = after.cut ↔ committed = false ∨ before.cutStack = [] ∨ before.cut = true := by
  unfold Context.cut
  cases stack : before.cutStack with
  | nil =>
      cases stack' : after.cutStack with
      | nil => simp
      | cons _ _ =>
          rw [stack, stack'] at commits
          exact commits.elim
  | cons scope outer =>
      cases stack' : after.cutStack with
      | nil =>
          rw [stack, stack'] at commits
          exact commits.elim
      | cons scope' outer' =>
          rw [stack, stack'] at commits
          simp only [commits.1]
          cases scope.cut <;> cases committed <;> simp

/-- A hit does to the scope around what the memo-free evaluation does exactly when
that executes no cut there, unless nothing is left to commit. -/
theorem hit_flag_iff (free : RecoveryFree grammar) {context : Context CharT}
    (sourced : Sourced grammar input context) {rule : RuleId} {row : RuleState}
    (assigned : (grammar.body rule).isSome = true)
    (held : context.mem context.position rule = some row) {fuel fuel' : Nat} {result : ParseResult}
    (ended : (unmemoized grammar fuel' rule context).outcome = .returned result) :
    (grammar.apply (fuel + 1) rule context).state.cut = (unmemoized grammar fuel' rule context).state.cut ↔
      (∀ outcome committed, RuleVerdict grammar input (mode context) rule context.position
        (.ended outcome committed) → committed = false) ∨
      context.cutStack = [] ∨ context.cut = true := by
  have same : (grammar.apply (fuel + 1) rule context).state.cut = context.cut := by
    rw [Context.cut, hit_cut_stack held, ← Context.cut]
  obtain ⟨-, -, committed, commits, verdict, -⟩ := wp_returned (unmemoized_conforms free fuel' rule
    assigned context sourced True fun _ => trivial) (fun _ _ => trivial) ended
  rw [same, commits_flag_iff commits]
  refine or_congr_left ⟨?_, fun isSealed => isSealed _ _ verdict⟩
  rintro rfl outcome committed other
  cases cutting_unique (reading_functional input) verdict other
  rfl

theorem looked_stays {mode : Option RuleId} {child : Expr CharT} {pos stop : Nat} {committed : Bool}
    (cutting : Cutting grammar input (reading input) mode (.expr (.and child)) pos
      (.ended (some stop) committed)) : stop = pos := by
  generalize same : Verdict.ended (some stop) committed = verdict at cutting
  cases cutting with
  | @and _ _ _ found _ =>
      cases found with
      | raised => cases same
      | ended outcome own =>
          injection same with at_stop
          split_ifs at at_stop
          exact Option.some.inj at_stop

/-- `R = 'a' >> cut` on the rule `Q` of one letter, in a choice of its own. -/
def ownScope : Grammar UInt8 Unit where
  rules := [
    (ascii "R", { body := some (.alternation [
      .sequence [.rule 1, .cut, .terminal (.value 98)], .terminal (.value 99)]) }),
    (ascii "Q", { body := some (.terminal (.value 97)) })]

theorem own_scope_enclosed (skipper : Option RuleId) (rule : RuleId) (skips : Bool) :
    ¬Bare ownScope skipper skips (.rule rule) := by
  rintro (_ | _ | _ | _ | _ | _ | ⟨assigned, bare⟩)
  match rule with
  | 0 | 1 =>
      cases Option.some.inj assigned
      cases bare
  | _ + 2 => cases assigned

theorem own_scope_free : RecoveryFree ownScope where
  bodies rule body assigned := by
    match rule with
    | 0 | 1 =>
        obtain rfl := Option.some.inj assigned
        simp [Expr.Every, Expr.EveryAll, Known, ownScope, Grammar.body, Grammar.nonTerminal]
    | _ + 2 => cases assigned
  recovers rule := match rule with
    | 0 | 1 | _ + 2 => rfl
  skipper := nofun

theorem own_scope_discreet {moment : Moment UInt8}
    (met : InMode (fun _ _ => none) moment ∧ NotReentered moment) :
    Discreet ownScope (ascii "ab") (fun _ _ => none) moment :=
  ⟨met.1, met.2, sealed_of_enclosed (own_scope_enclosed _)⟩

/-- After `Q` has been parsed at the start of "ab". -/
def rowHeld : Context UInt8 := (ownScope.apply 4 1 (Context.fresh (ascii "ab"))).state.reset 0

/-- Where `R` applies `Q` after that, in the open scope of its choice. -/
def whereApplied : Moment UInt8 := (ownScope.apply 4 0 rowHeld).trace.get ⟨2, by decide +kernel⟩

theorem where_applied_reached :
    Reached ownScope (ascii "ab") (Discreet ownScope (ascii "ab") fun _ _ => none)
      whereApplied.context := by
  have parsed : Reached ownScope (ascii "ab") (Discreet ownScope (ascii "ab") fun _ _ => none)
      (ownScope.apply 4 1 (Context.fresh (ascii "ab"))).state := by
    refine .ran 4 1 .fresh rfl (fun moment member => own_scope_discreet ?_) (Or.inl ⟨_, rfl⟩)
    exact (show ∀ moment ∈ (ownScope.apply 4 1 (Context.fresh (ascii "ab"))).trace,
      InMode (fun _ _ => none) moment ∧ NotReentered moment by decide +kernel) moment member
  have held : Reached ownScope (ascii "ab") (Discreet ownScope (ascii "ab") fun _ _ => none)
      rowHeld := .adjusted parsed rfl rfl rfl (Or.inl rfl)
  refine .during 4 0 held rfl (fun moment member => own_scope_discreet ?_) (List.get_mem _ _)
  exact (show ∀ moment ∈ (ownScope.apply 4 0 rowHeld).trace,
    InMode (fun _ _ => none) moment ∧ NotReentered moment by decide +kernel) moment member

/-- `R = 'a' >> cut`, whose cut belongs to whoever applies it, and
`S = &R >> ((R >> 'x') | 'a')`. -/
def forgetful : Grammar UInt8 Unit where
  rules := [
    (ascii "R", { body := some (.sequence [.terminal (.value 97), .cut]) }),
    (ascii "S", { body := some (.sequence [.and (.rule 0), .alternation [
      .sequence [.rule 0, .terminal (.value 120)], .terminal (.value 97)]]) })]

/-- Where the choice of `S` applies `R` on "ab". -/
def secondUse : Moment UInt8 :=
  (forgetful.apply 6 1 (Context.fresh (ascii "ab"))).trace.get ⟨7, by decide +kernel⟩

end Claim

end Peglib.HitCommitments
