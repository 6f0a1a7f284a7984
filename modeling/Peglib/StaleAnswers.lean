import Peglib.SeededAnswers

/-!
# Stale answers

A memo row is keyed by rule and position alone. It does not know the skip mode
it was computed in, and the row of a rule involved in another rule's growth is
the one of the last iteration of that growth. As long as each rule is applied in
one skip mode at a position, and the rows that are consulted hold what their rules
answer against the seeds in progress, the answers are those of a fresh context.
-/

namespace Peglib.StaleAnswers

open Peglib.TracedComputation Peglib.Halting
open Peglib.ParseError Peglib.ParseContext Peglib.Expressions Peglib.Rules
open Peglib.ControlDiscipline Peglib.PegSemantics Peglib.Evaluation Peglib.SuccessfulAnswers
open Peglib.Termination Peglib.GrowthSemantics Peglib.PlantedSeeds Peglib.Packrat Peglib.MemoAnswers
open Peglib.SeededAnswers

set_option autoImplicit false

variable {CharT NodeType : Type} [PegValue CharT] {grammar : Grammar CharT NodeType}
  {input : List CharT}

section SkipModes

/-- Where every rule is applied in one skip mode at each position, a rule
answers in the mode it is applied in, whatever was parsed before. -/
theorem skip_mode_respected (pure : Pure grammar) {single : RuleId → Nat → Option RuleId}
    {context : Context CharT}
    (history : History grammar input (fun moment => NotReentered moment ∧ InMode single moment)
      context)
    (inside : context.position ≤ input.length) {rule : RuleId}
    (assigned : (grammar.body rule).isSome = true)
    (met : ∀ fuel, ∀ moment ∈ (grammar.apply fuel rule context).trace,
      NotReentered moment ∧ InMode single moment) :
    Delivers grammar rule context
      (PegAnswer grammar input (reading input) () (mode context) rule context.position) := by
  have delivers := application_delivers pure
    (fun moment held => not_reentered_orderly held.1 held.2) history inside assigned met
  exact delivers.mono (fun _ => peg_of_answer (reading_forward input))
    fun _ _ => peg_answer_unique (reading_functional input)

/-- `T = lexeme(R)`, `R = 'a' >> 'b'`, `W = *' '`, with `W` as the skipper. -/
def bothModes : Grammar UInt8 Unit where
  rules := [
    (ascii "T", { body := some (.lexeme (.rule 1)) }),
    (ascii "R", { body := some (.sequence [.terminal (.value 97), .terminal (.value 98)]) }),
    (ascii "W", { body := some (.repetition .zeroOrMore (.terminal (.value 32))) })]
  skipper := some 2

theorem both_modes_pure : Pure bothModes where
  cutFree :=
    { bodies := fun rule body assigned => by
        match rule with
        | 0 =>
            obtain rfl := Option.some.inj assigned
            exact ⟨trivial, rfl⟩
        | 1 =>
            obtain rfl := Option.some.inj assigned
            simp only [Expr.Every, Expr.EveryAll, Uncut, and_self]
        | 2 =>
            obtain rfl := Option.some.inj assigned
            exact ⟨trivial, trivial⟩
        | _ + 3 => cases assigned
      recovers := fun rule => match rule with
        | 0 | 1 | 2 | _ + 3 => rfl
      skipper := fun rule set => by
        obtain rfl := Option.some.inj set
        rfl }
  matchers rule body assigned := by
    match rule with
    | 0 =>
        obtain rfl := Option.some.inj assigned
        exact ⟨trivial, trivial⟩
    | 1 =>
        obtain rfl := Option.some.inj assigned
        simp only [Expr.Every, Expr.EveryAll, MatcherPure, and_self]
    | 2 =>
        obtain rfl := Option.some.inj assigned
        exact ⟨trivial, trivial⟩
    | _ + 3 => cases assigned

/-- A context over "a b" with the skipper of the grammar. -/
def spaced : Context UInt8 := { Context.fresh (ascii "a b") with skipper := some 2 }

/-- `R` is applied with auto-skip on, the skipper with auto-skip off. -/
def onlyOutside (rule : RuleId) (_ : Nat) : Option RuleId := if rule = 1 then some 2 else none

theorem spaced_history :
    History bothModes (ascii "a b") (fun moment => NotReentered moment ∧ InMode onlyOutside moment)
      spaced :=
  .adjusted .fresh rfl rfl rfl rfl (Or.inr rfl)

theorem spaced_moments (fuel : Nat) :
    ∀ moment ∈ (bothModes.apply fuel 1 spaced).trace,
      NotReentered moment ∧ InMode onlyOutside moment := by
  refine moments_of_finished (fun larger => apply_extends bothModes 1 larger) 8 ?_ ?_ fuel
  · exact Outcome.finished_of_value (by decide +kernel)
  · decide +kernel

/-- `R` on "a b" with auto-skip on. -/
theorem skip_mode_respected_outside :
    Delivers bothModes 1 spaced
      (PegAnswer bothModes (ascii "a b") (reading (ascii "a b")) () (some 2) 1 0) :=
  skip_mode_respected both_modes_pure spaced_history (by decide) rfl spaced_moments

/-- The context in which `T` has been tried on "a b". -/
def triedInside : Context UInt8 := (bothModes.apply 8 0 spaced).state

/-- The failure of `R` inside the lexeme answers the lookup with auto-skip on. -/
theorem skip_mode_confused :
    ¬Delivers bothModes 1 triedInside
      (PegAnswer bothModes (ascii "a b") (reading (ascii "a b")) () (mode triedInside) 1
        triedInside.position) := by
  intro confused
  have own : Delivers bothModes 1 spaced
      (PegAnswer bothModes (ascii "a b") (reading (ascii "a b")) () (some 2) 1 0) :=
    (application_delivers both_modes_pure
      (fun moment held => not_reentered_orderly held.1 held.2) spaced_history (by decide) rfl
      spaced_moments).mono (fun _ => peg_of_answer (reading_forward _))
      fun _ _ => peg_answer_unique (reading_functional _)
  have inside := confused.answer_at 8 false (by decide +kernel)
  have outside := own.answer_at 8 true (by decide +kernel)
  have sameMode : mode triedInside = some 2 := by decide +kernel
  have samePosition : triedInside.position = 0 := by decide +kernel
  rw [sameMode, samePosition] at inside
  cases peg_answer_unique (reading_functional _) inside outside

end SkipModes

section Growth

/-- From some budget on both applications return, with the same success flag and
the same end. -/
def AnswersAlike (grammar : Grammar CharT NodeType) (rule : RuleId)
    (first second : Context CharT) : Prop :=
  ∃ enough, ∀ fuel, enough ≤ fuel → ∃ result result',
    (grammar.apply fuel rule first).outcome = .returned result ∧
    (grammar.apply fuel rule second).outcome = .returned result' ∧
    result.success = result'.success ∧
    (grammar.apply fuel rule first).state.position =
      (grammar.apply fuel rule second).state.position

theorem Delivers.alike {rule : RuleId} {first second : Context CharT} {answer : Option Nat → Prop}
    (left : Delivers grammar rule first answer) (right : Delivers grammar rule second answer)
    (same : first.position = second.position) : AnswersAlike grammar rule first second := by
  obtain ⟨result, last, log, ⟨enough, settled⟩, failed, exact'⟩ := left
  obtain ⟨result', last', log', ⟨enough', settled'⟩, failed', exact''⟩ := right
  have outcome := (exact'' _).mp ((exact' _).mpr rfl)
  refine ⟨max enough enough', fun fuel larger => ⟨result, result', ?_⟩⟩
  rw [settled fuel (by omega), settled' fuel (by omega)]
  refine ⟨rfl, rfl, ?_⟩
  cases success : result.success with
  | true =>
      rw [success, if_pos rfl] at outcome
      cases success' : result'.success with
      | true =>
          rw [success', if_pos rfl] at outcome
          exact ⟨rfl, Option.some.inj outcome⟩
      | false =>
          rw [success', if_neg Bool.false_ne_true] at outcome
          cases outcome
  | false =>
      rw [success, if_neg Bool.false_ne_true] at outcome
      cases success' : result'.success with
      | true =>
          rw [success', if_pos rfl] at outcome
          cases outcome
      | false => exact ⟨rfl, by rw [failed success, failed' success', same]⟩

/-- Every row that a parse of the rule consults for a rule that is not in progress
holds what that rule answers against the seeds of the rules in progress. -/
def ConsultsCurrent (grammar : Grammar CharT NodeType) (input : List CharT) (rule : RuleId)
    (context : Context CharT) : Prop :=
  ∀ fuel, ∀ moment ∈ (grammar.apply fuel rule context).trace,
    Current grammar input (reading input) moment

variable {context : Context CharT} {rule : RuleId} {row : RuleState}

/-- Between two parses a row that is left at the position answers at once. -/
theorem row_left_run (sown : Sown input context.skipper [] context)
    (left : context.mem context.position rule = some row) (fuel : Nat) :
    grammar.apply (fuel + 1) rule context =
      ⟨.returned row.cachedResult, context.reset row.lastPos, [⟨.apply rule, context⟩]⟩ := by
  have idle : ¬context.lrInProgress rule context.position = true := by
    rw [sown.in_progress]
    simp
  rw [Grammar.apply, parse_hit _ _ _ left, replay_run left, if_neg idle]

theorem row_left_current (sown : Sown input context.skipper [] context)
    (left : context.mem context.position rule = some row) {outcome : Option Nat}
    (shown : Shows row context.position outcome)
    (answer : Seeded grammar input (reading input) [] (mode context) rule context.position outcome) :
    ConsultsCurrent grammar input rule context := by
  intro fuel moment member
  cases fuel with
  | zero => cases member
  | succ fuel =>
      rw [row_left_run sown left fuel, List.mem_singleton] at member
      subst member
      intro idle other present
      obtain rfl := Option.some.inj (left.symm.trans present)
      rw [sown_current sown]
      exact ⟨outcome, shown, answer⟩

/-- A row that answers as a fresh context holds the rule's own answer. -/
theorem row_left_shows (sown : Sown input context.skipper [] context)
    (left : context.mem context.position rule = some row) {second : Context CharT}
    {answer : Option Nat → Prop} (delivers : Delivers grammar rule second answer)
    (same : context.position = second.position)
    (alike : AnswersAlike grammar rule context second) :
    ∃ outcome, Shows row context.position outcome ∧ answer outcome := by
  obtain ⟨result, last, log, ⟨enough, settled⟩, failed, exact'⟩ := delivers
  obtain ⟨enough', alike⟩ := alike
  obtain ⟨held, result', returned, returned', success, position⟩ :=
    alike (max enough enough' + 1) (by omega)
  rw [row_left_run sown left] at returned position
  rw [settled _ (by omega)] at returned' position
  obtain rfl := Outcome.returned.inj returned
  obtain rfl := Outcome.returned.inj returned'
  refine ⟨_, ⟨?_, ?_⟩, (exact' _).mpr rfl⟩
  · rw [success]
    split_ifs with succeeded <;> simp [succeeded]
  · have ended : row.lastPos = last.position := position
    rw [ended]
    split_ifs with succeeded
    · rfl
    · rw [failed (by simpa using succeeded), same, Option.getD_none]

/-- `L = M | 'x'`, `M = L >> 'm'`. -/
def mutualRecursion : Grammar UInt8 Unit where
  rules := [
    (ascii "L", { body := some (.alternation [.rule 1, .terminal (.value 120)]) }),
    (ascii "M", { body := some (.sequence [.rule 0, .terminal (.value 109)]) })]

theorem mutual_recursion_pure : Pure mutualRecursion where
  cutFree :=
    { bodies := fun rule body assigned => by
        match rule with
        | 0 =>
            obtain rfl := Option.some.inj assigned
            simp only [Expr.Every, Expr.EveryAll, Uncut, true_and, and_true]
            rfl
        | 1 =>
            obtain rfl := Option.some.inj assigned
            simp only [Expr.Every, Expr.EveryAll, Uncut, true_and, and_true]
            rfl
        | _ + 2 => cases assigned
      recovers := fun rule => match rule with
        | 0 | 1 | _ + 2 => rfl
      skipper := fun rule set => by cases set }
  matchers rule body assigned := by
    match rule with
    | 0 =>
        obtain rfl := Option.some.inj assigned
        simp only [Expr.Every, Expr.EveryAll, MatcherPure, and_self]
    | 1 =>
        obtain rfl := Option.some.inj assigned
        simp only [Expr.Every, Expr.EveryAll, MatcherPure, and_self]
    | _ + 2 => cases assigned

/-- The rule applied is in progress or has no row. -/
def Unanswered (moment : Moment UInt8) : Prop :=
  match moment.event with
  | .apply rule => moment.context.lrInProgress rule moment.context.position = true ∨
      (moment.context.mem moment.context.position rule).isNone = true
  | _ => True

instance : DecidablePred Unanswered := fun ⟨event, context⟩ =>
  match event with
  | .apply rule => inferInstanceAs (Decidable (context.lrInProgress rule context.position = true ∨
      (context.mem context.position rule).isNone = true))
  | .store _ _ | .failure | .onMatch _ _ => inferInstanceAs (Decidable True)

theorem unanswered_current {grammar : Grammar UInt8 NodeType} {input : List UInt8}
    {moment : Moment UInt8} (unanswered : Unanswered moment) :
    Current grammar input (reading input) moment := by
  obtain ⟨event, context⟩ := moment
  cases event with
  | apply rule =>
      intro idle row present
      rcases unanswered with inProgress | absent
      · rw [idle] at inProgress
        cases inProgress
      · rw [present] at absent
        cases absent
  | _ => trivial

/-- `L` on "xmm" is grown from its own seed and those of `M` in each iteration. -/
theorem mutual_recursion_fresh :
    ConsultsCurrent mutualRecursion (ascii "xmm") 0 (Context.fresh (ascii "xmm")) := by
  have unanswered : ∀ fuel, ∀ moment ∈
      (mutualRecursion.apply fuel 0 (Context.fresh (ascii "xmm"))).trace, Unanswered moment := by
    refine moments_of_finished (fun larger => apply_extends mutualRecursion 0 larger) 8 ?_ ?_
    · exact Outcome.finished_of_value (by decide +kernel)
    · decide +kernel
  exact fun fuel moment member => unanswered_current (unanswered fuel moment member)

/-- The context in which `M` has been parsed on "xmm", back at its start. -/
def triedInvolved : Context UInt8 :=
  (mutualRecursion.apply 8 1 (Context.fresh (ascii "xmm"))).state.reset 0

theorem tried_involved_history :
    History mutualRecursion (ascii "xmm") (fun _ => True) triedInvolved :=
  (History.applied 8 1 .fresh rfl (fun _ _ => trivial)
    (Outcome.returned_of_value (by decide +kernel))).reset 0

/-- The last iteration of `M` leaves the row of `L` at the end of the input. -/
theorem tried_involved_current :
    ConsultsCurrent mutualRecursion (ascii "xmm") 0 triedInvolved := by
  have plain : History mutualRecursion (ascii "xmm") (fun _ => True) (Context.fresh (ascii "xmm")) :=
    .fresh
  have own : Seeded mutualRecursion (ascii "xmm") (reading (ascii "xmm")) [] (mode triedInvolved) 0
      triedInvolved.position (some 3) := by
    have delivers := current_delivers mutual_recursion_pure plain (Or.inl rfl) (Nat.zero_le _) rfl
      mutual_recursion_fresh
    have ended : (mutualRecursion.apply 8 0 (Context.fresh (ascii "xmm"))).state.position = 3 := by
      decide +kernel
    have answer := delivers.answer_at 8 true (by decide +kernel)
    have off : mode triedInvolved = none := by decide +kernel
    have at_start : triedInvolved.position = 0 := by decide +kernel
    rw [if_pos rfl, ended] at answer
    rw [off, at_start]
    exact answer
  have answers : (triedInvolved.mem triedInvolved.position 0).any (fun row =>
      decide (row.cachedResult.success = true ∧ row.lastPos = 3)) = true := by decide +kernel
  obtain ⟨row, left, met⟩ := (Option.any_eq_true _ _).mp answers
  obtain ⟨success, last⟩ := of_decide_eq_true met
  have shown : Shows row triedInvolved.position (some 3) := ⟨success, last⟩
  exact row_left_current (history_sown tried_involved_history) left shown own

end Growth

end Peglib.StaleAnswers
