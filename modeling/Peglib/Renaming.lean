import Peglib.Refitting

/-!
# A grammar under other rule identities

Two grammars whose rules correspond under a renaming of identities, for a set of
rules that is closed under references and holds the skipper, parse in the same
way: the same answers, positions, trees, error reports and exceptions, and the
same log, up to the renaming. The rules outside the set need not correspond.
-/

namespace Peglib.Renaming

open Peglib.TracedComputation Peglib.Tandem Peglib.EngineSteps Peglib.Refitting
open Peglib.ParseError Peglib.ParseContext Peglib.Expressions Peglib.Rules

set_option autoImplicit false

variable {CharT NodeType : Type}

/-- A renaming that keeps trees and error reports. -/
abbrev wholly (rename : RuleId → RuleId) (reach : RuleId → Prop) : Fit :=
  ⟨rename, reach, True, True⟩

abbrev Renamed (rename : RuleId → RuleId) (reach : RuleId → Prop) (near far : Context CharT) : Prop :=
  Refitted (wholly rename reach) near far

abbrev RenamedMoment (rename : RuleId → RuleId) (reach : RuleId → Prop) (near far : Moment CharT) :
    Prop :=
  RefittedMoment (wholly rename reach) near far

variable {rename : RuleId → RuleId} {reach : RuleId → Prop}

theorem exns_same {exn exn' : Exn} (exns : ExnsAgree (wholly rename reach) exn exn') : exn = exn' := by
  cases exns with
  | same => rfl
  | parseError position position' expected expected' silent => exact absurd trivial silent

section Grammars

variable [PegValue CharT] {grammar grammar' : Grammar CharT NodeType}

/-- A call of `parse` runs in the same way in the second grammar, from corresponding contexts: the
same answer or exception, the same positions, trees and reports, and the same steps. -/
theorem parse_same_renamed (embeds : Embeds (wholly rename reach) grammar grammar') {name name' : Str}
    {start : RuleId} (inside : reach start) (found : grammar.find name = some start)
    (found' : grammar'.find name' = some (rename start)) (fuel : Nat) {near far : Context CharT}
    (alike : Renamed rename reach near far) :
    Together (Renamed rename reach) (RenamedMoment rename reach) Eq Eq (grammar.parse fuel name near)
      (grammar'.parse fuel name' far) :=
  (entry_corresponds embeds inside found found' fuel near far alike).weaken fun _ _ => exns_same

/-- `S = S >> 'x' | 'b'`. -/
def suffixes : Grammar UInt8 Unit where
  rules := [(ascii "S", { name := ascii "S", body := some (.alternation [
    .sequence [.rule 0, .terminal (.value 120)],
    .terminal (.value 98)]) })]

/-- The same rule after an unused one. -/
def suffixesAndMore : Grammar UInt8 Unit where
  rules := [
    (ascii "D", { name := ascii "D", body := some (.sequence [.cut, .rule 7]) }),
    (ascii "S", { name := ascii "S", body := some (.alternation [
      .sequence [.rule 1, .terminal (.value 120)],
      .terminal (.value 98)]) })]

theorem suffixes_embed : Embeds (wholly Nat.succ fun _ => True) suffixes suffixesAndMore where
  apart rule other _ _ := by simp
  closed rule body _ assigned := by
    cases rule with
    | zero =>
        obtain rfl := Option.some.inj assigned
        simp [Expr.Every, Expr.EveryAll, Confined]
    | succ rule => cases assigned
  rules rule _ := by
    cases rule with
    | zero => exact rename_rule_refit (wholly Nat.succ fun _ => True) (suffixes.nonTerminal 0)
    | succ rule => exact rename_rule_refit (wholly Nat.succ fun _ => True) (suffixes.nonTerminal (rule + 1))
  matchers rule body _ assigned := by
    cases rule with
    | zero =>
        obtain rfl := Option.some.inj assigned
        simp [Expr.Every, Expr.EveryAll, FitBlind]
    | succ rule => cases assigned
  skipper := rfl
  skips := by simp [suffixes]

/-- "bx" is read to its end in both. -/
theorem suffixes_parse_alike :
    (suffixesAndMore.parse 5 (ascii "S") (Context.fresh (ascii "bx"))).state.position = 2 ∧
      Together (Renamed Nat.succ fun _ => True) (RenamedMoment Nat.succ fun _ => True) Eq Eq
        (suffixes.parse 5 (ascii "S") (Context.fresh (ascii "bx")))
        (suffixesAndMore.parse 5 (ascii "S") (Context.fresh (ascii "bx"))) :=
  ⟨by decide +kernel, parse_same_renamed suffixes_embed trivial
    (show suffixes.find (ascii "S") = some 0 by decide)
    (show suffixesAndMore.find (ascii "S") = some 1 by decide) 5 (fresh_refitted (ascii "bx"))⟩

end Grammars

end Peglib.Renaming
