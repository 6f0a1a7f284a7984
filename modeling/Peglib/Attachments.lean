import Peglib.Refitting

/-!
# What is attached to a rule does not parse

Actions, hooks, names and labels are attached to rules whose bodies are there
already. Two grammars that differ in attachments only take the same steps: they
give the same answers, stop at the same positions and break off in the same
cases. With the same names and labels they report the same errors, and with the
same names and the same rules typed they build the same trees.
-/

namespace Peglib.Attachments

open Peglib.TracedComputation Peglib.Tandem Peglib.EngineSteps Peglib.Refitting
open Peglib.ParseError Peglib.ParseContext Peglib.Expressions Peglib.Rules

set_option autoImplicit false

variable {CharT NodeType NodeType' : Type}

/-- The same rules under the same keys, with the same bodies, sync tokens and skipper. -/
structure SameSyntax (grammar : Grammar CharT NodeType) (grammar' : Grammar CharT NodeType') : Prop where
  keys : grammar'.rules.map Prod.fst = grammar.rules.map Prod.fst
  bodies : ∀ rule, grammar'.body rule = grammar.body rule
  syncs : ∀ rule, (grammar'.nonTerminal rule).recover.isSyncToken =
    (grammar.nonTerminal rule).recover.isSyncToken
  skipper : grammar'.skipper = grammar.skipper

/-- Trees are compared where names and typed rules are the same, reports where names and labels
are. The types of the actions' results need not be the same. -/
def comparison (grammar : Grammar CharT NodeType) (grammar' : Grammar CharT NodeType') : Fit where
  rename := id
  reach := fun _ => True
  trees := ∀ rule, (grammar'.nonTerminal rule).name = (grammar.nonTerminal rule).name ∧
    (grammar'.nonTerminal rule).typedFold.isSome = (grammar.nonTerminal rule).typedFold.isSome
  reports := ∀ rule, (grammar'.nonTerminal rule).name = (grammar.nonTerminal rule).name ∧
    (grammar'.nonTerminal rule).label = (grammar.nonTerminal rule).label ∧
    (grammar'.nonTerminal rule).recover.label = (grammar.nonTerminal rule).recover.label

theorem rename_id (expr : Expr CharT) : renameExpr id expr = expr := by
  have all : ∀ children : List (Expr CharT), (∀ child ∈ children, renameExpr id child = child) →
      renameAll id children = children := by
    intro children each
    rw [rename_all_eq_map]
    exact (List.map_congr_left each).trans (List.map_id children)
  induction expr using Expr.induct with
  | sequence children induction | alternation children induction => rw [renameExpr, all _ induction]
  | repetition kind child induction | not child induction | and child induction
  | lexeme child induction => rw [renameExpr, induction]
  | terminal _ | terminalSeq _ | token _ | matcher _ | empty | cut | rule _ => rfl

theorem confined_anywhere (expr : Expr CharT) : expr.Every (Confined (fun _ => True) True) :=
  Expr.every_of_all (fun expr => by cases expr <;> trivial) expr

variable {grammar : Grammar CharT NodeType} {grammar' : Grammar CharT NodeType'}

theorem SameSyntax.find (same : SameSyntax grammar grammar') (name : Str) :
    grammar'.find name = grammar.find name := by
  have near : grammar.find name = (grammar.rules.map Prod.fst).findIdx? (· == name) := by
    rw [List.findIdx?_map]
    rfl
  have far : grammar'.find name = (grammar'.rules.map Prod.fst).findIdx? (· == name) := by
    rw [List.findIdx?_map]
    rfl
  rw [near, far, same.keys]

theorem SameSyntax.embeds (same : SameSyntax grammar grammar')
    (blind : ∀ rule body, grammar.body rule = some body →
      body.Every (FitBlind (comparison grammar grammar'))) :
    Embeds (comparison grammar grammar') grammar grammar' where
  apart rule other _ _ := Iff.rfl
  closed rule body _ _ := confined_anywhere body
  rules rule _ := by
    refine ⟨?_, same.syncs rule, fun shown => shown rule, fun shown => shown rule⟩
    have unchanged : (renameExpr id : Expr CharT → Expr CharT) = id := funext rename_id
    change grammar'.body rule = (grammar.body rule).map (renameExpr id)
    rw [unchanged, Option.map_id, id, same.bodies rule]
  matchers rule body _ assigned := blind rule body assigned
  skipper := by rw [comparison, Option.map_id, id, same.skipper]
  skips _ _ := trivial

theorem refitted_self (context : Context CharT) :
    Refitted (comparison grammar grammar') context context where
  input := rfl
  position := rfl
  lastCut := rfl
  nodeArena _ := (List.map_id'' (fun fields => by simp [comparison, renameNode]) _).symm
  mem pos rule _ := by
    dsimp only [comparison, id]
    cases context.mem pos rule with
    | none => exact .none
    | some row => exact .some ⟨rfl, rfl, rfl, fun _ => rfl⟩
  cutStack := rfl
  lrStack := (List.map_id'' (fun frame => by simp [comparison, renameFrame]) _).symm
  frames _ _ := trivial
  growingHead _ := by simp [comparison]
  heads _ _ _ := trivial
  errors _ := rfl
  skipper := by simp [comparison]
  skips _ _ := trivial
  skipEnabled := rfl
  outOfRange := rfl

section Results

variable [PegValue CharT]

/-- Grammars that differ in attachments only parse in step, from contexts that correspond: the same
answers, a tree in the same cases, the same breaks, positions and steps. Trees and reports are the
same as well where the attachments they show are. -/
theorem attachments_immaterial (same : SameSyntax grammar grammar')
    (blind : ∀ rule body, grammar.body rule = some body →
      body.Every (FitBlind (comparison grammar grammar')))
    (fuel : Nat) (name : Str) {near far : Context CharT}
    (alike : Refitted (comparison grammar grammar') near far) :
    Together (Refitted (comparison grammar grammar')) (RefittedMoment (comparison grammar grammar'))
        (ExnsAgree (comparison grammar grammar')) Eq (grammar.parse fuel name near)
        (grammar'.parse fuel name far) ∧
      Together (Refitted (comparison grammar grammar')) (RefittedMoment (comparison grammar grammar'))
        (ExnsAgree (comparison grammar grammar')) (TreesAgree (comparison grammar grammar'))
        (grammar.parseTree fuel name near) (grammar'.parseTree fuel name far) := by
  have embeds := same.embeds blind
  have found := same.find name
  cases known : grammar.find name with
  | none =>
      rw [known] at found
      unfold Grammar.parse Grammar.parseTree
      rw [known, found]
      exact ⟨tandem_throw (.same _) near far alike, tandem_throw (.same _) near far alike⟩
  | some start =>
      rw [known] at found
      exact ⟨entry_corresponds embeds trivial known found fuel near far alike,
        tree_entry_corresponds embeds trivial known found fuel near far alike⟩

/-- `S = S >> 'x' | 'b'`, with nothing attached. -/
def bare : Grammar UInt8 Unit where
  rules := [(ascii "S", { body := some (.alternation [
    .sequence [.rule 0, .terminal (.value 120)],
    .terminal (.value 98)]) })]

/-- The same rule with a name, a label, a hook and an action that returns the length of its span. -/
def dressed : Grammar UInt8 Nat where
  rules := [(ascii "S", {
    body := some (.alternation [
      .sequence [.rule 0, .terminal (.value 120)],
      .terminal (.value 98)])
    name := ascii "S"
    label := ascii "suffixes"
    typedFold := some fun _ span _ => span.stop - span.start
    onMatch := true })]

theorem bare_dressed : SameSyntax bare dressed where
  keys := rfl
  bodies rule := by cases rule <;> rfl
  syncs rule := by cases rule <;> rfl
  skipper := rfl

/-- "bx" is read to its end with and without attachments. -/
theorem bare_dressed_alike :
    (dressed.parse 5 (ascii "S") (Context.fresh (ascii "bx"))).state.position = 2 ∧
      Together (Refitted (comparison bare dressed)) (RefittedMoment (comparison bare dressed))
        (ExnsAgree (comparison bare dressed)) Eq (bare.parse 5 (ascii "S") (Context.fresh (ascii "bx")))
        (dressed.parse 5 (ascii "S") (Context.fresh (ascii "bx"))) ∧
      Together (Refitted (comparison bare dressed)) (RefittedMoment (comparison bare dressed))
        (ExnsAgree (comparison bare dressed)) (TreesAgree (comparison bare dressed))
        (bare.parseTree 5 (ascii "S") (Context.fresh (ascii "bx")))
        (dressed.parseTree 5 (ascii "S") (Context.fresh (ascii "bx"))) := by
  refine ⟨by decide +kernel, attachments_immaterial bare_dressed ?_ 5 (ascii "S")
    (refitted_self (Context.fresh (ascii "bx")))⟩
  intro rule body assigned
  cases rule with
  | zero =>
      obtain rfl := Option.some.inj assigned
      simp [Expr.Every, Expr.EveryAll, FitBlind]
  | succ rule => cases assigned

end Results

end Peglib.Attachments
