import Peglib.FoldTypes
import Peglib.GrammarBuilding

/-!
# Actions as closures

`set_action` registers a closure over the expression type of the handle, which is
what the assigned body was at the time of the assignment. The typed fold of
`TypedFold` folds the body that the rule has. The two are the same as long as no
rule is assigned twice.
-/

namespace Peglib.ActionClosures

open Peglib.TracedComputation Peglib.ParseError Peglib.ParseContext Peglib.Expressions
open Peglib.Rules Peglib.TypedFold Peglib.FoldTypes Peglib.Refitting Peglib.GrammarBuilding

set_option autoImplicit false

variable {CharT NodeType : Type}

section Renamed

variable {foldRule : Option NodePtr → Outcome Exn NodeType} {context : Context CharT}

theorem result_of_renamed (rename : RuleId → RuleId) (expr : Expr CharT) :
    resultOf (renameExpr rename expr) = resultOf expr := by
  induction expr using Expr.induct with
  | sequence children induction | alternation children induction =>
      have all : resultOfAll (renameAll rename children) = resultOfAll children := by
        rw [result_of_all_eq_map, result_of_all_eq_map, rename_all_eq_map, List.map_map]
        exact List.map_congr_left induction
      rw [renameExpr, resultOf, resultOf, all]
  | repetition kind child induction => rw [renameExpr, resultOf, resultOf, induction]
  | lexeme child induction => rw [renameExpr, resultOf, resultOf, induction]
  | terminal _ | terminalSeq _ | token _ | matcher _ | empty | cut | not _ _ | and _ _ | rule _ => rfl

theorem is_void_renamed (rename : RuleId → RuleId) (expr : Expr CharT) :
    isVoid (renameExpr rename expr) = isVoid expr := by
  rw [isVoid, isVoid, result_of_renamed]

theorem pushes_node_renamed (rename : RuleId → RuleId) (expr : Expr CharT) :
    pushesNode (renameExpr rename expr) = pushesNode expr := by
  cases expr <;> rfl

theorem fold_expr_renamed (rename : RuleId → RuleId) (expr : Expr CharT) :
    foldExpr foldRule context (renameExpr rename expr) = foldExpr foldRule context expr := by
  induction expr using Expr.induct with
  | sequence children induction =>
      have voids : (renameAll rename children).all isVoid = children.all isVoid := by
        rw [rename_all_eq_map, List.all_map]
        exact congrArg children.all (funext fun child => is_void_renamed rename child)
      have parts : ∀ fields cursor, foldSeq foldRule context (renameAll rename children) fields cursor =
          foldSeq foldRule context children fields cursor := by
        clear voids
        induction children with
        | nil => exact fun _ _ => rfl
        | cons child rest onward =>
            intro fields cursor
            have others := onward fun child member => induction child (List.mem_cons_of_mem _ member)
            rw [renameAll, foldSeq, foldSeq, is_void_renamed, pushes_node_renamed,
              induction child (by simp), others]
            simp only [others]
      funext node cursor
      rw [renameExpr, foldExpr, foldExpr, voids]
      simp only [parts]
  | alternation children induction =>
      have branches : ∀ index node cursor,
          foldAlt foldRule context index (renameAll rename children) node cursor =
            foldAlt foldRule context index children node cursor := by
        induction children with
        | nil => exact fun _ _ _ => rfl
        | cons child rest onward =>
            intro index node cursor
            have others := onward fun child member => induction child (List.mem_cons_of_mem _ member)
            have here := induction child (by simp)
            cases rest with
            | nil =>
                rw [renameAll, renameAll, foldAlt, foldAlt, here]
            | cons second rest =>
                rw [renameAll, renameAll]
                unfold foldAlt
                rw [here]
                rw [renameAll] at others
                simp only [others]
      funext node cursor
      rw [renameExpr, foldExpr, foldExpr, branches]
  | repetition kind child induction =>
      funext node cursor
      rw [renameExpr, foldExpr, foldExpr, is_void_renamed]
      simp only [induction]
  | lexeme child induction =>
      funext node cursor
      rw [renameExpr, foldExpr, foldExpr, induction]
  | terminal _ | terminalSeq _ | token _ | matcher _ | empty | cut | not _ _ | and _ _ | rule _ => rfl

end Renamed

section Closures

variable (builder : Builder CharT NodeType)

/-- The `NonTerminal` at a place of `m_rules`. -/
def registered (rule : RuleId) : Slot CharT NodeType :=
  (builder.rules[rule]?.map fun entry => builder.slot entry.2).getD {}

/-- `fold_and_invoke<F, E>`, where `expr` stands for `E`. -/
def foldAndInvoke (context : Context CharT) (foldRule : Option NodePtr → Outcome Exn NodeType)
    (expr : Expr CharT) (action : Action CharT NodeType) (node : Option NodePtr) :
    Outcome Exn NodeType := do
  let fields ← deref context node
  let span : Span := ⟨fields.startOffset, fields.endOffset⟩
  if isVoid expr then pure (action context span [])
  else
    let value ← foldExpr foldRule context expr (fields.children.headD node) 0
    pure (action context span (arguments (resultOf expr) value))

/-- `typed_fold()`: the closure that `set_action` has registered. -/
def typedFold (context : Context CharT) (foldRule : Option NodePtr → Outcome Exn NodeType)
    (rule : RuleId) : Option (Option NodePtr → Outcome Exn NodeType) := do
  let action ← (registered builder rule).nonTerminal.typedFold
  let expr ← (registered builder rule).foldedAs
  pure (foldAndInvoke context foldRule expr action)

variable [Inhabited NodeType]

def foldRule (context : Context CharT) : Nat → Option NodePtr → Outcome Exn NodeType
  | 0, _ => .exhausted
  | fuel + 1, node => do
      let fields ← deref context node
      match fields.producer.bind (typedFold builder context (foldRule context fuel)) with
      | some fold => fold node
      | none => pure default

def foldStart (fuel : Nat) (start : RuleId) (node : NodePtr) (context : Context CharT) :
    Outcome Exn NodeType :=
  match typedFold builder context (foldRule builder context fuel) start with
  | some fold => fold (some node)
  | none => foldRule builder context fuel (some node)

def parseAst [PegValue CharT] (fuel : Nat) (name : Str) : Parser CharT (Option NodeType) :=
  match builder.grammar.find name with
  | none => Comp.throw (Grammar.notFound (ascii "parse_ast") name)
  | some rule => do
      match ← builder.grammar.parseTree fuel name with
      | none => pure none
      | some node =>
          fireOnMatch builder.grammar fuel (some rule) (some node)
          let value ← Comp.ask (foldStart builder fuel rule node)
          pure (some value)

end Closures

/-- No call assigns a rule that has a body already, nor a rule to itself. -/
def AssignsOnce (client : Client CharT NodeType) : Command CharT NodeType → Prop
  | .assign target _ => client.builder.isDefined target.impl = false
  | .assignRule target _ same => client.builder.isDefined target.impl = false ∧ same = false
  | _ => True

def OnceStep (client client' : Client CharT NodeType) : Prop :=
  ∃ command : Command CharT NodeType,
    command.Legal client ∧ AssignsOnce client command ∧ command.perform client = .ok client'

/-- The closures are over the bodies that the rules have. -/
structure Coherent (client : Client CharT NodeType) : Prop where
  typed : ∀ handle ∈ client.typed,
    (client.builder.slot handle.impl).nonTerminal.body = some handle.expr
  folded : ∀ impl expr, (client.builder.slot impl).foldedAs = some expr →
    (client.builder.slot impl).nonTerminal.body = some expr
  paired : ∀ impl, (client.builder.slot impl).nonTerminal.typedFold.isSome =
    (client.builder.slot impl).foldedAs.isSome

section Steps

variable {client client' : Client CharT NodeType}

theorem once_step (step : OnceStep client client') : Step client client' := by
  obtain ⟨command, legal, -, performed⟩ := step
  exact ⟨command, legal, performed⟩

theorem fresh_coherent : Coherent ({} : Client CharT NodeType) where
  typed := by simp
  folded := by simp [Builder.slot]
  paired := by simp [Builder.slot]

theorem slot_undefined {builder : Builder CharT NodeType} {impl : RuleId}
    (beyond : ¬impl < builder.slots.length) : builder.slot impl = {} := by
  simp [Builder.slot, beyond]

theorem Coherent.adjusted (coherent : Coherent client) {impl : RuleId}
    {change : Slot CharT NodeType → Slot CharT NodeType}
    (body : ∀ slot, (change slot).nonTerminal.body = slot.nonTerminal.body)
    (typed : ∀ slot, (change slot).nonTerminal.typedFold = slot.nonTerminal.typedFold)
    (folded : ∀ slot, (change slot).foldedAs = slot.foldedAs) :
    Coherent { client with builder := client.builder.modify impl change } where
  typed handle member := by
    rw [slot_modify]
    split_ifs
    · rw [body]
      exact coherent.typed handle member
    · exact coherent.typed handle member
  folded other expr := by
    rw [slot_modify]
    split_ifs
    · rw [body, folded]
      exact coherent.folded other expr
    · exact coherent.folded other expr
  paired other := by
    rw [slot_modify]
    split_ifs
    · rw [typed, folded]
      exact coherent.paired other
    · exact coherent.paired other

theorem Coherent.assigned (coherent : Coherent client) (sound : Sound client) {target : Rule}
    (held : target ∈ client.held) (new : client.builder.isDefined target.impl = false)
    (expr : Expr CharT) :
    Coherent { client with
      builder := (client.builder.assign target expr).2
      typed := (client.builder.assign target expr).1 :: client.typed } := by
  have inside := sound.inside_iff.mpr ⟨target.name, sound.held target held⟩
  have bodiless : (client.builder.slot target.impl).nonTerminal.body = none := by
    simpa [Builder.isDefined] using new
  refine ⟨?_, fun other made => ?_, fun other => ?_⟩
  · refine List.forall_mem_cons.mpr ⟨?_, fun handle member => ?_⟩
    · dsimp only [Builder.assign]
      rw [slot_modify, if_pos ⟨rfl, inside⟩]
    · dsimp only [Builder.assign]
      rw [slot_modify]
      split_ifs with same
      · have before := coherent.typed handle member
        rw [← same.1, bodiless] at before
        cases before
      · exact coherent.typed handle member
  · dsimp only [Builder.assign]
    rw [slot_modify]
    split_ifs with same
    · intro folded
      have before := coherent.folded other made folded
      rw [← same.1, bodiless] at before
      cases before
    · exact coherent.folded other made
  · dsimp only [Builder.assign]
    rw [slot_modify]
    split_ifs
    · exact coherent.paired other
    · exact coherent.paired other

theorem Coherent.created (coherent : Coherent client) {name : Str} :
    Coherent { client with builder := client.builder.create name } := by
  have slots : ∀ impl, (client.builder.create name).slot impl = client.builder.slot impl := by
    intro impl
    by_cases inside : impl < client.builder.slots.length
    · exact slot_create inside
    · rw [slot_undefined inside]
      unfold Builder.slot Builder.create
      rcases Nat.eq_or_lt_of_le (Nat.le_of_not_lt inside) with last | beyond
      · simp [← last]
      · rw [List.getElem?_eq_none (by simp; omega)]
        rfl
  refine ⟨fun handle member => ?_, fun impl expr => ?_, fun impl => ?_⟩
  · rw [slots]
    exact coherent.typed handle member
  · rw [slots]
    exact coherent.folded impl expr
  · rw [slots]
    exact coherent.paired impl

theorem Coherent.acting (coherent : Coherent client) {handle : RuleHandle CharT}
    (member : handle ∈ client.typed) (action : Action CharT NodeType) :
    Coherent { client with builder := client.builder.setAction handle action } := by
  refine ⟨fun other within => ?_, fun impl expr => ?_, fun impl => ?_⟩
  · dsimp only [Builder.setAction]
    rw [slot_modify]
    split_ifs
    · exact coherent.typed other within
    · exact coherent.typed other within
  · dsimp only [Builder.setAction]
    rw [slot_modify]
    split_ifs with same
    · intro folded
      obtain rfl := Option.some.inj folded
      rw [← same.1]
      exact coherent.typed handle member
    · exact coherent.folded impl expr
  · dsimp only [Builder.setAction]
    rw [slot_modify]
    split_ifs
    · rfl
    · exact coherent.paired impl

theorem step_coherent (step : OnceStep client client') (sound : Sound client)
    (coherent : Coherent client) : Coherent client' := by
  obtain ⟨command, legal, once, performed⟩ := step
  cases command with
  | access name =>
      obtain rfl := Except.ok.inj performed
      unfold Builder.access
      cases client.builder.lookup name with
      | some impl => exact { coherent with }
      | none => exact { coherent.created with }
  | find name =>
      obtain rfl := Except.ok.inj performed
      exact { coherent with }
  | assign target expr =>
      obtain rfl := Except.ok.inj performed
      exact coherent.assigned sound legal.1 once expr
  | assignRule target source same =>
      obtain rfl := Except.ok.inj performed
      obtain ⟨new, rfl⟩ := once
      exact coherent.assigned sound legal.1 new (.rule source.impl)
  | setAction handle action =>
      obtain rfl := Except.ok.inj performed
      exact coherent.acting legal action
  | onMatch target hook =>
      obtain rfl := Except.ok.inj performed
      exact coherent.adjusted (fun _ => rfl) (fun _ => rfl) fun _ => rfl
  | setLabel target label =>
      obtain rfl := Except.ok.inj performed
      exact coherent.adjusted (fun _ => rfl) (fun _ => rfl) fun _ => rfl
  | setRecovery target spec =>
      obtain rfl := Except.ok.inj performed
      exact coherent.adjusted (fun _ => rfl) (fun _ => rfl) fun _ => rfl
  | setStart name =>
      obtain rfl := Except.ok.inj performed
      exact { coherent with }
  | setSkipper target =>
      change (client.builder.setSkipper target).map _ = _ at performed
      unfold Builder.setSkipper at performed
      split_ifs at performed
      · obtain rfl := Except.ok.inj performed
        exact { coherent with }
      · cases performed
  | clearSkipper =>
      obtain rfl := Except.ok.inj performed
      exact { coherent with }

theorem once_coherent (steps : Relation.ReflTransGen OnceStep {} client) :
    Sound client ∧ Coherent client := by
  induction steps with
  | refl => exact ⟨fresh_sound, fresh_coherent⟩
  | tail _ step induction =>
      exact ⟨(step_sound (once_step step) induction.1).1, step_coherent step induction.1 induction.2⟩

end Steps

section Agreement

variable {client : Client CharT NodeType}

theorem non_terminal_registered (builder : Builder CharT NodeType) (rule : RuleId) :
    builder.grammar.nonTerminal rule =
      renameRule builder.position (registered builder rule).nonTerminal := by
  unfold Grammar.nonTerminal registered Builder.grammar
  rw [List.getElem?_map]
  cases builder.rules[rule]? <;> rfl

theorem Coherent.registered (coherent : Coherent client) (rule : RuleId) :
    (∀ expr, (registered client.builder rule).foldedAs = some expr →
      (registered client.builder rule).nonTerminal.body = some expr) ∧
    (registered client.builder rule).nonTerminal.typedFold.isSome =
      (registered client.builder rule).foldedAs.isSome := by
  unfold ActionClosures.registered
  cases client.builder.rules[rule]? with
  | none => exact ⟨fun _ made => (by cases made), rfl⟩
  | some entry => exact ⟨coherent.folded entry.2, coherent.paired entry.2⟩

/-- A registered closure folds the body of its rule. -/
theorem typed_fold_same (coherent : Coherent client) (context : Context CharT)
    (fold : Option NodePtr → Outcome Exn NodeType) (rule : RuleId) :
    typedFold client.builder context fold rule =
      ((client.builder.grammar.nonTerminal rule).typedFold.map fun action =>
        TypedFold.foldAndInvoke client.builder.grammar context fold rule action) := by
  obtain ⟨folded, paired⟩ := coherent.registered rule
  have held := non_terminal_registered client.builder rule
  have assigned : client.builder.grammar.body rule =
      (registered client.builder rule).nonTerminal.body.map (renameExpr client.builder.position) := by
    rw [Grammar.body, held]
    rfl
  have actions : (client.builder.grammar.nonTerminal rule).typedFold =
      (registered client.builder rule).nonTerminal.typedFold := by
    rw [held]
    rfl
  rw [typedFold, actions]
  cases acting : (registered client.builder rule).nonTerminal.typedFold with
  | none => rfl
  | some action =>
      rw [acting] at paired
      obtain ⟨expr, made⟩ := Option.isSome_iff_exists.mp paired.symm
      rw [made, Option.map_some]
      refine congrArg some (funext fun node => ?_)
      unfold foldAndInvoke TypedFold.foldAndInvoke
      rw [assigned, folded expr made, Option.map_some]
      dsimp only
      rw [is_void_renamed, result_of_renamed, fold_expr_renamed]

variable [Inhabited NodeType]

theorem fold_rule_same (coherent : Coherent client) (context : Context CharT) (fuel : Nat) :
    foldRule client.builder context fuel = TypedFold.foldRule client.builder.grammar context fuel := by
  induction fuel with
  | zero => rfl
  | succ fuel induction =>
      funext node
      rw [foldRule, TypedFold.foldRule, induction]
      refine congrArg (deref context node >>= ·) (funext fun fields => ?_)
      cases fields.producer with
      | none => rfl
      | some producer =>
          rw [Option.bind_some, typed_fold_same coherent]
          dsimp only
          cases (client.builder.grammar.nonTerminal producer).typedFold <;> rfl

/-- While rules are assigned once, `parse_ast` with the closures that `set_action` has registered
is `parse_ast` with the bodies that the rules have. -/
theorem closures_fold_bodies [PegValue CharT] (steps : Relation.ReflTransGen OnceStep {} client)
    (fuel : Nat) (name : Str) (context : Context CharT) :
    parseAst client.builder fuel name context =
      TypedFold.parseAst client.builder.grammar fuel name context := by
  have coherent := (once_coherent steps).2
  have starts : foldStart client.builder fuel = TypedFold.foldStart client.builder.grammar fuel := by
    funext rule node here
    rw [foldStart, TypedFold.foldStart, fold_rule_same coherent, typed_fold_same coherent]
    cases (client.builder.grammar.nonTerminal rule).typedFold <;> rfl
  unfold parseAst TypedFold.parseAst
  generalize foldStart client.builder fuel = fold at starts ⊢
  subst starts
  cases client.builder.grammar.find name with
  | none => rfl
  | some rule => rfl

end Agreement

section Digits

def digit : Rule := ⟨0, ascii "D"⟩

def digitHandle : RuleHandle UInt8 := ⟨0, ascii "D", .token (.range 48 57)⟩

def digitValue : Action UInt8 Nat := fun _ _ values =>
  match values with
  | [.element letter] => letter.toNat - 48
  | _ => 0

/-- `g["D"] = g.token('0', '9')`, and an action for its handle. -/
def digits : Client UInt8 Nat where
  builder := ((Builder.create {} (ascii "D")).assign digit (.token (.range 48 57))).2.setAction
    digitHandle digitValue
  held := [digit]
  typed := [digitHandle]

theorem digits_steps : Relation.ReflTransGen OnceStep {} digits :=
  ((Relation.ReflTransGen.single ⟨.access (ascii "D"), trivial, trivial, rfl⟩).tail
    ⟨.assign digit (.token (.range 48 57)), ⟨by decide, by rintro id ⟨⟩⟩, rfl, rfl⟩).tail
    ⟨.setAction digitHandle digitValue, List.mem_singleton_self _, trivial, rfl⟩

theorem digits_fold_bodies :
    (parseAst digits.builder 6 (ascii "D") (Context.fresh (ascii "7"))).outcome.value? =
        some (some 7) ∧
      parseAst digits.builder 6 (ascii "D") (Context.fresh (ascii "7")) =
        TypedFold.parseAst digits.builder.grammar 6 (ascii "D") (Context.fresh (ascii "7")) :=
  ⟨by decide +kernel, closures_fold_bodies digits_steps 6 (ascii "D") (Context.fresh (ascii "7"))⟩

/-- `D` after a second assignment, `g["D"] = g.terminal('x') >> g.token('0', '9')`. -/
def reassigned : Builder UInt8 Nat :=
  (digits.builder.assign digit (.sequence [.terminal (.value 120), .token (.range 48 57)])).2

/-- The action is still called with the element where the match starts, which is the 'x'. -/
example : (parseAst reassigned 6 (ascii "D") (Context.fresh (ascii "x7"))).outcome.value? =
      some (some 72) ∧
    (TypedFold.parseAst reassigned.grammar 6 (ascii "D") (Context.fresh (ascii "x7"))).outcome.value? =
      some (some 7) := by
  decide +kernel

end Digits

end Peglib.ActionClosures
