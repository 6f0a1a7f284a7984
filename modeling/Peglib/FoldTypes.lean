import Mathlib.Data.List.Forall2
import Peglib.TypedFold

/-!
# The types of the typed fold

`result_of` gives each expression a type, and `static_assert`s ask the branches
of an alternation to share theirs. Whatever nodes a fold walks over, what it
returns is of the type of its expression, and an action is only ever called with
arguments of the types that `flat_args` lists.
-/

namespace Peglib.FoldTypes

open Peglib.TracedComputation Peglib.ParseError Peglib.ParseContext Peglib.Expressions
open Peglib.Rules Peglib.TypedFold

set_option autoImplicit false

variable {CharT NodeType : Type}

def AllSame : List ResultType → Prop
  | [] | [_] => True
  | first :: second :: rest => first = second ∧ AllSame (second :: rest)

/-- The assertion on the branches of an alternation. -/
def Asserted : Expr CharT → Prop
  | .alternation branches => AllSame (resultOfAll branches)
  | _ => True

def flatArgs : ResultType → List ResultType
  | .void => []
  | .tuple parts => parts
  | type => [type]

/-- A value of the C++ type that a result type stands for. -/
inductive HasType : Val CharT NodeType → ResultType → Prop
  | element (letter : CharT) : HasType (.element letter) .element
  | node (value : NodeType) : HasType (.node value) .node
  | tuple {values parts} : List.Forall₂ HasType values parts → HasType (.tuple values) (.tuple parts)
  | vector {values part} : (∀ value ∈ values, HasType value part) →
      HasType (.vector values) (.vector part)
  | nullopt {part} : HasType (.optional none) (.optional part)
  | optional {value part} : HasType value part → HasType (.optional (some value)) (.optional part)

/-- What a fold may return: nothing for a void type, otherwise a value of the type. -/
def Fits (type : ResultType) (value : Option (Val CharT NodeType)) : Prop :=
  if type.isVoid then value = none else ∃ inner, value = some inner ∧ HasType inner type

abbrev Accepted (expr : Expr CharT) (values : List (Val CharT NodeType)) : Prop :=
  List.Forall₂ HasType values (flatArgs (resultOf expr))

section Values

theorem fits_void {type : ResultType} (void : type.isVoid = true) :
    Fits type (none : Option (Val CharT NodeType)) := by
  simp [Fits, void]

theorem fits_some {type : ResultType} {value : Val CharT NodeType} (valued : type.isVoid = false)
    (typed : HasType value type) : Fits type (some value) := by
  simp [Fits, valued, typed]

theorem Fits.some_of {type : ResultType} {value : Option (Val CharT NodeType)} (fits : Fits type value)
    (valued : type.isVoid = false) : ∃ inner, value = some inner ∧ HasType inner type := by
  simpa [Fits, valued] using fits

theorem result_of_all_eq_map (children : List (Expr CharT)) :
    resultOfAll children = children.map resultOf := by
  induction children with
  | nil => rfl
  | cons child rest induction => rw [resultOfAll, induction, List.map_cons]

theorem all_same_head {types : List ResultType} (same : AllSame types) {type : ResultType}
    (member : type ∈ types) : type = types.headD .void := by
  induction types with
  | nil => simp at member
  | cons first rest induction =>
      cases rest with
      | nil => simpa using member
      | cons second rest =>
          rcases List.mem_cons.mp member with rfl | later
          · rfl
          · rw [induction same.2 later]
            exact same.1.symm

theorem collapse_fits {values : List (Val CharT NodeType)} {types : List ResultType}
    (typed : List.Forall₂ HasType values types) (valued : ∀ type ∈ types, type.isVoid = false) :
    Fits (collapse types) (collapseValues values) := by
  cases typed with
  | nil => exact fits_void rfl
  | @cons value type _ _ head tail =>
      cases tail with
      | nil => exact fits_some (valued type (List.mem_singleton_self type)) head
      | cons second rest => exact fits_some rfl (.tuple (.cons head (.cons second rest)))

/-- What the value of a body is unpacked into. -/
theorem arguments_accepted {expr : Expr CharT} {value : Option (Val CharT NodeType)}
    (fits : Fits (resultOf expr) value) : Accepted expr (arguments (resultOf expr) value) := by
  unfold Accepted
  generalize resultOf expr = type at fits ⊢
  by_cases void : type.isVoid = true
  · obtain rfl : value = none := by simpa [Fits, void] using fits
    cases type with
    | void => simp [arguments, flatArgs]
    | _ => cases void
  · obtain ⟨inner, rfl, typed⟩ := fits.some_of (Bool.eq_false_iff.mpr void)
    cases typed with
    | tuple parts => simpa [arguments, flatArgs] using parts
    | element letter => simpa [arguments, flatArgs] using HasType.element letter
    | node value => simpa [arguments, flatArgs] using HasType.node value
    | vector each => simpa [arguments, flatArgs] using HasType.vector each
    | nullopt => simpa [arguments, flatArgs] using HasType.nullopt
    | optional inner => simpa [arguments, flatArgs] using inner.optional

theorem accepted_nil {expr : Expr CharT} (void : isVoid expr = true) :
    Accepted expr ([] : List (Val CharT NodeType)) := by
  unfold isVoid at void
  unfold Accepted
  cases type : resultOf expr with
  | void => exact .nil
  | _ => simp [type, ResultType.isVoid] at void

end Values

section Folding

variable {foldRule : Option NodePtr → Outcome Exn NodeType} {context : Context CharT}

theorem returned_through {Value Other : Type} {first : Outcome Exn Value}
    {next : Value → Outcome Exn Other} {value : Other} (returned : (first >>= next) = .returned value) :
    ∃ middle, first = .returned middle ∧ next middle = .returned value := by
  cases first with
  | returned middle => exact ⟨middle, rfl, returned⟩
  | thrown exn => cases returned
  | exhausted => cases returned

abbrev Typed (foldRule : Option NodePtr → Outcome Exn NodeType) (context : Context CharT)
    (expr : Expr CharT) : Prop :=
  ∀ node cursor value, foldExpr foldRule context expr node cursor = .returned value →
    Fits (resultOf expr) value

theorem fold_each_typed {child : Expr CharT} (typed : Typed foldRule context child)
    (valued : isVoid child = false) {children : List (Option NodePtr)} {values : List (Val CharT NodeType)}
    (returned : foldEach (fun below => foldExpr foldRule context child below 0) children =
      .returned values) : ∀ value ∈ values, HasType value (resultOf child) := by
  induction children generalizing values with
  | nil =>
      obtain rfl := Outcome.returned.inj returned
      simp
  | cons node rest induction =>
      unfold foldEach at returned
      obtain ⟨value, here, returned⟩ := returned_through returned
      obtain ⟨others, there, returned⟩ := returned_through returned
      obtain rfl := Outcome.returned.inj returned
      obtain ⟨inner, rfl, fits⟩ := (typed node 0 value here).some_of valued
      simpa [fits] using induction there

theorem fold_alt_typed {branches : List (Expr CharT)} {type : ResultType}
    (each : ∀ branch ∈ branches, Typed foldRule context branch)
    (same : ∀ branch ∈ branches, resultOf branch = type) (nonempty : branches ≠ [])
    {index : Nat} {node : Option NodePtr} {cursor : Nat} {value : Option (Val CharT NodeType)}
    (returned : foldAlt foldRule context index branches node cursor = .returned value) :
    Fits type value := by
  induction branches generalizing index with
  | nil => exact absurd rfl nonempty
  | cons branch rest induction =>
      have here : ∀ node cursor, foldExpr foldRule context branch node cursor = .returned value →
          Fits type value := fun node cursor ended => by
        rw [← same branch (by simp)]
        exact each branch (by simp) node cursor value ended
      cases rest with
      | nil =>
          rw [foldAlt] at returned
          exact here node cursor returned
      | cons second rest =>
          unfold foldAlt at returned
          obtain ⟨fields, held, returned⟩ := returned_through returned
          split_ifs at returned
          · exact here node cursor returned
          · exact induction (fun branch member => each branch (by simp [member]))
              (fun branch member => same branch (by simp [member])) (by simp) returned

theorem fold_seq_typed {exprs : List (Expr CharT)}
    (each : ∀ expr ∈ exprs, Typed foldRule context expr) {fields : ParseTreeNode} {cursor : Nat}
    {values : List (Val CharT NodeType)}
    (returned : foldSeq foldRule context exprs fields cursor = .returned values) :
    List.Forall₂ HasType values ((resultOfAll exprs).filter fun part => !part.isVoid) := by
  induction exprs generalizing cursor values with
  | nil =>
      obtain rfl := Outcome.returned.inj returned
      exact .nil
  | cons expr rest induction =>
      have others := fun expr member => each expr (List.mem_cons_of_mem _ member)
      unfold foldSeq at returned
      by_cases void : isVoid expr = true
      · rw [if_pos void] at returned
        unfold isVoid at void
        simpa [resultOfAll, void] using induction others returned
      · rw [if_neg void] at returned
        obtain ⟨below, held, returned⟩ := returned_through returned
        obtain ⟨value, here, returned⟩ := returned_through returned
        obtain ⟨later, there, returned⟩ := returned_through returned
        obtain rfl := Outcome.returned.inj returned
        have valued := Bool.eq_false_iff.mpr void
        obtain ⟨inner, rfl, fits⟩ := (each expr (by simp) below 0 value here).some_of valued
        unfold isVoid at valued
        simpa [resultOfAll, valued] using List.Forall₂.cons fits (induction others there)

/-- Whatever the nodes are, a fold returns a value of the type of its expression. -/
theorem fold_typed {expr : Expr CharT} (asserted : expr.Every Asserted) :
    Typed foldRule context expr := by
  induction expr using Expr.induct with
  | token value =>
      intro node cursor result returned
      rw [foldExpr] at returned
      obtain ⟨fields, held, returned⟩ := returned_through returned
      obtain ⟨letter, there, returned⟩ := returned_through returned
      obtain rfl := Outcome.returned.inj returned
      exact fits_some rfl (.element letter)
  | rule id =>
      intro node cursor result returned
      rw [foldExpr] at returned
      obtain ⟨value, held, returned⟩ := returned_through returned
      obtain rfl := Outcome.returned.inj returned
      exact fits_some rfl (.node value)
  | lexeme child induction =>
      intro node cursor result returned
      unfold Expr.Every at asserted
      rw [foldExpr] at returned
      exact induction asserted.2 node cursor result returned
  | alternation branches induction =>
      intro node cursor result returned
      unfold Expr.Every at asserted
      have each := fun branch member =>
        induction branch member (Expr.every_all_iff.mp asserted.2 branch member)
      rw [foldExpr] at returned
      cases branches with
      | nil =>
          rw [foldAlt] at returned
          obtain rfl := Outcome.returned.inj returned
          exact fits_void rfl
      | cons first rest =>
          refine fold_alt_typed each (fun branch member => ?_) (by simp) returned
          rw [resultOf]
          refine all_same_head asserted.1 ?_
          rw [result_of_all_eq_map]
          exact List.mem_map_of_mem member
  | sequence exprs induction =>
      intro node cursor result returned
      unfold Expr.Every at asserted
      have each := fun expr member =>
        induction expr member (Expr.every_all_iff.mp asserted.2 expr member)
      rw [foldExpr] at returned
      by_cases void : exprs.all isVoid = true
      · rw [if_pos void] at returned
        obtain rfl := Outcome.returned.inj returned
        refine fits_void ?_
        have none : (resultOfAll exprs).filter (fun part => !part.isVoid) = [] := by
          rw [result_of_all_eq_map, List.filter_eq_nil_iff]
          simpa [isVoid] using void
        rw [resultOf, none]
        rfl
      · rw [if_neg void] at returned
        obtain ⟨fields, held, returned⟩ := returned_through returned
        obtain ⟨values, there, returned⟩ := returned_through returned
        obtain rfl := Outcome.returned.inj returned
        exact collapse_fits (fold_seq_typed each there) (by simp)
  | repetition kind child induction =>
      intro node cursor result returned
      unfold Expr.Every at asserted
      have typed := induction asserted.2
      rw [foldExpr] at returned
      by_cases void : isVoid child = true
      · rw [if_pos void] at returned
        obtain rfl := Outcome.returned.inj returned
        refine fits_void ?_
        unfold isVoid at void
        rw [resultOf, if_pos void]
        rfl
      · rw [if_neg void] at returned
        have valued := Bool.eq_false_iff.mpr void
        have plain : (resultOf child).isVoid = false := valued
        by_cases optional : kind = .optional
        · rw [if_pos optional] at returned
          obtain ⟨fields, held, returned⟩ := returned_through returned
          have type : resultOf (.repetition kind child) = .optional (resultOf child) := by
            simp [resultOf, plain, optional]
          rw [type]
          split at returned
          · obtain ⟨value, here, returned⟩ := returned_through returned
            obtain rfl := Outcome.returned.inj returned
            obtain ⟨inner, rfl, fits⟩ := (typed _ 0 value here).some_of valued
            exact fits_some rfl (.optional fits)
          · obtain rfl := Outcome.returned.inj returned
            exact fits_some rfl .nullopt
        · rw [if_neg optional] at returned
          obtain ⟨fields, held, returned⟩ := returned_through returned
          obtain ⟨values, there, returned⟩ := returned_through returned
          obtain rfl := Outcome.returned.inj returned
          have type : resultOf (.repetition kind child) = .vector (resultOf child) := by
            simp [resultOf, plain, optional]
          rw [type]
          exact fits_some rfl (.vector (fold_each_typed typed valued there))
  | terminal _ | terminalSeq _ | matcher _ | empty | cut | not _ _ | and _ _ =>
      intro node cursor result returned
      rw [foldExpr] at returned
      obtain rfl := Outcome.returned.inj returned
      exact fits_void rfl

end Folding

section Actions

variable {grammar grammar' : Grammar CharT NodeType}

/-- Two rules that differ at most in what their actions make of arguments that are not of the
types of the body. -/
structure SameRule (rule rule' : NonTerminal CharT NodeType) : Prop where
  body : rule'.body = rule.body
  name : rule'.name = rule.name
  label : rule'.label = rule.label
  recover : rule'.recover = rule.recover
  onMatch : rule'.onMatch = rule.onMatch
  typed : rule'.typedFold.isSome = rule.typedFold.isSome
  actions : ∀ body action action', rule.body = some body → rule.typedFold = some action →
    rule'.typedFold = some action' → ∀ context span values, Accepted body values →
      action' context span values = action context span values

/-- The two grammars have the same rules but for such actions. -/
structure SameWhereTyped (grammar grammar' : Grammar CharT NodeType) : Prop where
  find : grammar'.find = grammar.find
  skipper : grammar'.skipper = grammar.skipper
  rules : ∀ rule, SameRule (grammar.nonTerminal rule) (grammar'.nonTerminal rule)

theorem build_node_same {rule rule' : NonTerminal CharT NodeType} (same : SameRule rule rule') :
    @NonTerminal.buildNode CharT NodeType rule' = NonTerminal.buildNode rule := by
  funext id startPos inner
  have typed := same.typed
  unfold NonTerminal.buildNode
  rw [same.name]
  cases present : rule.typedFold with
  | none =>
      rw [present, Option.isSome_none, Option.isSome_eq_false_iff, Option.isNone_iff_eq_none] at typed
      rw [typed]
  | some action =>
      rw [present] at typed
      obtain ⟨action', present'⟩ := Option.isSome_iff_exists.mp typed
      rw [present']

theorem rule_parse_same {rule rule' : NonTerminal CharT NodeType} (same : SameRule rule rule') :
    @NonTerminal.parse CharT NodeType rule' = NonTerminal.parse rule := by
  funext id body fuel
  unfold NonTerminal.parse NonTerminal.finishSuccess NonTerminal.finishFailure
    NonTerminal.recordRuleFailure
  rw [build_node_same same, same.name, same.label, same.recover]

theorem apply_same [PegValue CharT] (same : SameWhereTyped grammar grammar') :
    @Grammar.apply CharT NodeType _ grammar' = Grammar.apply grammar := by
  funext fuel
  induction fuel with
  | zero => rfl
  | succ fuel induction =>
      funext rule
      rw [Grammar.apply, Grammar.apply, rule_parse_same (same.rules rule), induction, Grammar.body,
        (same.rules rule).body]
      rfl

theorem parse_tree_same [PegValue CharT] (same : SameWhereTyped grammar grammar') :
    @Grammar.parseTree CharT NodeType _ grammar' = Grammar.parseTree grammar := by
  funext fuel name
  unfold Grammar.parseTree Grammar.leadingSkip
  rw [same.find, same.skipper, apply_same same]

theorem fire_same (same : SameWhereTyped grammar grammar') :
    @fireOnMatch CharT NodeType grammar' = fireOnMatch grammar := by
  have hooks : ∀ start fields, hookOf grammar' start fields = hookOf grammar start fields := by
    intro start fields
    have each : ∀ rule, (grammar'.nonTerminal rule).onMatch = (grammar.nonTerminal rule).onMatch :=
      fun rule => (same.rules rule).onMatch
    unfold hookOf
    simp only [each]
  have both : ∀ fuel, fireOnMatch grammar' fuel = fireOnMatch grammar fuel ∧
      fireAll grammar' fuel = fireAll grammar fuel := by
    intro fuel
    induction fuel with
    | zero =>
        refine ⟨funext fun start => funext fun node => ?_, funext fun nodes => ?_⟩
        · cases node <;> simp [fireOnMatch]
        · cases nodes <;> simp [fireAll]
    | succ fuel induction =>
        refine ⟨funext fun start => funext fun node => ?_, funext fun nodes => ?_⟩
        · cases node <;> simp [fireOnMatch, hooks, induction.2]
        · cases nodes <;> simp [fireAll, induction.1, induction.2]
  exact funext fun fuel => (both fuel).1

/-- The static assertions hold for every body. -/
def AllAsserted (grammar : Grammar CharT NodeType) : Prop :=
  ∀ rule body, grammar.body rule = some body → body.Every Asserted

theorem invoke_same (same : SameWhereTyped grammar grammar') (asserted : AllAsserted grammar)
    {context : Context CharT} {foldRule : Option NodePtr → Outcome Exn NodeType} {rule : RuleId}
    {action action' : Action CharT NodeType} (held : (grammar.nonTerminal rule).typedFold = some action)
    (held' : (grammar'.nonTerminal rule).typedFold = some action') (node : Option NodePtr) :
    foldAndInvoke grammar' context foldRule rule action' node =
      foldAndInvoke grammar context foldRule rule action node := by
  have bodies : grammar'.body rule = grammar.body rule := (same.rules rule).body
  unfold foldAndInvoke
  rw [bodies]
  cases assigned : grammar.body rule with
  | none => rfl
  | some body =>
      have agree := (same.rules rule).actions body action action' assigned held held' context
      cases deref context node with
      | thrown exn => rfl
      | exhausted => rfl
      | returned fields =>
          dsimp only [bind, Outcome.bind]
          by_cases void : isVoid body = true
          · rw [if_pos void, if_pos void]
            rw [agree _ _ (accepted_nil void)]
          · rw [if_neg void, if_neg void]
            cases folded : foldExpr foldRule context body (fields.children.headD node) 0 with
            | thrown exn => rfl
            | exhausted => rfl
            | returned value =>
                have fits := fold_typed (asserted rule body assigned) _ _ _ folded
                dsimp only
                rw [agree _ _ (arguments_accepted fits)]

variable [Inhabited NodeType]

theorem fold_rule_same (same : SameWhereTyped grammar grammar') (asserted : AllAsserted grammar)
    (context : Context CharT) (fuel : Nat) :
    foldRule grammar' context fuel = foldRule grammar context fuel := by
  induction fuel with
  | zero => rfl
  | succ fuel induction =>
      funext node
      rw [foldRule, foldRule, induction]
      refine congrArg (deref context node >>= ·) (funext fun fields => ?_)
      cases fields.producer with
      | none => rfl
      | some producer =>
          have typed := (same.rules producer).typed
          dsimp only
          cases held : (grammar.nonTerminal producer).typedFold with
          | none =>
              rw [held, Option.isSome_none, Option.isSome_eq_false_iff,
                Option.isNone_iff_eq_none] at typed
              rw [typed]
          | some action =>
              rw [held] at typed
              obtain ⟨action', held'⟩ := Option.isSome_iff_exists.mp typed
              rw [held']
              exact invoke_same same asserted held held' node

theorem fold_start_same (same : SameWhereTyped grammar grammar') (asserted : AllAsserted grammar)
    (fuel : Nat) (start : RuleId) (node : NodePtr) (context : Context CharT) :
    foldStart grammar' fuel start node context = foldStart grammar fuel start node context := by
  have typed := (same.rules start).typed
  unfold foldStart
  rw [fold_rule_same same asserted]
  cases held : (grammar.nonTerminal start).typedFold with
  | none =>
      rw [held, Option.isSome_none, Option.isSome_eq_false_iff, Option.isNone_iff_eq_none] at typed
      rw [typed]
  | some action =>
      rw [held] at typed
      obtain ⟨action', held'⟩ := Option.isSome_iff_exists.mp typed
      rw [held']
      exact invoke_same same asserted held held' (some node)

/-- An action is only ever called with arguments of the types of its body: what it would make of
others has no influence on `parse_ast`, from any context. -/
theorem actions_called_as_typed [PegValue CharT] (same : SameWhereTyped grammar grammar')
    (asserted : AllAsserted grammar) (fuel : Nat) (name : Str) (context : Context CharT) :
    parseAst grammar' fuel name context = parseAst grammar fuel name context := by
  have folds : ∀ rule node, foldStart grammar' fuel rule node = foldStart grammar fuel rule node :=
    fun rule node => funext fun here => fold_start_same same asserted fuel rule node here
  unfold parseAst
  rw [same.find, parse_tree_same same, fire_same same]
  simp only [folds]

/-- The number that two digits write, and `other` for anything else. -/
def twoDigits (other : Nat) : Action UInt8 Nat := fun _ _ values =>
  match values with
  | [.element tens, .element ones] => 10 * (tens.toNat - 48) + (ones.toNat - 48)
  | _ => other

def numbers (other : Nat) : Grammar UInt8 Nat where
  rules := [(ascii "N", {
    name := ascii "N"
    body := some (.sequence [.token (.range 48 57), .token (.range 48 57)])
    typedFold := some (twoDigits other) })]

theorem numbers_same (other other' : Nat) : SameWhereTyped (numbers other) (numbers other') where
  find := rfl
  skipper := rfl
  rules rule := by
    cases rule with
    | zero =>
        refine ⟨rfl, rfl, rfl, rfl, rfl, rfl, fun body action action' assigned held held' => ?_⟩
        obtain rfl := Option.some.inj assigned
        obtain rfl := Option.some.inj held
        obtain rfl := Option.some.inj held'
        intro context span values accepted
        cases accepted with
        | cons first rest =>
            cases first
            cases rest with
            | cons second rest =>
                cases second
                cases rest
                rfl
    | succ rule => exact ⟨rfl, rfl, rfl, rfl, rfl, rfl, fun _ _ _ assigned => by cases assigned⟩

theorem numbers_called_as_typed :
    (parseAst (numbers 0) 9 (ascii "N") (Context.fresh (ascii "42"))).outcome.value? = some (some 42) ∧
      parseAst (numbers 99) 9 (ascii "N") (Context.fresh (ascii "42")) =
        parseAst (numbers 0) 9 (ascii "N") (Context.fresh (ascii "42")) := by
  refine ⟨by decide +kernel, actions_called_as_typed (numbers_same 0 99) (fun rule body assigned => ?_) 9
    (ascii "N") (Context.fresh (ascii "42"))⟩
  cases rule with
  | zero =>
      obtain rfl := Option.some.inj assigned
      simp [Expr.Every, Expr.EveryAll, Asserted]
  | succ rule => cases assigned

end Actions

end Peglib.FoldTypes
