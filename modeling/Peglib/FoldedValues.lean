import Peglib.HookWalk

/-!
# What the typed fold computes

The values of an attribute grammar: a token is worth the element it matched, a
sequence the values of its parts, a repetition the list of its iterations, and a
rule with an action what the action makes of the value of its body. A rule
without an action is worth what the rule behind it is worth, and the default if
there is none. Where the static guesses of the fold are right, the fold of a
tree is the value of the derivation that the tree stands for.
-/

namespace Peglib.FoldedValues

open Peglib.TracedComputation
open Peglib.ParseError Peglib.ParseContext Peglib.Expressions Peglib.Rules Peglib.TypedFold
open Peglib.PegSemantics Peglib.Producers Peglib.DerivationTrees Peglib.TreeConstruction
open Peglib.HookWalk Peglib.SkippingRecursion
open Peglib.Termination (InRange MatcherInRange)

set_option autoImplicit false

variable {CharT NodeType : Type}

section Static

/-- An expression that never gives a node. -/
inductive Silent : Expr CharT → Prop
  | terminal (value) : Silent (.terminal value)
  | terminalSeq (values) : Silent (.terminalSeq values)
  | empty : Silent .empty
  | cut : Silent .cut
  | not (child) : Silent (.not child)
  | and (child) : Silent (.and child)
  | lexeme {child} : Silent child → Silent (.lexeme child)
  | alternation {branches} : (∀ branch ∈ branches, Silent branch) → Silent (.alternation branches)

/-- On a node that is there, the fold makes no difference between the expressions. -/
def FoldAlike (NodeType : Type) (expr expr' : Expr CharT) : Prop :=
  ∀ (foldRule : Option NodePtr → Outcome Exn NodeType) (context : Context CharT)
    (node : Option NodePtr) (fields : ParseTreeNode), deref context node = .returned fields →
    foldExpr foldRule context expr node 0 = foldExpr foldRule context expr' node 0

/-- An expression of which the fold guesses the nodes right: a void part of a sequence gives no
node or is a matcher, the parts with a value and the children of repetitions always give one, and
it does not matter which branch the fold takes. -/
inductive Foldable (grammar : Grammar CharT NodeType) (reach : RuleId → Prop) : Expr CharT → Prop
  | token (value) : Foldable grammar reach (.token value)
  | rule {id} : reach id → (grammar.nonTerminal id).recover.isSyncToken = none →
      Foldable grammar reach (.rule id)
  | lexeme {child} : Foldable grammar reach child → Foldable grammar reach (.lexeme child)
  | sequence {parts} :
      (∀ part ∈ parts, isVoid part = true → Silent part ∨ pushesNode part = true) →
      (∀ part ∈ parts, isVoid part = false → Foldable grammar reach part) →
      Foldable grammar reach (.sequence parts)
  | alternation {branches} : (∀ branch ∈ branches, isVoid branch = false) →
      (∀ branch ∈ branches, Foldable grammar reach branch) →
      (∀ branch ∈ branches, ∀ other ∈ branches, FoldAlike NodeType branch other) →
      Foldable grammar reach (.alternation branches)
  | repetition {kind child} : isVoid child = false → Foldable grammar reach child →
      Foldable grammar reach (.repetition kind child)

/-- A rule that may give an expression its node as it is. -/
inductive Behind (id : RuleId) : Expr CharT → Prop
  | rule : Behind id (.rule id)
  | lexeme {child} : Behind id child → Behind id (.lexeme child)
  | alternation {branches branch} : branch ∈ branches → Behind id branch →
      Behind id (.alternation branches)

/-- The rules of a set have bodies that can be folded, as far as their values are asked for. -/
structure Valued (grammar : Grammar CharT NodeType) (reach : RuleId → Prop) : Prop where
  typed : ∀ rule body action, reach rule → grammar.body rule = some body →
    (grammar.nonTerminal rule).typedFold = some action →
    isVoid body = true ∨ Foldable grammar reach body
  untyped : ∀ rule body, reach rule → grammar.body rule = some body →
    (grammar.nonTerminal rule).typedFold = none → ∀ id, Behind id body → reach id

end Static

section Meaning

variable [PegValue CharT] [Inhabited NodeType]

/-- What a stretch of the input is worth: to an expression, to the parts of a sequence, or to the
rule behind the node of an expression. -/
inductive Worth (CharT NodeType : Type) where
  | one (expr : Expr CharT) (value : Option (Val CharT NodeType))
  | parts (led : Bool) (exprs : List (Expr CharT)) (values : List (Val CharT NodeType))
  | behind (expr : Expr CharT) (value : NodeType)

def Reads (grammar : Grammar CharT NodeType) (input : List CharT) (stretch : Stretch CharT)
    (start stop : Nat) : Prop :=
  ∃ sealed arena, Accounts grammar input False sealed arena stretch start stop

/-- The values of derivations. Actions see `context`. -/
inductive Means (grammar : Grammar CharT NodeType) (context : Context CharT) :
    Worth CharT NodeType → Nat → Nat → Prop
  | void {expr tree start stop} : isVoid expr = true →
      Reads grammar context.input (.one expr tree) start stop →
      Means grammar context (.one expr none) start stop
  | token {value letter start stop} : consume context.input value start = some stop →
      context.input[start]? = some letter →
      Means grammar context (.one (.token value) (some (.element letter))) start stop
  | lexeme {child value start stop} : Means grammar context (.one child value) start stop →
      Means grammar context (.one (.lexeme child) value) start stop
  | branch {branches child value start stop} : child ∈ branches →
      Means grammar context (.one child value) start stop →
      Means grammar context (.one (.alternation branches) value) start stop
  | sequence {exprs values start stop} : Means grammar context (.parts false exprs values) start stop →
      Means grammar context (.one (.sequence exprs) (collapseValues values)) start stop
  | optional {child count values start stop} : count ≤ 1 →
      Means grammar context (.parts false (List.replicate count child) values) start stop →
      Means grammar context (.one (.repetition .optional child) (some (.optional values.head?)))
        start stop
  | vector {kind child count values start stop} : kind ≠ .optional → kind.minRep ≤ count →
      (0 < kind.maxRep → count ≤ kind.maxRep.toNat) →
      Means grammar context (.parts false (List.replicate count child) values) start stop →
      Means grammar context (.one (.repetition kind child) (some (.vector values))) start stop
  | done {led start} : Means grammar context (.parts led [] []) start start
  | first {expr exprs value values start middle stop} :
      Means grammar context (.one expr value) start middle →
      Means grammar context (.parts true exprs values) middle stop →
      Means grammar context (.parts false (expr :: exprs) (value.toList ++ values)) start stop
  | next {expr exprs value values start here middle stop} :
      Reads grammar context.input .gap start here →
      Means grammar context (.one expr value) here middle →
      Means grammar context (.parts true exprs values) middle stop →
      Means grammar context (.parts true (expr :: exprs) (value.toList ++ values)) start stop
  | rule {id value start stop} : Means grammar context (.behind (.rule id) value) start stop →
      Means grammar context (.one (.rule id) (some (.node value))) start stop
  | acted {id body action value start stop} : grammar.body id = some body →
      (grammar.nonTerminal id).typedFold = some action →
      Means grammar context (.one body value) start stop →
      Means grammar context
        (.behind (.rule id) (action context ⟨start, stop⟩ (arguments (resultOf body) value))) start stop
  | passed {id body value start stop} : grammar.body id = some body →
      (grammar.nonTerminal id).typedFold = none → Means grammar context (.behind body value) start stop →
      Means grammar context (.behind (.rule id) value) start stop
  | bare {id body start stop} : grammar.body id = some body →
      (grammar.nonTerminal id).typedFold = none →
      Reads grammar context.input (.one body none) start stop →
      Means grammar context (.behind (.rule id) default) start stop
  | lexemeBehind {child value start stop} : Means grammar context (.behind child value) start stop →
      Means grammar context (.behind (.lexeme child) value) start stop
  | branchBehind {branches child value start stop} : child ∈ branches →
      Means grammar context (.behind child value) start stop →
      Means grammar context (.behind (.alternation branches) value) start stop
  | plain {expr node start stop} : (∀ id, ¬Behind id expr) →
      Reads grammar context.input (.one expr (some node)) start stop →
      Means grammar context (.behind expr default) start stop

end Meaning

section Settling

variable {Value Other : Type}

/-- With enough fuel the outcome is the value. -/
def Settles (run : Nat → Outcome Exn Value) (value : Value) : Prop :=
  ∃ enough, ∀ fuel, enough ≤ fuel → run fuel = .returned value

theorem settles_returned (value : Value) : Settles (fun _ => .returned value) value :=
  ⟨0, fun _ _ => rfl⟩

theorem Settles.bind {run : Nat → Outcome Exn Value} {next : Nat → Value → Outcome Exn Other}
    {value : Value} {result : Other} (settles : Settles run value)
    (continues : Settles (fun fuel => next fuel value) result) :
    Settles (fun fuel => run fuel >>= next fuel) result := by
  obtain ⟨enough, first⟩ := settles
  obtain ⟨enough', second⟩ := continues
  refine ⟨max enough enough', fun fuel larger => ?_⟩
  have ran := first fuel (by omega)
  have rest := second fuel (by omega)
  simp only [ran]
  exact rest

theorem Settles.map {run : Nat → Outcome Exn Value} {value : Value} (settles : Settles run value)
    (view : Value → Other) :
    Settles (fun fuel => run fuel >>= fun value => pure (view value)) (view value) :=
  settles.bind (settles_returned (view value))

theorem Settles.congr {run run' : Nat → Outcome Exn Value} {value : Value} (settles : Settles run value)
    (same : ∀ fuel, run' fuel = run fuel) : Settles run' value := by
  obtain ⟨enough, ended⟩ := settles
  exact ⟨enough, fun fuel larger => (same fuel).trans (ended fuel larger)⟩

theorem Settles.later {run run' : Nat → Outcome Exn Value} {value : Value} (settles : Settles run value)
    (same : ∀ fuel, run' (fuel + 1) = run fuel) : Settles run' value := by
  obtain ⟨enough, ended⟩ := settles
  refine ⟨enough + 1, fun fuel larger => ?_⟩
  obtain ⟨less, rfl⟩ : ∃ less, fuel = less + 1 := ⟨fuel - 1, by omega⟩
  exact (same less).trans (ended less (by omega))

end Settling

section Folding

variable {foldRule : Option NodePtr → Outcome Exn NodeType} {context : Context CharT}

theorem returned_bind {Value Other : Type} (value : Value) (next : Value → Outcome Exn Other) :
    (Outcome.returned value >>= next) = next value := rfl

theorem deref_held {node : NodePtr} {fields : ParseTreeNode}
    (held : context.nodeArena[node]? = some fields) : deref context (some node) = .returned fields := by
  simp [deref, held]

/-- Among branches that fold alike the winner does not matter. -/
theorem fold_alt_alike {branches : List (Expr CharT)} {child : Expr CharT} {node : Option NodePtr}
    {fields : ParseTreeNode} (member : child ∈ branches) (there : deref context node = .returned fields)
    (alike : ∀ branch ∈ branches, ∀ other ∈ branches, FoldAlike NodeType branch other) (index : Nat) :
    foldAlt foldRule context index branches node 0 = foldExpr foldRule context child node 0 := by
  have each : ∀ branch ∈ branches,
      foldExpr foldRule context branch node 0 = foldExpr foldRule context child node 0 :=
    fun branch inside => alike branch inside child member foldRule context node fields there
  clear alike
  have nonempty : branches ≠ [] := List.ne_nil_of_mem member
  clear member
  induction branches generalizing index with
  | nil => exact absurd rfl nonempty
  | cons head tail induction =>
      cases tail with
      | nil =>
          rw [foldAlt]
          exact each head (by simp)
      | cons next rest =>
          have later := induction (index + 1)
            (fun branch inside => each branch (List.mem_cons_of_mem _ inside)) (by simp)
          rw [foldAlt, there]
          change (if fields.altWinner = some index then _ else _) = _
          split_ifs
          · exact each head (by simp)
          · exact later
          · simp

theorem fold_each_parts {child : Expr CharT} (valued : isVoid child = false) (fields : ParseTreeNode)
    (children passed : List (Option NodePtr)) (listed : fields.children = passed ++ children) :
    foldEach (fun below => foldExpr foldRule context child below 0) children =
      foldSeq foldRule context (List.replicate children.length child) fields passed.length := by
  induction children generalizing passed with
  | nil => rw [foldEach, List.length_nil, List.replicate_zero, foldSeq]
  | cons head tail induction =>
      have here : childAt fields passed.length = .returned head := by simp [childAt, listed]
      have later := induction (passed ++ [head]) (by simp [listed])
      rw [List.length_append, List.length_singleton] at later
      rw [foldEach, List.length_cons, List.replicate_succ, foldSeq, if_neg (by simp [valued]), here, later]
      rfl

theorem joined_nonempty {expr : Expr CharT} {exprs : List (Expr CharT)}
    {value : Option (Val CharT NodeType)} {values : List (Val CharT NodeType)}
    (single : isVoid expr = false → value.isSome = true)
    (filled : (∃ other ∈ exprs, isVoid other = false) → values ≠ []) :
    (∃ other ∈ expr :: exprs, isVoid other = false) → value.toList ++ values ≠ [] := by
  rintro ⟨other, member, nonvoid⟩ empty
  obtain ⟨first, rest⟩ := List.append_eq_nil_iff.mp empty
  rcases List.mem_cons.mp member with rfl | member
  · obtain ⟨inner, rfl⟩ := Option.isSome_iff_exists.mp (single nonvoid)
    cases first
  · exact filled ⟨other, member, nonvoid⟩ rest

theorem sequence_void {exprs : List (Expr CharT)} (void : ∀ expr ∈ exprs, isVoid expr = true) :
    isVoid (.sequence exprs) = true := by
  have none : (resultOfAll exprs).filter (fun part => !part.isVoid) = [] := by
    induction exprs with
    | nil => rfl
    | cons expr rest induction =>
        have here : (resultOf expr).isVoid = true := void expr (by simp)
        rw [resultOfAll, List.filter_cons, here]
        exact induction fun other member => void other (List.mem_cons_of_mem _ member)
  rw [isVoid, resultOf, none]
  rfl

theorem collapse_values_some {values : List (Val CharT NodeType)} (filled : values ≠ []) :
    ∃ value, collapseValues values = some value := by
  cases values with
  | nil => exact absurd rfl filled
  | cons first rest =>
      cases rest with
      | nil => exact ⟨first, rfl⟩
      | cons second rest => exact ⟨.tuple (first :: second :: rest), rfl⟩

theorem arguments_none (result : ResultType) :
    arguments result (none : Option (Val CharT NodeType)) = [] := by
  cases result <;> rfl

end Folding

section Trees

variable [PegValue CharT] {grammar : Grammar CharT NodeType} {reach : RuleId → Prop}
  {context : Context CharT} {sealed : Set NodePtr} {start stop : Nat}

theorem silent_treeless {input : List CharT} {arena : List ParseTreeNode} {expr : Expr CharT}
    {tree : Option NodePtr} (accounts : Accounts grammar input False sealed arena (.one expr tree) start stop)
    (silent : Silent expr) : tree = none := by
  induction silent generalizing tree start stop with
  | terminal _ | terminalSeq _ | empty | cut | not _ | and _ =>
      cases accounts
      rfl
  | lexeme _ induction =>
      cases accounts with
      | lexeme below => exact induction below
  | alternation _ induction =>
      cases accounts with
      | branch member below => exact induction _ member below

omit [PegValue CharT] in
theorem listed_held {arena : List ParseTreeNode} {node : NodePtr} {nodes : List NodePtr}
    (listed : Preorder arena [some node] nodes) : ∃ fields, arena[node]? = some fields := by
  cases listed with
  | node held _ _ => exact ⟨_, held⟩

theorem parts_there {input : List CharT} {arena : List ParseTreeNode} {led : Bool}
    {exprs : List (Expr CharT)} {children : List (Option NodePtr)}
    (accounts : Accounts grammar input False sealed arena (.parts led exprs children) start stop) :
    ∀ child ∈ children, ∃ node, child = some node := by
  have single : ∀ tree : Option NodePtr, ∀ child ∈ pushed tree, ∃ node, child = some node := by
    intro tree child member
    cases tree with
    | none => cases member
    | some node => exact ⟨node, by simpa [pushed] using member⟩
  induction exprs generalizing led children start with
  | nil =>
      cases accounts
      simp
  | cons expr rest induction =>
      intro child member
      cases accounts with
      | first _ parts | next _ _ parts =>
          exact (List.mem_append.mp member).elim (single _ child) (induction parts child)

variable [Inhabited NodeType]

def Folds (grammar : Grammar CharT NodeType) (reach : RuleId → Prop) (context : Context CharT) :
    Stretch CharT → Nat → Nat → Prop
  | .one expr tree, start, stop =>
      (Foldable grammar reach expr → isVoid expr = false →
        (∃ fields, deref context tree = .returned fields) ∧
        ∃ value, Means grammar context (.one expr (some value)) start stop ∧
          Settles (fun fuel => foldExpr (foldRule grammar context fuel) context expr tree 0)
            (some value)) ∧
      ∀ node, tree = some node → (∀ id, Behind id expr → reach id) →
        ∃ value, Means grammar context (.behind expr value) start stop ∧
          Settles (fun fuel => foldRule grammar context fuel (some node)) value
  | .parts led exprs children, start, stop =>
      (∀ expr ∈ exprs, isVoid expr = true → Silent expr ∨ pushesNode expr = true) →
      (∀ expr ∈ exprs, isVoid expr = false → Foldable grammar reach expr) →
      ∃ values, Means grammar context (.parts led exprs values) start stop ∧
        (∀ fields passed, fields.children = passed ++ children → Settles (fun fuel =>
          foldSeq (foldRule grammar context fuel) context exprs fields passed.length) values) ∧
        ((∀ expr ∈ exprs, isVoid expr = false) → children.length = exprs.length) ∧
        ((∃ expr ∈ exprs, isVoid expr = false) → values ≠ [])
  | .gap, _, _ => True

theorem part_folds {expr : Expr CharT} {tree : Option NodePtr}
    (read : Accounts grammar context.input False sealed context.nodeArena (.one expr tree) start stop)
    (folds : Folds grammar reach context (.one expr tree) start stop)
    (guessed : isVoid expr = true → Silent expr ∨ pushesNode expr = true)
    (foldable : isVoid expr = false → Foldable grammar reach expr) :
    ∃ value, Means grammar context (.one expr value) start stop ∧
      (∀ exprs children values, (∀ fields passed, fields.children = passed ++ children →
          Settles (fun fuel => foldSeq (foldRule grammar context fuel) context exprs fields passed.length)
            values) →
        ∀ fields passed, fields.children = passed ++ (pushed tree ++ children) →
          Settles (fun fuel => foldSeq (foldRule grammar context fuel) context (expr :: exprs) fields
            passed.length) (value.toList ++ values)) ∧
      (isVoid expr = false → (pushed tree).length = 1 ∧ value.isSome = true) := by
  cases valued : isVoid expr with
  | true =>
      refine ⟨none, .void valued ⟨sealed, context.nodeArena, read⟩, ?_, by simp⟩
      intro exprs children values rest fields passed listed
      have moves : (if pushesNode expr then passed.length + 1 else passed.length) =
          (passed ++ pushed tree).length := by
        rcases guessed valued with silent | matches_
        · have absent : pushesNode expr = false := by cases silent <;> rfl
          rw [silent_treeless read silent, absent]
          simp [pushed]
        · cases expr with
          | matcher fn =>
              cases read
              simp [pushed, pushesNode]
          | _ => cases matches_
      refine (rest fields (passed ++ pushed tree) (by simp [listed])).congr fun fuel => ?_
      rw [foldSeq, if_pos valued, moves]
  | false =>
      obtain ⟨⟨held, there⟩, value, means, settles⟩ := folds.1 (foldable valued) valued
      refine ⟨some value, means, ?_, fun _ => ?_⟩
      · intro exprs children values rest fields passed listed
        cases tree with
        | none => cases there
        | some node =>
            have here : childAt fields passed.length = .returned (some node) := by
              simp [childAt, listed, pushed]
            have later := rest fields (passed ++ [some node]) (by simp [listed, pushed])
            rw [List.length_append, List.length_singleton] at later
            have whole : Settles (fun fuel =>
                foldExpr (foldRule grammar context fuel) context expr (some node) 0 >>= fun value =>
                  foldSeq (foldRule grammar context fuel) context exprs fields (passed.length + 1) >>=
                    fun values => pure (value.toList ++ values)) ((some value).toList ++ values) :=
              settles.bind (later.bind (settles_returned _))
            refine whole.congr fun fuel => ?_
            rw [foldSeq, if_neg (by simp [valued]), here]
            rfl
      · cases tree with
        | none => cases there
        | some node => exact ⟨rfl, rfl⟩

omit [PegValue CharT] in
/-- A node that no typed rule produced is worth the default. -/
theorem fold_untyped {node : NodePtr} (untyped : Untyped grammar context.nodeArena node) :
    Settles (fun fuel => foldRule grammar context fuel (some node)) default := by
  obtain ⟨fields, held, plain⟩ := untyped
  refine (settles_returned default).later fun fuel => ?_
  rw [foldRule, deref_held held, returned_bind]
  cases produced : fields.producer with
  | none => rfl
  | some producer => simp only [plain producer produced]; rfl

theorem plain_folds {expr : Expr CharT} {node : NodePtr}
    (read : Accounts grammar context.input False sealed context.nodeArena (.one expr (some node)) start stop)
    (untyped : Untyped grammar context.nodeArena node) (plain : ∀ id, ¬Behind id expr) :
    ∀ other, some node = some other → (∀ id, Behind id expr → reach id) →
      ∃ value, Means grammar context (.behind expr value) start stop ∧
        Settles (fun fuel => foldRule grammar context fuel (some other)) value := by
  intro other same _
  obtain rfl := Option.some.inj same
  exact ⟨default, .plain plain ⟨sealed, context.nodeArena, read⟩, fold_untyped untyped⟩

omit [PegValue CharT] in
/-- The node that a typed rule produced is folded by its action. -/
theorem produced_fold {node : NodePtr} {fields : ParseTreeNode} {rule : RuleId}
    {action : Action CharT NodeType} {fuel : Nat} (held : context.nodeArena[node]? = some fields)
    (produced : fields.producer = some rule)
    (typed : (grammar.nonTerminal rule).typedFold = some action) :
    foldRule grammar context (fuel + 1) (some node) =
      foldAndInvoke grammar context (foldRule grammar context fuel) rule action (some node) := by
  rw [foldRule, deref_held held, returned_bind]
  simp only [produced, typed]

/-- The node of a typed rule is worth what the action makes of the value of the body. -/
theorem wrapped_folds {rule : RuleId} {body : Expr CharT} {action : Action CharT NodeType}
    {tree : Option NodePtr} {node : NodePtr} (valued : Valued grammar reach) (reached : reach rule)
    (assigned : grammar.body rule = some body)
    (typed : (grammar.nonTerminal rule).typedFold = some action)
    (read : Accounts grammar context.input False sealed context.nodeArena (.one body tree) start stop)
    (folds : Folds grammar reach context (.one body tree) start stop)
    (placed : NodeAt sealed context.nodeArena node (pushed tree) start stop)
    (produced : Produced context.nodeArena node rule) :
    ∃ value, Means grammar context (.behind (.rule rule) value) start stop ∧
      Settles (fun fuel => foldRule grammar context fuel (some node)) value := by
  obtain ⟨fields, held, below, rfl, rfl⟩ := placed.held
  obtain ⟨fields', held', producer⟩ := produced
  obtain rfl := Option.some.inj (held.symm.trans held')
  have invoked := fun fuel => @produced_fold _ _ grammar context _ node fields rule action fuel held producer
    typed
  cases void : isVoid body with
  | true =>
      refine ⟨_, .acted assigned typed (.void void ⟨sealed, context.nodeArena, read⟩), ?_⟩
      refine (settles_returned _).later fun fuel => ?_
      rw [invoked fuel, foldAndInvoke, deref_held held, assigned]
      change (if isVoid body = true then _ else _) = _
      rw [if_pos void, arguments_none]
      rfl
  | false =>
      have foldable : Foldable grammar reach body :=
        (valued.typed rule body action reached assigned typed).resolve_left (by simp [void])
      obtain ⟨⟨below', there⟩, value, means, settles⟩ := folds.1 foldable void
      refine ⟨_, .acted assigned typed means, ?_⟩
      have top : fields.children.headD (some node) = tree := by
        cases tree with
        | none => cases there
        | some inner => simp [below, pushed]
      refine (settles.map fun value => action context ⟨fields.startOffset, fields.endOffset⟩
        (arguments (resultOf body) value)).later fun fuel => ?_
      rw [invoked fuel, foldAndInvoke, deref_held held, assigned]
      change (if isVoid body = true then _ else _) = _
      rw [if_neg (by simp [void]), top]

theorem repetition_folds {kind : RepKind} {child : Expr CharT} {count : Nat}
    {children : List (Option NodePtr)} {fields : ParseTreeNode} {node : NodePtr}
    (valued : isVoid child = false) (enough : kind.minRep ≤ count)
    (few : 0 < kind.maxRep → count ≤ kind.maxRep.toNat) (same : children.length = count)
    (there : ∀ child ∈ children, ∃ node, child = some node)
    (held : context.nodeArena[node]? = some fields) (below : fields.children = children)
    {values : List (Val CharT NodeType)}
    (means : Means grammar context (.parts false (List.replicate count child) values) start stop)
    (settles : ∀ fields passed, fields.children = passed ++ children → Settles (fun fuel =>
      foldSeq (foldRule grammar context fuel) context (List.replicate count child) fields passed.length)
      values) :
    ∃ value, Means grammar context (.one (.repetition kind child) (some value)) start stop ∧
      Settles (fun fuel => foldExpr (foldRule grammar context fuel) context (.repetition kind child)
        (some node) 0) (some value) := by
  have settled := settles fields [] below
  by_cases optional : kind = .optional
  · subst optional
    have single : count ≤ 1 := few (by decide)
    refine ⟨_, .optional single means, ?_⟩
    obtain ⟨larger, ended⟩ := settled
    refine ⟨larger, fun fuel more => ?_⟩
    have ran : foldSeq (foldRule grammar context fuel) context (List.replicate count child) fields 0 =
        .returned values := ended fuel more
    dsimp only
    rw [foldExpr, if_neg (by simp [valued]), if_pos rfl, deref_held held, returned_bind]
    cases children with
    | nil =>
        obtain rfl : 0 = count := same
        rw [List.replicate_zero, foldSeq] at ran
        obtain rfl : [] = values := Outcome.returned.inj ran
        rw [below]
        rfl
    | cons first rest =>
        obtain rfl : 1 = count := by
          rw [List.length_cons] at same
          omega
        obtain rfl : rest = [] := List.length_eq_zero_iff.mp (by simpa using same)
        obtain ⟨inner, rfl⟩ := there first (by simp)
        have top : childAt fields 0 = .returned (some inner) := by simp [childAt, below]
        rw [List.replicate_one, foldSeq, if_neg (by simp [valued]), top, foldSeq] at ran
        change ((foldExpr (foldRule grammar context fuel) context child (some inner) 0) >>=
          fun value => .returned (value.toList ++ [])) = Outcome.returned values at ran
        rw [below]
        change ((foldExpr (foldRule grammar context fuel) context child (some inner) 0) >>=
          fun value => pure (some (Val.optional value))) = _
        cases folded : foldExpr (foldRule grammar context fuel) context child (some inner) 0 with
        | returned value =>
            rw [folded] at ran
            obtain rfl : value.toList ++ [] = values := Outcome.returned.inj ran
            cases value <;> rfl
        | thrown exn =>
            rw [folded] at ran
            cases ran
        | exhausted =>
            rw [folded] at ran
            cases ran
  · refine ⟨_, .vector optional enough few means, ?_⟩
    refine (settled.map fun values => some (Val.vector values)).congr fun fuel => ?_
    rw [foldExpr, if_neg (by simp [valued]), if_neg optional, deref_held held]
    have each := @fold_each_parts _ _ (foldRule grammar context fuel) context child valued fields children []
      below
    rw [same] at each
    rw [← each, ← below]
    rfl

/-- A reference to a rule is worth what is behind its node. -/
theorem rule_folds {rule : RuleId} {node : NodePtr} {fields : ParseTreeNode}
    (held : context.nodeArena[node]? = some fields)
    (behind : reach rule → ∃ value, Means grammar context (.behind (.rule rule) value) start stop ∧
      Settles (fun fuel => foldRule grammar context fuel (some node)) value) :
    Folds grammar reach context (.one (.rule rule) (some node)) start stop := by
  refine ⟨fun foldable _ => ⟨⟨fields, deref_held held⟩, ?_⟩, ?_⟩
  · cases foldable with
    | rule reached _ =>
        obtain ⟨value, means, settles⟩ := behind reached
        refine ⟨_, .rule means, (settles.map fun value => some (Val.node value)).congr fun fuel => ?_⟩
        rw [foldExpr]
  · intro other same reached
    obtain rfl := Option.some.inj same
    exact behind (reached rule .rule)

theorem accounts_folds (valued : Valued grammar reach) {stretch : Stretch CharT}
    (accounts : Accounts grammar context.input False sealed context.nodeArena stretch start stop) :
    Folds grammar reach context stretch start stop := by
  induction accounts with
  | terminal _ | terminalSeq _ | empty | cut | not | and _ _ =>
      exact ⟨fun foldable => (by cases foldable), fun node tree => (by cases tree)⟩
  | @token value start stop node consumed placed untyped =>
      obtain ⟨fields, held, -, rfl, -⟩ := placed.held
      refine ⟨fun _ _ => ⟨⟨fields, deref_held held⟩, ?_⟩, ?_⟩
      · obtain ⟨rfl, inside⟩ := consume_bounds consumed
        have letter := List.getElem?_eq_getElem inside
        refine ⟨_, .token consumed letter, ⟨0, fun fuel _ => ?_⟩⟩
        dsimp only
        rw [foldExpr, deref_held held]
        change (elementAt context fields.startOffset >>= fun letter => pure (some (Val.element letter))) = _
        rw [elementAt, letter]
        rfl
      · exact plain_folds (.token consumed placed untyped) untyped fun id behind => by cases behind
  | matcher source found consumed placed untyped =>
      exact ⟨fun foldable => (by cases foldable),
        plain_folds (.matcher source found consumed placed untyped) untyped fun id behind => by
          cases behind⟩
  | @lexeme child tree start stop read induction =>
      refine ⟨fun foldable nonvoid => ?_, fun node same reached => ?_⟩
      · cases foldable with
        | lexeme foldable =>
            have nonvoid : isVoid child = false := by simpa [isVoid, resultOf] using nonvoid
            obtain ⟨there, value, means, settles⟩ := induction.1 foldable nonvoid
            exact ⟨there, value, .lexeme means, settles.congr fun fuel => by rw [foldExpr]⟩
      · obtain ⟨value, means, settles⟩ :=
          induction.2 node same fun id behind => reached id (.lexeme behind)
        exact ⟨value, .lexemeBehind means, settles⟩
  | @branch branches child tree start stop member read induction =>
      refine ⟨fun foldable _ => ?_, fun node same reached => ?_⟩
      · cases foldable with
        | alternation nonvoid foldable alike =>
            obtain ⟨⟨fields, there⟩, value, means, settles⟩ :=
              induction.1 (foldable child member) (nonvoid child member)
            refine ⟨⟨fields, there⟩, value, .branch member means, settles.congr fun fuel => ?_⟩
            rw [foldExpr]
            exact fold_alt_alike member there alike 0
      · obtain ⟨value, means, settles⟩ :=
          induction.2 node same fun id behind => reached id (.alternation member behind)
        exact ⟨value, .branchBehind member means, settles⟩
  | @sequence exprs children start stop node read placed untyped induction =>
      refine ⟨fun foldable nonvoid => ?_,
        plain_folds (.sequence read placed untyped) untyped fun id behind => by cases behind⟩
      obtain ⟨fields, held, below, -⟩ := placed.held
      cases foldable with
      | sequence guessed foldable =>
          obtain ⟨values, means, settles, -, filled⟩ := induction guessed foldable
          have valuable : ∃ expr ∈ exprs, isVoid expr = false := by
            by_contra absent
            have void : ∀ expr ∈ exprs, isVoid expr = true := by
              intro expr member
              by_contra other
              exact absent ⟨expr, member, by simpa using other⟩
            rw [sequence_void void] at nonvoid
            cases nonvoid
          obtain ⟨value, collapsed⟩ := collapse_values_some (filled valuable)
          refine ⟨⟨fields, deref_held held⟩, value, collapsed ▸ .sequence means, ?_⟩
          have whole := (settles fields [] below).map collapseValues
          rw [collapsed] at whole
          refine whole.congr fun fuel => ?_
          obtain ⟨expr, member, valued⟩ := valuable
          rw [foldExpr, if_neg (fun all => by
            rw [List.all_eq_true.mp all expr member] at valued
            cases valued), deref_held held]
          rfl
  | @repetition kind child count children pads start stop node enough few read padded placed untyped
      induction =>
      refine ⟨fun foldable _ => ?_,
        plain_folds (.repetition enough few read padded placed untyped) untyped fun id behind => by
          cases behind⟩
      obtain ⟨fields, held, below, -⟩ := placed.held
      cases foldable with
      | repetition nonvoid foldable =>
          have every : ∀ part ∈ List.replicate count child, part = child :=
            fun part member => List.eq_of_mem_replicate member
          obtain ⟨values, means, settles, same, -⟩ := induction
            (fun part member void => by rw [every part member, nonvoid] at void; cases void)
            (fun part member _ => every part member ▸ foldable)
          have same := same fun part member => every part member ▸ nonvoid
          rw [List.length_replicate] at same
          obtain rfl : pads = 0 := by omega
          rw [List.replicate_zero, List.append_nil] at below
          exact ⟨⟨fields, deref_held held⟩, repetition_folds nonvoid enough few same (parts_there read)
            held below means settles⟩
  | done =>
      intro _ _
      refine ⟨[], .done, fun fields passed _ => (settles_returned []).congr fun fuel => ?_,
        fun _ => rfl, by simp⟩
      rw [foldSeq]
      rfl
  | @first expr tree exprs children start middle stop one rest part parts =>
      intro guessed foldable
      obtain ⟨value, means, joins, single⟩ := part_folds one part (guessed expr (by simp))
        (foldable expr (by simp))
      obtain ⟨values, means', settles, same, filled⟩ :=
        parts (fun other member => guessed other (List.mem_cons_of_mem _ member))
          fun other member => foldable other (List.mem_cons_of_mem _ member)
      refine ⟨_, .first means means', joins exprs children values settles, fun nonvoid => ?_,
        joined_nonempty (fun nonvoid => (single nonvoid).2) filled⟩
      rw [List.length_append, (single (nonvoid expr (by simp))).1,
        same fun other member => nonvoid other (List.mem_cons_of_mem _ member), List.length_cons,
        Nat.add_comm]
  | @next expr tree exprs children start here middle stop gap one rest _ part parts =>
      intro guessed foldable
      obtain ⟨value, means, joins, single⟩ := part_folds one part (guessed expr (by simp))
        (foldable expr (by simp))
      obtain ⟨values, means', settles, same, filled⟩ :=
        parts (fun other member => guessed other (List.mem_cons_of_mem _ member))
          fun other member => foldable other (List.mem_cons_of_mem _ member)
      refine ⟨_, .next ⟨sealed, context.nodeArena, gap⟩ means means',
        joins exprs children values settles, fun nonvoid => ?_,
        joined_nonempty (fun nonvoid => (single nonvoid).2) filled⟩
      rw [List.length_append, (single (nonvoid expr (by simp))).1,
        same fun other member => nonvoid other (List.mem_cons_of_mem _ member), List.length_cons,
        Nat.add_comm]
  | still => exact True.intro
  | skipped _ _ _ => exact True.intro
  | wrapped assigned typed read placed produced induction =>
      obtain ⟨fields, held, -⟩ := placed.held
      obtain ⟨action, typed⟩ := Option.isSome_iff_exists.mp typed
      exact rule_folds held fun reached =>
        wrapped_folds valued reached assigned typed read induction placed produced
  | @adopted rule body start stop node assigned typed read induction =>
      obtain ⟨_, listed⟩ := accounts_listed read
      obtain ⟨fields, held⟩ := listed_held listed
      refine rule_folds held fun reached => ?_
      obtain ⟨value, means, settles⟩ :=
        induction.2 node rfl (valued.untyped rule body reached assigned typed)
      exact ⟨value, .passed assigned typed means, settles⟩
  | bare assigned typed read placed untyped induction =>
      obtain ⟨fields, held, -⟩ := placed.held
      exact rule_folds held fun _ =>
        ⟨default, .bare assigned typed ⟨sealed, context.nodeArena, read⟩, fold_untyped untyped⟩
  | seed impossible => exact impossible.elim
  | recovered configured =>
      refine ⟨fun foldable => ?_, fun node same => (by cases same)⟩
      cases foldable with
      | rule _ plain =>
          rw [plain] at configured
          cases configured

/-- The fold of the root by the start rule is the fold by its producer. -/
theorem start_folds {rule : RuleId} {root : NodePtr} {value : NodeType}
    (accounts : Accounts grammar context.input False sealed context.nodeArena (.one (.rule rule) (some root))
      start stop)
    (settles : Settles (fun fuel => foldRule grammar context fuel (some root)) value) :
    Settles (fun fuel => foldStart grammar fuel rule root context) value := by
  cases typed : (grammar.nonTerminal rule).typedFold with
  | none =>
      refine settles.congr fun fuel => ?_
      rw [foldStart, typed]
  | some action =>
      obtain ⟨enough, ended⟩ := settles
      refine ⟨enough, fun fuel larger => ?_⟩
      have folded : foldRule grammar context (fuel + 1) (some root) = .returned value :=
        ended (fuel + 1) (by omega)
      cases accounts with
      | wrapped _ _ _ _ produced =>
          obtain ⟨fields, held, producer⟩ := produced
          rw [produced_fold held producer typed] at folded
          dsimp only
          rw [foldStart, typed]
          exact folded
      | adopted _ absent _ | bare _ absent _ _ _ => simp [typed] at absent
      | seed impossible => exact impossible.elim

end Trees

section Values

variable [PegValue CharT] [Inhabited NodeType] {grammar : Grammar CharT NodeType} {reach : RuleId → Prop}
  {start : RuleId} {name : Str} {fuel : Nat} {root : NodePtr}

/-- In a grammar that reenters no rule and whose bodies can be folded, `parse_ast` answers the
value of a derivation of what was read after the leading skip. -/
theorem parse_ast_means (inRange : InRange grammar) (free : ReentryFree grammar)
    (valued : Valued grammar reach) (reached : reach start) (found : grammar.find name = some start)
    (input : List CharT) {last : Context CharT} {parsed : List (Moment CharT)}
    (run : grammar.parseTree fuel name (Context.fresh input) =
      ⟨.returned (some root), last, parsed⟩) :
    ∃ value, Means grammar last (.behind (.rule start) value)
        (grammar.leadingSkip fuel (Context.fresh input)).state.position last.position ∧
      ∃ enough, ∀ more, enough ≤ more →
        (parseAst grammar more name (Context.fresh input)).outcome = .returned (some value) := by
  have returned : (grammar.parseTree fuel name (Context.fresh input)).outcome =
      .returned (some root) := by rw [run]
  have delivered := @parse_tree_delivers _ _ _ grammar False inRange input fuel name start found root
    returned fun moment member => (parse_tree_calm inRange found input fuel moment member).imp_right
      fun reenters => reenters free
  rw [run] at delivered
  have source : last.input = input := delivered.steady.sound.source
  have accounts : Accounts grammar last.input False Set.univ last.nodeArena (.one (.rule start) (some root))
      (grammar.leadingSkip fuel (Context.fresh input)).state.position last.position :=
    source.symm ▸ delivered.accounts
  obtain ⟨value, means, settles⟩ := (accounts_folds valued accounts).2 root rfl fun id behind => by
    cases behind
    exact reached
  obtain ⟨deep, folded⟩ := start_folds accounts settles
  obtain ⟨nodes, whole⟩ := accounts_listed accounts
  cases whole with
  | @node _ fields below _ _ held inside after =>
      obtain ⟨enough, walked⟩ := @fire_all _ _ grammar _ _ _ inside
      refine ⟨value, means, max (max fuel enough + 1) deep, fun more larger => ?_⟩
      obtain ⟨less, rfl⟩ : ∃ less, more = less + 1 := ⟨more - 1, by omega⟩
      have visited := @fire_node _ _ grammar (some start) root fields less last _ held
        (walked less (by omega) last rfl)
      have settled := parse_tree_settled returned (show fuel ≤ less + 1 by omega)
      rw [run] at settled
      have ended : foldStart grammar (less + 1) start root last = .returned value :=
        folded (less + 1) (by omega)
      rw [parse_ast_run found settled visited, ended]
      rfl

end Values

section DigitSums

/-- The elements and nodes that an action is given, added up. -/
def total (arguments : List (Val UInt8 Nat)) : Nat :=
  match arguments with
  | [.element letter] => letter.toNat - 48
  | [.node first, .vector others] => others.foldl (fun sum other =>
      match other with
      | .node value => sum + value
      | _ => sum) first
  | _ => 0

/-- `S = N >> *('+' >> N)` and `N = token('0'..'9')`, with actions that add up the digits. -/
def digitSums : Grammar UInt8 Nat where
  rules := [
    (ascii "S", {
      body := some (.sequence [.rule 1,
        .repetition .zeroOrMore (.sequence [.terminal (.value 43), .rule 1])])
      typedFold := some fun _ _ arguments => total arguments }),
    (ascii "N", {
      body := some (.token (.range 48 57))
      typedFold := some fun _ _ arguments => total arguments })]

theorem digit_sums_bodies {holds : RuleId → Expr UInt8 → Prop} {rule : RuleId} {body : Expr UInt8}
    (assigned : digitSums.body rule = some body)
    (sum : holds 0 (.sequence [.rule 1,
      .repetition .zeroOrMore (.sequence [.terminal (.value 43), .rule 1])]))
    (digit : holds 1 (.token (.range 48 57))) : holds rule body := by
  match rule with
  | 0 | 1 =>
      obtain rfl := Option.some.inj assigned
      assumption
  | _ + 2 => cases assigned

/-- `S` may start `N`, which starts nothing. -/
theorem digit_sums_free : ReentryFree digitSums := by
  refine @reentry_free_of_rank _ _ _ (fun rule => if rule = 0 then 1 else 0) ?_
  rintro ⟨rule, on⟩ callee ⟨body, assigned, starts⟩
  revert starts
  refine @digit_sums_bodies (fun rule body => Starts digitSums on body callee →
    (if callee.1 = 0 then 1 else 0) < (if rule = 0 then 1 else 0)) rule body assigned ?_ ?_
  · intro starts
    have other : callee.1 ≠ 0 := by
      refine @Starts.part _ _ _ (fun part => ∀ id, part = .rule id → id ≠ 0) _ _ _ starts ?_ ?_ _ rfl
      · simp [Expr.Every, Expr.EveryAll]
      · simp [digitSums]
    simp [other]
  · intro starts
    cases starts

theorem digit_sums_valued : Valued digitSums fun _ => True := by
  have named : ∀ id, (digitSums.nonTerminal id).recover.isSyncToken = none := by
    intro id
    match id with
    | 0 | 1 | _ + 2 => rfl
  refine ⟨fun rule body _ _ assigned _ => Or.inr ?_, fun _ _ _ _ _ _ _ => True.intro⟩
  refine @digit_sums_bodies (fun _ body => Foldable digitSums (fun _ => True) body) rule body assigned ?_ ?_
  · refine .sequence (fun part member void => ?_) fun part member _ => ?_
    · simp only [List.mem_cons, List.not_mem_nil, or_false] at member
      rcases member with rfl | rfl <;> cases void
    · simp only [List.mem_cons, List.not_mem_nil, or_false] at member
      rcases member with rfl | rfl
      · exact .rule True.intro (named 1)
      · refine .repetition rfl (.sequence (fun part member void => ?_) fun part member valued => ?_)
        · simp only [List.mem_cons, List.not_mem_nil, or_false] at member
          rcases member with rfl | rfl
          · exact Or.inl (.terminal _)
          · cases void
        · simp only [List.mem_cons, List.not_mem_nil, or_false] at member
          rcases member with rfl | rfl
          · cases valued
          · exact .rule True.intro (named 1)
  · exact .token _

theorem digit_sums_in_range : InRange digitSums := by
  intro rule body assigned
  refine @digit_sums_bodies (fun _ body => body.Every MatcherInRange) rule body assigned ?_ ?_
  · simp [Expr.Every, Expr.EveryAll, MatcherInRange]
  · simp [Expr.Every, MatcherInRange]

/-- "1+2+4" is worth what its derivation is worth. -/
theorem digit_sums_mean :
    let last := (digitSums.parseTree 8 (ascii "S") (Context.fresh (ascii "1+2+4"))).state
    ∃ value, Means digitSums last (.behind (.rule 0) value)
        (digitSums.leadingSkip 8 (Context.fresh (ascii "1+2+4"))).state.position last.position ∧
      ∃ enough, ∀ more, enough ≤ more →
        (parseAst digitSums more (ascii "S") (Context.fresh (ascii "1+2+4"))).outcome =
          .returned (some value) := by
  intro last
  have ended : (digitSums.parseTree 8 (ascii "S") (Context.fresh (ascii "1+2+4"))).outcome =
      .returned (some 19) := Outcome.value_eq_some.mp (by decide +kernel)
  rcases run : digitSums.parseTree 8 (ascii "S") (Context.fresh (ascii "1+2+4")) with
    ⟨outcome, final, parsed⟩
  rw [run] at ended
  obtain rfl : outcome = .returned (some 19) := ended
  have same : last = final := congrArg Run.state run
  rw [same]
  exact parse_ast_means digit_sums_in_range digit_sums_free digit_sums_valued True.intro
    (show digitSums.find (ascii "S") = some 0 by decide) (ascii "1+2+4") run

example : (parseAst digitSums 20 (ascii "S") (Context.fresh (ascii "1+2+4"))).outcome.value? =
    some (some 7) := by decide +kernel

end DigitSums

end Peglib.FoldedValues
