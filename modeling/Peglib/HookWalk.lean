import Peglib.EngineSteps
import Peglib.TreeConstruction
import Peglib.TypedFold

/-!
# The walk that fires the hooks

`parse_ast` walks the tree once before it folds it. The walk ends, visits every
node at every place it has in the tree, parents before children and earlier
input before later, and it is the only part of the call that fires hooks.
-/

namespace Peglib.HookWalk

open Peglib.TracedComputation Peglib.LoggedSteps Peglib.EngineSteps
open Peglib.ParseError Peglib.ParseContext Peglib.Expressions Peglib.Rules Peglib.TypedFold
open Peglib.CommittedNodes Peglib.SpanNesting Peglib.DerivationTrees Peglib.TreeConstruction
open Peglib.Parametricity (leading_skip_related)
open Peglib.Halting (Extends extends_refl extends_bind extends_catching)
open Peglib.Termination (InRange MatcherInRange extends_rules apply_extends)
open Peglib.EntryPoints (boundary)

set_option autoImplicit false

variable {CharT NodeType : Type}

section Order

/-- The nodes below a list of children in pre-order; a shared node once for every place. -/
inductive Preorder (arena : List ParseTreeNode) : List (Option NodePtr) → List NodePtr → Prop
  | nil : Preorder arena [] []
  | absent {rest nodes} : Preorder arena rest nodes → Preorder arena (none :: rest) nodes
  | node {node fields below rest nodes} : arena[node]? = some fields →
      Preorder arena fields.children below → Preorder arena rest nodes →
      Preorder arena (some node :: rest) (node :: (below ++ nodes))

/-- A node in front of another in document order: the later one is inside it or after it. -/
def Precedes (arena : List ParseTreeNode) (earlier later : NodePtr) : Prop :=
  ∃ start stop start' stop', Spans arena earlier start stop ∧ Spans arena later start' stop' ∧
    start ≤ start' ∧ (stop' ≤ stop ∨ stop ≤ start')

variable {arena : List ParseTreeNode} {children rest : List (Option NodePtr)} {nodes : List NodePtr}

theorem Preorder.append {later : List NodePtr} (first : Preorder arena children nodes)
    (second : Preorder arena rest later) : Preorder arena (children ++ rest) (nodes ++ later) := by
  induction first with
  | nil => exact second
  | absent _ induction => exact .absent induction
  | node held below _ _ induction =>
      rw [List.cons_append, List.cons_append, List.append_assoc]
      exact .node held below induction

theorem Preorder.padding (arena : List ParseTreeNode) (count : Nat) :
    Preorder arena (List.replicate count none) [] := by
  induction count with
  | zero => exact .nil
  | succ count induction => exact .absent induction

theorem Preorder.child {node : NodePtr} (listed : Preorder arena children nodes)
    (member : node ∈ nodes) : some node ∈ children ∨ ∃ parent, Child arena parent node := by
  induction listed with
  | nil => cases member
  | absent _ induction => exact (induction member).imp (List.mem_cons_of_mem _) id
  | @node other fields below rest nodes held _ _ inside after =>
      simp only [List.mem_cons, List.mem_append] at member
      rcases member with rfl | member | member
      · exact Or.inl (by simp)
      · rcases inside member with top | deeper
        · exact Or.inr ⟨other, fields, held, top⟩
        · exact Or.inr deeper
      · exact (after member).imp (List.mem_cons_of_mem _) id

theorem Preorder.placed {node : NodePtr} {sealed : Set NodePtr} {start stop : Nat}
    (placed : NodeAt sealed arena node children start stop) (below : Preorder arena children nodes) :
    Preorder arena [some node] (node :: nodes) := by
  obtain ⟨fields, held, same, -⟩ := placed.held
  rw [← same] at below
  simpa using Preorder.node held below .nil

theorem Preorder.ordered {start stop : Nat} (listed : Preorder arena children nodes)
    (ordered : Ordered arena start children stop)
    (orderly : ∀ node ∈ nodes, Orderly arena node) :
    (∀ node ∈ nodes, ∃ left right, Spans arena node left right ∧ start ≤ left ∧ left ≤ right ∧
      right ≤ stop) ∧ nodes.Pairwise (Precedes arena) := by
  induction listed generalizing start stop with
  | nil => simp
  | absent _ induction => exact induction ordered orderly
  | @node node fields below rest nodes held _ _ inside after =>
      obtain ⟨left, right, spans, first, second, later⟩ := ordered
      obtain ⟨fields', held', between⟩ := orderly node (by simp)
      obtain rfl := Option.some.inj (held.symm.trans held')
      have whole := spans.unique ⟨fields, held, rfl, rfl⟩
      rw [← whole.1, ← whole.2] at between
      obtain ⟨within, sorted⟩ := inside between fun other member => orderly other (by simp [member])
      obtain ⟨beyond, sorted'⟩ := after later fun other member => orderly other (by simp [member])
      have last := later.forward
      constructor
      · intro other member
        simp only [List.mem_cons, List.mem_append] at member
        rcases member with rfl | member | member
        · exact ⟨left, right, spans, first, second, last⟩
        · obtain ⟨left', right', spans', low, high⟩ := within other member
          exact ⟨left', right', spans', by omega, by omega⟩
        · obtain ⟨left', right', spans', low, high⟩ := beyond other member
          exact ⟨left', right', spans', by omega, high⟩
      · refine List.pairwise_cons.mpr ⟨?_, List.pairwise_append.mpr ⟨sorted, sorted', ?_⟩⟩
        · intro other member
          rcases List.mem_append.mp member with member | member
          · obtain ⟨left', right', spans', low, high⟩ := within other member
            exact ⟨left, right, left', right', spans, spans', low, Or.inl high.2⟩
          · obtain ⟨left', right', spans', low, -⟩ := beyond other member
            exact ⟨left, right, left', right', spans, spans', by omega, Or.inr low⟩
        · intro one member other member'
          obtain ⟨left', right', spans', low, high⟩ := within one member
          obtain ⟨left'', right'', spans'', low', -⟩ := beyond other member'
          exact ⟨left', right', left'', right'', spans', spans'', by omega, Or.inr (by omega)⟩

variable [PegValue CharT] {grammar : Grammar CharT NodeType} {input : List CharT} {seeds : Prop}
  {sealed : Set NodePtr}

def handed : Stretch CharT → List (Option NodePtr)
  | .one _ tree => pushed tree
  | .parts _ _ children => children
  | .gap => []

/-- A tree that accounts for its stretch is finite. -/
theorem accounts_listed {stretch : Stretch CharT} {start stop : Nat}
    (accounts : Accounts grammar input seeds sealed arena stretch start stop) :
    ∃ nodes, Preorder arena (handed stretch) nodes := by
  induction accounts with
  | terminal _ | terminalSeq _ | empty | cut | not | done | still | recovered _ | and _ _
  | skipped _ _ _ => exact ⟨[], .nil⟩
  | token _ placed _ | matcher _ _ _ placed _ | bare _ _ _ placed _ _ => exact ⟨_, .placed placed .nil⟩
  | lexeme _ child | branch _ _ child | adopted _ _ _ child | seed _ _ _ child => exact child
  | sequence _ placed _ parts =>
      obtain ⟨nodes, below⟩ := parts
      exact ⟨_, .placed placed below⟩
  | repetition _ _ _ _ placed _ parts =>
      obtain ⟨nodes, below⟩ := parts
      exact ⟨_, .placed placed (below.append (.padding arena _))⟩
  | first _ _ one rest | next _ _ _ _ one rest =>
      obtain ⟨nodes, below⟩ := one
      obtain ⟨later, after⟩ := rest
      exact ⟨nodes ++ later, below.append after⟩
  | wrapped _ _ _ placed _ body =>
      obtain ⟨nodes, below⟩ := body
      exact ⟨_, .placed placed below⟩

end Order

section Walk

variable (grammar : Grammar CharT NodeType)

def callOf (start : Option RuleId) (context : Context CharT) (node : NodePtr) :
    Option (Moment CharT) :=
  (context.nodeArena[node]?).bind fun fields =>
    (hookOf grammar start fields).map fun rule => ⟨.onMatch rule node, context⟩

variable {grammar} {arena : List ParseTreeNode}

theorem fire_node {start : Option RuleId} {node : NodePtr} {fields : ParseTreeNode} {fuel : Nat}
    {context : Context CharT} {log : List (Moment CharT)}
    (held : context.nodeArena[node]? = some fields)
    (below : fireAll grammar fuel fields.children context = ⟨.returned (), context, log⟩) :
    fireOnMatch grammar (fuel + 1) start (some node) context =
      ⟨.returned (), context, (callOf grammar start context node).toList ++ log⟩ := by
  have asked : (Comp.ask (fun context : Context CharT => deref context (some node)) context :
      Run (Moment CharT) (Context CharT) Exn ParseTreeNode) = ⟨.returned fields, context, []⟩ := by
    simp [Comp.ask, deref, held]
  rw [fireOnMatch, Comp.bind_returned asked, callOf, held, Option.bind_some]
  cases hook : hookOf grammar start fields with
  | none =>
      dsimp only
      rw [below]
      rfl
  | some rule =>
      have announced : (announce (.onMatch rule node) context : Run (Moment CharT) _ Exn Unit) =
          ⟨.returned (), context, [⟨.onMatch rule node, context⟩]⟩ := rfl
      dsimp only
      rw [Comp.bind_returned announced, below]
      rfl

/-- The walk over children ends, and calls the hooks of their pre-order. -/
theorem fire_all {children : List (Option NodePtr)} {nodes : List NodePtr}
    (listed : Preorder arena children nodes) :
    ∃ enough, ∀ fuel, enough ≤ fuel → ∀ context : Context CharT, context.nodeArena = arena →
      fireAll grammar fuel children context =
        ⟨.returned (), context, nodes.filterMap (callOf grammar none context)⟩ := by
  induction listed with
  | nil =>
      refine ⟨0, fun fuel _ context _ => ?_⟩
      rw [fireAll]
      rfl
  | absent _ rest =>
      obtain ⟨enough, walked⟩ := rest
      refine ⟨enough + 1, fun fuel larger context same => ?_⟩
      obtain ⟨fuel, rfl⟩ : ∃ less, fuel = less + 1 := ⟨fuel - 1, by omega⟩
      rw [fireAll, fireOnMatch, pure_bind]
      exact walked fuel (by omega) context same
  | @node node fields _ _ _ held _ _ inside rest =>
      obtain ⟨depth, walked⟩ := @inside
      obtain ⟨enough, walked'⟩ := @rest
      refine ⟨max depth enough + 2, fun fuel larger context same => ?_⟩
      obtain ⟨fuel, rfl⟩ : ∃ less, fuel = less + 2 := ⟨fuel - 2, by omega⟩
      have here := @fire_node _ _ grammar none node fields fuel context _ (same ▸ held)
        (walked fuel (by omega) context same)
      rw [fireAll, Comp.bind_returned here, walked' (fuel + 1) (by omega) context same]
      simp only [List.filterMap_cons, List.filterMap_append]
      cases callOf grammar none context node <;> simp

end Walk

section Quiet

def isCall (moment : Moment CharT) : Bool :=
  match moment.event with
  | .onMatch _ _ => true
  | .apply _ | .store _ _ | .failure => false

/-- No hook is called on the way. -/
def Quiet (_ : Context CharT) (log : List (Moment CharT)) (_ : Context CharT) : Prop :=
  log.filter isCall = []

instance : Grounded (@Quiet CharT) where
  refl _ := rfl
  trans _ _ _ log rest early late := by
    unfold Quiet at early late ⊢
    rw [List.filter_append, early, late, List.append_nil]
  aside _ _ _ := rfl
  opened _ := rfl
  closed _ := rfl
  reopened _ := rfl
  failed _ := rfl
  stored _ _ _ _ := rfl
  grew _ _ := rfl
  cleared _ _ _ _ := rfl
  left _ _ := rfl

variable [PegValue CharT]

/-- No entry point calls a hook while it parses. -/
theorem boundary_quiet (grammar : Grammar CharT NodeType) (fuel : Nat) (start : RuleId) {Value : Type}
    (view : ParseResult → Value) (fallback : Value) (context : Context CharT) :
    (boundary grammar fuel start view fallback context).trace.filter isCall = [] := by
  have engine : EngineRules (fun _ => True) True (@Quiet CharT) :=
    ⟨fun _ _ => rfl, fun _ _ _ _ => rfl, fun _ _ _ _ => rfl⟩
  have everywhere : ClosedUnder grammar (fun _ => True) True := by
    intro rule body _ _
    refine Expr.every_of_all (fun part => ?_) body
    cases part <;> trivial
  have raising : MayRaise grammar (fun _ => True) fun _ => True :=
    ⟨fun _ _ => trivial, fun _ _ _ => trivial⟩
  exact (boundary_moves engine everywhere raising fuel trivial (fun _ _ => trivial) view fallback
    context).steps.kept

theorem parse_quiet (grammar : Grammar CharT NodeType) (fuel : Nat) (name : Str)
    (context : Context CharT) : (grammar.parse fuel name context).trace.filter isCall = [] := by
  unfold Grammar.parse
  cases grammar.find name with
  | none => rfl
  | some start => exact boundary_quiet grammar fuel start ParseResult.success false context

theorem parse_tree_quiet (grammar : Grammar CharT NodeType) (fuel : Nat) (name : Str)
    (context : Context CharT) : (grammar.parseTree fuel name context).trace.filter isCall = [] := by
  unfold Grammar.parseTree
  cases grammar.find name with
  | none => rfl
  | some start => exact boundary_quiet grammar fuel start ParseResult.tree none context

theorem parse_ast_quiet [Inhabited NodeType] (grammar : Grammar CharT NodeType) (fuel : Nat)
    (name : Str) (context : Context CharT)
    (treeless : ∀ root, (grammar.parseTree fuel name context).outcome ≠ .returned (some root)) :
    (parseAst grammar fuel name context).trace.filter isCall = [] := by
  have quiet := parse_tree_quiet grammar fuel name context
  unfold parseAst
  cases grammar.find name with
  | none => rfl
  | some start =>
      dsimp only
      rcases run : grammar.parseTree fuel name context with ⟨outcome, last, log⟩
      rw [run] at quiet treeless
      cases outcome with
      | returned tree =>
          rw [Comp.bind_returned run]
          cases tree with
          | none => simpa [Comp.pure_eq, Comp.pure] using quiet
          | some root => exact absurd rfl (treeless root)
      | thrown exn =>
          rw [Comp.bind_thrown run]
          exact quiet
      | exhausted =>
          rw [Comp.bind_exhausted run]
          exact quiet

theorem parse_tree_extends (grammar : Grammar CharT NodeType) {fuel fuel' : Nat}
    (larger : fuel ≤ fuel') (name : Str) :
    Extends (grammar.parseTree fuel name) (grammar.parseTree fuel' name) := by
  unfold Grammar.parseTree
  cases grammar.find name with
  | none => exact extends_refl _
  | some rule =>
      refine extends_bind (leading_skip_related extends_rules grammar larger) fun _ => ?_
      refine extends_catching _ (extends_bind (apply_extends grammar rule larger) ?_)
      exact fun _ => extends_refl _

end Quiet

section Hooks

variable [PegValue CharT] {grammar : Grammar CharT NodeType} {fuel : Nat} {name : Str}

theorem parse_tree_settled {more : Nat} {context : Context CharT} {root : NodePtr}
    (returned : (grammar.parseTree fuel name context).outcome = .returned (some root))
    (larger : fuel ≤ more) : grammar.parseTree more name context =
      grammar.parseTree fuel name context := by
  rcases parse_tree_extends grammar larger name context with same | ⟨exhausted, -⟩
  · exact same.symm
  · rw [returned] at exhausted
    cases exhausted

variable [Inhabited NodeType] {start : RuleId} {root : NodePtr}

/-- `parse_ast` after its parse: the walk, and then the fold, which logs nothing. -/
theorem parse_ast_run {more : Nat} {context last : Context CharT} {parsed log : List (Moment CharT)}
    (found : grammar.find name = some start)
    (run : grammar.parseTree more name context = ⟨.returned (some root), last, parsed⟩)
    (walked : fireOnMatch grammar more (some start) (some root) last = ⟨.returned (), last, log⟩) :
    parseAst grammar more name context =
      ⟨(foldStart grammar more start root last).bind fun value => .returned (some value), last,
        parsed ++ log⟩ := by
  unfold parseAst
  rw [found]
  dsimp only
  rw [Comp.bind_returned run]
  dsimp only
  rw [Comp.bind_returned walked]
  cases folded : foldStart grammar more start root last with
  | returned value =>
      rw [Comp.bind_returned (show Comp.ask (foldStart grammar more start root) last =
        (⟨.returned value, last, []⟩ : Run (Moment CharT) _ Exn NodeType) by rw [Comp.ask, folded])]
      simp [Comp.pure_eq, Comp.pure, Outcome.bind]
  | thrown exn =>
      rw [Comp.bind_thrown (show Comp.ask (foldStart grammar more start root) last =
        (⟨.thrown exn, last, []⟩ : Run (Moment CharT) _ Exn NodeType) by rw [Comp.ask, folded])]
      simp [Outcome.bind]
  | exhausted =>
      rw [Comp.bind_exhausted (show Comp.ask (foldStart grammar more start root) last =
        (⟨.exhausted, last, []⟩ : Run (Moment CharT) _ Exn NodeType) by rw [Comp.ask, folded])]
      simp [Outcome.bind]

/-- The hooks are called by the walk only, no parse calls one: once for every place of a node in
the tree that `parse_tree` returns, in document order. The root answers to the hook of the start
rule. -/
theorem hooks_in_document_order (inRange : InRange grammar) (input : List CharT)
    (found : grammar.find name = some start) :
    (∀ fuel (context : Context CharT),
      (grammar.parse fuel name context).trace.filter isCall = [] ∧
      (grammar.parseTree fuel name context).trace.filter isCall = [] ∧
      ((∀ root, (grammar.parseTree fuel name context).outcome ≠ .returned (some root)) →
        (parseAst grammar fuel name context).trace.filter isCall = [])) ∧
    ∀ fuel root (last : Context CharT) (parsed : List (Moment CharT)),
      grammar.parseTree fuel name (Context.fresh input) = ⟨.returned (some root), last, parsed⟩ →
      ∃ below, Preorder last.nodeArena [some root] (root :: below) ∧
        (root :: below).Pairwise (Precedes last.nodeArena) ∧
        ∃ enough, ∀ more, enough ≤ more →
          (parseAst grammar more name (Context.fresh input)).trace.filter isCall =
            (callOf grammar (some start) last root).toList ++
              below.filterMap (callOf grammar none last) := by
  constructor
  · exact fun fuel context => ⟨parse_quiet grammar fuel name context,
      parse_tree_quiet grammar fuel name context, parse_ast_quiet grammar fuel name context⟩
  · intro fuel root last parsed run
    have returned : (grammar.parseTree fuel name (Context.fresh input)).outcome =
        .returned (some root) := by rw [run]
    have delivered := @parse_tree_delivers _ _ _ grammar True inRange input fuel name start found root
      returned fun _ _ => Or.inr trivial
    rw [run] at delivered
    obtain ⟨nodes, whole⟩ := accounts_listed delivered.accounts
    obtain ⟨fields, held, between⟩ := delivered.orderly
    have orderly : ∀ node ∈ nodes, Orderly last.nodeArena node := by
      intro node member
      rcases whole.child member with top | ⟨parent, child⟩
      · obtain rfl : node = root := by simpa [handed, pushed] using top
        exact delivered.orderly
      · exact delivered.steady.arranged.children parent node child
    have spans : Spans last.nodeArena root fields.startOffset fields.endOffset :=
      ⟨fields, held, rfl, rfl⟩
    have sorted : nodes.Pairwise (Precedes last.nodeArena) :=
      (whole.ordered ⟨_, _, spans, Nat.le_refl _, between.forward, Nat.le_refl _⟩ orderly).2
    have top := whole
    cases whole with
    | @node _ fields' below _ _ held' inside after =>
        cases after
        rw [List.append_nil] at top sorted
        obtain ⟨enough, walked⟩ := @fire_all _ _ grammar _ _ _ inside
        refine ⟨below, top, sorted, max fuel enough + 1, fun more larger => ?_⟩
        obtain ⟨less, rfl⟩ : ∃ less, more = less + 1 := ⟨more - 1, by omega⟩
        have visited := @fire_node _ _ grammar (some start) root fields' less last _ held'
          (walked less (by omega) last rfl)
        have settled := parse_tree_settled returned (show fuel ≤ less + 1 by omega)
        have quiet := parse_tree_quiet grammar fuel name (Context.fresh input)
        rw [run] at quiet settled
        have calls : ∀ (first : Option RuleId) (node : NodePtr),
            ∀ moment ∈ callOf grammar first last node, isCall moment = true := by
          intro first node moment called
          obtain ⟨_, _, hooked⟩ := Option.bind_eq_some_iff.mp called
          obtain ⟨rule, -, rfl⟩ := Option.map_eq_some_iff.mp hooked
          rfl
        rw [parse_ast_run found settled visited, List.filter_append, quiet, List.nil_append]
        refine List.filter_eq_self.mpr fun moment member => ?_
        rcases List.mem_append.mp member with mine | theirs
        · exact calls _ _ moment (by simpa using mine)
        · obtain ⟨node, -, called⟩ := List.mem_filterMap.mp theirs
          exact calls _ _ moment called

end Hooks

/-- `A = A >> '+' >> token('n') | token('n')` with a hook, and spaces skipped. -/
def observedSums : Grammar UInt8 Unit where
  rules := [
    (ascii "A", { body := some (.alternation [
      .sequence [.rule 0, .terminal (.value 43), .token (.value 110)], .token (.value 110)]), onMatch := true }),
    (ascii "space", { body := some (.repetition .zeroOrMore (.terminal (.value 32))) })]
  skipper := some 1

theorem observed_sums_in_range : InRange observedSums := by
  intro rule body assigned
  match rule with
  | 0 | 1 =>
      obtain rfl := Option.some.inj assigned
      simp [Expr.Every, Expr.EveryAll, MatcherInRange]
  | _ + 2 => cases assigned

/-- On " n + n" the walk visits the sum before its parts, on "+" nothing is visited. -/
theorem observed_sums_in_document_order :
    (parseAst observedSums 8 (ascii "A") (Context.fresh (ascii "+"))).trace.filter isCall = [] ∧
    let last := (observedSums.parseTree 8 (ascii "A") (Context.fresh (ascii " n + n"))).state
    ∃ below, Preorder last.nodeArena [some 4] (4 :: below) ∧
      (4 :: below).Pairwise (Precedes last.nodeArena) ∧
      ∃ enough, ∀ more, enough ≤ more →
        (parseAst observedSums more (ascii "A") (Context.fresh (ascii " n + n"))).trace.filter isCall =
          (callOf observedSums (some 0) last 4).toList ++
            below.filterMap (callOf observedSums none last) := by
  have inOrder := hooks_in_document_order observed_sums_in_range (ascii " n + n")
    (show observedSums.find (ascii "A") = some 0 by decide)
  constructor
  · refine (inOrder.1 8 (Context.fresh (ascii "+"))).2.2 fun root ended => ?_
    have treeless : (observedSums.parseTree 8 (ascii "A") (Context.fresh (ascii "+"))).outcome =
        .returned none := Outcome.value_eq_some.mp (by decide +kernel)
    rw [treeless] at ended
    cases ended
  intro last
  have ended : (observedSums.parseTree 8 (ascii "A") (Context.fresh (ascii " n + n"))).outcome =
      .returned (some 4) := Outcome.value_eq_some.mp (by decide +kernel)
  rcases run : observedSums.parseTree 8 (ascii "A") (Context.fresh (ascii " n + n")) with
    ⟨outcome, final, parsed⟩
  rw [run] at ended
  obtain rfl : outcome = .returned (some 4) := ended
  have same : last = final := congrArg Run.state run
  rw [same]
  exact inOrder.2 8 4 final parsed run

end Peglib.HookWalk
