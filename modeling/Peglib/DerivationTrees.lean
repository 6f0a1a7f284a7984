import Peglib.PegSemantics
import Peglib.Producers

/-!
# Derivation trees

What the nodes below a tree say about the stretch of input that the tree spans:
which branch of a choice, which parts of a sequence and which iterations of a
repetition, one after the other, with nothing but skips between them. An
expression without a node is accounted for without one, and so is a recovered
rule. A rule that is still growing is answered by the tree of its body; whether
that may happen is a parameter.
-/

namespace Peglib.DerivationTrees

open Peglib.ParseError Peglib.ParseContext Peglib.Expressions Peglib.Rules
open Peglib.PegSemantics Peglib.CommittedNodes Peglib.Producers

set_option autoImplicit false

variable {CharT NodeType : Type}

/-- What a stretch of the input is accounted for as: one expression with its tree,
parts with the children they gave, after another part or not, or a skip. -/
inductive Stretch (CharT : Type) where
  | one (expr : Expr CharT) (tree : Option NodePtr)
  | parts (led : Bool) (exprs : List (Expr CharT)) (children : List (Option NodePtr))
  | gap

/-- The children that a part gives to its node. -/
def pushed : Option NodePtr → List (Option NodePtr)
  | none => []
  | some node => [some node]

/-- Where a rule that recovers at `pos` resumes. -/
def resumption (isSyncToken : CharT → Bool) (input : List CharT) (pos : Nat) : Nat :=
  let scan := pos + ((input.drop pos).takeWhile fun letter => !isSyncToken letter).length
  if scan < input.length then scan + 1 else input.length

/-- A node among `sealed`, with its children and its span. -/
structure NodeAt (sealed : Set NodePtr) (arena : List ParseTreeNode) (node : NodePtr)
    (children : List (Option NodePtr)) (start stop : Nat) : Prop where
  among : node ∈ sealed
  held : ∃ fields, arena[node]? = some fields ∧ fields.children = children ∧
    fields.startOffset = start ∧ fields.endOffset = stop

def Produced (arena : List ParseTreeNode) (node : NodePtr) (rule : RuleId) : Prop :=
  ∃ fields, arena[node]? = some fields ∧ fields.producer = some rule

section Trees

variable [PegValue CharT]

/-- The nodes of `arena` account for a stretch of the input. `seeds` says whether a
rule may be answered by the tree of its body. -/
inductive Accounts (grammar : Grammar CharT NodeType) (input : List CharT) (seeds : Prop)
    (sealed : Set NodePtr) (arena : List ParseTreeNode) : Stretch CharT → Nat → Nat → Prop
  | terminal {value start stop} : consume input value start = some stop →
      Accounts grammar input seeds sealed arena (.one (.terminal value) none) start stop
  | terminalSeq {values start stop} : consumeAll input values start = some stop →
      Accounts grammar input seeds sealed arena (.one (.terminalSeq values) none) start stop
  | token {value start stop node} : consume input value start = some stop →
      NodeAt sealed arena node [] start stop → Untyped grammar arena node →
      Accounts grammar input seeds sealed arena (.one (.token value) (some node)) start stop
  | matcher {fn start stop node} {context : Context CharT} {consumed} : context.input = input →
      fn context ⟨start, start⟩ = some consumed → consumed.stop = stop →
      NodeAt sealed arena node [] start stop → Untyped grammar arena node →
      Accounts grammar input seeds sealed arena (.one (.matcher fn) (some node)) start stop
  | empty {start} : Accounts grammar input seeds sealed arena (.one .empty none) start start
  | cut {start} : Accounts grammar input seeds sealed arena (.one .cut none) start start
  | not {child start} :
      Accounts grammar input seeds sealed arena (.one (.not child) none) start start
  | and {child tree start stop} :
      Accounts grammar input seeds sealed arena (.one child tree) start stop →
      Accounts grammar input seeds sealed arena (.one (.and child) none) start start
  | lexeme {child tree start stop} :
      Accounts grammar input seeds sealed arena (.one child tree) start stop →
      Accounts grammar input seeds sealed arena (.one (.lexeme child) tree) start stop
  | branch {branches child tree start stop} : child ∈ branches →
      Accounts grammar input seeds sealed arena (.one child tree) start stop →
      Accounts grammar input seeds sealed arena (.one (.alternation branches) tree) start stop
  | sequence {exprs children start stop node} :
      Accounts grammar input seeds sealed arena (.parts false exprs children) start stop →
      NodeAt sealed arena node children start stop → Untyped grammar arena node →
      Accounts grammar input seeds sealed arena (.one (.sequence exprs) (some node)) start stop
  | repetition {kind child count children pads start stop node} : kind.minRep ≤ count →
      (0 < kind.maxRep → count ≤ kind.maxRep.toNat) →
      Accounts grammar input seeds sealed arena
        (.parts false (List.replicate count child) children) start stop →
      -- A repetition left by a failed iteration is padded to one child an iteration.
      (pads = 0 ∨ children.length + pads = count) →
      NodeAt sealed arena node (children ++ List.replicate pads none) start stop →
      Untyped grammar arena node →
      Accounts grammar input seeds sealed arena (.one (.repetition kind child) (some node)) start stop
  | done {led start} : Accounts grammar input seeds sealed arena (.parts led [] []) start start
  | first {expr tree exprs children start middle stop} :
      Accounts grammar input seeds sealed arena (.one expr tree) start middle →
      Accounts grammar input seeds sealed arena (.parts true exprs children) middle stop →
      Accounts grammar input seeds sealed arena
        (.parts false (expr :: exprs) (pushed tree ++ children)) start stop
  | next {expr tree exprs children start here middle stop} :
      Accounts grammar input seeds sealed arena .gap start here →
      Accounts grammar input seeds sealed arena (.one expr tree) here middle →
      Accounts grammar input seeds sealed arena (.parts true exprs children) middle stop →
      Accounts grammar input seeds sealed arena
        (.parts true (expr :: exprs) (pushed tree ++ children)) start stop
  | still {start} : Accounts grammar input seeds sealed arena .gap start start
  | skipped {skipper tree start stop} : grammar.skipper = some skipper →
      Accounts grammar input seeds sealed arena (.one (.rule skipper) tree) start stop →
      Accounts grammar input seeds sealed arena .gap start stop
  | wrapped {rule body tree start stop node} : grammar.body rule = some body →
      (grammar.nonTerminal rule).typedFold.isSome = true →
      Accounts grammar input seeds sealed arena (.one body tree) start stop →
      NodeAt sealed arena node (pushed tree) start stop → Produced arena node rule →
      Accounts grammar input seeds sealed arena (.one (.rule rule) (some node)) start stop
  | adopted {rule body start stop node} : grammar.body rule = some body →
      (grammar.nonTerminal rule).typedFold = none →
      Accounts grammar input seeds sealed arena (.one body (some node)) start stop →
      Accounts grammar input seeds sealed arena (.one (.rule rule) (some node)) start stop
  | bare {rule body start stop node} : grammar.body rule = some body →
      (grammar.nonTerminal rule).typedFold = none →
      Accounts grammar input seeds sealed arena (.one body none) start stop →
      NodeAt sealed arena node [] start stop → Untyped grammar arena node →
      Accounts grammar input seeds sealed arena (.one (.rule rule) (some node)) start stop
  | seed {rule body tree start stop} : seeds → grammar.body rule = some body →
      Accounts grammar input seeds sealed arena (.one body tree) start stop →
      Accounts grammar input seeds sealed arena (.one (.rule rule) tree) start stop
  | recovered {rule isSyncToken start} :
      (grammar.nonTerminal rule).recover.isSyncToken = some isSyncToken →
      Accounts grammar input seeds sealed arena (.one (.rule rule) none) start
        (resumption isSyncToken input start)

variable {grammar : Grammar CharT NodeType} {input : List CharT} {seeds : Prop}
  {sealed sealed' : Set NodePtr} {before after : List ParseTreeNode}

/-- The sealed nodes are still sealed, and were only handed on. -/
def Carried (grammar : Grammar CharT NodeType) (sealed sealed' : Set NodePtr)
    (before after : List ParseTreeNode) : Prop :=
  ∀ node ∈ sealed, ∀ old, before[node]? = some old → node ∈ sealed' ∧
    (∃ new, after[node]? = some new ∧ Unchanged old new) ∧
    (Untyped grammar before node → Untyped grammar after node)

omit [PegValue CharT] in
theorem NodeAt.carried {node : NodePtr} {children : List (Option NodePtr)} {start stop : Nat}
    (placed : NodeAt sealed before node children start stop)
    (carried : Carried grammar sealed sealed' before after) :
    NodeAt sealed' after node children start stop := by
  obtain ⟨old, held, below, starts, stops⟩ := placed.held
  obtain ⟨among, ⟨new, found, same⟩, -⟩ := carried node placed.among old held
  exact ⟨among, new, found, same.children.trans below, same.startOffset.trans starts,
    same.endOffset.trans stops⟩

omit [PegValue CharT] in
theorem Produced.carried {node : NodePtr} {rule : RuleId} (produced : Produced before node rule)
    (among : node ∈ sealed) (carried : Carried grammar sealed sealed' before after) :
    Produced after node rule := by
  obtain ⟨old, held, producer⟩ := produced
  obtain ⟨-, ⟨new, found, same⟩, -⟩ := carried node among old held
  exact ⟨new, found, (same.producer (by rw [producer]; rfl)).trans producer⟩

omit [PegValue CharT] in
theorem untyped_carried {node : NodePtr} (untyped : Untyped grammar before node) (among : node ∈ sealed)
    (carried : Carried grammar sealed sealed' before after) : Untyped grammar after node := by
  obtain ⟨old, held, -⟩ := id untyped
  exact (carried node among old held).2.2 untyped

theorem Accounts.carried {stretch : Stretch CharT} {start stop : Nat}
    (accounts : Accounts grammar input seeds sealed before stretch start stop)
    (carried : Carried grammar sealed sealed' before after) :
    Accounts grammar input seeds sealed' after stretch start stop := by
  induction accounts with
  | terminal consumed => exact .terminal consumed
  | terminalSeq consumed => exact .terminalSeq consumed
  | token consumed placed untyped =>
      exact .token consumed (placed.carried carried) (untyped_carried untyped placed.among carried)
  | matcher source found reached placed untyped =>
      exact .matcher source found reached (placed.carried carried)
        (untyped_carried untyped placed.among carried)
  | empty => exact .empty
  | cut => exact .cut
  | not => exact .not
  | and _ child => exact .and child
  | lexeme _ child => exact .lexeme child
  | branch member _ child => exact .branch member child
  | sequence _ placed untyped parts =>
      exact .sequence parts (placed.carried carried) (untyped_carried untyped placed.among carried)
  | repetition enough few _ padded placed untyped rounds =>
      exact .repetition enough few rounds padded (placed.carried carried)
        (untyped_carried untyped placed.among carried)
  | done => exact .done
  | first _ _ part rest => exact .first part rest
  | next _ _ _ gap part rest => exact .next gap part rest
  | still => exact .still
  | skipped configured _ skip => exact .skipped configured skip
  | wrapped assigned typed _ placed produced body =>
      exact .wrapped assigned typed body (placed.carried carried)
        (produced.carried placed.among carried)
  | adopted assigned untyped _ body => exact .adopted assigned untyped body
  | bare assigned plain _ placed untyped body =>
      exact .bare assigned plain body (placed.carried carried)
        (untyped_carried untyped placed.among carried)
  | seed allowed assigned _ body => exact .seed allowed assigned body
  | recovered configured => exact .recovered configured

section Parts

variable {exprs : List (Expr CharT)} {children : List (Option NodePtr)} {start stop : Nat}

/-- The skip before a part; there is none before the first. -/
def Between (grammar : Grammar CharT NodeType) (input : List CharT) (seeds : Prop)
    (sealed : Set NodePtr) (arena : List ParseTreeNode) (led : Bool) (start here : Nat) : Prop :=
  if led then Accounts grammar input seeds sealed arena .gap start here else here = start

theorem Between.carried {led : Bool} {here : Nat}
    (gap : Between grammar input seeds sealed before led start here)
    (carried : Carried grammar sealed sealed' before after) :
    Between grammar input seeds sealed' after led start here := by
  unfold Between at gap ⊢
  split_ifs at gap ⊢
  · exact gap.carried carried
  · exact gap

theorem Accounts.more {led : Bool} {expr : Expr CharT} {tree : Option NodePtr} {here last : Nat}
    (accounts : Accounts grammar input seeds sealed before (.parts led exprs children) start stop)
    (gap : Between grammar input seeds sealed before (led || !exprs.isEmpty) stop here)
    (part : Accounts grammar input seeds sealed before (.one expr tree) here last) :
    Accounts grammar input seeds sealed before
      (.parts led (exprs ++ [expr]) (children ++ pushed tree)) start last := by
  have single : ∀ pos, Accounts grammar input seeds sealed before (.parts true [] []) pos pos :=
    fun _ => .done
  induction exprs generalizing led children start with
  | nil =>
      cases accounts
      cases led with
      | false =>
          obtain rfl : here = stop := by simpa [Between] using gap
          simpa using Accounts.first part (single last)
      | true => simpa using Accounts.next (by simpa [Between] using gap) part (single last)
  | cons head rest induction =>
      have onward : Between grammar input seeds sealed before (true || !rest.isEmpty) stop here := by
        simpa [Between] using gap
      cases accounts with
      | first one parts => simpa using Accounts.first one (induction parts onward)
      | next skip one parts => simpa using Accounts.next skip one (induction parts onward)

theorem Accounts.children_le {led : Bool}
    (accounts : Accounts grammar input seeds sealed before (.parts led exprs children) start stop) :
    children.length ≤ exprs.length := by
  have single : ∀ tree, (pushed tree).length ≤ 1 := by
    intro tree
    cases tree <;> simp [pushed]
  induction exprs generalizing led children start with
  | nil =>
      cases accounts
      exact Nat.le_refl 0
  | cons expr rest induction =>
      cases accounts with
      | @first _ tree _ _ _ _ _ one parts =>
          have here := single tree
          have later := induction parts
          simp only [List.length_append, List.length_cons]
          omega
      | @next _ tree _ _ _ _ _ _ skip one parts =>
          have here := single tree
          have later := induction parts
          simp only [List.length_append, List.length_cons]
          omega

end Parts

end Trees

end Peglib.DerivationTrees
