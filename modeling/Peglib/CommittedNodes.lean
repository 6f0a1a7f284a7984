import Mathlib.Data.Set.Insert
import Mathlib.Logic.Relation
import Peglib.LogFrames
import Peglib.EntryPoints

/-!
# Committed nodes

A node is open while the expression that made it still writes to it. Rows and
child lists never point at an open node, and a rule or a choice that passes a
node on writes only its name, its branch and a missing producer. So what is
reachable from the tree of a finished application keeps its children, its
offsets and its producer for the rest of the parse.
-/

namespace Peglib.CommittedNodes

open Peglib.TracedComputation Peglib.Preservation Peglib.LogFrames
open Peglib.ParseError Peglib.ParseContext Peglib.Expressions Peglib.Rules
open Peglib.ControlDiscipline Peglib.EntryPoints

set_option autoImplicit false

variable {CharT NodeType : Type}

section Arena

def Child (arena : List ParseTreeNode) (parent node : NodePtr) : Prop :=
  ∃ fields, arena[parent]? = some fields ∧ some node ∈ fields.children

abbrev Reachable (arena : List ParseTreeNode) : NodePtr → NodePtr → Prop :=
  Relation.ReflTransGen (Child arena)

/-- The row of a rule application that has returned with a tree. -/
def Finished (context : Context CharT) (rule : RuleId) (pos : Nat) (root : NodePtr) : Prop :=
  context.lrInProgress rule pos = false ∧
    ∃ row, context.mem pos rule = some row ∧ row.cachedResult = ⟨true, some root⟩

/-- Reachable from the tree of a finished application. -/
def Held (context : Context CharT) (node : NodePtr) : Prop :=
  ∃ rule pos root, Finished context rule pos root ∧ Reachable context.nodeArena root node

/-- What a node keeps when it is handed on. -/
structure Unchanged (old new : ParseTreeNode) : Prop where
  children : new.children = old.children
  startOffset : new.startOffset = old.startOffset
  endOffset : new.endOffset = old.endOffset
  producer : old.producer.isSome = true → new.producer = old.producer

theorem Unchanged.refl (node : ParseTreeNode) : Unchanged node node := ⟨rfl, rfl, rfl, fun _ => rfl⟩

theorem Unchanged.trans {first second third : ParseTreeNode} (left : Unchanged first second)
    (right : Unchanged second third) : Unchanged first third where
  children := right.children.trans left.children
  startOffset := right.startOffset.trans left.startOffset
  endOffset := right.endOffset.trans left.endOffset
  producer set := by
    have same := left.producer set
    rw [right.producer (by rw [same]; exact set), same]

def Same (before after : List ParseTreeNode) (node : NodePtr) : Prop :=
  ∃ old new, before[node]? = some old ∧ after[node]? = some new ∧ Unchanged old new

/-- Nodes of `foreign` are not written at all, those of `own` freely. -/
def Kept (foreign own : Set NodePtr) (before after : List ParseTreeNode) : Prop :=
  ∀ node old, before[node]? = some old → ∃ new, after[node]? = some new ∧
    (node ∈ foreign → new = old) ∧ (node ∉ own → Unchanged old new)

variable {foreign own : Set NodePtr}

theorem Kept.refl (arena : List ParseTreeNode) : Kept foreign own arena arena :=
  fun _ old held => ⟨old, held, fun _ => rfl, fun _ => .refl old⟩

theorem Kept.trans {first second third : List ParseTreeNode} (left : Kept foreign own first second)
    (right : Kept foreign own second third) : Kept foreign own first third := by
  intro node old held
  obtain ⟨middle, found, same, unchanged⟩ := left node old held
  obtain ⟨new, later, same', unchanged'⟩ := right node middle found
  refine ⟨new, later, fun member => (same' member).trans (same member), fun member => ?_⟩
  exact (unchanged member).trans (unchanged' member)

theorem kept_make (arena : List ParseTreeNode) (node : ParseTreeNode) :
    Kept foreign own arena (arena ++ [node]) := by
  intro index old held
  refine ⟨old, ?_, fun _ => rfl, fun _ => .refl old⟩
  rw [List.getElem?_append_left (List.getElem?_eq_some_iff.mp held).1]
  exact held

theorem modify_read (arena : List ParseTreeNode) (target node : NodePtr)
    (update : ParseTreeNode → ParseTreeNode) {old : ParseTreeNode} (held : arena[node]? = some old) :
    (arena.modify target update)[node]? = some (if target = node then update old else old) := by
  rw [List.getElem?_modify, held]
  rfl

theorem kept_update {arena : List ParseTreeNode} {target : NodePtr}
    {update : ParseTreeNode → ParseTreeNode} (outside : target ∉ foreign)
    (writes : target ∉ own → ∀ fields, arena[target]? = some fields → Unchanged fields (update fields)) :
    Kept foreign own arena (arena.modify target update) := by
  intro node old held
  refine ⟨_, modify_read arena target node update held, fun member => ?_, fun member => ?_⟩
  · rw [if_neg (by rintro rfl; exact outside member)]
  · split_ifs with same
    · exact writes (by rwa [same]) old (by rwa [same])
    · exact .refl old

end Arena

/-- A node that is not open, with its offsets. -/
def Placed (opened : Set NodePtr) (arena : List ParseTreeNode) (node : NodePtr) (start stop : Nat) :
    Prop :=
  node ∉ opened ∧ ∃ fields, arena[node]? = some fields ∧ fields.startOffset = start ∧
    fields.endOffset = stop

/-- The node of a row lies where the row does; a failed row has not moved. -/
structure RowTidy (opened : Set NodePtr) (arena : List ParseTreeNode) (pos : Nat) (row : RuleState) :
    Prop where
  placed : row.cachedResult.success = true → ∀ root, row.cachedResult.tree = some root →
    Placed opened arena root pos row.lastPos ∧ pos ≤ row.lastPos
  failed : ¬row.cachedResult.success = true → row.lastPos = pos

/-- No row and no child list points at an open node. Some rows may be exempt. -/
structure TidyBut (exempt : Nat → RuleId → Prop) (opened : Set NodePtr) (context : Context CharT) :
    Prop where
  rows : ∀ pos rule row, ¬exempt pos rule → context.mem pos rule = some row →
    RowTidy opened context.nodeArena pos row
  children : ∀ parent node, Child context.nodeArena parent node →
    node < context.nodeArena.length ∧ node ∉ opened
  bounded : ∀ node ∈ opened, node < context.nodeArena.length

abbrev Tidy (opened : Set NodePtr) (context : Context CharT) : Prop :=
  TidyBut (fun _ _ => False) opened context

section Steps

variable {opened foreign own : Set NodePtr} {exempt : Nat → RuleId → Prop}

theorem Placed.kept {before after : List ParseTreeNode} {node : NodePtr} {start stop : Nat}
    (placed : Placed opened before node start stop) (kept : Kept foreign own before after)
    (outside : node ∉ own) : Placed opened after node start stop := by
  obtain ⟨closed, fields, held, starts, stops⟩ := placed
  obtain ⟨new, found, -, unchanged⟩ := kept node fields held
  have same := unchanged outside
  exact ⟨closed, new, found, same.startOffset.trans starts, same.endOffset.trans stops⟩

theorem Placed.inside {arena : List ParseTreeNode} {node : NodePtr} {start stop : Nat}
    (placed : Placed opened arena node start stop) : node < arena.length := by
  obtain ⟨-, fields, held, -⟩ := placed
  exact (List.getElem?_eq_some_iff.mp held).1

theorem TidyBut.moved {before after : Context CharT} (tidy : TidyBut exempt opened before)
    (arena : after.nodeArena = before.nodeArena)
    (mem : ∀ pos rule row, after.mem pos rule = some row → before.mem pos rule = some row) :
    TidyBut exempt opened after := by
  refine ⟨fun pos rule row spared held => ?_, ?_, ?_⟩
  · rw [arena]
    exact tidy.rows pos rule row spared (mem pos rule row held)
  · rw [arena]
    exact tidy.children
  · rw [arena]
    exact tidy.bounded

theorem TidyBut.remove_cut {context : Context CharT} (tidy : TidyBut exempt opened context) :
    TidyBut exempt opened context.removeCut := by
  unfold Context.removeCut
  split
  · exact tidy
  · split_ifs
    · refine tidy.moved rfl fun pos rule row held => ?_
      dsimp only at held
      split_ifs at held
      exact held
    · exact tidy.moved rfl fun _ _ _ => id

theorem TidyBut.set_cut {context : Context CharT} (tidy : TidyBut exempt opened context)
    (committed : Bool) : TidyBut exempt opened (context.setCut committed) := by
  unfold Context.setCut
  split <;> exact tidy.moved rfl fun _ _ _ => id

theorem TidyBut.make_node {context : Context CharT} (tidy : TidyBut exempt opened context) :
    TidyBut exempt (insert context.makeNode.1 opened) context.makeNode.2 := by
  have fresh : ∀ node, node < context.nodeArena.length → node ∉ opened →
      node ∉ insert context.makeNode.1 opened := by
    rintro node inside closed (rfl | member)
    · exact Nat.lt_irrefl _ inside
    · exact closed member
  have longer : context.makeNode.2.nodeArena.length = context.nodeArena.length + 1 := by
    simp only [Context.makeNode, List.length_append, List.length_singleton]
  refine ⟨fun pos rule row spared held => ?_, ?_, ?_⟩
  · have row' := tidy.rows pos rule row spared held
    refine ⟨fun success root tree => ?_, row'.failed⟩
    obtain ⟨placed, forward⟩ := row'.placed success root tree
    have grown : Placed opened context.makeNode.2.nodeArena root pos row.lastPos :=
      placed.kept (@kept_make ∅ ∅ _ _) (Set.notMem_empty root)
    exact ⟨⟨fresh root placed.inside placed.1, grown.2⟩, forward⟩
  · rintro parent node ⟨fields, held, member⟩
    rcases Nat.lt_or_ge parent context.nodeArena.length with inside | outside
    · rw [show context.makeNode.2.nodeArena = context.nodeArena ++ [({} : ParseTreeNode)] from rfl,
        List.getElem?_append_left inside] at held
      obtain ⟨bound, closed⟩ := tidy.children parent node ⟨fields, held, member⟩
      exact ⟨by rw [longer]; exact Nat.lt_succ_of_lt bound, fresh node bound closed⟩
    · rw [show context.makeNode.2.nodeArena = context.nodeArena ++ [({} : ParseTreeNode)] from rfl,
        List.getElem?_append_right outside] at held
      obtain rfl := List.mem_singleton.mp (List.mem_of_getElem? held)
      exact absurd member List.not_mem_nil
  · rintro node (rfl | member)
    · rw [longer]
      exact Nat.lt_succ_self _
    · rw [longer]
      exact Nat.lt_succ_of_lt (tidy.bounded node member)

theorem TidyBut.update_node {context : Context CharT} (tidy : TidyBut exempt opened context)
    {target : NodePtr} {update : ParseTreeNode → ParseTreeNode}
    (writes : target ∉ opened → ∀ fields, context.nodeArena[target]? = some fields →
      Unchanged fields (update fields))
    (adds : ∀ fields, context.nodeArena[target]? = some fields → ∀ node,
      some node ∈ (update fields).children →
      some node ∈ fields.children ∨ (node < context.nodeArena.length ∧ node ∉ opened)) :
    TidyBut exempt opened (context.updateNode target update) := by
  have kept : Kept ∅ opened context.nodeArena (context.updateNode target update).nodeArena :=
    kept_update (Set.notMem_empty target) writes
  have long : (context.updateNode target update).nodeArena.length = context.nodeArena.length := by
    simp only [Context.updateNode, List.length_modify]
  refine ⟨fun pos rule row spared held => ?_, ?_, ?_⟩
  · have row' := tidy.rows pos rule row spared held
    refine ⟨fun success root tree => ?_, row'.failed⟩
    obtain ⟨placed, forward⟩ := row'.placed success root tree
    exact ⟨placed.kept kept placed.1, forward⟩
  · rintro parent node ⟨fields, held, member⟩
    rw [long]
    have inside : parent < context.nodeArena.length := by
      rw [← long]
      exact (List.getElem?_eq_some_iff.mp held).1
    have before := List.getElem?_eq_getElem inside
    have read := modify_read context.nodeArena target parent update before
    rw [Context.updateNode] at held
    obtain rfl := Option.some.inj (held.symm.trans read)
    split_ifs at member with same
    · subst same
      rcases adds _ before node member with known | closed
      · exact tidy.children target node ⟨_, before, known⟩
      · exact closed
    · exact tidy.children parent node ⟨_, before, member⟩
  · rw [long]
    exact tidy.bounded

/-- What a tidy context holds is not open, and is there. -/
theorem TidyBut.held {context : Context CharT} (tidy : TidyBut exempt opened context)
    (exempted : ∀ pos rule, exempt pos rule → context.lrInProgress rule pos = true) {node : NodePtr}
    (held : Held context node) : node ∉ opened ∧ Same context.nodeArena context.nodeArena node := by
  obtain ⟨rule, pos, root, ⟨done, row, found, answer⟩, path⟩ := held
  have inside : node < context.nodeArena.length ∧ node ∉ opened := by
    rcases path.cases_tail with rfl | ⟨parent, -, child⟩
    · have spared : ¬exempt pos rule := by
        intro exempt
        rw [exempted pos rule exempt] at done
        cases done
      obtain ⟨placed, -⟩ := (tidy.rows pos rule row spared found).placed (by rw [answer]) node
        (by rw [answer])
      exact ⟨placed.inside, placed.1⟩
    · exact tidy.children parent node child
  exact ⟨inside.2, _, _, List.getElem?_eq_getElem inside.1, List.getElem?_eq_getElem inside.1,
    .refl _⟩

end Steps

/-- Nodes of `foreign` are left alone, those of `own` written freely, and what
was held at an earlier moment is in neither and lasts. -/
def writing (foreign own : Set NodePtr) : FrameRules (Context CharT) where
  kept before after := Kept foreign own before.nodeArena after.nodeArena
  lasting before after := ∀ node, Held before node →
    node ∉ foreign ∧ node ∉ own ∧ Same before.nodeArena after.nodeArena node
  refl context := .refl context.nodeArena
  trans _ _ _ := Kept.trans
  lasts first second third lasting kept := by
    intro node held
    obtain ⟨notForeign, notOwn, old, middle, before, here, unchanged⟩ := lasting node held
    obtain ⟨new, after, -, later⟩ := kept node middle here
    exact ⟨notForeign, notOwn, old, new, before, after, unchanged.trans (later notOwn)⟩

/-- Where a parse may break off. -/
def Broken (exn : Exn) (last : Context CharT) : Prop :=
  exn ≠ .assertion → ∃ opened, Tidy opened last

/-- A run that leaves alone what is open around it. -/
abbrev Tending {Value : Type} (foreign own : Set NodePtr)
    (post : Value → Context CharT → List (Moment CharT) → Prop) (parser : Parser CharT Value)
    (context : Context CharT) : Prop :=
  Carries Moment.context (writing foreign own) Broken post context (parser context)

/-- A node made since the start that no logged moment holds. -/
structure Unseen (start : Context CharT) (log : List (Moment CharT)) (root : NodePtr) : Prop where
  fresh : start.nodeArena.length ≤ root
  unheld : ∀ moment ∈ log, ¬Held moment.context root

/-- A result's node that was made in the run and is still open. -/
structure Loose (foreign : Set NodePtr) (start last : Context CharT) (log : List (Moment CharT))
    (root : NodePtr) : Prop where
  unseen : Unseen start log root
  tidy : Tidy (insert root foreign) last

/-- A result's node lies where the result does, and is open or not behind its start. -/
structure Handed (foreign : Set NodePtr) (start last : Context CharT) (log : List (Moment CharT))
    (root : NodePtr) : Prop where
  placed : Placed foreign last.nodeArena root start.position last.position
  forward : start.position ≤ last.position ∨ Loose foreign start last log root

structure Delivers (foreign : Set NodePtr) (start : Context CharT) (result : ParseResult)
    (last : Context CharT) (log : List (Moment CharT)) : Prop where
  tidy : Tidy foreign last
  restored : ¬result.success = true → last.position = start.position
  handed : result.success = true → ∀ root, result.tree = some root → Handed foreign start last log root

/-- A parser whose runs deliver, whatever is open around it. -/
def Tends (parser : Parser CharT ParseResult) : Prop :=
  ∀ foreign context, Tidy foreign context →
    Tending foreign ∅ (Delivers foreign context) parser context

/-- A skip, which leaves nothing open. -/
def Skips (skip : Parser CharT Unit) : Prop :=
  ∀ foreign context, Tidy foreign context →
    Tending foreign ∅ (fun _ last _ => Tidy foreign last) skip context

section Owners

variable {Value : Type} {foreign : Set NodePtr}

theorem own_node {context : Context CharT}
    (post : Value → Context CharT → List (Moment CharT) → Prop)
    {post' : Value → Context CharT → List (Moment CharT) → Prop}
    {next : NodePtr → Parser CharT Value}
    (runs : Tending foreign {context.makeNode.1} post (next context.makeNode.1) context.makeNode.2)
    (posts : ∀ value last log, post value last log →
      (∀ moment ∈ log, ¬Held moment.context context.makeNode.1) → post' value last log) :
    Tending foreign ∅ post' (Comp.modifyGet Context.makeNode >>= next) context := by
  have run : (Comp.modifyGet Context.makeNode >>= next) context =
      next context.makeNode.1 context.makeNode.2 := rfl
  unfold Tending
  rw [run]
  refine runs.mono (fun last kept => ?_) (fun moment member later lasting node held => ?_)
    (fun _ _ => id) fun value ended met => posts value _ _ met fun moment member held => ?_
  · intro node old held
    obtain ⟨new, found, same, unchanged⟩ := kept node old (by
      rw [show context.makeNode.2.nodeArena = context.nodeArena ++ [({} : ParseTreeNode)] from rfl,
        List.getElem?_append_left (List.getElem?_eq_some_iff.mp held).1]
      exact held)
    refine ⟨new, found, same, fun _ => unchanged ?_⟩
    rintro rfl
    exact Nat.lt_irrefl _ (List.getElem?_eq_some_iff.mp held).1
  · obtain ⟨outside, -, same⟩ := lasting node held
    exact ⟨outside, Set.notMem_empty node, same⟩
  · exact ((runs.moments moment member).2 _ held).2.1 rfl

/-- A run inside the making of a node does not touch that node. -/
theorem lent_run {node : NodePtr} {context : Context CharT} {parser : Parser CharT Value}
    {post : Value → Context CharT → List (Moment CharT) → Prop}
    (runs : Tending (insert node foreign) ∅ post parser context) :
    Tending foreign {node} (fun value last log => post value last log ∧
      ∀ fields, context.nodeArena[node]? = some fields → last.nodeArena[node]? = some fields)
      parser context := by
  refine runs.mono (fun last kept => ?_) (fun moment member later lasting node held => ?_)
    (fun _ _ => id) fun value ended met => ⟨met, fun fields held => ?_⟩
  · intro index old held
    obtain ⟨new, found, same, unchanged⟩ := kept index old held
    exact ⟨new, found, fun member => same (Set.mem_insert_of_mem _ member),
      fun _ => unchanged (Set.notMem_empty index)⟩
  · obtain ⟨outside, -, same⟩ := lasting node held
    exact ⟨fun member => outside (Set.mem_insert_of_mem _ member),
      fun member => outside (Set.mem_singleton_iff.mp member ▸ Set.mem_insert _ _), same⟩
  · obtain ⟨new, found, same, -⟩ := runs.kept node fields held
    rw [found, same (Set.mem_insert _ _)]

structure Building (foreign : Set NodePtr) (node : NodePtr) (pos : Nat) (context : Context CharT) :
    Prop where
  tidy : Tidy (insert node foreign) context
  started : ∃ fields, context.nodeArena[node]? = some fields ∧ fields.startOffset = pos
  outside : node ∉ foreign

theorem TidyBut.mono {opened closed : Set NodePtr} {exempt : Nat → RuleId → Prop}
    {context : Context CharT} (tidy : TidyBut exempt opened context) (fewer : closed ⊆ opened) :
    TidyBut exempt closed context where
  rows pos rule row spared held := by
    have row' := tidy.rows pos rule row spared held
    refine ⟨fun success root tree => ?_, row'.failed⟩
    obtain ⟨⟨outside, fields⟩, forward⟩ := row'.placed success root tree
    exact ⟨⟨fun member => outside (fewer member), fields⟩, forward⟩
  children parent node child :=
    ⟨(tidy.children parent node child).1, fun member => (tidy.children parent node child).2 (fewer member)⟩
  bounded node member := tidy.bounded node (fewer member)

theorem node_made (context : Context CharT) :
    context.makeNode.2.nodeArena[context.makeNode.1]? = some {} :=
  List.getElem?_concat_length

theorem Building.begun {context : Context CharT} (tidy : Tidy foreign context) :
    Building foreign context.makeNode.1 context.position
      (markStart context.makeNode.1 context.makeNode.2) := by
  have outside : context.makeNode.1 ∉ foreign := fun member =>
    Nat.lt_irrefl _ (tidy.bounded _ member)
  refine ⟨tidy.make_node.update_node (fun absent => absurd (Set.mem_insert _ _) absent)
    fun fields _ node member => Or.inl member,
    ⟨_, modify_read _ _ _ _ (node_made context), ?_⟩, outside⟩
  rw [if_pos rfl]
  rfl

theorem Building.update {node : NodePtr} {pos : Nat} {context : Context CharT}
    (building : Building foreign node pos context) {update : ParseTreeNode → ParseTreeNode}
    (starts : ∀ fields, (update fields).startOffset = fields.startOffset)
    (adds : ∀ fields child, some child ∈ (update fields).children → some child ∈ fields.children ∨
      (child < context.nodeArena.length ∧ child ∉ insert node foreign)) :
    Building foreign node pos (context.updateNode node update) := by
  obtain ⟨fields, held, started⟩ := building.started
  refine ⟨building.tidy.update_node (fun absent => absurd (Set.mem_insert _ _) absent)
    fun fields _ => adds fields, ⟨_, modify_read _ _ _ _ held, ?_⟩, building.outside⟩
  rw [if_pos rfl, starts, started]

theorem Building.kept {node : NodePtr} {pos : Nat} {context : Context CharT}
    (building : Building foreign node pos context) (update : ParseTreeNode → ParseTreeNode) :
    Kept foreign {node} context.nodeArena (context.updateNode node update).nodeArena :=
  kept_update building.outside fun absent => absurd (Set.mem_singleton node) absent

theorem Building.push_child {node : NodePtr} {pos : Nat} {context : Context CharT}
    (building : Building foreign node pos context) {tree : Option NodePtr}
    (closed : ∀ child, tree = some child → child < context.nodeArena.length ∧
      child ∉ insert node foreign) :
    Building foreign node pos (pushChild node tree context) ∧
      Kept foreign {node} context.nodeArena (pushChild node tree context).nodeArena := by
  cases tree with
  | none => exact ⟨building, .refl _⟩
  | some child =>
      refine ⟨building.update (fun _ => rfl) fun fields other member => ?_, building.kept _⟩
      rcases List.mem_append.mp member with known | added
      · exact Or.inl known
      · obtain rfl := Option.some.inj (List.mem_singleton.mp added)
        exact Or.inr (closed other rfl)

theorem Building.hand {node : NodePtr} {start last : Context CharT} {log : List (Moment CharT)}
    (building : Building foreign node start.position last)
    (fresh : start.nodeArena.length ≤ node) (unheld : ∀ moment ∈ log, ¬Held moment.context node)
    {fields : ParseTreeNode} (held : last.nodeArena[node]? = some fields)
    (stops : fields.endOffset = last.position) : Handed foreign start last log node := by
  obtain ⟨fields', held', started⟩ := building.started
  obtain rfl := Option.some.inj (held.symm.trans held')
  exact ⟨⟨building.outside, fields, held, started, stops⟩,
    Or.inr ⟨⟨fresh, unheld⟩, building.tidy⟩⟩

end Owners

section Expressions

variable {foreign own : Set NodePtr}

theorem kept_same {before after : Context CharT} (arena : after.nodeArena = before.nodeArena) :
    (writing foreign own).kept before after := by
  change Kept foreign own before.nodeArena after.nodeArena
  rw [arena]
  exact .refl _

theorem next_arena (context : Context CharT) :
    context.next.nodeArena = context.nodeArena ∧ context.next.mem = context.mem := by
  unfold Context.next
  split_ifs <;> exact ⟨rfl, rfl⟩

theorem set_cut_arena (context : Context CharT) (committed : Bool) :
    (context.setCut committed).nodeArena = context.nodeArena ∧
      (context.setCut committed).position = context.position := by
  unfold Context.setCut
  split <;> exact ⟨rfl, rfl⟩

theorem remove_cut_arena (context : Context CharT) :
    context.removeCut.nodeArena = context.nodeArena ∧
      context.removeCut.position = context.position := by
  unfold Context.removeCut
  split
  · exact ⟨rfl, rfl⟩
  · split_ifs <;> exact ⟨rfl, rfl⟩

theorem Broken.remove_cut {exn : Exn} {last : Context CharT} (broken : Broken exn last) :
    Broken exn last.removeCut := by
  intro plain
  obtain ⟨opened, tidy⟩ := broken plain
  exact ⟨opened, tidy.remove_cut⟩

theorem failed {start last : Context CharT} {log : List (Moment CharT)} {tree : Option NodePtr}
    (tidy : Tidy foreign last) (restored : last.position = start.position) :
    Delivers foreign start ⟨false, tree⟩ last log :=
  ⟨tidy, fun _ => restored, fun success => nomatch success⟩

theorem bare {start last : Context CharT} {log : List (Moment CharT)} (tidy : Tidy foreign last) :
    Delivers foreign start ⟨true, none⟩ last log :=
  ⟨tidy, fun failure => absurd rfl failure, nofun⟩

theorem Building.delivers {node : NodePtr} {start last : Context CharT} {log : List (Moment CharT)}
    (building : Building foreign node start.position last) (fresh : start.nodeArena.length ≤ node)
    (unheld : ∀ moment ∈ log, ¬Held moment.context node) {fields : ParseTreeNode}
    (held : last.nodeArena[node]? = some fields) (stops : fields.endOffset = last.position) :
    Delivers foreign start ⟨true, some node⟩ last log := by
  refine ⟨building.tidy.mono (Set.subset_insert node foreign), fun failure => absurd rfl failure,
    fun _ root same => ?_⟩
  obtain rfl := Option.some.inj same
  exact building.hand fresh unheld held stops

section Leaves

theorem leaf_tends (start context : Context CharT) (tidy : Tidy foreign context)
    (length : context.nodeArena.length = start.nodeArena.length)
    (update : Context CharT → ParseTreeNode → ParseTreeNode)
    (fresh : ∀ here fields, (update here fields).children = fields.children)
    (starts : ∀ here fields, here.position = context.position →
      (update here fields).startOffset = start.position)
    (stops : ∀ here fields, here.position = context.position →
      (update here fields).endOffset = context.position) :
    Tending foreign ∅ (Delivers foreign start)
      (Comp.modifyGet Context.makeNode >>= fun node =>
        Comp.modify (fun here => here.updateNode node (update here)) >>= fun _ =>
          (pure ⟨true, some node⟩ : Parser CharT ParseResult)) context := by
  have outside : context.makeNode.1 ∉ foreign := fun member =>
    Nat.lt_irrefl _ (tidy.bounded _ member)
  have written := modify_read context.makeNode.2.nodeArena context.makeNode.1 context.makeNode.1
    (update context.makeNode.2) (node_made context)
  rw [if_pos rfl] at written
  refine own_node (fun result last log => log = [] ∧ result = ⟨true, some context.makeNode.1⟩ ∧
    Building foreign context.makeNode.1 start.position last ∧ last.position = context.position ∧
    last.nodeArena[context.makeNode.1]? = some (update context.makeNode.2 {})) ?_ ?_
  · refine carries_modify (kept_update outside fun absent => absurd (Set.mem_singleton _) absent)
      (carries_pure ⟨rfl, rfl, ⟨?_, ⟨_, written, starts _ _ rfl⟩, outside⟩, rfl, written⟩)
    exact tidy.make_node.update_node (fun absent => absurd (Set.mem_insert _ _) absent)
      fun fields _ node member => Or.inl (by rwa [fresh] at member)
  · rintro result last log ⟨rfl, rfl, building, position, held⟩ unheld
    refine building.delivers (Nat.le_of_eq length.symm) unheld held ?_
    rw [stops context.makeNode.2 _ rfl, position]

variable [PegValue CharT]

theorem terminal_tends (value : TerminalValue CharT) :
    Tends (TerminalExpr.parse value : Parser CharT ParseResult) := by
  intro foreign context tidy
  refine carries_read (carries_ite (fun _ => ?_) fun _ => ?_)
  · exact carries_modify (kept_same (next_arena context).1) (carries_pure (bare
      (tidy.moved (next_arena context).1 (by rw [(next_arena context).2]; exact fun _ _ _ => id))))
  · exact carries_modify (.refl _) (carries_pure (failed (tidy.moved rfl fun _ _ _ => id) rfl))

theorem match_values_tends (values : List CharT) (context : Context CharT)
    (tidy : Tidy foreign context) :
    Tending foreign ∅ (fun _ last _ => Tidy foreign last)
      (TerminalSeqExpr.matchValues values : Parser CharT Bool) context := by
  induction values generalizing context with
  | nil => exact carries_pure tidy
  | cons value rest induction =>
      refine carries_read (carries_ite (fun _ => ?_) fun _ => carries_pure tidy)
      refine carries_modify (kept_same (next_arena context).1) (induction _ ?_)
      exact tidy.moved (next_arena context).1 (by rw [(next_arena context).2]; exact fun _ _ _ => id)

theorem terminal_seq_tends (values : List CharT) :
    Tends (TerminalSeqExpr.parse values : Parser CharT ParseResult) := by
  intro foreign context tidy
  refine carries_read (carries_bind (match_values_tends values context tidy) ?_)
  intro matched here log _ tidyHere
  refine carries_ite (fun _ => carries_pure (bare tidyHere)) fun _ => ?_
  refine carries_modify (.refl _) (carries_modify (.refl _) (carries_pure (failed ?_ rfl)))
  exact tidyHere.moved rfl fun _ _ _ => id

theorem token_tends (value : TerminalValue CharT) :
    Tends (TokenExpr.parse value : Parser CharT ParseResult) := by
  intro foreign context tidy
  refine carries_read (carries_ite (fun consumed => ?_) fun _ => ?_)
  · have inside : context.position < context.inputSize := by
      unfold consumable Context.ended at consumed
      by_contra outside
      rw [decide_eq_true (Nat.le_of_not_lt outside)] at consumed
      cases consumed
    have moved : context.next = { context with position := context.position + 1 } := by
      rw [Context.next, if_pos inside]
    refine carries_modify (kept_same (next_arena context).1) ?_
    rw [moved]
    refine leaf_tends context { context with position := context.position + 1 }
      (tidy.moved rfl fun _ _ _ => id) rfl (fun here fields =>
        { fields with startOffset := here.position - 1, endOffset := here.position })
      (fun _ _ => rfl) (fun here _ same => ?_) fun here _ same => same
    change here.position - 1 = context.position
    rw [same]
    rfl
  · exact carries_modify (.refl _) (carries_pure (failed (tidy.moved rfl fun _ _ _ => id) rfl))

end Leaves

theorem matcher_tends (fn : Context CharT → Span → Option Span) :
    Tends (MatcherExpr.parse fn) := by
  intro foreign context tidy
  refine carries_read ?_
  dsimp only [id]
  cases fn context ⟨context.position, context.position⟩ with
  | some consumed =>
      exact carries_modify (.refl _) (leaf_tends context (context.reset consumed.stop)
        (tidy.moved rfl fun _ _ _ => id) rfl (fun _ fields =>
          { fields with startOffset := context.position, endOffset := consumed.stop })
        (fun _ _ => rfl) (fun _ _ _ => rfl) fun _ _ _ => rfl)
  | none => exact carries_pure (failed tidy rfl)

section Combinators

theorem skip_tends {apply : RuleId → Parser CharT ParseResult} (applies : ∀ rule, Tends (apply rule)) :
    Skips (runSkipper apply) := by
  intro foreign context tidy
  refine carries_read ?_
  dsimp only [id]
  cases context.skipEnabled with
  | false => exact carries_pure tidy
  | true =>
      cases context.skipper with
      | none => exact carries_pure tidy
      | some skipper =>
          refine carries_modify (.refl _) (carries_bind (applies skipper foreign _
            (tidy.moved rfl fun _ _ _ => id)) ?_)
          intro result here log _ delivers
          exact carries_update (.refl _) (delivers.tidy.moved rfl fun _ _ _ => id)

theorem Building.moved {node : NodePtr} {pos : Nat} {before after : Context CharT}
    (building : Building foreign node pos before) (arena : after.nodeArena = before.nodeArena)
    (mem : after.mem = before.mem) : Building foreign node pos after :=
  ⟨building.tidy.moved arena (by rw [mem]; exact fun _ _ _ => id), by rw [arena]; exact building.started,
    building.outside⟩

theorem Building.skipped {skip : Parser CharT Unit} (skips : Skips skip) {condition : Prop}
    [Decidable condition] {node : NodePtr} {pos : Nat} {context : Context CharT}
    (building : Building foreign node pos context) :
    Tending foreign {node} (fun _ last _ => Building foreign node pos last)
      (Comp.onlyIf condition skip) context := by
  refine carries_onlyIf (fun _ => ?_) fun _ => building
  refine (lent_run (skips _ context building.tidy)).weaken fun _ _ met => ?_
  obtain ⟨fields, held, started⟩ := building.started
  exact ⟨met.1, ⟨fields, met.2 fields held, started⟩, building.outside⟩

theorem Building.part {child : Parser CharT ParseResult} (tends : Tends child) {node : NodePtr}
    {pos : Nat} {context : Context CharT} (building : Building foreign node pos context) :
    Tending foreign {node} (fun result last _ => Building foreign node pos last ∧
      (¬result.success = true → last.position = context.position) ∧
      (result.success = true → Building foreign node pos (pushChild node result.tree last) ∧
        Kept foreign {node} last.nodeArena (pushChild node result.tree last).nodeArena)) child
      context := by
  refine (lent_run (tends _ context building.tidy)).weaken fun result _ met => ?_
  obtain ⟨fields, held, started⟩ := building.started
  have kept : Building foreign node pos _ :=
    ⟨met.1.tidy, ⟨fields, met.2 fields held, started⟩, building.outside⟩
  refine ⟨kept, met.1.restored, fun success => kept.push_child fun child same => ?_⟩
  have placed := (met.1.handed success child same).placed
  exact ⟨placed.inside, placed.1⟩

theorem parse_seq_tends {skip : Parser CharT Unit} (skips : Skips skip) {node : NodePtr} {pos : Nat}
    {children : List (Parser CharT ParseResult)} (each : ∀ child ∈ children, Tends child) (index : Nat)
    {context : Context CharT} (building : Building foreign node pos context) :
    Tending foreign {node} (fun _ last _ => Building foreign node pos last)
      (SequenceExpr.parseSeq skip node index children) context := by
  induction children generalizing index context with
  | nil => exact carries_pure building
  | cons child rest induction =>
      refine carries_bind (building.skipped skips) fun _ here _ _ building => ?_
      refine carries_bind (building.part (each child (by simp))) fun result last _ _ met => ?_
      refine carries_ite (fun success => ?_) fun _ => carries_pure met.1
      have pushed := met.2.2 success
      exact carries_modify pushed.2
        (induction (fun other member => each other (by simp [member])) (index + 1) pushed.1)

theorem Building.marked {node : NodePtr} {pos : Nat} {context : Context CharT}
    (building : Building foreign node pos context) :
    Building foreign node pos (markEnd node context) ∧
      ∃ fields, (markEnd node context).nodeArena[node]? = some fields ∧
        fields.endOffset = (markEnd node context).position := by
  obtain ⟨fields, held, started⟩ := building.started
  refine ⟨building.update (fun _ => rfl) fun _ _ => Or.inl, _, modify_read _ _ _ _ held, ?_⟩
  rw [if_pos rfl]
  rfl

theorem sequence_tends {skip : Parser CharT Unit} (skips : Skips skip)
    {children : List (Parser CharT ParseResult)} (each : ∀ child ∈ children, Tends child) :
    Tends (SequenceExpr.parse skip children) := by
  intro foreign context tidy
  refine carries_read (own_node (fun result last _ =>
    Building foreign context.makeNode.1 context.position last ∧
      (result = ⟨false, none⟩ ∧ last.position = context.position ∨
        result = ⟨true, some context.makeNode.1⟩ ∧ ∃ fields,
          last.nodeArena[context.makeNode.1]? = some fields ∧ fields.endOffset = last.position)) ?_ ?_)
  · have begun := Building.begun tidy
    refine carries_modify (kept_update begun.outside fun absent =>
      absurd (Set.mem_singleton _) absent) ?_
    refine carries_bind (parse_seq_tends skips each 0 begun) fun matched last _ _ built => ?_
    refine carries_ite (fun _ => ?_) fun _ => ?_
    · have marked := built.marked
      exact carries_modify (built.kept _) (carries_pure ⟨marked.1, Or.inr ⟨rfl, marked.2⟩⟩)
    · exact carries_modify (.refl _) (carries_pure ⟨built.moved rfl rfl, Or.inl ⟨rfl, rfl⟩⟩)
  · rintro result last log ⟨built, ⟨rfl, restored⟩ | ⟨rfl, fields, held, stops⟩⟩ unheld
    · exact failed (built.tidy.mono (Set.subset_insert _ _)) restored
    · exact built.delivers (Nat.le_refl _) unheld held stops

theorem Unseen.earlier {start here : Context CharT} {log log' : List (Moment CharT)} {root : NodePtr}
    (unseen : Unseen here log' root) (kept : Kept foreign ∅ start.nodeArena here.nodeArena)
    (settled : ∀ moment ∈ log, (writing foreign ∅).lasting moment.context here) :
    Unseen start (log ++ log') root := by
  refine ⟨Nat.le_trans (Nat.le_of_not_lt fun longer => ?_) unseen.fresh, fun moment member held => ?_⟩
  · obtain ⟨new, found, -⟩ := kept here.nodeArena.length _ (List.getElem?_eq_getElem longer)
    exact Nat.lt_irrefl _ (List.getElem?_eq_some_iff.mp found).1
  · rcases List.mem_append.mp member with early | late
    · obtain ⟨-, -, old, new, -, found, -⟩ := settled moment early root held
      exact Nat.not_lt.mpr unseen.fresh (List.getElem?_eq_some_iff.mp found).1
    · exact unseen.unheld moment late held

theorem Delivers.earlier {start here last : Context CharT} {result : ParseResult}
    {log log' : List (Moment CharT)} (delivers : Delivers foreign here result last log')
    (position : here.position = start.position) (kept : Kept foreign ∅ start.nodeArena here.nodeArena)
    (settled : ∀ moment ∈ log, (writing foreign ∅).lasting moment.context here) :
    Delivers foreign start result last (log ++ log') := by
  refine ⟨delivers.tidy, fun failure => (delivers.restored failure).trans position,
    fun success root same => ?_⟩
  obtain ⟨placed, forward⟩ := delivers.handed success root same
  rw [position] at placed forward
  exact ⟨placed, forward.imp_right fun loose => ⟨loose.unseen.earlier kept settled, loose.tidy⟩⟩

theorem Tidy.lasting {context : Context CharT} (tidy : Tidy foreign context) :
    (writing foreign ∅).lasting context context := by
  intro node held
  have settled := tidy.held nofun held
  exact ⟨settled.1, Set.notMem_empty node, settled.2⟩

theorem Building.lasting {node : NodePtr} {pos : Nat} {context : Context CharT}
    (building : Building foreign node pos context) :
    (writing foreign {node}).lasting context context := by
  intro index held
  have settled := building.tidy.held nofun held
  exact ⟨fun member => settled.1 (Set.mem_insert_of_mem _ member),
    fun member => settled.1 (Set.mem_singleton_iff.mp member ▸ Set.mem_insert _ _), settled.2⟩

theorem raise_tends {context : Context CharT} {opened : Set NodePtr} (tidy : Tidy opened context)
    (lasting : (writing foreign own).lasting context context) :
    Tending foreign own (fun _ last _ => last = context) raiseIfCommitted context :=
  carries_announce (.refl _) lasting (carries_read (carries_onlyIf
    (fun _ => carries_throw fun _ => ⟨opened, tidy⟩) fun _ => rfl))

theorem Delivers.stamped {start last : Context CharT} {result : ParseResult}
    {log : List (Moment CharT)} (delivers : Delivers foreign start result last log)
    (success : result.success = true) (index : Nat) :
    Kept foreign ∅ last.nodeArena (stampWinner result.tree index last).nodeArena ∧
      Delivers foreign start result (stampWinner result.tree index last) log := by
  cases same : result.tree with
  | none => exact ⟨.refl _, delivers⟩
  | some root =>
      obtain ⟨placed, forward⟩ := delivers.handed success root same
      have stamp : ∀ fields : ParseTreeNode,
          Unchanged fields { fields with altWinner := some index } := fun _ => ⟨rfl, rfl, rfl, fun _ => rfl⟩
      have kept : Kept foreign ∅ last.nodeArena (stampWinner (some root) index last).nodeArena :=
        kept_update placed.1 fun _ fields _ => stamp fields
      have tidied : ∀ opened, Tidy opened last → Tidy opened (stampWinner (some root) index last) :=
        fun opened tidy => tidy.update_node (fun _ fields _ => stamp fields) fun _ _ _ => Or.inl
      refine ⟨kept, tidied _ delivers.tidy, fun failure => absurd success failure,
        fun _ other same' => ?_⟩
      obtain rfl := Option.some.inj (same.symm.trans same')
      exact ⟨placed.kept kept (Set.notMem_empty root),
        forward.imp_right fun loose => ⟨loose.unseen, tidied _ loose.tidy⟩⟩

theorem parse_alt_tends {children : List (Parser CharT ParseResult)}
    (each : ∀ child ∈ children, Tends child) (index : Nat) {context : Context CharT}
    (tidy : Tidy foreign context) :
    Tending foreign ∅ (Delivers foreign context) (AlternationExpr.parseAlt index children) context := by
  induction children generalizing index context with
  | nil => exact carries_pure (failed tidy rfl)
  | cons child rest induction =>
      refine carries_bind (each child (by simp) foreign context tidy).recall ?_
      rintro result here log - ⟨delivers, kept, settled⟩
      refine carries_ite (fun success => ?_) fun failure => ?_
      · have stamped := delivers.stamped success index
        refine carries_modify stamped.1 (carries_pure ?_)
        rw [List.append_nil]
        exact stamped.2
      · refine carries_bind (raise_tends delivers.tidy (Tidy.lasting delivers.tidy)).recall ?_
        rintro ⟨⟩ here' raised - ⟨rfl, kept', settled'⟩
        refine (induction (fun other member => each other (by simp [member])) (index + 1)
          delivers.tidy).weaken fun other _ later => ?_
        exact (later.earlier rfl kept' settled').earlier (delivers.restored failure) kept settled

theorem Delivers.moved {start start' last after : Context CharT} {result : ParseResult}
    {log : List (Moment CharT)} (delivers : Delivers foreign start result last log)
    (arena : after.nodeArena = last.nodeArena)
    (mem : ∀ pos rule row, after.mem pos rule = some row → last.mem pos rule = some row)
    (position : after.position = last.position) (origin : start'.position = start.position)
    (length : start'.nodeArena.length = start.nodeArena.length) :
    Delivers foreign start' result after log := by
  refine ⟨delivers.tidy.moved arena mem, fun failure => ?_, fun success root same => ?_⟩
  · rw [position, origin]
    exact delivers.restored failure
  · obtain ⟨placed, forward⟩ := delivers.handed success root same
    rw [← position, ← origin] at placed forward
    refine ⟨by rw [arena]; exact placed, forward.imp_right fun loose => ?_⟩
    exact ⟨⟨by rw [length]; exact loose.unseen.fresh, loose.unseen.unheld⟩,
      loose.tidy.moved arena mem⟩

theorem remove_cut_rows (context : Context CharT) (pos : Nat) (rule : RuleId) (row : RuleState)
    (held : context.removeCut.mem pos rule = some row) : context.mem pos rule = some row := by
  unfold Context.removeCut at held
  split at held
  · exact held
  · split_ifs at held
    · dsimp only at held
      split_ifs at held
      exact held
    · exact held

theorem cut_scope_tends {body : Parser CharT ParseResult} (tends : Tends body) :
    Tends (Comp.modify Context.initCut >>= fun _ => Comp.guarded body Context.removeCut) := by
  intro foreign context tidy
  refine carries_modify (.refl _) (carries_guarded (fun last => kept_same (remove_cut_arena last).1)
    ((tends foreign context.initCut (tidy.moved rfl fun _ _ _ => id)).weaken
      fun result _ delivers => ?_) fun _ _ broken => broken.remove_cut)
  exact delivers.moved (remove_cut_arena _).1 (remove_cut_rows _) (remove_cut_arena _).2 rfl rfl

theorem alternation_tends {children : List (Parser CharT ParseResult)}
    (each : ∀ child ∈ children, Tends child) : Tends (AlternationExpr.parse children) :=
  cut_scope_tends fun _ _ tidy => parse_alt_tends each 0 tidy

theorem repeat_loop_tends {skip : Parser CharT Unit} (skips : Skips skip)
    {parseChild : Parser CharT ParseResult} (tends : Tends parseChild) (maxRep : Int) {node : NodePtr}
    {pos : Nat} (fuel loopCount lastSuccessState : Nat) {context : Context CharT}
    (building : Building foreign node pos context) :
    Tending foreign {node} (fun _ last _ => Building foreign node pos last)
      (repeatLoop skip parseChild maxRep node fuel loopCount lastSuccessState) context := by
  induction fuel generalizing loopCount lastSuccessState context with
  | zero => exact carries_exhaust
  | succ fuel induction =>
      refine carries_bind (building.skipped skips) fun _ here _ _ building => carries_read ?_
      have cleared := set_cut_arena here false
      have uncut : Building foreign node pos (here.setCut false) :=
        ⟨building.tidy.set_cut false, by rw [cleared.1]; exact building.started, building.outside⟩
      refine carries_modify (kept_same cleared.1) ?_
      refine carries_bind (uncut.part tends) fun result last _ _ met => ?_
      refine carries_ite (fun success => carries_read ?_) fun _ => carries_pure met.1
      have pushed := met.2.2 success
      exact carries_modify pushed.2 (carries_ite (fun _ => carries_pure pushed.1) fun _ =>
        induction (loopCount + 1) last.position pushed.1)

theorem repeat_finish_tends (maxRep : Int) {node : NodePtr} {pos : Nat} (ended : LoopExit)
    {context : Context CharT} (building : Building foreign node pos context) :
    Tending foreign {node} (fun result last _ => Building foreign node pos last ∧
      result = ⟨true, some node⟩ ∧ ∃ fields, last.nodeArena[node]? = some fields ∧
        fields.endOffset = last.position)
      (repeatFinish maxRep node ended) context := by
  have resized : Building foreign node pos ((context.reset ended.lastSuccessState).updateNode node
      (resizeChildren ended.loopCount)) := by
    refine (building.moved rfl rfl : Building foreign node pos
      (context.reset ended.lastSuccessState)).update (fun _ => rfl) fun fields child member => ?_
    rcases List.mem_append.mp member with kept | padded
    · exact Or.inl (List.mem_of_mem_take kept)
    · exact absurd (List.eq_of_mem_replicate padded) nofun
  have restored : Tending foreign {node} (fun _ last _ => Building foreign node pos last)
      (Comp.onlyIf (ended.exitedViaFailure = true) (Comp.modify fun context =>
        (context.reset ended.lastSuccessState).updateNode node (resizeChildren ended.loopCount)))
      context :=
    carries_onlyIf (fun _ => carries_update (building.kept _) resized) fun _ => building
  refine carries_bind restored ?_
  rintro ⟨⟩ here - - built
  have raised : Tending foreign {node} (fun _ last _ => Building foreign node pos last)
      (Comp.onlyIf (maxRep < 0 ∧ ended.exitedViaFailure = true) raiseIfCommitted) here := by
    refine carries_onlyIf (fun _ => ?_) fun _ => built
    refine (raise_tends built.tidy built.lasting).weaken fun _ _ same => ?_
    rw [same]
    exact built
  refine carries_bind raised ?_
  rintro ⟨⟩ here' - - built
  have marked := built.marked
  exact carries_modify (built.kept _) (carries_pure ⟨marked.1, rfl, marked.2⟩)

theorem repeat_tends (fuel : Nat) {skip : Parser CharT Unit} (skips : Skips skip)
    {parseChild : Parser CharT ParseResult} (tends : Tends parseChild) (minRep : Nat) (maxRep : Int) :
    Tends (repeatParseImpl fuel skip parseChild minRep maxRep) := by
  refine cut_scope_tends fun foreign context tidy => carries_read (own_node (fun result last _ =>
    Building foreign context.makeNode.1 context.position last ∧
      (result = ⟨false, none⟩ ∧ last.position = context.position ∨
        result = ⟨true, some context.makeNode.1⟩ ∧ ∃ fields,
          last.nodeArena[context.makeNode.1]? = some fields ∧ fields.endOffset = last.position)) ?_ ?_)
  · have begun := Building.begun tidy
    refine carries_modify (kept_update begun.outside fun absent =>
      absurd (Set.mem_singleton _) absent) ?_
    refine carries_bind (repeat_loop_tends skips tends maxRep fuel 0 _ begun) ?_
    intro ended last _ _ built
    refine carries_ite (fun _ => ?_) fun _ => ?_
    · exact carries_modify (.refl _) (carries_pure ⟨built.moved rfl rfl, Or.inl ⟨rfl, rfl⟩⟩)
    · exact (repeat_finish_tends maxRep ended built).weaken fun _ _ met => ⟨met.1, Or.inr met.2⟩
  · rintro result last log ⟨built, ⟨rfl, restored⟩ | ⟨rfl, fields, held, stops⟩⟩ unheld
    · exact failed (built.tidy.mono (Set.subset_insert _ _)) restored
    · exact built.delivers (Nat.le_refl _) unheld held stops

theorem predicate_tends {parseChild : Parser CharT ParseResult} (tends : Tends parseChild)
    (negate : Bool) : Tends (predicateParseImpl parseChild negate) := by
  intro foreign context tidy
  refine carries_read (carries_bind (tends foreign context tidy) fun result last _ _ delivers => ?_)
  refine carries_modify (.refl _) (carries_pure ⟨delivers.tidy.moved rfl fun _ _ _ => id,
    fun _ => rfl, fun _ _ absent => nomatch absent⟩)

theorem lexeme_tends {parseChild : Parser CharT ParseResult} (tends : Tends parseChild) :
    Tends (LexemeExpr.parse parseChild) := by
  intro foreign context tidy
  have quiet : Tidy foreign { context with skipEnabled := false } := tidy.moved rfl fun _ _ _ => id
  refine carries_read (carries_modify (.refl _) (carries_guarded (fun _ => .refl _)
    ((tends foreign _ quiet).weaken fun result _ delivers => ?_) ?_))
  · exact delivers.moved rfl (fun _ _ _ => id) rfl rfl rfl
  · intro exn last broken plain
    obtain ⟨opened, tidied⟩ := broken plain
    exact ⟨opened, tidied.moved rfl fun _ _ _ => id⟩

end Combinators

theorem expr_tends [PegValue CharT] {apply : RuleId → Parser CharT ParseResult}
    (applies : ∀ rule, Tends (apply rule)) (fuel : Nat) (expr : Expr CharT) :
    Tends (expr.parse apply fuel) := by
  have all : ∀ children : List (Expr CharT),
      (∀ child ∈ children, Tends (child.parse apply fuel)) →
      ∀ parser ∈ Expr.parseAll apply fuel children, Tends parser := by
    intro children each parser member
    rw [Expr.parse_all_eq_map] at member
    obtain ⟨child, inChildren, rfl⟩ := List.mem_map.mp member
    exact each child inChildren
  induction expr using Expr.induct with
  | terminal value => exact terminal_tends value
  | terminalSeq values => exact terminal_seq_tends values
  | token value => exact token_tends value
  | matcher fn => exact matcher_tends fn
  | empty => exact fun _ _ tidy => carries_pure (bare tidy)
  | cut =>
      exact fun _ context tidy => carries_modify (kept_same (set_cut_arena context true).1)
        (carries_pure (bare (tidy.set_cut true)))
  | sequence children induction => exact sequence_tends (skip_tends applies) (all children induction)
  | alternation children induction => exact alternation_tends (all children induction)
  | repetition kind child induction =>
      exact repeat_tends fuel (skip_tends applies) induction kind.minRep kind.maxRep
  | not child induction => exact predicate_tends induction true
  | and child induction => exact predicate_tends induction false
  | lexeme child induction => exact lexeme_tends induction
  | rule id => exact applies id

end Expressions

section RuleApplication

variable {foreign own : Set NodePtr} {rule : RuleId} {startPos : Nat}

def OwnRow (rule : RuleId) (startPos : Nat) (pos : Nat) (other : RuleId) : Prop :=
  pos = startPos ∧ other = rule

theorem update_row_frame (context : Context CharT) (rule : RuleId) (pos : Nat) (entry : RuleState) :
    (context.updateRuleState rule pos entry).2.nodeArena = context.nodeArena ∧
      (context.updateRuleState rule pos entry).2.lrStack = context.lrStack ∧
      (context.updateRuleState rule pos entry).2.position = context.position := by
  unfold Context.updateRuleState
  split <;> exact ⟨rfl, rfl, rfl⟩

theorem TidyBut.others {opened : Set NodePtr} {exempt : Nat → RuleId → Prop} {context : Context CharT}
    (tidy : TidyBut exempt opened context) {exempt' : Nat → RuleId → Prop}
    (more : ∀ pos rule, exempt pos rule → exempt' pos rule) : TidyBut exempt' opened context :=
  ⟨fun pos rule row spared => tidy.rows pos rule row fun found => spared (more pos rule found),
    tidy.children, tidy.bounded⟩

theorem TidyBut.write {opened : Set NodePtr} {context : Context CharT}
    (tidy : TidyBut (OwnRow rule startPos) opened context) (entry : RuleState) :
    TidyBut (OwnRow rule startPos) opened (context.updateRuleState rule startPos entry).2 := by
  unfold Context.updateRuleState
  split
  · refine ⟨fun pos other row spared held => ?_, tidy.children, tidy.bounded⟩
    rcases Memo.write_eq_some held with ⟨samePos, sameRule, -⟩ | ⟨-, before⟩
    · exact absurd ⟨samePos, sameRule⟩ spared
    · exact tidy.rows pos other row spared before
  · exact tidy

theorem TidyBut.stored {opened : Set NodePtr} {context : Context CharT}
    (tidy : TidyBut (OwnRow rule startPos) opened context) {entry : RuleState}
    (row : RowTidy opened context.nodeArena startPos entry) :
    Tidy opened (context.updateRuleState rule startPos entry).2 := by
  unfold Context.updateRuleState
  split
  · refine ⟨fun pos other found _ held => ?_, tidy.children, tidy.bounded⟩
    rcases Memo.write_eq_some held with ⟨rfl, -, rfl⟩ | ⟨different, before⟩
    · exact row
    · exact tidy.rows pos other found different before
  · next absent =>
      refine ⟨fun pos other found _ held => tidy.rows pos other found ?_ held, tidy.children,
        tidy.bounded⟩
      rintro ⟨rfl, rfl⟩
      rw [absent] at held
      cases held

theorem store_tends {context : Context CharT} {entry : RuleState}
    (lasting : (writing foreign own).lasting (context.updateRuleState rule startPos entry).2
      (context.updateRuleState rule startPos entry).2) :
    Tending foreign own (fun _ last log => last = (context.updateRuleState rule startPos entry).2 ∧
        ∀ moment ∈ log, moment.context = (context.updateRuleState rule startPos entry).2)
      (NonTerminal.store rule startPos entry) context := by
  refine carries_modifyGet (kept_same (update_row_frame context rule startPos entry).1)
    (carries_announce (.refl _) lasting (carries_pure ⟨rfl, fun moment member => ?_⟩))
  rw [List.mem_singleton.mp member]

def Top (rule : RuleId) (startPos last : Nat) (context : Context CharT) : Prop :=
  ∃ frame rest, context.lrStack = frame :: rest ∧ frameCore frame = (rule, startPos, last)

theorem Top.active {last : Nat} {context : Context CharT} (top : Top rule startPos last context) :
    context.lrInProgress rule startPos = true := by
  obtain ⟨frame, rest, stack, core⟩ := top
  obtain ⟨sameRule, samePos, -⟩ : frame.rule = rule ∧ frame.pos = startPos ∧ frame.lastPos = last := by
    simpa [frameCore] using core
  simp [Context.lrInProgress, stack, LRFrame.isOf, sameRule, samePos]

theorem Top.last_eq {last : Nat} {context : Context CharT} (top : Top rule startPos last context) :
    (NonTerminal.frame context).lastPos = last := by
  obtain ⟨frame, rest, stack, core⟩ := top
  rw [NonTerminal.frame, stack]
  exact congrArg (fun core => core.2.2) core

theorem Top.stable {last : Nat} {before after : Context CharT} (top : Top rule startPos last before)
    (step : Stable before after) : Top rule startPos last after := by
  obtain ⟨frame, rest, stack, core⟩ := top
  obtain ⟨frame', rest', stack', core', -⟩ := stable_top step stack
  exact ⟨frame', rest', stack', core'.trans core⟩

theorem Top.moved {last : Nat} {before after : Context CharT} (top : Top rule startPos last before)
    (stack : after.lrStack = before.lrStack) : Top rule startPos last after := by
  obtain ⟨frame, rest, held, core⟩ := top
  exact ⟨frame, rest, stack.trans held, core⟩

theorem Top.marked {last : Nat} {context : Context CharT} (top : Top rule startPos last context)
    (pos : Nat) : Top rule startPos pos (NonTerminal.setFrameLastPos pos context) := by
  obtain ⟨frame, rest, stack, core⟩ := top
  refine ⟨{ frame with lastPos := pos }, rest, ?_, ?_⟩
  · simp only [NonTerminal.setFrameLastPos, stack]
  · have same : frame.rule = rule ∧ frame.pos = startPos ∧ frame.lastPos = last := by
      simpa [frameCore] using core
    simp [frameCore, same.1, same.2.1]

/-- The head of the growth loop. -/
structure Growing (foreign : Set NodePtr) (rule : RuleId) (startPos : Nat) (context : Context CharT)
    (best : ParseResult) (ruleState : RuleState) : Prop where
  tidy : Tidy foreign context
  top : Top rule startPos ruleState.lastPos context
  forward : startPos ≤ ruleState.lastPos
  unmoved : ¬best.success = true → ruleState.lastPos = startPos
  placed : best.success = true → ∀ root, best.tree = some root →
    Placed foreign context.nodeArena root startPos ruleState.lastPos

/-- The end of the growth loop. The node of a first match that moved back is
still open, with only the application's own row pointing at it. -/
structure Grown (foreign : Set NodePtr) (rule : RuleId) (startPos : Nat) (start : Context CharT)
    (grown : ParseResult × RuleState) (last : Context CharT) (log : List (Moment CharT)) : Prop where
  tidy : TidyBut (OwnRow rule startPos) foreign last
  forward : startPos ≤ grown.2.lastPos
  unmoved : ¬grown.1.success = true → grown.2.lastPos = startPos
  handed : grown.1.success = true → ∀ root, grown.1.tree = some root →
    Placed foreign last.nodeArena root startPos grown.2.lastPos ∨
      (Unseen start log root ∧ root ∉ foreign ∧ root < last.nodeArena.length ∧
        TidyBut (OwnRow rule startPos) (insert root foreign) last)

theorem Grown.earlier {start here last : Context CharT} {grown : ParseResult × RuleState}
    {log log' : List (Moment CharT)} (met : Grown foreign rule startPos here grown last log')
    (kept : Kept foreign ∅ start.nodeArena here.nodeArena)
    (settled : ∀ moment ∈ log, (writing foreign ∅).lasting moment.context here) :
    Grown foreign rule startPos start grown last (log ++ log') :=
  ⟨met.tidy, met.forward, met.unmoved, fun success root same =>
    (met.handed success root same).imp_right fun adrift => ⟨adrift.1.earlier kept settled, adrift.2⟩⟩

theorem Growing.grown {start last : Context CharT} {best : ParseResult} {ruleState : RuleState}
    {log : List (Moment CharT)} (growing : Growing foreign rule startPos last best ruleState) :
    Grown foreign rule startPos start (best, ruleState) last log :=
  ⟨growing.tidy.others fun _ _ => False.elim, growing.forward, growing.unmoved,
    fun success root same => Or.inl (growing.placed success root same)⟩

theorem own_row_active {last : Nat} {context : Context CharT} (top : Top rule startPos last context)
    (pos : Nat) (other : RuleId) (own : OwnRow rule startPos pos other) :
    context.lrInProgress other pos = true := by
  obtain ⟨rfl, rfl⟩ := own
  exact top.active

theorem TidyBut.lasting {last : Nat} {context : Context CharT}
    (tidy : TidyBut (OwnRow rule startPos) foreign context) (top : Top rule startPos last context) :
    (writing foreign ∅).lasting context context := by
  intro node held
  have settled := tidy.held (own_row_active top) held
  exact ⟨settled.1, Set.notMem_empty node, settled.2⟩

theorem grow_loop_tends {parseBody : Parser CharT ParseResult} (tends : Tends parseBody)
    (stable : StableParser parseBody) (fuel : Nat) {best : ParseResult} {ruleState : RuleState}
    {context : Context CharT} (growing : Growing foreign rule startPos context best ruleState) :
    Tending foreign ∅ (fun grown last log => Grown foreign rule startPos context grown last log ∧
        Top rule startPos grown.2.lastPos last)
      (NonTerminal.growLoop rule startPos parseBody fuel best ruleState) context := by
  induction fuel generalizing best ruleState context with
  | zero => exact carries_exhaust
  | succ fuel induction =>
      have reset : Growing foreign rule startPos (context.reset startPos) best ruleState :=
        ⟨growing.tidy.moved rfl fun _ _ _ => id, growing.top.moved rfl, growing.forward,
          growing.unmoved, growing.placed⟩
      have cleared : Tending foreign ∅ (fun _ here log => log = [] ∧
            here.nodeArena = context.nodeArena ∧ here.position = startPos ∧
            Growing foreign rule startPos here best ruleState)
          (Comp.onlyIf ((NonTerminal.frame (context.reset startPos)).isHead = true ∧
              best.success = true)
            (Comp.modify fun context => context.clearSiblingsAt startPos rule))
          (context.reset startPos) := by
        refine carries_onlyIf (fun _ => carries_update (.refl _) ⟨rfl, rfl, rfl, ?_⟩)
          fun _ => ⟨rfl, rfl, rfl, reset⟩
        refine ⟨reset.tidy.moved rfl fun pos other row held => ?_, reset.top.moved rfl,
          reset.forward, reset.unmoved, reset.placed⟩
        simp only [Context.clearSiblingsAt] at held
        split_ifs at held
        exact held
      refine carries_modify (.refl _) (carries_read (carries_bind cleared ?_))
      rintro ⟨⟩ here - - ⟨rfl, sameArena, at_start, ready⟩
      refine carries_bind (tends foreign here ready.tidy).recall ?_
      rintro result after log run ⟨delivers, kept, settled⟩
      have step : Stable here after := by
        have found := (stable here)
        rw [run] at found
        exact found
      have top := ready.top.stable step
      have keptHere : Kept foreign ∅ context.nodeArena after.nodeArena := by
        rw [← sameArena]
        exact kept
      have best_placed : best.success = true → ∀ root, best.tree = some root →
          Placed foreign after.nodeArena root startPos ruleState.lastPos := fun success root same =>
        (ready.placed success root same).kept kept (Set.notMem_empty root)
      refine carries_read (carries_ite (fun success => ?_) fun _ => carries_pure ⟨?_, top⟩)
      · dsimp only [id]
        refine carries_ite (fun progress => ?_) fun stuck => ?_
        · rw [top.last_eq] at progress
          have forward : startPos ≤ after.position := by have := growing.forward; omega
          have row : RowTidy foreign after.nodeArena startPos ⟨after.position, result⟩ := by
            refine ⟨fun _ root same => ⟨?_, forward⟩, fun failure => absurd success failure⟩
            have placed := (delivers.handed success root same).placed
            rwa [at_start] at placed
          have marked : Tidy foreign (NonTerminal.setFrameLastPos after.position after) :=
            delivers.tidy.moved rfl fun _ _ _ => id
          have stored := TidyBut.stored (marked.others fun _ _ => False.elim :
            TidyBut (OwnRow rule startPos) foreign _) row
          have frame := update_row_frame (NonTerminal.setFrameLastPos after.position after) rule
            startPos ⟨after.position, result⟩
          have next : Growing foreign rule startPos _ result ⟨after.position, result⟩ :=
            ⟨stored, (top.marked after.position).moved frame.2.1, forward,
              fun failure => absurd success failure, fun _ root same => by
                rw [frame.1]
                exact (row.placed success root same).1⟩
          refine carries_modify (.refl _) (carries_bind (store_tends (Tidy.lasting stored)).recall ?_)
          rintro present last log' - ⟨⟨rfl, -⟩, kept', settled'⟩
          refine carries_ite (fun _ => ?_) fun _ => carries_pure ⟨next.grown, next.top⟩
          refine (induction next).weaken fun grown _ met => ⟨?_, met.2⟩
          exact (met.1.earlier kept' settled').earlier keptHere settled
        · rw [top.last_eq] at stuck ⊢
          have others : TidyBut (OwnRow rule startPos) foreign after :=
            delivers.tidy.others fun _ _ => False.elim
          generalize kept_result : (if best.success then best else result) = chosen
          have frame := update_row_frame after rule startPos ⟨ruleState.lastPos, chosen⟩
          have top' := top.moved frame.2.1
          refine carries_bind (store_tends ((others.write _).lasting top')) ?_
          rintro present last log' - ⟨rfl, stored⟩
          refine carries_pure ⟨⟨others.write _, growing.forward, fun failure => ?_,
            fun _ root same => ?_⟩, top'⟩
          · split_ifs at kept_result with held
            · exact absurd (kept_result ▸ held) failure
            · exact absurd (kept_result ▸ success) failure
          · rw [frame.1]
            split_ifs at kept_result with held
            · exact Or.inl (best_placed held root (by rw [kept_result]; exact same))
            · obtain ⟨placed, forward⟩ := delivers.handed success root (by rw [kept_result]; exact same)
              rw [at_start] at placed forward
              have seed : ruleState.lastPos = startPos := growing.unmoved held
              rcases forward with forward | loose
              · left
                rwa [show after.position = ruleState.lastPos by omega] at placed
              · right
                have opened : TidyBut (OwnRow rule startPos) (insert root foreign) after :=
                  loose.tidy.others fun _ _ => False.elim
                refine ⟨⟨by rw [← sameArena]; exact loose.unseen.fresh, fun moment member held => ?_⟩,
                  placed.1, placed.inside, opened.write _⟩
                rw [List.nil_append, List.append_nil] at member
                rcases List.mem_append.mp member with early | late
                · exact loose.unseen.unheld moment early held
                · rw [stored moment late] at held
                  exact ((opened.write _).held (own_row_active top') held).1 (Set.mem_insert _ _)
      · exact Growing.grown ⟨delivers.tidy, top, ready.forward, ready.unmoved, best_placed⟩

theorem leave_frame (startPos : Nat) (context : Context CharT) :
    (NonTerminal.leave startPos context).nodeArena = context.nodeArena ∧
      (NonTerminal.leave startPos context).mem = context.mem ∧
      (NonTerminal.leave startPos context).position = context.position := by
  unfold NonTerminal.leave
  split_ifs <;> exact ⟨rfl, rfl, rfl⟩

theorem parse_impl_tends {body : Option (Parser CharT ParseResult)}
    (tends : ∀ parseBody ∈ body, Tends parseBody) (stable : ∀ parseBody ∈ body, StableParser parseBody)
    (fuel : Nat) {context : Context CharT} (tidy : TidyBut (OwnRow rule startPos) foreign context)
    (top : Top rule startPos startPos context) :
    Tending foreign ∅ (fun grown last log => Grown foreign rule startPos context grown last log ∧
        last.position = grown.2.lastPos)
      (NonTerminal.parseImpl rule startPos body fuel) context := by
  cases body with
  | none => exact carries_throw fun plain => absurd rfl plain
  | some parseBody =>
      have frame := update_row_frame context rule startPos ⟨startPos, {}⟩
      have planted := tidy.stored (⟨nofun, fun _ => rfl⟩ : RowTidy foreign _ startPos ⟨startPos, {}⟩)
      have growing : Growing foreign rule startPos _ {} ⟨startPos, {}⟩ :=
        ⟨planted, top.moved frame.2.1, Nat.le_refl _, fun _ => rfl, nofun⟩
      refine carries_bind (store_tends (Tidy.lasting planted)).recall ?_
      rintro present last log - ⟨⟨rfl, -⟩, kept, settled⟩
      refine carries_bind (grow_loop_tends (tends parseBody rfl) (stable parseBody rfl) fuel growing) ?_
      rintro grown last log' - ⟨met, top⟩
      refine carries_modify (.refl _) (carries_pure ⟨?_, top.last_eq⟩)
      have moved : Grown foreign rule startPos _ grown (last.reset (NonTerminal.frame last).lastPos) log' :=
        ⟨met.tidy.moved rfl fun _ _ _ => id, met.forward, met.unmoved, fun success root same =>
          (met.handed success root same).imp_right fun adrift =>
            ⟨adrift.1, adrift.2.1, adrift.2.2.1, adrift.2.2.2.moved rfl fun _ _ _ => id⟩⟩
      rw [List.append_nil]
      exact moved.earlier kept settled

theorem invoke_tends {body : Option (Parser CharT ParseResult)}
    (tends : ∀ parseBody ∈ body, Tends parseBody) (stable : ∀ parseBody ∈ body, StableParser parseBody)
    (fuel : Nat) {context : Context CharT} (tidy : TidyBut (OwnRow rule startPos) foreign context) :
    Tending foreign ∅ (fun grown last log => Grown foreign rule startPos context grown last log ∧
        last.position = grown.2.lastPos)
      (NonTerminal.invoke rule startPos body fuel) context := by
  refine carries_modify (.refl _) (carries_bind (parse_impl_tends tends stable fuel
    (tidy.moved rfl fun _ _ _ => id) ⟨_, _, rfl, rfl⟩) ?_)
  rintro grown last log - ⟨met, position⟩
  have frame := leave_frame startPos last
  have rows : ∀ pos rule row, (NonTerminal.leave startPos last).mem pos rule = some row →
      last.mem pos rule = some row := by
    rw [frame.2.1]
    exact fun _ _ _ => id
  refine carries_modify (kept_same frame.1) (carries_pure ⟨?_, frame.2.2.trans position⟩)
  rw [List.append_nil]
  refine ⟨met.tidy.moved frame.1 rows, met.forward, met.unmoved, fun success root same => ?_⟩
  rw [frame.1]
  exact (met.handed success root same).imp_right fun adrift =>
    ⟨⟨adrift.1.fresh, adrift.1.unheld⟩, adrift.2.1, adrift.2.2.1, adrift.2.2.2.moved frame.1 rows⟩

/-- What an application with a body node delivers. -/
def Committed (foreign : Set NodePtr) (startPos : Nat) (result : ParseResult) (last : Context CharT) :
    Prop :=
  Tidy foreign last ∧ result.success = true ∧ startPos ≤ last.position ∧
    ∀ root, result.tree = some root → Placed foreign last.nodeArena root startPos last.position

theorem close_tends {context : Context CharT} {node : NodePtr} {last : Nat}
    (tidy : TidyBut (OwnRow rule startPos) foreign context)
    (placed : Placed foreign context.nodeArena node startPos context.position)
    (position : context.position = last) (forward : startPos ≤ last) :
    Tending foreign ∅ (fun result last _ => Committed foreign startPos result last)
      (NonTerminal.store rule startPos ⟨last, ⟨true, some node⟩⟩ >>= fun _ =>
        (pure ⟨true, some node⟩ : Parser CharT ParseResult)) context := by
  have frame := update_row_frame context rule startPos ⟨last, ⟨true, some node⟩⟩
  have row : RowTidy foreign context.nodeArena startPos ⟨last, ⟨true, some node⟩⟩ := by
    refine ⟨fun _ root same => ?_, fun failure => absurd rfl failure⟩
    obtain rfl := Option.some.inj same
    exact ⟨position ▸ placed, forward⟩
  have stored := tidy.stored row
  refine carries_bind (store_tends (Tidy.lasting stored)) ?_
  rintro present last - - ⟨rfl, -⟩
  refine carries_pure ⟨stored, rfl, ?_, fun root same => ?_⟩
  · rw [frame.2.2, position]
    exact forward
  · obtain rfl := Option.some.inj same
    rw [frame.1, frame.2.2]
    exact placed

/-- What an untyped rule writes to the node it adopts. -/
def adopt (nonTerminal : NonTerminal CharT NodeType) (rule : RuleId) (startPos : Nat)
    (context : Context CharT) (fields : ParseTreeNode) : ParseTreeNode :=
  { fields with
    name := nonTerminal.name
    producer := if fields.producer.isNone then some rule else fields.producer
    startOffset := startPos
    endOffset := context.position }

theorem adopt_unchanged (nonTerminal : NonTerminal CharT NodeType) (context : Context CharT)
    {fields : ParseTreeNode} (starts : fields.startOffset = startPos)
    (stops : fields.endOffset = context.position) :
    Unchanged fields (adopt nonTerminal rule startPos context fields) := by
  refine ⟨rfl, starts.symm, stops.symm, fun set => ?_⟩
  cases producer : fields.producer with
  | none => rw [producer] at set; cases set
  | some other => simp [adopt, producer]

theorem written_node {context : Context CharT} (tidy : TidyBut (OwnRow rule startPos) foreign context)
    {update : ParseTreeNode → ParseTreeNode} (children : (update {}).children = [])
    (starts : (update {}).startOffset = startPos) (stops : (update {}).endOffset = context.position) :
    TidyBut (OwnRow rule startPos) (insert context.makeNode.1 foreign)
        (context.makeNode.2.updateNode context.makeNode.1 update) ∧
      Placed foreign (context.makeNode.2.updateNode context.makeNode.1 update).nodeArena
        context.makeNode.1 startPos context.position := by
  have outside : context.makeNode.1 ∉ foreign := fun member =>
    Nat.lt_irrefl _ (tidy.bounded _ member)
  have read := modify_read context.makeNode.2.nodeArena context.makeNode.1 context.makeNode.1 update
    (node_made context)
  rw [if_pos rfl] at read
  refine ⟨tidy.make_node.update_node (fun absent => absurd (Set.mem_insert _ _) absent) ?_,
    outside, _, read, starts, stops⟩
  intro fields held node member
  obtain rfl := Option.some.inj (held.symm.trans (node_made context))
  rw [children] at member
  exact absurd member List.not_mem_nil

theorem wrap_tends {nonTerminal : NonTerminal CharT NodeType} {action : Action CharT NodeType}
    (typed : nonTerminal.typedFold = some action) {context : Context CharT} {inner : Option NodePtr}
    (tidy : TidyBut (OwnRow rule startPos) foreign context)
    (closed : ∀ root, inner = some root → root < context.nodeArena.length ∧ root ∉ foreign) :
    Tending foreign ∅ (fun node last _ => TidyBut (OwnRow rule startPos) foreign last ∧
        last.position = context.position ∧ Placed foreign last.nodeArena node startPos context.position)
      (NonTerminal.buildNode nonTerminal rule startPos inner) context := by
  unfold NonTerminal.buildNode
  rw [typed]
  have written := @written_node CharT foreign rule startPos context tidy (fun fields =>
    { fields with
      name := nonTerminal.name
      producer := some rule
      startOffset := startPos
      endOffset := context.position }) rfl rfl rfl
  have own : ∀ (here : Context CharT) (update : ParseTreeNode → ParseTreeNode),
      Kept foreign {context.makeNode.1} here.nodeArena (here.updateNode context.makeNode.1 update).nodeArena :=
    fun here update => kept_update written.2.1 fun absent => absurd (Set.mem_singleton _) absent
  refine own_node (fun node last _ => node = context.makeNode.1 ∧
    TidyBut (OwnRow rule startPos) foreign last ∧ last.position = context.position ∧
    Placed foreign last.nodeArena node startPos context.position) ?_ fun _ _ _ met _ => met.2
  refine carries_modify (own _ _) ?_
  cases inner with
  | none =>
      exact carries_modify (.refl _) (carries_pure ⟨rfl, written.1.mono (Set.subset_insert _ _), rfl,
        written.2⟩)
  | some child =>
      obtain ⟨inside, outside⟩ := closed child rfl
      have different : child ∉ insert context.makeNode.1 foreign := by
        rintro (same | member)
        · rw [same] at inside
          exact Nat.lt_irrefl _ inside
        · exact outside member
      have pushed := @TidyBut.update_node CharT _ _ _ written.1 context.makeNode.1
        (fun fields => { fields with children := fields.children ++ [some child] })
        (fun absent => absurd (Set.mem_insert _ _) absent) fun fields _ node member => by
          rcases List.mem_append.mp member with known | added
          · exact Or.inl known
          · obtain rfl := Option.some.inj (List.mem_singleton.mp added)
            refine Or.inr ⟨?_, different⟩
            simp only [Context.updateNode, Context.makeNode, List.length_modify, List.length_append]
            exact Nat.lt_add_right _ inside
      obtain ⟨notForeign, fields, held, starts, stops⟩ := written.2
      refine carries_modify (own _ _) (carries_pure ⟨rfl, pushed.mono (Set.subset_insert _ _), rfl,
        notForeign, _, modify_read _ _ _ _ held, ?_⟩)
      rw [if_pos rfl]
      exact ⟨starts, stops⟩

theorem fresh_tends {nonTerminal : NonTerminal CharT NodeType} (untyped : nonTerminal.typedFold = none)
    {context : Context CharT} (tidy : TidyBut (OwnRow rule startPos) foreign context) :
    Tending foreign ∅ (fun node last _ => TidyBut (OwnRow rule startPos) foreign last ∧
        last.position = context.position ∧ Placed foreign last.nodeArena node startPos context.position)
      (NonTerminal.buildNode nonTerminal rule startPos none) context := by
  unfold NonTerminal.buildNode
  rw [untyped]
  have written := @written_node CharT foreign rule startPos context tidy
    (adopt nonTerminal rule startPos context) rfl rfl rfl
  refine own_node (fun node last _ => node = context.makeNode.1 ∧
    TidyBut (OwnRow rule startPos) foreign last ∧ last.position = context.position ∧
    Placed foreign last.nodeArena node startPos context.position) ?_ fun _ _ _ met _ => met.2
  exact carries_modify (kept_update written.2.1 fun absent => absurd (Set.mem_singleton _) absent)
    (carries_pure ⟨rfl, written.1.mono (Set.subset_insert _ _), rfl, written.2⟩)

/-- An untyped rule adopts the body's node: the adoption writes nothing that a
logged moment holds. -/
theorem adopt_tends (nonTerminal : NonTerminal CharT NodeType) {start last : Context CharT}
    {grown : ParseResult × RuleState} {log : List (Moment CharT)} {root : NodePtr}
    (met : Grown foreign rule startPos start grown last log) (success : grown.1.success = true)
    (tree : grown.1.tree = some root) (position : last.position = grown.2.lastPos)
    (kept : Kept foreign ∅ start.nodeArena last.nodeArena)
    (settled : ∀ moment ∈ log, (writing foreign ∅).lasting moment.context last) :
    let here := last.updateNode root (adopt nonTerminal rule startPos last)
    Kept foreign ∅ start.nodeArena here.nodeArena ∧
      (∀ moment ∈ log, (writing foreign ∅).lasting moment.context here) ∧
      TidyBut (OwnRow rule startPos) foreign here ∧
      Placed foreign here.nodeArena root startPos here.position := by
  intro here
  rcases met.handed success root tree with placed | ⟨unseen, outside, inside, opened⟩
  · have unchanged : ∀ fields, last.nodeArena[root]? = some fields →
        Unchanged fields (adopt nonTerminal rule startPos last fields) := by
      intro fields held
      obtain ⟨-, found, held', starts, stops⟩ := placed
      obtain rfl := Option.some.inj (held.symm.trans held')
      exact adopt_unchanged nonTerminal last starts (stops.trans position.symm)
    have step : Kept foreign ∅ last.nodeArena here.nodeArena :=
      kept_update placed.1 fun _ => unchanged
    refine ⟨kept.trans step, fun moment member => (writing foreign ∅).lasts _ _ _
      (settled moment member) step, met.tidy.update_node (fun _ => unchanged) fun _ _ _ => Or.inl, ?_⟩
    have carried := placed.kept step (Set.notMem_empty root)
    rwa [← position] at carried
  · have apart : ∀ node fields, node ≠ root → last.nodeArena[node]? = some fields →
        here.nodeArena[node]? = some fields := by
      intro node fields different held
      have read := modify_read last.nodeArena root node (adopt nonTerminal rule startPos last) held
      rwa [if_neg different.symm] at read
    refine ⟨fun node old held => ?_, fun moment member node held => ?_, ?_, outside, _,
      modify_read _ _ _ _ (List.getElem?_eq_getElem inside), ?_⟩
    · obtain ⟨new, found, same, unchanged⟩ := kept node old held
      refine ⟨new, apart node new ?_ found, same, unchanged⟩
      rintro rfl
      exact Nat.not_lt.mpr unseen.fresh (List.getElem?_eq_some_iff.mp held).1
    · obtain ⟨notForeign, notOwn, old, new, before, found, unchanged⟩ := settled moment member node held
      refine ⟨notForeign, notOwn, old, new, before, apart node new ?_ found, unchanged⟩
      rintro rfl
      exact unseen.unheld moment member held
    · have written : TidyBut (OwnRow rule startPos) (insert root foreign) here :=
        opened.update_node (fun absent => absurd (Set.mem_insert _ _) absent) fun _ _ _ => Or.inl
      exact written.mono (Set.subset_insert _ _)
    · rw [if_pos rfl]
      exact ⟨rfl, rfl⟩

theorem finish_success_tends (nonTerminal : NonTerminal CharT NodeType) {start last : Context CharT}
    {grown : ParseResult × RuleState} {log : List (Moment CharT)}
    (met : Grown foreign rule startPos start grown last log) (success : grown.1.success = true)
    (position : last.position = grown.2.lastPos)
    (kept : Kept foreign ∅ start.nodeArena last.nodeArena)
    (settled : ∀ moment ∈ log, (writing foreign ∅).lasting moment.context last) :
    ∃ here, Kept foreign ∅ start.nodeArena here.nodeArena ∧
      (∀ moment ∈ log, (writing foreign ∅).lasting moment.context here) ∧
      Carries Moment.context (writing foreign ∅) Broken
        (fun result final _ => Committed foreign startPos result final) here
        (NonTerminal.finishSuccess nonTerminal rule startPos grown.1 grown.2 last) := by
  have closed : ∀ root, grown.1.tree = some root → root < last.nodeArena.length ∧ root ∉ foreign := by
    intro root same
    rcases met.handed success root same with placed | ⟨-, outside, inside, -⟩
    · exact ⟨placed.inside, placed.1⟩
    · exact ⟨inside, outside⟩
  have finish : ∀ node here, TidyBut (OwnRow rule startPos) foreign here →
      here.position = last.position → Placed foreign here.nodeArena node startPos last.position →
      Tending foreign ∅ (fun result last _ => Committed foreign startPos result last)
        (NonTerminal.store rule startPos ⟨grown.2.lastPos, ⟨true, some node⟩⟩ >>= fun _ =>
          (pure ⟨true, some node⟩ : Parser CharT ParseResult)) here :=
    fun node here tidy same placed =>
      close_tends tidy (same ▸ placed) (same.trans position) met.forward
  cases typed : nonTerminal.typedFold with
  | some action =>
      refine ⟨last, kept, settled, carries_bind (wrap_tends typed met.tidy closed) ?_⟩
      rintro node here - - ⟨tidy, same, placed⟩
      exact finish node here tidy same placed
  | none =>
      cases tree : grown.1.tree with
      | none =>
          refine ⟨last, kept, settled, ?_⟩
          unfold NonTerminal.finishSuccess
          rw [tree]
          refine carries_bind (fresh_tends typed met.tidy) ?_
          rintro node here - - ⟨tidy, same, placed⟩
          exact finish node here tidy same placed
      | some root =>
          have adopted := adopt_tends nonTerminal met success tree position kept settled
          have run : NonTerminal.finishSuccess nonTerminal rule startPos grown.1 grown.2 last =
              (NonTerminal.store rule startPos ⟨grown.2.lastPos, ⟨true, some root⟩⟩ >>= fun _ =>
                (pure ⟨true, some root⟩ : Parser CharT ParseResult))
                (last.updateNode root (adopt nonTerminal rule startPos last)) := by
            unfold NonTerminal.finishSuccess NonTerminal.buildNode
            rw [typed, tree]
            rfl
          refine ⟨_, adopted.1, adopted.2.1, ?_⟩
          rw [run]
          exact finish root _ adopted.2.2.1 rfl adopted.2.2.2

theorem finish_failure_tends (nonTerminal : NonTerminal CharT NodeType) {start context : Context CharT}
    {ruleState : RuleState} (tidy : TidyBut (OwnRow rule startPos) foreign context)
    (unmoved : ruleState.lastPos = startPos) (stopped : context.position = startPos)
    (origin : start.position = startPos) :
    Tending foreign ∅ (fun result last log => Delivers foreign start result last log)
      (NonTerminal.finishFailure nonTerminal rule startPos ruleState) context := by
  obtain ⟨errors, recorded⟩ := NonTerminal.record_rule_failure_frame nonTerminal startPos context
  refine carries_modify (kept_same (by rw [recorded])) (carries_read ?_)
  rw [recorded]
  dsimp only [id]
  have finish : ∀ (entry : RuleState) (result : ParseResult) (here : Context CharT),
      here.nodeArena = context.nodeArena → here.mem = context.mem →
      RowTidy foreign context.nodeArena startPos entry →
      (∀ last log, Tidy foreign last → last.position = here.position →
        Delivers foreign start result last log) →
      Tending foreign ∅ (fun result last log => Delivers foreign start result last log)
        (NonTerminal.store rule startPos entry >>= fun _ =>
          (pure result : Parser CharT ParseResult)) here := by
    intro entry result here arena mem row delivers
    have tidyHere : TidyBut (OwnRow rule startPos) foreign here :=
      tidy.moved arena (by rw [mem]; exact fun _ _ _ => id)
    have stored := tidyHere.stored (by rw [arena]; exact row)
    refine carries_bind (store_tends (Tidy.lasting stored)) ?_
    rintro present last log - ⟨rfl, -⟩
    exact carries_pure (delivers _ _ stored (update_row_frame here rule startPos entry).2.2)
  have fails : Tending foreign ∅ (fun result last log => Delivers foreign start result last log)
      (NonTerminal.store rule startPos ⟨ruleState.lastPos, ⟨false, none⟩⟩ >>= fun _ =>
        (pure ⟨false, none⟩ : Parser CharT ParseResult)) { context with errors := errors } :=
    finish _ _ _ rfl rfl ⟨nofun, fun _ => unmoved⟩ fun last log tidied position =>
      failed tidied (position.trans (stopped.trans origin.symm))
  cases nonTerminal.recover.isSyncToken with
  | none => exact fails
  | some isSyncToken =>
      cases ({ context with errors := errors } : Context CharT).cut with
      | true => exact fails
      | false =>
          refine carries_modify (kept_same rfl) (finish _ _ _ rfl rfl ?_ fun last log tidied _ => bare tidied)
          exact ⟨fun _ _ => nofun, fun failure => absurd rfl failure⟩

theorem replay_tends {context : Context CharT} {row : RuleState} (tidy : Tidy foreign context)
    (held : context.mem context.position rule = some row) :
    Tending foreign ∅ (Delivers foreign context) (NonTerminal.replay rule context.position row)
      context := by
  have row' := tidy.rows _ _ _ not_false held
  have answer : ∀ here : Context CharT, here.nodeArena = context.nodeArena → here.mem = context.mem →
      Delivers foreign context row.cachedResult (here.reset row.lastPos) [] := by
    intro here arena mem
    refine ⟨tidy.moved arena (by rw [show (here.reset row.lastPos).mem = here.mem from rfl, mem]
                                 exact fun _ _ _ => id), row'.failed, fun success root same => ?_⟩
    obtain ⟨placed, forward⟩ := row'.placed success root same
    exact ⟨by rw [show (here.reset row.lastPos).nodeArena = here.nodeArena from rfl, arena]; exact placed,
      Or.inl forward⟩
  have live : ∀ here : Context CharT, here.mem = context.mem →
      here.memoGet rule context.position = row := by
    intro here mem
    rw [Context.memoGet, mem, held, Option.getD_some]
  have jump : ∀ (target : Context CharT → Nat) (result : ParseResult) (here : Context CharT),
      here.nodeArena = context.nodeArena → here.mem = context.mem → target here = row.lastPos →
      result = row.cachedResult → Tending foreign ∅ (Delivers foreign context)
        (Comp.modify (fun context => context.reset (target context)) >>= fun _ =>
          (pure result : Parser CharT ParseResult)) here := by
    rintro target result here arena mem lands rfl
    refine carries_modify (kept_same rfl) (carries_pure ?_)
    rw [lands]
    exact answer here arena mem
  refine carries_read (carries_ite (fun _ => ?_) fun _ => ?_)
  · have marked : (context.markHead rule context.position).nodeArena = context.nodeArena ∧
        (context.markHead rule context.position).mem = context.mem := by
      unfold Context.markHead
      split
      · split_ifs <;> exact ⟨rfl, rfl⟩
      · exact ⟨rfl, rfl⟩
    refine carries_modify (kept_same marked.1) (jump
      (fun here => (here.memoGet rule context.position).lastPos) _ _ marked.1 marked.2 ?_ ?_)
    · rw [live _ marked.2]
    · exact congrArg RuleState.cachedResult (live context rfl)
  · dsimp only [id]
    cases context.growingHead context.position with
    | none => exact jump (fun _ => row.lastPos) _ _ rfl rfl rfl rfl
    | some head =>
        refine carries_ite (fun _ => ?_) fun _ => jump (fun _ => row.lastPos) _ _ rfl rfl rfl rfl
        refine jump (fun here => (here.memoGet rule context.position).lastPos) _ _ rfl rfl ?_ ?_
        · rw [live _ rfl]
        · rw [live _ rfl]

theorem parse_tends (nonTerminal : NonTerminal CharT NodeType) (rule : RuleId)
    {body : Option (Parser CharT ParseResult)} (tends : ∀ parseBody ∈ body, Tends parseBody)
    (stable : ∀ parseBody ∈ body, StableParser parseBody) (fuel : Nat) :
    Tends (NonTerminal.parse nonTerminal rule body fuel) := by
  intro foreign context tidy
  have entered : ∀ moment ∈ [(⟨.apply rule, context⟩ : Moment CharT)],
      (writing foreign ∅).lasting moment.context context := by
    intro moment member
    rw [List.mem_singleton.mp member]
    exact Tidy.lasting tidy
  refine carries_announce (.refl _) (Tidy.lasting tidy) (carries_read ?_)
  suffices runs : Tending foreign ∅ (Delivers foreign context)
      (Comp.modifyGet (fun here => here.ruleState rule context.position) >>= fun row =>
        if row.1 then
          NonTerminal.invoke rule context.position body fuel >>= fun grown =>
            if grown.1.success then
              NonTerminal.finishSuccess nonTerminal rule context.position grown.1 grown.2
            else NonTerminal.finishFailure nonTerminal rule context.position grown.2
        else NonTerminal.replay rule context.position row.2) context by
    exact runs.weaken fun _ _ met => met.earlier rfl (.refl _) entered
  cases held : context.mem context.position rule with
  | some row =>
      have found : context.ruleState rule context.position = ((false, row), context) := by
        rw [Context.ruleState, held]
      refine carries_modifyGet (kept_same (by rw [found])) ?_
      rw [found]
      exact replay_tends tidy held
  | none =>
      have found : context.ruleState rule context.position =
          ((true, {}), { context with mem := context.mem.write context.position rule {} }) := by
        rw [Context.ruleState, held]
      refine carries_modifyGet (kept_same (by rw [found])) ?_
      rw [found]
      have others : TidyBut (OwnRow rule context.position) foreign
          { context with mem := context.mem.write context.position rule {} } := by
        refine ⟨fun pos other row spared found => ?_, tidy.children, tidy.bounded⟩
        rcases Memo.write_eq_some found with ⟨samePos, sameRule, -⟩ | ⟨-, before⟩
        · exact absurd ⟨samePos, sameRule⟩ spared
        · exact tidy.rows pos other row not_false before
      refine carries_bind_from (invoke_tends tends stable fuel others).recall ?_
      rintro grown here log - ⟨⟨met, position⟩, kept, settled⟩
      by_cases success : grown.1.success = true
      · rw [if_pos success]
        obtain ⟨here', kept', settled', runs⟩ :=
          finish_success_tends nonTerminal met success position kept settled
        refine ⟨here', kept', settled', runs.weaken fun result _ committed => ?_⟩
        obtain ⟨tidied, succeeds, forward, placed⟩ := committed
        exact ⟨tidied, fun failure => absurd succeeds failure,
          fun _ root same => ⟨placed root same, Or.inl forward⟩⟩
      · rw [if_neg success]
        have unmoved := met.unmoved success
        have stopped : here.position = context.position := position.trans unmoved
        refine ⟨here, kept, settled, ?_⟩
        refine (finish_failure_tends nonTerminal met.tidy unmoved stopped stopped).weaken
          fun result _ delivers => ?_
        exact delivers.earlier stopped kept settled

end RuleApplication

variable [PegValue CharT]

theorem apply_tends (grammar : Grammar CharT NodeType) (fuel : Nat) (rule : RuleId) :
    Tends (grammar.apply fuel rule) := by
  induction fuel generalizing rule with
  | zero => exact fun _ _ _ => carries_exhaust
  | succ fuel induction =>
      refine parse_tends (grammar.nonTerminal rule) rule (fun parseBody member => ?_)
        (fun parseBody member => ?_) fuel
      · obtain ⟨expr, -, rfl⟩ := Option.map_eq_some_iff.mp member
        exact expr_tends induction fuel expr
      · obtain ⟨expr, -, rfl⟩ := Option.map_eq_some_iff.mp member
        exact expr_stable (apply_stable grammar fuel) fuel expr

section Calls

variable {grammar : Grammar CharT NodeType} {opened : Set NodePtr}

/-- The contexts that parses of a grammar lead to, whether they returned or
were cut off by a `ParseError`. Everything but the arena and the memo may be
changed in between. -/
inductive Used (grammar : Grammar CharT NodeType) : Context CharT → Prop where
  | fresh (input : List CharT) : Used grammar (Context.fresh input)
  | adjusted {before after : Context CharT} : Used grammar before →
      after.nodeArena = before.nodeArena → after.mem = before.mem → Used grammar after
  | applied {context : Context CharT} (fuel : Nat) (rule : RuleId) : Used grammar context →
      (∃ result, (grammar.apply fuel rule context).outcome = .returned result) ∨
        (∃ position expected,
          (grammar.apply fuel rule context).outcome = .thrown (.parseError position expected)) →
      Used grammar (grammar.apply fuel rule context).state

theorem used_tidy {context : Context CharT} (used : Used grammar context) :
    ∃ opened, Tidy opened context := by
  induction used with
  | fresh input =>
      refine ⟨∅, ⟨?_, ?_, nofun⟩⟩
      · intro pos rule row _ held
        cases held
      · rintro parent node ⟨fields, held, -⟩
        cases held
  | adjusted _ arena mem earlier =>
      obtain ⟨opened, tidy⟩ := earlier
      exact ⟨opened, tidy.moved arena (by rw [mem]; exact fun _ _ _ => id)⟩
  | @applied before fuel rule _ ended earlier =>
      obtain ⟨opened, tidy⟩ := earlier
      have runs := apply_tends grammar fuel rule opened before tidy
      rcases ended with ⟨result, returned⟩ | ⟨position, expected, thrown⟩
      · exact ⟨opened, (runs.returned result returned).tidy⟩
      · exact runs.thrown _ thrown nofun

theorem skip_call_tends (grammar : Grammar CharT NodeType) (fuel : Nat) {context : Context CharT}
    (tidy : Tidy opened context) :
    Tending opened ∅ (fun _ last _ => Tidy opened last) (grammar.leadingSkip fuel) context :=
  carries_modify (.refl _) (skip_tends (apply_tends grammar fuel) opened _
    (tidy.moved rfl fun _ _ _ => id))

theorem guarded_call_tends {Value : Type} (fuel : Nat) (rule : RuleId) (view : ParseResult → Value)
    (value : Value) {context : Context CharT} (tidy : Tidy opened context) :
    Tending opened ∅ (fun other last _ => (∃ opened, Tidy opened last) ∧
        (other = value ∨ Tidy opened last))
      (grammar.leadingSkip fuel >>= fun _ => Comp.catching
        (grammar.apply fuel rule >>= fun result => pure (view result)) (Grammar.onParseError value))
      context := by
  refine carries_bind (skip_call_tends grammar fuel tidy) fun _ here _ _ tidyHere => ?_
  have applied : Tending opened ∅ (fun other last _ => (∃ opened, Tidy opened last) ∧
        (other = value ∨ Tidy opened last))
      (grammar.apply fuel rule >>= fun result => pure (view result)) here :=
    carries_bind (apply_tends grammar fuel rule opened here tidyHere)
      fun result last _ _ delivers => carries_pure ⟨⟨opened, delivers.tidy⟩, Or.inr delivers.tidy⟩
  refine carries_catching applied fun exn other last log answer broken => ?_
  cases exn with
  | parseError position expected =>
      obtain rfl := Option.some.inj answer
      exact ⟨broken nofun, Or.inl rfl⟩
  | _ => cases answer

omit [PegValue CharT] in
theorem fire_tends (grammar : Grammar CharT NodeType) (fuel : Nat) {context : Context CharT}
    (tidy : Tidy opened context) :
    (∀ start node, Tending opened ∅ (fun _ last _ => last = context)
      (TypedFold.fireOnMatch grammar fuel start node) context) ∧
    ∀ children, Tending opened ∅ (fun _ last _ => last = context)
      (TypedFold.fireAll grammar fuel children) context := by
  induction fuel with
  | zero =>
      refine ⟨fun start node => ?_, fun children => ?_⟩
      · cases node with
        | none => exact carries_pure rfl
        | some node => exact carries_exhaust
      · cases children with
        | nil => exact carries_pure rfl
        | cons child rest => exact carries_exhaust
  | succ fuel induction =>
      refine ⟨fun start node => ?_, fun children => ?_⟩
      · cases node with
        | none => exact carries_pure rfl
        | some node =>
            have asked : Tending opened ∅ (fun _ last _ => last = context)
                (Comp.ask fun context => TypedFold.deref context (some node)) context :=
              carries_ask (fun _ _ => rfl) fun _ _ _ => ⟨opened, tidy⟩
            refine carries_bind asked ?_
            rintro fields here - - rfl
            dsimp only
            cases TypedFold.hookOf grammar start fields with
            | none => exact induction.2 fields.children
            | some rule =>
                exact carries_announce (.refl _) (Tidy.lasting tidy) (induction.2 fields.children)
      · cases children with
        | nil => exact carries_pure rfl
        | cons child rest =>
            refine carries_bind (induction.1 none child) ?_
            rintro _ here - - rfl
            exact induction.2 rest

theorem tree_tends {fuel : Nat} {name : Str} {context : Context CharT} (tidy : Tidy opened context) :
    Tending opened ∅ (fun tree last _ => (∃ opened, Tidy opened last) ∧
        (tree = none ∨ Tidy opened last)) (grammar.parseTree fuel name) context := by
  unfold Grammar.parseTree
  cases grammar.find name with
  | none => exact carries_throw fun _ => ⟨opened, tidy⟩
  | some rule => exact guarded_call_tends fuel rule ParseResult.tree none tidy

theorem parse_call_tends {fuel : Nat} {name : Str} {context : Context CharT}
    (tidy : Tidy opened context) :
    Tending opened ∅ (fun _ last _ => ∃ opened, Tidy opened last) (grammar.parse fuel name)
      context := by
  unfold Grammar.parse
  cases grammar.find name with
  | none => exact carries_throw fun _ => ⟨opened, tidy⟩
  | some rule =>
      exact (guarded_call_tends fuel rule ParseResult.success false tidy).weaken fun _ _ met => met.1

theorem ast_tends [Inhabited NodeType] {fuel : Nat} {name : Str} {context : Context CharT}
    (tidy : Tidy opened context) :
    Tending opened ∅ (fun _ last _ => ∃ opened, Tidy opened last)
      (TypedFold.parseAst grammar fuel name) context := by
  unfold TypedFold.parseAst
  cases grammar.find name with
  | none => exact carries_throw fun _ => ⟨opened, tidy⟩
  | some rule =>
      refine carries_bind (tree_tends tidy) fun tree here log _ met => ?_
      cases tree with
      | none => exact carries_pure met.1
      | some node =>
          have tidyHere : Tidy opened here := met.2.resolve_left nofun
          refine carries_bind ((fire_tends grammar fuel tidyHere).1 (some rule) (some node)) ?_
          rintro _ last - - rfl
          have asked : Tending opened ∅ (fun _ last' _ => last' = last)
              (Comp.ask (TypedFold.foldStart grammar fuel rule node)) last :=
            carries_ask (fun _ _ => rfl) fun _ _ _ => ⟨opened, tidyHere⟩
          refine carries_bind asked ?_
          rintro value last' - - rfl
          exact carries_pure ⟨opened, tidyHere⟩

theorem call_tends [Inhabited NodeType] (fuel : Nat) (entry : Entry) {context : Context CharT}
    (tidy : Tidy opened context) :
    Tending opened ∅ (fun _ last _ => ∃ opened, Tidy opened last) (entry.call grammar fuel)
      context := by
  cases entry with
  | parseStart =>
      have started : Tending opened ∅ (fun _ last _ => ∃ opened, Tidy opened last)
          (grammar.parseStart fuel) context :=
        carries_ite (fun _ => carries_throw fun _ => ⟨opened, tidy⟩) fun _ => parse_call_tends tidy
      exact carries_bind started fun _ _ _ _ met => carries_pure met
  | parse name => exact carries_bind (parse_call_tends tidy) fun _ _ _ _ met => carries_pure met
  | parseTree name => exact carries_bind (tree_tends tidy) fun _ _ _ _ met => carries_pure met.1
  | parseAst name => exact carries_bind (ast_tends tidy) fun _ _ _ _ met => carries_pure met

/-- What is reachable from the tree of a finished application, before the call
or at any moment of it, keeps its children, its offsets and its producer at
every later moment and to the end. -/
theorem committed_nodes_last [Inhabited NodeType] {context : Context CharT}
    (used : Used grammar context) (fuel : Nat) (entry : Entry) :
    let run := entry.call grammar fuel context
    (∀ node, Held context node →
      (∀ moment ∈ run.trace, Same context.nodeArena moment.context.nodeArena node) ∧
        Same context.nodeArena run.state.nodeArena node) ∧
    (run.trace.Pairwise fun earlier later => ∀ node, Held earlier.context node →
      Same earlier.context.nodeArena later.context.nodeArena node) ∧
    ∀ moment ∈ run.trace, ∀ node, Held moment.context node →
      Same moment.context.nodeArena run.state.nodeArena node := by
  intro run
  obtain ⟨opened, tidy⟩ := used_tidy used
  have runs := @call_tends CharT NodeType _ grammar opened _ fuel entry context tidy
  refine ⟨fun node held => ?_, ?_, fun moment member node held => ?_⟩
  · have settled := Tidy.lasting tidy
    refine ⟨fun moment member => ?_, ?_⟩
    · exact ((writing opened ∅).lasts _ _ _ settled (runs.moments moment member).1 node held).2.2
    · exact ((writing opened ∅).lasts _ _ _ settled runs.kept node held).2.2
  · exact runs.ordered.imp fun lasting node held => (lasting node held).2.2
  · exact ((runs.moments moment member).2 node held).2.2

/-- `S = P >> 'x' | Q`, `P = T`, `Q = T`, `T = token('t')`. -/
def twoAliases : Grammar UInt8 Unit where
  rules := [
    (ascii "S", { name := ascii "S", body := some (.alternation [
      .sequence [.rule 1, .terminal (.value 120)], .rule 2]) }),
    (ascii "P", { name := ascii "P", body := some (.rule 3) }),
    (ascii "Q", { name := ascii "Q", body := some (.rule 3) }),
    (ascii "T", { name := ascii "T", body := some (.token (.value 116)) })]

def twoAliasesRun : Run (Moment UInt8) (Context UInt8) Exn Unit :=
  (Entry.parseTree (ascii "S")).call twoAliases 6 (Context.fresh (ascii "t"))

/-- At some moment of the run on "t" the node that `T` has stored is not yet
what it is in the end. -/
theorem two_aliases_commit : ∃ moment ∈ twoAliasesRun.trace, Held moment.context 1 ∧
    twoAliasesRun.state.nodeArena[1]? ≠ moment.context.nodeArena[1]? := by
  have found : twoAliasesRun.trace.any (fun moment =>
      moment.context.lrInProgress 3 0 == false &&
        moment.context.mem 0 3 == some ⟨1, ⟨true, some 1⟩⟩ &&
        twoAliasesRun.state.nodeArena[1]? != moment.context.nodeArena[1]?) = true := by
    decide +kernel
  obtain ⟨moment, member, holds⟩ := List.any_eq_true.mp found
  simp only [Bool.and_eq_true, beq_iff_eq, bne_iff_ne, ne_eq] at holds
  exact ⟨moment, member, ⟨3, 0, 1, ⟨holds.1.1, _, holds.1.2, rfl⟩, .refl⟩, holds.2⟩

theorem two_aliases_last : ∃ moment ∈ twoAliasesRun.trace, Held moment.context 1 ∧
    Same moment.context.nodeArena twoAliasesRun.state.nodeArena 1 := by
  obtain ⟨moment, member, held, -⟩ := two_aliases_commit
  unfold twoAliasesRun at member
  have used : Used twoAliases (Context.fresh (ascii "t")) := .fresh _
  have lasts := (committed_nodes_last used 6 (.parseTree (ascii "S"))).2.2 moment member 1 held
  unfold twoAliasesRun
  exact ⟨moment, member, held, lasts⟩

/-- The aliases and the choice rename and stamp the node that `T` had stored. -/
theorem committed_node_restamped :
    ¬∀ moment ∈ twoAliasesRun.trace, ∀ node, Held moment.context node →
      twoAliasesRun.state.nodeArena[node]? = moment.context.nodeArena[node]? := by
  intro claim
  obtain ⟨moment, member, held, different⟩ := two_aliases_commit
  exact different (claim moment member 1 held)

end Calls

end Peglib.CommittedNodes
