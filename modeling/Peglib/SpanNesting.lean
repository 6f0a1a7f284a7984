import Mathlib.Data.List.ReduceOption
import Peglib.CommittedNodes
import Peglib.Termination

/-!
# Spans nest

The children of a node in the making follow one another from where the node
started to where the parse stands. A node that is not open is never given
another child nor other offsets, so its children stay in order inside its span,
whichever row, seed or child list the node is taken from later.
-/

namespace Peglib.SpanNesting

open Peglib.TracedComputation Peglib.WeakestPrecondition Peglib.Preservation
open Peglib.ParseError Peglib.ParseContext Peglib.Expressions Peglib.Rules
open Peglib.ControlDiscipline Peglib.SuccessfulAnswers Peglib.LogFrames Peglib.CommittedNodes
open Peglib.Termination (Advances InBounds InRange MatcherInRange apply_advances eval_advances
  skip_advances)

set_option autoImplicit false

variable {CharT NodeType : Type}

section Arena

def Spans (arena : List ParseTreeNode) (node : NodePtr) (start stop : Nat) : Prop :=
  ∃ fields, arena[node]? = some fields ∧ fields.startOffset = start ∧ fields.endOffset = stop

/-- What a node owes its span. -/
structure Nested (arena : List ParseTreeNode) (node : NodePtr) (fields : ParseTreeNode) : Prop where
  held : arena[node]? = some fields
  forward : fields.startOffset ≤ fields.endOffset
  inside : ∀ child, some child ∈ fields.children → ∃ start stop, Spans arena child start stop ∧
    fields.startOffset ≤ start ∧ stop ≤ fields.endOffset
  apart : fields.children.reduceOption.Pairwise fun left right => ∀ start stop start' stop',
    Spans arena left start stop → Spans arena right start' stop' → stop ≤ start'

/-- Children in input order, from `start` on and up to `stop`. -/
def Ordered (arena : List ParseTreeNode) : Nat → List (Option NodePtr) → Nat → Prop
  | start, [], stop => start ≤ stop
  | start, none :: rest, stop => Ordered arena start rest stop
  | start, some child :: rest, stop => ∃ left right, Spans arena child left right ∧
      start ≤ left ∧ left ≤ right ∧ Ordered arena right rest stop

/-- A node whose children are in order inside its span. -/
def Orderly (arena : List ParseTreeNode) (node : NodePtr) : Prop :=
  ∃ fields, arena[node]? = some fields ∧
    Ordered arena fields.startOffset fields.children fields.endOffset

variable {arena before after : List ParseTreeNode} {children : List (Option NodePtr)}
  {start stop : Nat}

theorem Spans.unique {node : NodePtr} {start' stop' : Nat} (left : Spans arena node start stop)
    (right : Spans arena node start' stop') : start = start' ∧ stop = stop' := by
  obtain ⟨fields, held, rfl, rfl⟩ := left
  obtain ⟨fields', held', rfl, rfl⟩ := right
  obtain rfl := Option.some.inj (held.symm.trans held')
  exact ⟨rfl, rfl⟩

theorem Ordered.forward (ordered : Ordered arena start children stop) : start ≤ stop := by
  induction children generalizing start with
  | nil => exact ordered
  | cons child rest induction =>
      cases child with
      | none => exact induction ordered
      | some node =>
          obtain ⟨left, right, -, first, second, later⟩ := ordered
          have last := induction later
          omega

theorem Ordered.widen {stop' : Nat} (ordered : Ordered arena start children stop)
    (wider : stop ≤ stop') : Ordered arena start children stop' := by
  induction children generalizing start with
  | nil => exact Nat.le_trans ordered wider
  | cons child rest induction =>
      cases child with
      | none => exact induction ordered
      | some node =>
          obtain ⟨left, right, spans, first, second, later⟩ := ordered
          exact ⟨left, right, spans, first, second, induction later⟩

theorem Ordered.inside (ordered : Ordered arena start children stop) :
    ∀ child, some child ∈ children → ∃ left right, Spans arena child left right ∧
      start ≤ left ∧ right ≤ stop := by
  induction children generalizing start with
  | nil => simp
  | cons head rest induction =>
      intro child member
      cases head with
      | none => exact induction ordered child (by simpa using member)
      | some node =>
          obtain ⟨left, right, spans, first, second, later⟩ := ordered
          rcases List.mem_cons.mp member with same | member
          · obtain rfl := Option.some.inj same
            exact ⟨left, right, spans, first, later.forward⟩
          · obtain ⟨left', right', spans', first', last'⟩ := induction later child member
            exact ⟨left', right', spans', by omega, last'⟩

theorem Ordered.apart (ordered : Ordered arena start children stop) :
    children.reduceOption.Pairwise fun left right => ∀ start stop start' stop',
      Spans arena left start stop → Spans arena right start' stop' → stop ≤ start' := by
  induction children generalizing start with
  | nil => exact List.Pairwise.nil
  | cons head rest induction =>
      cases head with
      | none => exact induction ordered
      | some node =>
          obtain ⟨left, right, spans, -, -, later⟩ := ordered
          rw [List.reduceOption_cons_of_some]
          refine List.pairwise_cons.mpr ⟨fun other member => ?_, induction later⟩
          intro start stop start' stop' here there
          obtain ⟨left', right', spans', first, -⟩ :=
            later.inside other (List.reduceOption_mem_iff.mp member)
          rw [(here.unique spans).2, (there.unique spans').1]
          exact first

theorem Ordered.push {node : NodePtr} {left right : Nat}
    (ordered : Ordered arena start children left) (spans : Spans arena node left right)
    (forward : left ≤ right) : Ordered arena start (children ++ [some node]) right := by
  induction children generalizing start with
  | nil => exact ⟨left, right, spans, ordered, forward, Nat.le_refl right⟩
  | cons head rest induction =>
      cases head with
      | none => exact induction ordered
      | some child =>
          obtain ⟨start', stop', spans', first, second, later⟩ := ordered
          exact ⟨start', stop', spans', first, second, induction later⟩

theorem Ordered.pad (ordered : Ordered arena start children stop) (count : Nat) :
    Ordered arena start (children ++ List.replicate count none) stop := by
  induction children generalizing start with
  | nil =>
      induction count with
      | zero => exact ordered
      | succ count induction => exact induction
  | cons head rest induction =>
      cases head with
      | none => exact induction ordered
      | some child =>
          obtain ⟨left, right, spans, first, second, later⟩ := ordered
          exact ⟨left, right, spans, first, second, induction later⟩

theorem Ordered.take (ordered : Ordered arena start children stop) (count : Nat) :
    Ordered arena start (children.take count) stop := by
  induction children generalizing start count with
  | nil => simpa [Ordered] using ordered
  | cons head rest induction =>
      cases count with
      | zero => exact ordered.forward
      | succ count =>
          cases head with
          | none => exact induction ordered count
          | some child =>
              obtain ⟨left, right, spans, first, second, later⟩ := ordered
              exact ⟨left, right, spans, first, second, induction later count⟩

theorem Spans.kept {foreign own : Set NodePtr} {node : NodePtr}
    (spans : Spans before node start stop) (kept : Kept foreign own before after)
    (outside : node ∉ own) : Spans after node start stop := by
  obtain ⟨fields, held, starts, stops⟩ := spans
  obtain ⟨new, found, -, unchanged⟩ := kept node fields held
  have same := unchanged outside
  exact ⟨new, found, same.startOffset.trans starts, same.endOffset.trans stops⟩

theorem Ordered.kept {foreign own : Set NodePtr} (ordered : Ordered before start children stop)
    (kept : Kept foreign own before after) (outside : ∀ child, some child ∈ children → child ∉ own) :
    Ordered after start children stop := by
  induction children generalizing start with
  | nil => exact ordered
  | cons head rest induction =>
      have others : ∀ child, some child ∈ rest → child ∉ own := fun child member =>
        outside child (List.mem_cons_of_mem _ member)
      cases head with
      | none => exact induction ordered others
      | some child =>
          obtain ⟨left, right, spans, first, second, later⟩ := ordered
          exact ⟨left, right, spans.kept kept (outside child List.mem_cons_self), first, second,
            induction later others⟩

theorem Orderly.kept {foreign own : Set NodePtr} {node : NodePtr} (orderly : Orderly before node)
    (kept : Kept foreign own before after) (outside : node ∉ own)
    (apart : ∀ child, Child before node child → child ∉ own) : Orderly after node := by
  obtain ⟨fields, held, ordered⟩ := orderly
  obtain ⟨new, found, -, unchanged⟩ := kept node fields held
  have same := unchanged outside
  refine ⟨new, found, ?_⟩
  rw [same.startOffset, same.children, same.endOffset]
  exact ordered.kept kept fun child member => apart child ⟨fields, held, member⟩

theorem Orderly.nested {node : NodePtr} (orderly : Orderly arena node) :
    ∃ fields, Nested arena node fields := by
  obtain ⟨fields, held, ordered⟩ := orderly
  exact ⟨fields, held, ordered.forward, ordered.inside, ordered.apart⟩

theorem child_make {parent node : NodePtr} (child : Child (arena ++ [({} : ParseTreeNode)]) parent node) :
    Child arena parent node := by
  obtain ⟨fields, held, member⟩ := child
  rw [List.getElem?_append] at held
  split_ifs at held
  · exact ⟨fields, held, member⟩
  · obtain rfl := List.mem_singleton.mp (List.mem_of_getElem? held)
    exact absurd member List.not_mem_nil

theorem child_update {target parent node : NodePtr} {update : ParseTreeNode → ParseTreeNode}
    (child : Child (arena.modify target update) parent node) : Child arena parent node ∨
      target = parent ∧ ∃ fields, arena[target]? = some fields ∧
        some node ∈ (update fields).children := by
  obtain ⟨fields, held, member⟩ := child
  rw [List.getElem?_modify] at held
  obtain ⟨old, before, rfl⟩ := Option.map_eq_some_iff.mp held
  split_ifs at member with same
  · exact Or.inr ⟨same, old, by rw [same]; exact before, member⟩
  · exact Or.inl ⟨old, before, member⟩

end Arena

/-- A result's tree is orderly, and only a success has one. -/
def Yields (arena : List ParseTreeNode) (result : ParseResult) : Prop :=
  ∀ root, result.tree = some root → result.success = true ∧ Orderly arena root

theorem yields_bare (arena : List ParseTreeNode) (success : Bool) :
    Yields arena ⟨success, none⟩ := by
  intro root tree
  cases tree

/-- The trees of rows and the nodes of child lists are orderly. -/
structure Arranged (context : Context CharT) : Prop where
  rows : ∀ pos rule row, context.mem pos rule = some row → Yields context.nodeArena row.cachedResult
  children : ∀ parent node, Child context.nodeArena parent node → Orderly context.nodeArena node

section Steps

variable {foreign own opened : Set NodePtr} {exempt : Nat → RuleId → Prop}

/-- A step that writes open nodes only and gives them orderly children. -/
theorem Arranged.step {before after : Context CharT} (arranged : Arranged before)
    (tidy : Tidy opened before) (kept : Kept foreign own before.nodeArena after.nodeArena)
    (fewer : own ⊆ opened) (mem : after.mem = before.mem)
    (adds : ∀ parent node, Child after.nodeArena parent node → Child before.nodeArena parent node ∨
      Orderly after.nodeArena node) : Arranged after := by
  have carried : ∀ node, node ∉ opened → Orderly before.nodeArena node →
      Orderly after.nodeArena node := fun node closed orderly =>
    orderly.kept kept (fun member => closed (fewer member)) fun child found member =>
      (tidy.children node child found).2 (fewer member)
  refine ⟨fun pos rule row held root tree => ?_, fun parent node child => ?_⟩
  · rw [mem] at held
    obtain ⟨success, orderly⟩ := arranged.rows pos rule row held root tree
    have placed := ((tidy.rows pos rule row not_false held).placed success root tree).1
    exact ⟨success, carried root placed.1 orderly⟩
  · rcases adds parent node child with known | added
    · exact carried node (tidy.children parent node known).2 (arranged.children parent node known)
    · exact added

theorem Arranged.moved {before after : Context CharT} (arranged : Arranged before)
    (arena : after.nodeArena = before.nodeArena)
    (mem : ∀ pos rule row, after.mem pos rule = some row → before.mem pos rule = some row) :
    Arranged after := by
  refine ⟨fun pos rule row held => ?_, ?_⟩
  · rw [arena]
    exact arranged.rows pos rule row (mem pos rule row held)
  · rw [arena]
    exact arranged.children

theorem Arranged.stored {context : Context CharT} (arranged : Arranged context) {rule : RuleId}
    {pos : Nat} {entry : RuleState}
    (yields : Yields context.nodeArena entry.cachedResult) :
    Arranged (context.updateRuleState rule pos entry).2 := by
  unfold Context.updateRuleState
  split
  · refine ⟨fun pos' rule' row held => ?_, arranged.children⟩
    rcases Memo.write_eq_some held with ⟨-, -, rfl⟩ | ⟨-, before⟩
    · exact yields
    · exact arranged.rows pos' rule' row before
  · exact arranged

end Steps

structure Steady (input : List CharT) (skipper : Option RuleId) (opened : Set NodePtr)
    (context : Context CharT) : Prop where
  sound : Sound input skipper (InBounds input) context
  inside : context.position ≤ input.length
  tidy : Tidy opened context
  arranged : Arranged context

/-- A parse that is only asked about its return. -/
abbrev returning : Contract (Moment CharT) (Context CharT) Exn := throwing fun _ => True

/-- What a run that returns has done: it moved forward and wrote no open node. -/
structure Went (input : List CharT) (skipper : Option RuleId) (opened : Set NodePtr)
    (start last : Context CharT) : Prop where
  steady : Steady input skipper opened last
  forward : start.position ≤ last.position
  kept : Kept opened ∅ start.nodeArena last.nodeArena

/-- The tree of a result covers the stretch that the run moved over, in order. -/
structure Covers (opened : Set NodePtr) (start : Context CharT) (result : ParseResult)
    (last : Context CharT) : Prop where
  restored : ¬result.success = true → last.position = start.position
  placed : result.success = true → ∀ root, result.tree = some root →
    Placed opened last.nodeArena root start.position last.position
  yields : Yields last.nodeArena result

/-- A parser whose trees cover what it moved over. -/
def Nests (input : List CharT) (skipper : Option RuleId) (parser : Parser CharT ParseResult) : Prop :=
  ∀ opened context, Steady input skipper opened context → wp returning parser
    (fun result last => Went input skipper opened context last ∧ Covers opened context result last)
    context

def SkipsForward (input : List CharT) (skipper : Option RuleId) (skip : Parser CharT Unit) : Prop :=
  ∀ opened context, Steady input skipper opened context →
    wp returning skip (fun _ last => Went input skipper opened context last) context

section Runs

variable {input : List CharT} {skipper : Option RuleId} {opened : Set NodePtr}

/-- What is left to show of a parser that advances and leaves open nodes alone. -/
def Arranges (input : List CharT) (skipper : Option RuleId) (parser : Parser CharT ParseResult) :
    Prop :=
  ∀ opened context, Steady input skipper opened context → wp returning parser
    (fun result last => Arranged last ∧ Yields last.nodeArena result) context

theorem wp_of_carries {Value : Type} {rules : FrameRules (Context CharT)}
    {broken : Exn → Context CharT → Prop}
    {post : Value → Context CharT → List (Moment CharT) → Prop} {parser : Parser CharT Value}
    {context : Context CharT} (runs : Carries Moment.context rules broken post context (parser context)) :
    wp returning parser (fun value last => (∃ log, post value last log) ∧ rules.kept context last)
      context := by
  refine (along_unconstrained _ _).mpr ?_
  cases ended : (parser context).outcome with
  | returned value => exact ⟨⟨_, runs.returned value ended⟩, runs.kept⟩
  | thrown exn => trivial
  | exhausted => trivial

theorem wp_state {Value : Type} {parser : Parser CharT Value}
    {post : Value → Context CharT → Prop} {context : Context CharT}
    (holds : wp returning parser post context) :
    wp returning parser (fun value last => post value last ∧ last = (parser context).state) context := by
  have met := (along_unconstrained _ _).mp holds
  refine (along_unconstrained _ _).mpr ?_
  cases ended : (parser context).outcome with
  | returned value =>
      rw [ended] at met
      exact ⟨met, rfl⟩
  | thrown exn => trivial
  | exhausted => trivial

theorem wp_advances {Value : Type} {parser : Parser CharT Value} {context : Context CharT}
    (advances : Advances input skipper (active context) parser)
    (sound : Sound input skipper (InBounds input) context) (inside : context.position ≤ input.length) :
    wp returning parser (fun _ last => Sound input skipper (InBounds input) last ∧
      last.position ≤ input.length ∧ context.position ≤ last.position) context := by
  refine wp_mono (advances context ⟨sound, inside, rfl⟩) (fun _ => id) (fun _ _ _ => trivial)
    (fun _ _ _ => trivial) ?_
  rintro value last ⟨ready, forward, -⟩
  exact ⟨ready.sound, ready.inside, forward⟩

/-- A parser whose tree is orderly covers what it moved over. -/
theorem nests_of_parts {parser : Parser CharT ParseResult} (tends : Tends parser)
    (advances : ∀ pending, Advances input skipper pending parser)
    (arranges : Arranges input skipper parser) : Nests input skipper parser := by
  intro opened context steady
  have moves := wp_advances (advances _) steady.sound steady.inside
  have delivers := wp_of_carries (tends opened context steady.tidy)
  refine wp_post (wp_with (wp_with (arranges opened context steady) moves fun _ => id) delivers
    fun _ => id) ?_
  rintro result last ⟨⟨⟨arranged, yields⟩, sound, inside, forward⟩, ⟨log, delivered⟩, kept⟩
  exact ⟨⟨⟨sound, inside, delivered.tidy, arranged⟩, forward, kept⟩, delivered.restored,
    fun success root tree => (delivered.handed success root tree).placed, yields⟩

theorem Steady.moved {before after : Context CharT} (steady : Steady input skipper opened before)
    (source : after.input = before.input) (same : after.skipper = before.skipper)
    (inside : after.position ≤ input.length) (arena : after.nodeArena = before.nodeArena)
    (mem : ∀ pos rule row, after.mem pos rule = some row → before.mem pos rule = some row) :
    Steady input skipper opened after where
  sound := ⟨source.trans steady.sound.source, same.trans steady.sound.skipper,
    fun pos rule row held => steady.sound.rows pos rule row (mem pos rule row held)⟩
  inside := inside
  tidy := steady.tidy.moved arena mem
  arranged := steady.arranged.moved arena mem

end Runs

/-- The node in the making: its children follow one another up to `stop`. -/
structure Assembling (input : List CharT) (skipper : Option RuleId) (opened : Set NodePtr)
    (node : NodePtr) (start stop : Nat) (context : Context CharT) : Prop where
  steady : Steady input skipper (insert node opened) context
  outside : node ∉ opened
  ordered : ∃ fields, context.nodeArena[node]? = some fields ∧ fields.startOffset = start ∧
    Ordered context.nodeArena start fields.children stop
  reached : stop ≤ context.position

section Making

variable {input : List CharT} {skipper : Option RuleId} {opened : Set NodePtr} {node : NodePtr}
  {start stop : Nat}

theorem Assembling.closed {context : Context CharT}
    (assembling : Assembling input skipper opened node start stop context) {child : NodePtr}
    (member : Child context.nodeArena node child) : child ∉ ({node} : Set NodePtr) := by
  rintro rfl
  exact (assembling.steady.tidy.children _ _ member).2 (Set.mem_insert _ _)

theorem Assembling.went {before after : Context CharT}
    (assembling : Assembling input skipper opened node start stop before)
    (went : Went input skipper (insert node opened) before after) :
    Assembling input skipper opened node start stop after := by
  obtain ⟨fields, held, starts, ordered⟩ := assembling.ordered
  obtain ⟨new, found, same, -⟩ := went.kept node fields held
  obtain rfl := same (Set.mem_insert _ _)
  exact ⟨went.steady, assembling.outside, ⟨new, found, starts, ordered.kept went.kept
    fun child _ => Set.notMem_empty child⟩, Nat.le_trans assembling.reached went.forward⟩

theorem Assembling.moved {before after : Context CharT}
    (assembling : Assembling input skipper opened node start stop before)
    (steady : Steady input skipper (insert node opened) after)
    (arena : after.nodeArena = before.nodeArena) {stop' : Nat} (wider : stop ≤ stop')
    (reached : stop' ≤ after.position) : Assembling input skipper opened node start stop' after := by
  obtain ⟨fields, held, starts, ordered⟩ := assembling.ordered
  refine ⟨steady, assembling.outside, ⟨fields, by rw [arena]; exact held, starts, ?_⟩, reached⟩
  rw [arena]
  exact ordered.widen wider

theorem Assembling.update {context : Context CharT}
    (assembling : Assembling input skipper opened node start stop context) {stop' : Nat}
    {update : ParseTreeNode → ParseTreeNode}
    (starts : ∀ fields, (update fields).startOffset = fields.startOffset)
    (closed : ∀ fields child, some child ∈ (update fields).children → some child ∈ fields.children ∨
      child < context.nodeArena.length ∧ child ∉ insert node opened ∧ Orderly context.nodeArena child)
    (orders : ∀ fields, Ordered context.nodeArena start fields.children stop →
      Ordered context.nodeArena start (update fields).children stop')
    (reached : stop' ≤ context.position) :
    Assembling input skipper opened node start stop' (context.updateNode node update) := by
  obtain ⟨fields, held, started, ordered⟩ := assembling.ordered
  have tidy := assembling.steady.tidy
  have building : Building opened node start context :=
    ⟨tidy, ⟨fields, held, started⟩, assembling.outside⟩
  have kept : Kept opened {node} context.nodeArena (context.updateNode node update).nodeArena :=
    building.kept update
  have apart : ∀ child, some child ∈ (update fields).children → child ∉ ({node} : Set NodePtr) := by
    rintro child member rfl
    rcases closed fields child member with known | ⟨-, absent, -⟩
    · exact assembling.closed ⟨fields, held, known⟩ (Set.mem_singleton child)
    · exact absent (Set.mem_insert _ _)
  have tidied : Tidy (insert node opened) (context.updateNode node update) :=
    (building.update starts fun fields child member =>
      (closed fields child member).imp_right fun found => ⟨found.1, found.2.1⟩).tidy
  have arranged : Arranged (context.updateNode node update) := by
    refine assembling.steady.arranged.step tidy kept
      (Set.singleton_subset_iff.mpr (Set.mem_insert _ _)) rfl fun parent child found => ?_
    rcases child_update found with known | ⟨rfl, fields, held, member⟩
    · exact Or.inl known
    · rcases closed fields child member with known | ⟨-, absent, orderly⟩
      · exact Or.inl ⟨fields, held, known⟩
      · refine Or.inr (orderly.kept kept (fun same => absent ?_) fun other below same => ?_)
        · exact Set.mem_singleton_iff.mp same ▸ Set.mem_insert _ _
        · obtain rfl := Set.mem_singleton_iff.mp same
          exact (tidy.children child other below).2 (Set.mem_insert _ _)
  have steady := assembling.steady
  refine ⟨⟨⟨steady.sound.source, steady.sound.skipper, steady.sound.rows⟩, steady.inside, tidied,
    arranged⟩, assembling.outside, ⟨update fields, ?_, (starts fields).trans started, ?_⟩, reached⟩
  · have read := modify_read context.nodeArena node node update held
    rwa [if_pos rfl] at read
  · exact (orders fields ordered).kept kept apart

theorem Assembling.made {context : Context CharT} (steady : Steady input skipper opened context)
    (update : ParseTreeNode → ParseTreeNode) (childless : (update {}).children = [])
    (starts : (update {}).startOffset = start) (reached : start ≤ context.position) :
    Assembling input skipper opened context.makeNode.1 start start
      (context.makeNode.2.updateNode context.makeNode.1 update) := by
  have tidy := steady.tidy.make_node
  have made : Arranged context.makeNode.2 :=
    steady.arranged.step steady.tidy (@kept_make ∅ ∅ _ _) (Set.empty_subset _) rfl
      fun _ _ child => Or.inl (child_make child)
  have none_added : ∀ parent node,
      Child (context.makeNode.2.updateNode context.makeNode.1 update).nodeArena parent node →
      Child context.makeNode.2.nodeArena parent node := by
    intro parent node child
    rcases child_update child with known | ⟨-, fields, held, member⟩
    · exact known
    · obtain rfl := Option.some.inj (held.symm.trans (node_made context))
      rw [childless] at member
      exact absurd member List.not_mem_nil
  have arranged : Arranged (context.makeNode.2.updateNode context.makeNode.1 update) := by
    refine made.step tidy (@kept_update ∅ {context.makeNode.1} _ _ _ (Set.notMem_empty _)
      fun absent => absurd (Set.mem_singleton _) absent) (by simp) rfl fun parent node child =>
        Or.inl (none_added parent node child)
  have tidied : Tidy (insert context.makeNode.1 opened)
      (context.makeNode.2.updateNode context.makeNode.1 update) := by
    refine tidy.update_node (fun absent => absurd (Set.mem_insert _ _) absent) ?_
    intro fields held node member
    obtain rfl := Option.some.inj (held.symm.trans (node_made context))
    rw [childless] at member
    exact absurd member List.not_mem_nil
  have read := modify_read context.makeNode.2.nodeArena context.makeNode.1 context.makeNode.1 update
    (node_made context)
  rw [if_pos rfl] at read
  refine ⟨⟨⟨steady.sound.source, steady.sound.skipper, steady.sound.rows⟩, steady.inside, tidied,
    arranged⟩, fun member => Nat.lt_irrefl _ (steady.tidy.bounded _ member), ⟨_, read, starts, ?_⟩,
    reached⟩
  rw [childless]
  exact Nat.le_refl start

theorem Assembling.begun {context : Context CharT} (steady : Steady input skipper opened context) :
    Assembling input skipper opened context.makeNode.1 context.position context.position
      (markStart context.makeNode.1 context.makeNode.2) :=
  Assembling.made steady (fun fields => { fields with startOffset := context.position }) rfl rfl
    (Nat.le_refl _)

theorem Assembling.orderly {context : Context CharT}
    (assembling : Assembling input skipper opened node start stop context) {fields : ParseTreeNode}
    (held : context.nodeArena[node]? = some fields) (stops : fields.endOffset = context.position) :
    Orderly context.nodeArena node := by
  obtain ⟨fields', held', started, ordered⟩ := assembling.ordered
  obtain rfl := Option.some.inj (held.symm.trans held')
  refine ⟨fields, held, ?_⟩
  rw [started, stops]
  exact ordered.widen assembling.reached

theorem Assembling.finished {context : Context CharT}
    (assembling : Assembling input skipper opened node start stop context) :
    Arranged (markEnd node context) ∧ Orderly (markEnd node context).nodeArena node := by
  obtain ⟨fields, held, -⟩ := assembling.ordered
  have ended : Assembling input skipper opened node start stop (markEnd node context) :=
    assembling.update (fun _ => rfl) (fun _ _ => Or.inl) (fun _ => id) assembling.reached
  have read := modify_read context.nodeArena node node
    (fun fields => { fields with endOffset := context.position }) held
  rw [if_pos rfl] at read
  exact ⟨ended.steady.arranged, ended.orderly read rfl⟩

theorem leaf_arranged {context : Context CharT} (steady : Steady input skipper opened context)
    (update : ParseTreeNode → ParseTreeNode) (childless : (update {}).children = [])
    (starts : (update {}).startOffset ≤ context.position)
    (stops : (update {}).endOffset = context.position) :
    let here := context.makeNode.2.updateNode context.makeNode.1 update
    Arranged here ∧ Orderly here.nodeArena context.makeNode.1 := by
  have made := Assembling.made steady update childless rfl starts
  have read := modify_read context.makeNode.2.nodeArena context.makeNode.1 context.makeNode.1 update
    (node_made context)
  rw [if_pos rfl] at read
  exact ⟨made.steady.arranged, made.orderly read stops⟩

end Making

section Leaves

variable {input : List CharT} {skipper : Option RuleId} {opened : Set NodePtr}

theorem bare_arranged {last : Context CharT} {success : Bool} (arranged : Arranged last) :
    Arranged last ∧ Yields last.nodeArena ⟨success, none⟩ :=
  ⟨arranged, fun _ absent => nomatch absent⟩

theorem yields_node {arena : List ParseTreeNode} {node : NodePtr} (orderly : Orderly arena node) :
    Yields arena ⟨true, some node⟩ := by
  intro root tree
  obtain rfl := Option.some.inj tree
  exact ⟨rfl, orderly⟩

theorem next_arranged {context : Context CharT} (arranged : Arranged context) :
    Arranged context.next :=
  arranged.moved (next_arena context).1 (by rw [(next_arena context).2]; exact fun _ _ _ => id)

variable [PegValue CharT]

theorem terminal_arranges (value : TerminalValue CharT) :
    Arranges input skipper (TerminalExpr.parse value : Parser CharT ParseResult) := by
  intro opened context steady
  rw [TerminalExpr.parse, wp_bind, wp_read, wp_ite]
  simp only [wp_bind, wp_modify, wp_pure]
  exact ⟨fun _ => bare_arranged (next_arranged steady.arranged),
    fun _ => bare_arranged (steady.arranged.moved rfl fun _ _ _ => id)⟩

theorem match_values_arranged (values : List CharT) {context : Context CharT}
    (arranged : Arranged context) :
    wp returning (TerminalSeqExpr.matchValues values) (fun _ last => Arranged last) context := by
  induction values generalizing context with
  | nil => exact arranged
  | cons value rest induction =>
      rw [TerminalSeqExpr.matchValues, wp_bind, wp_read, wp_ite]
      refine ⟨fun _ => ?_, fun _ => arranged⟩
      rw [wp_bind, wp_modify]
      exact induction (next_arranged arranged)

theorem terminal_seq_arranges (values : List CharT) :
    Arranges input skipper (TerminalSeqExpr.parse values : Parser CharT ParseResult) := by
  intro opened context steady
  rw [TerminalSeqExpr.parse, wp_bind, wp_read, wp_bind]
  refine wp_post (match_values_arranged values steady.arranged) fun matched last arranged => ?_
  rw [wp_ite]
  simp only [wp_bind, wp_modify, wp_pure]
  exact ⟨fun _ => bare_arranged arranged,
    fun _ => bare_arranged (arranged.moved rfl fun _ _ _ => id)⟩

theorem token_arranges (value : TerminalValue CharT) :
    Arranges input skipper (TokenExpr.parse value : Parser CharT ParseResult) := by
  intro opened context steady
  rw [TokenExpr.parse, wp_bind, wp_read, wp_ite]
  simp only [wp_bind, wp_modify, wp_modifyGet, wp_pure]
  refine ⟨fun _ => ?_, fun _ => bare_arranged (steady.arranged.moved rfl fun _ _ _ => id)⟩
  have inside : context.next.position ≤ input.length := by
    have bounded := steady.inside
    have size : context.inputSize = input.length := congrArg List.length steady.sound.source
    unfold Context.next
    split_ifs with more
    · rw [size] at more
      exact more
    · exact bounded
  have steadyNext : Steady input skipper opened context.next := by
    unfold Context.next at inside ⊢
    split_ifs at inside ⊢ <;> exact steady.moved rfl rfl inside rfl fun _ _ _ => id
  have leaf := leaf_arranged steadyNext (fun fields =>
    { fields with
      startOffset := context.next.position - 1
      endOffset := context.next.position }) rfl (Nat.sub_le _ _) rfl
  exact ⟨leaf.1, yields_node leaf.2⟩

omit [PegValue CharT] in
theorem matcher_arranges {fn : Context CharT → Span → Option Span}
    (range : MatcherInRange (.matcher fn)) : Arranges input skipper (MatcherExpr.parse fn) := by
  intro opened context steady
  rw [MatcherExpr.parse, wp_bind, wp_read]
  dsimp only [id]
  cases ended : fn context ⟨context.position, context.position⟩ with
  | none => exact bare_arranged steady.arranged
  | some consumed =>
      simp only [wp_bind, wp_modify, wp_modifyGet, wp_pure]
      have inside : context.position ≤ context.inputSize := by
        rw [Context.inputSize, steady.sound.source]
        exact steady.inside
      have reached := range context consumed inside ended
      rw [Context.inputSize, steady.sound.source] at reached
      have steadyHere : Steady input skipper opened (context.reset consumed.stop) :=
        steady.moved rfl rfl reached.2 rfl fun _ _ _ => id
      have leaf := leaf_arranged steadyHere (fun fields =>
        { fields with startOffset := context.position, endOffset := consumed.stop }) rfl reached.1 rfl
      exact ⟨leaf.1, yields_node leaf.2⟩

end Leaves

section Combinators

variable {input : List CharT} {skipper : Option RuleId} {opened : Set NodePtr} {node : NodePtr}
  {start stop : Nat}

theorem Assembling.skipped {skip : Parser CharT Unit} (skips : SkipsForward input skipper skip)
    {condition : Prop} [Decidable condition] {context : Context CharT}
    (assembling : Assembling input skipper opened node start stop context) :
    wp returning (Comp.onlyIf condition skip) (fun _ last =>
      Assembling input skipper opened node start stop last) context := by
  rw [wp_onlyIf]
  refine ⟨fun _ => ?_, fun _ => assembling⟩
  exact wp_post (skips _ context assembling.steady) fun _ last went => assembling.went went

theorem Assembling.part {child : Parser CharT ParseResult} (nests : Nests input skipper child)
    {context : Context CharT}
    (assembling : Assembling input skipper opened node start stop context) :
    wp returning child (fun result last => Assembling input skipper opened node start stop last ∧
      (result.success = true → Assembling input skipper opened node start last.position
        (pushChild node result.tree last))) context := by
  refine wp_post (nests _ context assembling.steady) ?_
  rintro result last ⟨went, covers⟩
  have later := assembling.went went
  refine ⟨later, fun success => ?_⟩
  cases tree : result.tree with
  | none => exact later.moved later.steady rfl later.reached (Nat.le_refl _)
  | some root =>
      have placed := covers.placed success root tree
      obtain ⟨closed, fields, held, starts, stops⟩ := placed
      refine later.update (fun _ => rfl) (fun fields' other member => ?_) (fun fields' ordered => ?_)
        (Nat.le_refl _)
      · rcases List.mem_append.mp member with known | added
        · exact Or.inl known
        · obtain rfl := Option.some.inj (List.mem_singleton.mp added)
          exact Or.inr ⟨(List.getElem?_eq_some_iff.mp held).1, closed,
            (covers.yields other tree).2⟩
      · exact (ordered.widen assembling.reached).push ⟨fields, held, starts, stops⟩ went.forward

theorem parse_seq_nests {skip : Parser CharT Unit} (skips : SkipsForward input skipper skip)
    {children : List (Parser CharT ParseResult)} (each : ∀ child ∈ children, Nests input skipper child)
    (index : Nat) {context : Context CharT}
    (assembling : Assembling input skipper opened node start stop context) :
    wp returning (SequenceExpr.parseSeq skip node index children) (fun _ last =>
      ∃ stop, Assembling input skipper opened node start stop last) context := by
  induction children generalizing index context stop with
  | nil => exact ⟨stop, assembling⟩
  | cons child rest induction =>
      rw [SequenceExpr.parseSeq, wp_bind]
      refine wp_post (assembling.skipped skips) fun _ here ready => ?_
      rw [wp_bind]
      refine wp_post (ready.part (each child (by simp))) ?_
      rintro result last ⟨plain, pushed⟩
      rw [wp_ite, wp_bind, wp_modify]
      refine ⟨fun success => ?_, fun _ => ⟨stop, plain⟩⟩
      exact induction (fun other member => each other (by simp [member])) (index + 1) (pushed success)

theorem sequence_arranges {skip : Parser CharT Unit} (skips : SkipsForward input skipper skip)
    {children : List (Parser CharT ParseResult)} (each : ∀ child ∈ children, Nests input skipper child) :
    Arranges input skipper (SequenceExpr.parse skip children) := by
  intro opened context steady
  rw [SequenceExpr.parse, wp_bind, wp_read, wp_bind, wp_modifyGet, wp_bind, wp_modify, wp_bind]
  refine wp_post (parse_seq_nests skips each 0 (Assembling.begun steady)) ?_
  rintro matched last ⟨stop, assembling⟩
  rw [wp_ite]
  simp only [wp_bind, wp_modify, wp_pure]
  refine ⟨fun _ => ?_, fun _ => bare_arranged (assembling.steady.arranged.moved rfl fun _ _ _ => id)⟩
  have finished := assembling.finished
  exact ⟨finished.1, yields_node finished.2⟩

theorem stamp_arranged {context : Context CharT} {result : ParseResult} (tidy : Tidy opened context)
    (arranged : Arranged context) (yields : Yields context.nodeArena result) (index : Nat) :
    Arranged (stampWinner result.tree index context) ∧
      Yields (stampWinner result.tree index context).nodeArena result := by
  cases tree : result.tree with
  | none => exact ⟨arranged, yields⟩
  | some root =>
      have kept : Kept ∅ ∅ context.nodeArena (stampWinner (some root) index context).nodeArena :=
        kept_update (Set.notMem_empty _) fun _ _ _ => ⟨rfl, rfl, rfl, fun _ => rfl⟩
      refine ⟨arranged.step tidy kept (Set.empty_subset _) rfl fun parent node child => ?_,
        fun other same => ⟨(yields other same).1, ?_⟩⟩
      · rcases child_update child with known | ⟨rfl, fields, held, member⟩
        · exact Or.inl known
        · exact Or.inl ⟨fields, held, member⟩
      · exact (yields other same).2.kept kept (Set.notMem_empty _) fun _ _ => Set.notMem_empty _

theorem raise_returns {context : Context CharT} {post : Unit → Context CharT → Prop}
    (met : post () context) : wp returning raiseIfCommitted post context := by
  rw [raiseIfCommitted, wp_bind, announce, wp_announce]
  refine fun _ => ⟨trivial, ?_⟩
  rw [wp_bind, wp_read, wp_onlyIf, wp_throw]
  exact ⟨fun _ => trivial, fun _ => met⟩

theorem parse_alt_arranges {children : List (Parser CharT ParseResult)}
    (each : ∀ child ∈ children, Nests input skipper child) (index : Nat) {context : Context CharT}
    (steady : Steady input skipper opened context) :
    wp returning (AlternationExpr.parseAlt index children) (fun result last => Arranged last ∧
      Yields last.nodeArena result) context := by
  induction children generalizing index context with
  | nil => exact bare_arranged steady.arranged
  | cons child rest induction =>
      rw [AlternationExpr.parseAlt, wp_bind]
      refine wp_post (each child (by simp) opened context steady) ?_
      rintro result last ⟨went, covers⟩
      rw [wp_ite, wp_bind, wp_modify, wp_pure, wp_bind]
      refine ⟨fun success => ?_, fun _ => raise_returns ?_⟩
      · exact stamp_arranged went.steady.tidy went.steady.arranged covers.yields index
      · exact induction (fun other member => each other (by simp [member])) (index + 1) went.steady

theorem cut_scope_arranges {body : Parser CharT ParseResult} (arranges : Arranges input skipper body) :
    Arranges input skipper (Comp.modify Context.initCut >>= fun _ =>
      Comp.guarded body Context.removeCut) := by
  intro opened context steady
  rw [wp_bind, wp_modify, wp_guarded]
  refine wp_post (arranges opened context.initCut ?_) ?_
  · exact steady.moved rfl rfl steady.inside rfl fun _ _ _ => id
  · rintro result last ⟨arranged, yields⟩
    refine ⟨arranged.moved (remove_cut_arena last).1 (remove_cut_rows last), ?_⟩
    rw [(remove_cut_arena last).1]
    exact yields

theorem alternation_arranges {children : List (Parser CharT ParseResult)}
    (each : ∀ child ∈ children, Nests input skipper child) :
    Arranges input skipper (AlternationExpr.parse children) :=
  cut_scope_arranges fun _ _ steady => parse_alt_arranges each 0 steady

theorem set_cut_steady {context : Context CharT} (steady : Steady input skipper opened context)
    (committed : Bool) : Steady input skipper opened (context.setCut committed) := by
  unfold Context.setCut
  split <;> exact steady.moved rfl rfl steady.inside rfl fun _ _ _ => id

theorem repeat_loop_nests {skip : Parser CharT Unit} (skips : SkipsForward input skipper skip)
    {parseChild : Parser CharT ParseResult} (nests : Nests input skipper parseChild) (maxRep : Int)
    (fuel loopCount lastSuccessState : Nat) {context : Context CharT}
    (assembling : Assembling input skipper opened node start lastSuccessState context) :
    wp returning (repeatLoop skip parseChild maxRep node fuel loopCount lastSuccessState)
      (fun ended last => Assembling input skipper opened node start ended.lastSuccessState last)
      context := by
  induction fuel generalizing loopCount lastSuccessState context with
  | zero => trivial
  | succ fuel induction =>
      rw [repeatLoop, wp_bind]
      refine wp_post (assembling.skipped skips) fun _ here ready => ?_
      rw [wp_bind, wp_read, wp_bind, wp_modify, wp_bind]
      have cleared := set_cut_arena here false
      have uncut : Assembling input skipper opened node start lastSuccessState (here.setCut false) :=
        ready.moved (set_cut_steady ready.steady false) cleared.1 (Nat.le_refl _)
          (by rw [cleared.2]; exact ready.reached)
      refine wp_post (uncut.part nests) ?_
      rintro result last ⟨plain, pushed⟩
      rw [wp_ite, wp_bind, wp_read, wp_bind, wp_modify, wp_ite]
      refine ⟨fun success => ⟨fun _ => pushed success, fun _ => ?_⟩, fun _ => plain⟩
      exact induction (loopCount + 1) last.position (pushed success)

theorem repeat_finish_arranges (maxRep : Int) (ended : LoopExit) {context : Context CharT}
    (assembling : Assembling input skipper opened node start ended.lastSuccessState context) :
    wp returning (repeatFinish maxRep node ended) (fun result last => Arranged last ∧
      Yields last.nodeArena result) context := by
  have rewound : Assembling input skipper opened node start ended.lastSuccessState
      (context.reset ended.lastSuccessState) := by
    have inside := Nat.le_trans assembling.reached assembling.steady.inside
    have steady : Steady input skipper (insert node opened) (context.reset ended.lastSuccessState) :=
      assembling.steady.moved rfl rfl inside rfl fun _ _ _ => id
    exact assembling.moved steady rfl (Nat.le_refl _) (Nat.le_refl _)
  have resized : Assembling input skipper opened node start ended.lastSuccessState
      ((context.reset ended.lastSuccessState).updateNode node (resizeChildren ended.loopCount)) := by
    refine rewound.update (fun _ => rfl) (fun fields child member => ?_) (fun fields ordered => ?_)
      (Nat.le_refl _)
    · rcases List.mem_append.mp member with kept | padded
      · exact Or.inl (List.mem_of_mem_take kept)
      · exact absurd (List.eq_of_mem_replicate padded) nofun
    · exact (ordered.take _).pad _
  have closed : ∀ here, Assembling input skipper opened node start ended.lastSuccessState here →
      Arranged (markEnd node here) ∧ Yields (markEnd node here).nodeArena ⟨true, some node⟩ :=
    fun here ready => ⟨ready.finished.1, yields_node ready.finished.2⟩
  rw [repeatFinish, wp_bind, wp_onlyIf, wp_modify]
  simp only [wp_bind, wp_onlyIf, wp_modify, wp_pure]
  exact ⟨fun _ => ⟨fun _ => raise_returns (closed _ resized), fun _ => closed _ resized⟩,
    fun _ => ⟨fun _ => raise_returns (closed _ assembling), fun _ => closed _ assembling⟩⟩

theorem repeat_arranges (fuel : Nat) {skip : Parser CharT Unit} (skips : SkipsForward input skipper skip)
    {parseChild : Parser CharT ParseResult} (nests : Nests input skipper parseChild) (minRep : Nat)
    (maxRep : Int) : Arranges input skipper (repeatParseImpl fuel skip parseChild minRep maxRep) := by
  refine cut_scope_arranges fun opened context steady => ?_
  rw [wp_bind, wp_read, wp_bind, wp_modifyGet, wp_bind, wp_modify, wp_bind]
  refine wp_post (repeat_loop_nests skips nests maxRep fuel 0 context.position
    (Assembling.begun steady)) fun ended last assembling => ?_
  rw [wp_ite, wp_bind, wp_modify, wp_pure]
  exact ⟨fun _ => bare_arranged (assembling.steady.arranged.moved rfl fun _ _ _ => id),
    fun _ => repeat_finish_arranges maxRep ended assembling⟩

theorem predicate_arranges {parseChild : Parser CharT ParseResult}
    (nests : Nests input skipper parseChild) (negate : Bool) :
    Arranges input skipper (predicateParseImpl parseChild negate) := by
  intro opened context steady
  rw [predicateParseImpl, wp_bind, wp_read, wp_bind]
  refine wp_post (nests opened context steady) fun result last met => ?_
  rw [wp_bind, wp_modify, wp_pure]
  exact bare_arranged (met.1.steady.arranged.moved rfl fun _ _ _ => id)

theorem lexeme_arranges {parseChild : Parser CharT ParseResult}
    (nests : Nests input skipper parseChild) :
    Arranges input skipper (LexemeExpr.parse parseChild) := by
  intro opened context steady
  rw [LexemeExpr.parse, wp_bind, wp_read, wp_bind, wp_modify, wp_guarded]
  refine wp_post (nests opened { context with skipEnabled := false } ?_) fun result last met => ?_
  · exact steady.moved rfl rfl steady.inside rfl fun _ _ _ => id
  · exact ⟨met.1.steady.arranged.moved rfl fun _ _ _ => id, met.2.yields⟩

theorem skip_arranged {apply : RuleId → Parser CharT ParseResult}
    (applies : ∀ rule, Nests input skipper (apply rule)) {context : Context CharT}
    (steady : Steady input skipper opened context) :
    wp returning (runSkipper apply) (fun _ last => Arranged last) context := by
  rw [runSkipper, wp_bind, wp_read]
  dsimp only [id]
  split
  · rw [wp_bind, wp_modify, wp_bind]
    refine wp_post (applies _ opened _ (steady.moved rfl rfl steady.inside rfl fun _ _ _ => id))
      fun result last met => ?_
    rw [wp_modify]
    exact met.1.steady.arranged.moved rfl fun _ _ _ => id
  · exact steady.arranged

end Combinators

section RuleApplication

variable {input : List CharT} {skipper : Option RuleId} {opened : Set NodePtr} {rule : RuleId}
  {startPos : Nat}

/-- What the growth of a rule has in hand: an orderly tree from the start of the
application to where its row ends. -/
structure Thriving (input : List CharT) (skipper : Option RuleId) (opened : Set NodePtr)
    (rule : RuleId) (startPos : Nat) (context : Context CharT) (best : ParseResult)
    (ruleState : RuleState) : Prop where
  growing : Growing opened rule startPos context best ruleState
  sound : Sound input skipper (InBounds input) context
  inside : ruleState.lastPos ≤ input.length
  arranged : Arranged context
  yields : Yields context.nodeArena best

theorem store_returns {context : Context CharT} {entry : RuleState}
    {post : Bool → Context CharT → Prop}
    (met : ∀ present, post present (context.updateRuleState rule startPos entry).2) :
    wp returning (NonTerminal.store rule startPos entry) post context := by
  rw [NonTerminal.store, wp_bind, wp_modifyGet, wp_bind, announce, wp_announce]
  exact fun _ => ⟨trivial, met _⟩

theorem Thriving.planted {context : Context CharT} {result : ParseResult} {last : Nat}
    (steady : Steady input skipper opened context) (top : Top rule startPos last context)
    (success : result.success = true) (forward : startPos ≤ context.position)
    (placed : ∀ root, result.tree = some root →
      Placed opened context.nodeArena root startPos context.position)
    (yields : Yields context.nodeArena result) :
    Thriving input skipper opened rule startPos
      ((NonTerminal.setFrameLastPos context.position context).updateRuleState rule startPos
        ⟨context.position, result⟩).2 result ⟨context.position, result⟩ := by
  have frame := update_row_frame (NonTerminal.setFrameLastPos context.position context) rule startPos
    ⟨context.position, result⟩
  have marked : Steady input skipper opened (NonTerminal.setFrameLastPos context.position context) :=
    steady.moved rfl rfl steady.inside rfl fun _ _ _ => id
  have row : RowTidy opened context.nodeArena startPos ⟨context.position, result⟩ :=
    ⟨fun _ root tree => ⟨placed root tree, forward⟩, fun failure => absurd success failure⟩
  have bounded : RowSound input (InBounds input) rule startPos ⟨context.position, result⟩ :=
    ⟨fun _ _ => ⟨forward, steady.inside⟩, fun failure => absurd success failure⟩
  refine ⟨⟨TidyBut.stored (marked.tidy.others fun _ _ => False.elim) row,
    (top.marked context.position).moved frame.2.1, forward, fun failure => absurd success failure,
    fun _ root tree => by rw [frame.1]; exact placed root tree⟩, ?_, steady.inside, ?_, ?_⟩
  · exact update_sound marked.sound.source marked.sound.skipper
      (fun _ _ _ _ held => marked.sound.rows _ _ _ held) bounded
  · exact marked.arranged.stored yields
  · rw [frame.1]
    exact yields

theorem Thriving.settled {context : Context CharT} {best : ParseResult} {ruleState : RuleState}
    (thriving : Thriving input skipper opened rule startPos context best ruleState) :
    Thriving input skipper opened rule startPos
      (context.updateRuleState rule startPos ⟨ruleState.lastPos, best⟩).2 best
      ⟨ruleState.lastPos, best⟩ := by
  have growing := thriving.growing
  have frame := update_row_frame context rule startPos ⟨ruleState.lastPos, best⟩
  have row : RowTidy opened context.nodeArena startPos ⟨ruleState.lastPos, best⟩ :=
    ⟨fun success root tree => ⟨growing.placed success root tree, growing.forward⟩, growing.unmoved⟩
  have bounded : RowSound input (InBounds input) rule startPos ⟨ruleState.lastPos, best⟩ :=
    ⟨fun _ _ => ⟨growing.forward, thriving.inside⟩, growing.unmoved⟩
  refine ⟨⟨TidyBut.stored (growing.tidy.others fun _ _ => False.elim) row, growing.top.moved frame.2.1,
    growing.forward, growing.unmoved, by rw [frame.1]; exact growing.placed⟩, ?_, thriving.inside,
    ?_, ?_⟩
  · exact update_sound thriving.sound.source thriving.sound.skipper
      (fun _ _ _ _ held => thriving.sound.rows _ _ _ held) bounded
  · exact thriving.arranged.stored thriving.yields
  · rw [frame.1]
    exact thriving.yields

theorem Thriving.went {before after : Context CharT} {best : ParseResult} {ruleState : RuleState}
    (thriving : Thriving input skipper opened rule startPos before best ruleState)
    (went : Went input skipper opened before after)
    (top : Top rule startPos ruleState.lastPos after) :
    Thriving input skipper opened rule startPos after best ruleState where
  growing := ⟨went.steady.tidy, top, thriving.growing.forward, thriving.growing.unmoved,
    fun success root tree =>
      (thriving.growing.placed success root tree).kept went.kept (Set.notMem_empty root)⟩
  sound := went.steady.sound
  inside := thriving.inside
  arranged := went.steady.arranged
  yields root tree := ⟨(thriving.yields root tree).1, (thriving.yields root tree).2.kept went.kept
    (Set.notMem_empty root) fun child _ => Set.notMem_empty child⟩

theorem grow_loop_nests {parseBody : Parser CharT ParseResult}
    (nests : Nests input skipper parseBody) (stable : StableParser parseBody)
    (bounded : startPos ≤ input.length) (fuel : Nat) {best : ParseResult} {ruleState : RuleState}
    {context : Context CharT}
    (thriving : Thriving input skipper opened rule startPos context best ruleState) :
    wp returning (NonTerminal.growLoop rule startPos parseBody fuel best ruleState)
      (fun grown last => Thriving input skipper opened rule startPos last grown.1 grown.2) context := by
  induction fuel generalizing best ruleState context with
  | zero => trivial
  | succ fuel induction =>
      rw [NonTerminal.growLoop, wp_bind, wp_modify, wp_bind, wp_read, wp_bind]
      have cleared : wp returning
          (Comp.onlyIf ((NonTerminal.frame (context.reset startPos)).isHead = true ∧
              best.success = true)
            (Comp.modify fun context => context.clearSiblingsAt startPos rule))
          (fun _ here => Thriving input skipper opened rule startPos here best ruleState ∧
            Steady input skipper opened here ∧ here.position = startPos)
          (context.reset startPos) := by
        rw [wp_onlyIf, wp_modify]
        have growing := thriving.growing
        have ready : ∀ mem : Memo, (∀ pos rule row, mem pos rule = some row →
            context.mem pos rule = some row) →
            Thriving input skipper opened rule startPos
                { context.reset startPos with mem := mem } best ruleState ∧
              Steady input skipper opened { context.reset startPos with mem := mem } ∧
              ({ context.reset startPos with mem := mem } : Context CharT).position = startPos := by
          intro mem fewer
          have sound : Sound input skipper (InBounds input) { context.reset startPos with mem := mem } :=
            ⟨thriving.sound.source, thriving.sound.skipper,
              fun pos rule row held => thriving.sound.rows pos rule row (fewer pos rule row held)⟩
          have tidy : Tidy opened { context.reset startPos with mem := mem } :=
            growing.tidy.moved rfl fewer
          have arranged : Arranged { context.reset startPos with mem := mem } :=
            thriving.arranged.moved rfl fewer
          exact ⟨⟨⟨tidy, growing.top.moved rfl, growing.forward, growing.unmoved, growing.placed⟩,
            sound, thriving.inside, arranged, thriving.yields⟩, ⟨sound, bounded, tidy, arranged⟩, rfl⟩
        refine ⟨fun _ => ready ((context.reset startPos).clearSiblingsAt startPos rule).mem
          fun pos other row held => ?_, fun _ => ready _ fun _ _ _ => id⟩
        simp only [Context.clearSiblingsAt] at held
        split_ifs at held
        exact held
      refine wp_post cleared ?_
      rintro ⟨⟩ here ⟨ready, steady, atStart⟩
      rw [wp_bind]
      refine wp_post (wp_preserves (nests opened here steady) stable) ?_
      rintro result after ⟨⟨went, covers⟩, step⟩
      have later := ready.went went (ready.growing.top.stable step)
      have placed := covers.placed
      have forward := went.forward
      rw [atStart] at placed forward
      rw [wp_bind, wp_read, wp_ite]
      dsimp only [id]
      refine ⟨fun success => ?_, fun _ => later⟩
      rw [wp_ite]
      refine ⟨fun progress => ?_, fun stuck => ?_⟩
      · have next := Thriving.planted went.steady later.growing.top success forward (placed success)
          covers.yields
        rw [wp_bind, wp_modify, wp_bind]
        refine store_returns fun present => ?_
        rw [wp_ite]
        exact ⟨fun _ => induction next, fun _ => next⟩
      · rw [wp_bind, later.growing.top.last_eq]
        refine store_returns fun present => ?_
        rw [wp_pure]
        refine Thriving.settled ?_
        split_ifs with held
        · exact later
        · -- A first match that did not move covers the empty stretch at the start.
          have seed : ruleState.lastPos = startPos := later.growing.unmoved held
          rw [later.growing.top.last_eq] at stuck
          have stayed : after.position = ruleState.lastPos := by omega
          rw [stayed] at placed
          exact ⟨⟨later.growing.tidy, later.growing.top, later.growing.forward,
            fun failure => absurd success failure, placed⟩, later.sound, later.inside,
            later.arranged, covers.yields⟩

/-- The body's result when the rule has left the invocation stack. -/
structure Left (input : List CharT) (skipper : Option RuleId) (opened : Set NodePtr) (startPos : Nat)
    (grown : ParseResult × RuleState) (last : Context CharT) : Prop where
  steady : Steady input skipper opened last
  stopped : last.position = grown.2.lastPos
  forward : startPos ≤ last.position
  placed : grown.1.success = true → ∀ root, grown.1.tree = some root →
    Placed opened last.nodeArena root startPos last.position
  yields : Yields last.nodeArena grown.1

theorem invoke_nests {body : Option (Parser CharT ParseResult)}
    (nests : ∀ parseBody ∈ body, Nests input skipper parseBody)
    (stable : ∀ parseBody ∈ body, StableParser parseBody) (bounded : startPos ≤ input.length)
    (fuel : Nat) {context : Context CharT}
    (tidy : TidyBut (OwnRow rule startPos) opened context) (arranged : Arranged context)
    (source : context.input = input) (same : context.skipper = skipper)
    (rows : ∀ pos other row, ¬(pos = startPos ∧ other = rule) → context.mem pos other = some row →
      RowSound input (InBounds input) other pos row) :
    wp returning (NonTerminal.invoke rule startPos body fuel)
      (fun grown last => Left input skipper opened startPos grown last) context := by
  rw [NonTerminal.invoke, wp_bind, wp_modify, wp_bind]
  cases body with
  | none => trivial
  | some parseBody =>
      generalize pushed : context.lrPush ⟨rule, startPos, startPos, false⟩ = entered
      have top : Top rule startPos startPos entered := by
        subst pushed
        exact ⟨_, _, rfl, rfl⟩
      have frame := update_row_frame entered rule startPos ⟨startPos, {}⟩
      have entry : TidyBut (OwnRow rule startPos) opened entered ∧ Arranged entered ∧
          entered.input = input ∧ entered.skipper = skipper ∧ entered.mem = context.mem := by
        subst pushed
        exact ⟨tidy.moved rfl fun _ _ _ => id, arranged.moved rfl fun _ _ _ => id, source, same, rfl⟩
      have planted : Thriving input skipper opened rule startPos
          (entered.updateRuleState rule startPos ⟨startPos, {}⟩).2 {} ⟨startPos, {}⟩ := by
        refine ⟨⟨entry.1.stored ⟨by simp, fun _ => rfl⟩, top.moved frame.2.1, Nat.le_refl _,
          fun _ => rfl, by simp⟩, ?_, bounded, entry.2.1.stored (yields_bare _ _),
          yields_bare _ _⟩
        refine update_sound entry.2.2.1 entry.2.2.2.1 ?_ failure_row
        rw [entry.2.2.2.2]
        exact rows
      rw [NonTerminal.parseImpl, wp_bind]
      refine store_returns fun present => ?_
      rw [wp_bind]
      refine wp_post (grow_loop_nests (nests parseBody rfl) (stable parseBody rfl) bounded fuel planted) ?_
      rintro grown last thriving
      rw [wp_bind, wp_modify, wp_pure, wp_bind, wp_modify, wp_pure]
      have growing := thriving.growing
      obtain ⟨arena, mem, position⟩ :=
        leave_frame startPos (last.reset (NonTerminal.frame last).lastPos)
      have fewer : ∀ pos other row, (NonTerminal.leave startPos
          (last.reset (NonTerminal.frame last).lastPos)).mem pos other = some row →
          last.mem pos other = some row := by
        rw [mem]
        exact fun _ _ _ => id
      have stopped := position.trans growing.top.last_eq
      refine ⟨⟨⟨?_, ?_, fun pos other row held => thriving.sound.rows pos other row
          (fewer pos other row held)⟩, by rw [stopped]; exact thriving.inside, growing.tidy.moved arena fewer,
        thriving.arranged.moved arena fewer⟩, stopped, by rw [stopped]; exact growing.forward, ?_, ?_⟩
      · unfold NonTerminal.leave
        split_ifs <;> exact thriving.sound.source
      · unfold NonTerminal.leave
        split_ifs <;> exact thriving.sound.skipper
      · rw [arena, stopped]
        exact growing.placed
      · rw [arena]
        exact thriving.yields

theorem wrap_orderly {context : Context CharT} {grown : ParseResult × RuleState}
    (left : Left input skipper opened startPos grown context) (success : grown.1.success = true)
    (update : ParseTreeNode → ParseTreeNode) (childless : (update {}).children = [])
    (starts : (update {}).startOffset = startPos) (stops : (update {}).endOffset = context.position) :
    let here := pushChild context.makeNode.1 grown.1.tree
      (context.makeNode.2.updateNode context.makeNode.1 update)
    Arranged here ∧ Orderly here.nodeArena context.makeNode.1 := by
  have made := Assembling.made left.steady update childless starts left.forward
  have read := modify_read context.makeNode.2.nodeArena context.makeNode.1 context.makeNode.1 update
    (node_made context)
  rw [if_pos rfl] at read
  cases tree : grown.1.tree with
  | none => exact ⟨made.steady.arranged, made.orderly read stops⟩
  | some root =>
      have placed := left.placed success root tree
      have closed : root ∉ ({context.makeNode.1} : Set NodePtr) := by
        rintro rfl
        exact Nat.lt_irrefl _ placed.inside
      have kept : Kept ∅ {context.makeNode.1} context.nodeArena
          (context.makeNode.2.updateNode context.makeNode.1 update).nodeArena :=
        (kept_make _ _).trans (kept_update (Set.notMem_empty _) fun absent =>
          absurd (Set.mem_singleton _) absent)
      have below := (left.yields root tree).2.kept kept closed fun child found same => by
        obtain rfl := Set.mem_singleton_iff.mp same
        exact Nat.lt_irrefl _ (left.steady.tidy.children root _ found).1
      obtain ⟨absent, inner, held, innerStart, innerStop⟩ := placed.kept kept closed
      have pushed : Assembling input skipper opened context.makeNode.1 startPos context.position
          (pushChild context.makeNode.1 (some root)
            (context.makeNode.2.updateNode context.makeNode.1 update)) := by
        refine made.update (fun _ => rfl) (fun fields child member => ?_) (fun fields ordered => ?_)
          (Nat.le_refl _)
        · rcases List.mem_append.mp member with known | added
          · exact Or.inl known
          · obtain rfl := Option.some.inj (List.mem_singleton.mp added)
            refine Or.inr ⟨(List.getElem?_eq_some_iff.mp held).1, ?_, below⟩
            rintro (same | member)
            · exact closed same
            · exact absent member
        · exact ordered.push ⟨inner, held, innerStart, innerStop⟩ left.forward
      refine ⟨pushed.steady.arranged, pushed.orderly (modify_read _ _ _ _ read) ?_⟩
      rw [if_pos rfl]
      exact stops

/-- An untyped rule that adopts the body's node changes neither offsets nor children. -/
theorem adopt_orderly (nonTerminal : NonTerminal CharT NodeType) {context : Context CharT}
    {grown : ParseResult × RuleState} (left : Left input skipper opened startPos grown context)
    (success : grown.1.success = true) {root : NodePtr} (tree : grown.1.tree = some root) :
    let here := context.updateNode root (adopt nonTerminal rule startPos context)
    Arranged here ∧ Orderly here.nodeArena root := by
  obtain ⟨-, fields, held, starts, stops⟩ := left.placed success root tree
  have kept : Kept ∅ ∅ context.nodeArena
      (context.updateNode root (adopt nonTerminal rule startPos context)).nodeArena := by
    refine kept_update (Set.notMem_empty _) fun _ fields' held' => ?_
    obtain rfl := Option.some.inj (held.symm.trans held')
    exact adopt_unchanged nonTerminal context starts stops
  refine ⟨left.steady.arranged.step left.steady.tidy kept (Set.empty_subset _) rfl
    fun parent node child => ?_, ?_⟩
  · rcases child_update child with known | ⟨rfl, fields, held, member⟩
    · exact Or.inl known
    · exact Or.inl ⟨fields, held, member⟩
  · exact (left.yields root tree).2.kept kept (Set.notMem_empty _)
      fun _ _ => Set.notMem_empty _

theorem build_node_arranges (nonTerminal : NonTerminal CharT NodeType) {context : Context CharT}
    {grown : ParseResult × RuleState} (left : Left input skipper opened startPos grown context)
    (success : grown.1.success = true) :
    wp returning (NonTerminal.buildNode nonTerminal rule startPos grown.1.tree)
      (fun node last => Arranged last ∧ Orderly last.nodeArena node) context := by
  unfold NonTerminal.buildNode
  cases nonTerminal.typedFold with
  | some action =>
      simp only [wp_bind, wp_modify, wp_modifyGet, wp_pure]
      exact wrap_orderly left success (fun fields =>
        { fields with
          name := nonTerminal.name
          producer := some rule
          startOffset := startPos
          endOffset := context.position }) rfl rfl rfl
  | none =>
      cases tree : grown.1.tree with
      | none =>
          simp only [Option.elim_none, wp_bind, wp_modify, wp_modifyGet, wp_pure]
          exact leaf_arranged left.steady (adopt nonTerminal rule startPos context) rfl left.forward rfl
      | some root =>
          simp only [Option.elim_some, wp_bind, wp_modify, wp_pure]
          exact adopt_orderly nonTerminal left success tree

theorem finish_success_arranges (nonTerminal : NonTerminal CharT NodeType) {context : Context CharT}
    {grown : ParseResult × RuleState} (left : Left input skipper opened startPos grown context)
    (success : grown.1.success = true) :
    wp returning (NonTerminal.finishSuccess nonTerminal rule startPos grown.1 grown.2)
      (fun result last => Arranged last ∧ Yields last.nodeArena result) context := by
  rw [NonTerminal.finishSuccess, wp_bind]
  refine wp_post (build_node_arranges nonTerminal left success) ?_
  rintro node last ⟨arranged, orderly⟩
  rw [wp_bind]
  refine store_returns fun present => ?_
  rw [wp_pure, (update_row_frame last rule startPos _).1]
  exact ⟨arranged.stored (yields_node orderly), yields_node orderly⟩

theorem finish_failure_arranges (nonTerminal : NonTerminal CharT NodeType) {context : Context CharT}
    (arranged : Arranged context) (ruleState : RuleState) :
    wp returning (NonTerminal.finishFailure nonTerminal rule startPos ruleState)
      (fun result last => Arranged last ∧ Yields last.nodeArena result) context := by
  obtain ⟨errors, recorded⟩ := NonTerminal.record_rule_failure_frame nonTerminal startPos context
  rw [NonTerminal.finishFailure, wp_bind, wp_modify, recorded, wp_bind, wp_read]
  have here : Arranged ({ context with errors := errors } : Context CharT) :=
    arranged.moved rfl fun _ _ _ => id
  dsimp only [id]
  split
  · rw [wp_bind, wp_modify, wp_bind]
    refine store_returns fun present => ?_
    rw [wp_pure]
    refine bare_arranged (Arranged.stored ?_ (yields_bare _ _))
    exact here.moved rfl fun _ _ _ => id
  · rw [wp_bind]
    refine store_returns fun present => ?_
    rw [wp_pure]
    exact bare_arranged (here.stored (yields_bare _ _))

theorem replay_arranges {context : Context CharT} (arranged : Arranged context) {row : RuleState}
    (held : context.mem startPos rule = some row) :
    wp returning (NonTerminal.replay rule startPos row)
      (fun result last => Arranged last ∧ Yields last.nodeArena result) context := by
  have live : ∀ here : Context CharT, here.mem = context.mem → here.memoGet rule startPos = row := by
    intro here same
    rw [Context.memoGet, same, held, Option.getD_some]
  have answer : ∀ here : Context CharT, here.nodeArena = context.nodeArena → here.mem = context.mem →
      Arranged here ∧ Yields here.nodeArena row.cachedResult := by
    intro here arena mem
    refine ⟨arranged.moved arena (by rw [mem]; exact fun _ _ _ => id), ?_⟩
    rw [arena]
    exact arranged.rows startPos rule row held
  have marked : (context.markHead rule startPos).nodeArena = context.nodeArena ∧
      (context.markHead rule startPos).mem = context.mem := by
    unfold Context.markHead
    split
    · split_ifs <;> exact ⟨rfl, rfl⟩
    · exact ⟨rfl, rfl⟩
  rw [NonTerminal.replay, wp_bind, wp_read, wp_ite]
  dsimp only [id]
  rw [live context rfl]
  refine ⟨fun _ => ?_, fun _ => ?_⟩
  · rw [wp_bind, wp_modify, wp_bind, wp_modify, wp_pure]
    exact answer _ marked.1 marked.2
  · cases context.growingHead startPos with
    | none =>
        rw [wp_bind, wp_modify, wp_pure]
        exact answer _ rfl rfl
    | some head =>
        rw [wp_ite]
        simp only [wp_bind, wp_modify, wp_pure]
        exact ⟨fun _ => answer _ rfl rfl, fun _ => answer _ rfl rfl⟩

theorem parse_arranges (nonTerminal : NonTerminal CharT NodeType) (rule : RuleId)
    {body : Option (Parser CharT ParseResult)}
    (nests : ∀ parseBody ∈ body, Nests input skipper parseBody)
    (stable : ∀ parseBody ∈ body, StableParser parseBody) (fuel : Nat) :
    Arranges input skipper (NonTerminal.parse nonTerminal rule body fuel) := by
  intro opened context steady
  rw [NonTerminal.parse, wp_bind, announce, wp_announce]
  refine fun _ => ⟨trivial, ?_⟩
  rw [wp_bind, wp_read, wp_bind, wp_modifyGet, wp_ite]
  unfold Context.ruleState
  cases held : context.mem context.position rule with
  | some row => exact ⟨fun present => absurd present Bool.false_ne_true, fun _ => replay_arranges steady.arranged held⟩
  | none =>
      refine ⟨fun _ => ?_, fun absent => absurd rfl absent⟩
      have others : ∀ pos other row, ¬(pos = context.position ∧ other = rule) →
          context.mem.write context.position rule {} pos other = some row →
          context.mem pos other = some row := by
        intro pos other row different found
        rcases Memo.write_eq_some found with ⟨samePos, sameRule, -⟩ | ⟨-, before⟩
        · exact absurd ⟨samePos, sameRule⟩ different
        · exact before
      have tidy : TidyBut (OwnRow rule context.position) opened
          { context with mem := context.mem.write context.position rule {} } :=
        ⟨fun pos other row spared found => steady.tidy.rows pos other row not_false
          (others pos other row spared found), steady.tidy.children, steady.tidy.bounded⟩
      have arranged : Arranged { context with mem := context.mem.write context.position rule {} } := by
        refine ⟨fun pos other row found => ?_, steady.arranged.children⟩
        rcases Memo.write_eq_some found with ⟨-, -, rfl⟩ | ⟨-, before⟩
        · exact yields_bare _ _
        · exact steady.arranged.rows pos other row before
      rw [wp_bind]
      refine wp_post (invoke_nests nests stable steady.inside fuel tidy arranged steady.sound.source
        steady.sound.skipper fun pos other row different found =>
          steady.sound.rows pos other row (others pos other row different found)) ?_
      intro grown last left
      rw [wp_ite]
      exact ⟨fun success => finish_success_arranges nonTerminal left success,
        fun _ => finish_failure_arranges nonTerminal left.steady.arranged grown.2⟩

end RuleApplication

variable [PegValue CharT] {grammar : Grammar CharT NodeType} {input : List CharT}
  {skipper : Option RuleId} (inRange : InRange grammar)

include inRange

theorem skip_nests {fuel : Nat} (applies : ∀ rule, Nests input skipper (grammar.apply fuel rule)) :
    SkipsForward input skipper (runSkipper (grammar.apply fuel)) := by
  intro opened context steady
  have moves := wp_advances (skip_advances inRange fuel) steady.sound steady.inside
  have tends := wp_of_carries (skip_tends (apply_tends grammar fuel) opened context steady.tidy)
  refine wp_post (wp_with (wp_with (skip_arranged applies steady) moves fun _ => id) tends
    fun _ => id) ?_
  rintro _ last ⟨⟨arranged, sound, inside, forward⟩, ⟨-, tidy⟩, kept⟩
  exact ⟨⟨sound, inside, tidy, arranged⟩, forward, kept⟩

theorem expr_nests {fuel : Nat} (applies : ∀ rule, Nests input skipper (grammar.apply fuel rule))
    {expr : Expr CharT} (range : expr.Every MatcherInRange) :
    Nests input skipper (grammar.eval fuel expr) := by
  have whole : ∀ expr : Expr CharT, expr.Every MatcherInRange →
      Arranges input skipper (grammar.eval fuel expr) → Nests input skipper (grammar.eval fuel expr) :=
    fun expr range => nests_of_parts (expr_tends (apply_tends grammar fuel) fuel expr)
      fun _ => eval_advances inRange fuel range
  have all : ∀ children : List (Expr CharT), Expr.EveryAll MatcherInRange children →
      (∀ child ∈ children, child.Every MatcherInRange → Nests input skipper (grammar.eval fuel child)) →
      ∀ parser ∈ Expr.parseAll (grammar.apply fuel) fuel children, Nests input skipper parser := by
    intro children ranges each parser member
    rw [Expr.parse_all_eq_map] at member
    obtain ⟨child, inChildren, rfl⟩ := List.mem_map.mp member
    exact each child inChildren (Expr.every_all_iff.mp ranges child inChildren)
  have skips := skip_nests inRange applies
  induction expr using Expr.induct with
  | terminal value => exact whole _ range (terminal_arranges value)
  | terminalSeq values => exact whole _ range (terminal_seq_arranges values)
  | token value => exact whole _ range (token_arranges value)
  | matcher fn => exact whole _ range (matcher_arranges range.here)
  | empty => exact whole _ range fun _ _ steady => bare_arranged steady.arranged
  | cut =>
      exact whole _ range fun _ _ steady => bare_arranged (set_cut_steady steady true).arranged
  | sequence children induction =>
      refine whole _ range (sequence_arranges skips (all children ?_ induction))
      unfold Expr.Every at range
      exact range.2
  | alternation children induction =>
      refine whole _ range (alternation_arranges (all children ?_ induction))
      unfold Expr.Every at range
      exact range.2
  | repetition kind child induction =>
      refine whole _ range (repeat_arranges fuel skips (induction ?_) kind.minRep kind.maxRep)
      unfold Expr.Every at range
      exact range.2
  | not child induction =>
      refine whole _ range (predicate_arranges (induction ?_) true)
      unfold Expr.Every at range
      exact range.2
  | and child induction =>
      refine whole _ range (predicate_arranges (induction ?_) false)
      unfold Expr.Every at range
      exact range.2
  | lexeme child induction =>
      refine whole _ range (lexeme_arranges (induction ?_))
      unfold Expr.Every at range
      exact range.2
  | rule id => exact applies id

theorem apply_nests (fuel : Nat) (rule : RuleId) :
    Nests input skipper (grammar.apply fuel rule) := by
  induction fuel generalizing rule with
  | zero => exact fun _ _ _ => trivial
  | succ fuel induction =>
      refine nests_of_parts (apply_tends grammar (fuel + 1) rule)
        (fun _ => apply_advances inRange (fuel + 1) rule) ?_
      refine parse_arranges (grammar.nonTerminal rule) rule (fun parseBody member => ?_)
        (fun parseBody member => ?_) fuel
      · obtain ⟨expr, assigned, rfl⟩ := Option.map_eq_some_iff.mp member
        exact expr_nests inRange induction (inRange rule expr assigned)
      · obtain ⟨expr, -, rfl⟩ := Option.map_eq_some_iff.mp member
        exact expr_stable (apply_stable grammar fuel) fuel expr

omit [PegValue CharT] inRange in
theorem fresh_steady (input : List CharT) (skipper : Option RuleId) :
    Steady input skipper ∅ { Context.fresh input with skipper := skipper } where
  sound := ⟨rfl, rfl, fun _ _ _ held => nomatch held⟩
  inside := Nat.zero_le _
  tidy := by
    refine ⟨?_, ?_, nofun⟩
    · intro pos rule row _ held
      cases held
    · rintro parent node ⟨fields, held, -⟩
      cases held
  arranged := by
    refine ⟨?_, ?_⟩
    · intro pos rule row held
      cases held
    · rintro parent node ⟨fields, held, -⟩
      cases held

/-- The root of a tree covers what was read after the leading skip, and every
node below it has its children in order inside its span. -/
theorem spans_nest (input : List CharT) (fuel : Nat) (name : Str) {root : NodePtr}
    (returned : (grammar.parseTree fuel name (Context.fresh input)).outcome = .returned (some root)) :
    let skipped := (grammar.leadingSkip fuel (Context.fresh input)).state
    let last := (grammar.parseTree fuel name (Context.fresh input)).state
    Spans last.nodeArena root skipped.position last.position ∧
      ∀ node, Reachable last.nodeArena root node → ∃ fields, Nested last.nodeArena node fields := by
  intro skipped last
  cases found : grammar.find name with
  | none =>
      rw [Grammar.parseTree, found] at returned
      cases returned
  | some rule =>
      have applies := @apply_nests _ _ _ grammar input grammar.skipper inRange fuel
      have start := fresh_steady input grammar.skipper
      have covered : wp returning (grammar.parseTree fuel name) (fun tree last =>
          ∀ root, tree = some root → ∃ opened, Steady input grammar.skipper opened last ∧
            Spans last.nodeArena root skipped.position last.position ∧ Orderly last.nodeArena root)
          (Context.fresh input) := by
        unfold Grammar.parseTree
        rw [found, wp_bind]
        refine wp_post (wp_state (?_ : wp returning (grammar.leadingSkip fuel)
          (fun _ here => Steady input grammar.skipper ∅ here) (Context.fresh input))) ?_
        · rw [Grammar.leadingSkip, wp_bind, wp_modify]
          exact wp_post (skip_nests inRange applies ∅ _ start) fun _ _ went => went.steady
        · rintro ⟨⟩ here ⟨steady, same⟩
          rw [wp_catching, wp_bind]
          refine wp_mono (applies rule ∅ here steady) (fun _ => id) (fun _ _ => id) ?_ ?_
          · intro exn last _
            cases exn with
            | parseError position expected =>
                intro root absent
                cases absent
            | _ => exact trivial
          · rintro result last ⟨went, covers⟩ root tree
            obtain ⟨success, orderly⟩ := covers.yields root tree
            have placed := (covers.placed success root tree).2
            rw [same] at placed
            exact ⟨∅, went.steady, placed, orderly⟩
      have answer := wp_returned covered (fun _ _ => trivial) returned root rfl
      obtain ⟨opened, steady, spans, orderly⟩ := answer
      refine ⟨spans, fun node path => ?_⟩
      rcases path.cases_tail with rfl | ⟨parent, -, child⟩
      · exact orderly.nested
      · exact (steady.arranged.children parent node child).nested

omit [PegValue CharT] inRange

/-- `A = A >> '+' >> token('n') | token('n')`, with spaces skipped. -/
def sums : Grammar UInt8 Unit where
  rules := [
    (ascii "A", { name := ascii "A", body := some (.alternation [
      .sequence [.rule 0, .terminal (.value 43), .token (.value 110)], .token (.value 110)]) }),
    (ascii "space", { name := ascii "space", body := some (.repetition .zeroOrMore
      (.terminal (.value 32))) })]
  skipper := some 1

theorem sums_in_range : InRange sums := by
  intro rule body assigned
  match rule with
  | 0 | 1 =>
      obtain rfl := Option.some.inj assigned
      simp [Expr.Every, Expr.EveryAll, MatcherInRange]
  | _ + 2 => cases assigned

/-- On " n + n" the root has both `n` as children, and the first ends before the
second starts. -/
theorem sums_nest :
    let last := (sums.parseTree 8 (ascii "A") (Context.fresh (ascii " n + n"))).state
    Spans last.nodeArena 4 1 6 ∧
      ∀ node, Reachable last.nodeArena 4 node → ∃ fields, Nested last.nodeArena node fields := by
  intro last
  have skipped : (sums.leadingSkip 8 (Context.fresh (ascii " n + n"))).state.position = 1 := by
    decide +kernel
  have reached : last.position = 6 := by decide +kernel
  obtain ⟨spans, below⟩ := spans_nest sums_in_range (ascii " n + n") 8 (ascii "A")
    (Outcome.value_eq_some.mp (by decide +kernel : _ = some (some 4)))
  rw [skipped] at spans
  exact ⟨reached ▸ spans, below⟩

end Peglib.SpanNesting
