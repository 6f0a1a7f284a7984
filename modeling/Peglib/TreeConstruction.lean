import Peglib.DerivationTrees
import Peglib.SkippingRecursion
import Peglib.SpanNesting

/-!
# Trees are derivation trees

The tree of every success accounts for the stretch of input that the success
covers, through everything that happens to shared nodes later: a node is written
while it is open, and handed on afterwards with its children, its span and its
producer as they are. The row of a rule in progress holds the tree of its body,
which is what a reentered rule is answered with.
-/

namespace Peglib.TreeConstruction

open Peglib.TracedComputation Peglib.WeakestPrecondition Peglib.Preservation
open Peglib.ParseError Peglib.ParseContext Peglib.Expressions Peglib.Rules
open Peglib.ControlDiscipline Peglib.SuccessfulAnswers Peglib.CommittedNodes Peglib.SpanNesting
open Peglib.PegSemantics Peglib.Producers Peglib.DerivationTrees
open Peglib.Evaluation (consume_next)
open Peglib.MemoAnswers (NotReentered)
open Peglib.PlantedSeeds (leave_active)
open Peglib.SkippingRecursion (ReentryFree boundary_never_reentered)
open Peglib.EntryPoints (boundary)
open Peglib.Termination (InBounds InRange MatcherInRange apply_advances eval_advances)

set_option autoImplicit false

variable {CharT NodeType : Type}

/-- A run in which rules are reentered only if `seeds` allows it. -/
abbrev sprouting (CharT : Type) (seeds : Prop) : Contract (Moment CharT) (Context CharT) Exn :=
  ⟨fun moment => NotReentered moment ∨ seeds, fun _ => True, fun _ _ => True⟩

section Carrying

variable {grammar : Grammar CharT NodeType} {foreign own opened : Set NodePtr}
  {before after : List ParseTreeNode}

theorem carried_refl (sealed : Set NodePtr) (arena : List ParseTreeNode) :
    Carried grammar sealed sealed arena arena :=
  fun _ among old held => ⟨among, ⟨old, held, .refl old⟩, id⟩

theorem carried_kept (kept : Kept foreign own before after)
    (untyped : ∀ node, Untyped grammar before node → Untyped grammar after node)
    (fewer : own ⊆ opened) : Carried grammar openedᶜ openedᶜ before after := by
  intro node closed old held
  obtain ⟨new, found, -, unchanged⟩ := kept node old held
  exact ⟨closed, ⟨new, found, unchanged fun member => closed (fewer member)⟩, untyped node⟩

theorem carried_open (arena : List ParseTreeNode) :
    Carried grammar openedᶜ (insert arena.length opened)ᶜ arena arena := by
  intro node closed old held
  refine ⟨?_, ⟨old, held, .refl old⟩, id⟩
  rintro (rfl | member)
  · exact Nat.lt_irrefl _ (List.getElem?_eq_some_iff.mp held).1
  · exact closed member

theorem carried_close (node : NodePtr) (arena : List ParseTreeNode) :
    Carried grammar (insert node opened)ᶜ openedᶜ arena arena := by
  intro other closed old held
  exact ⟨fun member => closed (Set.mem_insert_of_mem _ member), ⟨old, held, .refl old⟩, id⟩

theorem carried_trans {sealed sealed' sealed'' : Set NodePtr} {arena : List ParseTreeNode}
    (left : Carried grammar sealed sealed' before after)
    (right : Carried grammar sealed' sealed'' after arena) :
    Carried grammar sealed sealed'' before arena := by
  intro node among old held
  obtain ⟨among', ⟨middle, found, same⟩, untyped⟩ := left node among old held
  obtain ⟨among'', ⟨new, later, same'⟩, untyped'⟩ := right node among' middle found
  exact ⟨among'', ⟨new, later, same.trans same'⟩, untyped' ∘ untyped⟩

end Carrying

section Rows

variable [PegValue CharT] (grammar : Grammar CharT NodeType) (input : List CharT) (seeds : Prop)

/-- The tree of a row's success: that of the rule, or of its body while the rule is in
progress. -/
def RowAccounts (opened : Set NodePtr) (context : Context CharT) (pos : Nat) (rule : RuleId)
    (row : RuleState) : Prop :=
  row.cachedResult.success = true →
    Accounts grammar input seeds openedᶜ context.nodeArena
        (.one (.rule rule) row.cachedResult.tree) pos row.lastPos ∨
      (rule, pos) ∈ active context ∧ ∃ body, grammar.body rule = some body ∧
        Accounts grammar input seeds openedᶜ context.nodeArena
          (.one body row.cachedResult.tree) pos row.lastPos

/-- The trees of the rows account for what they stand for. Some rows may be exempt. -/
def AccountedBut (exempt : Nat → RuleId → Prop) (opened : Set NodePtr) (context : Context CharT) :
    Prop :=
  ∀ pos rule row, ¬exempt pos rule → context.mem pos rule = some row →
    RowAccounts grammar input seeds opened context pos rule row

abbrev Accounted (opened : Set NodePtr) (context : Context CharT) : Prop :=
  AccountedBut grammar input seeds (fun _ _ => False) opened context

variable {grammar input seeds} {exempt : Nat → RuleId → Prop} {opened opened' : Set NodePtr}

theorem AccountedBut.step {before after : Context CharT}
    (accounted : AccountedBut grammar input seeds exempt opened before)
    (carried : Carried grammar openedᶜ opened'ᶜ before.nodeArena after.nodeArena)
    (fewer : ∀ pos rule row, after.mem pos rule = some row → before.mem pos rule = some row)
    (running : ∀ key ∈ active before, key ∈ active after) :
    AccountedBut grammar input seeds exempt opened' after := by
  intro pos rule row spared held success
  rcases accounted pos rule row spared (fewer pos rule row held) success with whole | ⟨member, found⟩
  · exact Or.inl (whole.carried carried)
  · obtain ⟨body, assigned, part⟩ := found
    exact Or.inr ⟨running _ member, body, assigned, part.carried carried⟩

theorem AccountedBut.moved {before after : Context CharT}
    (accounted : AccountedBut grammar input seeds exempt opened before)
    (arena : after.nodeArena = before.nodeArena)
    (fewer : ∀ pos rule row, after.mem pos rule = some row → before.mem pos rule = some row)
    (running : active after = active before) :
    AccountedBut grammar input seeds exempt opened after := by
  refine accounted.step ?_ fewer fun key member => running ▸ member
  rw [arena]
  exact carried_refl _ _

theorem AccountedBut.others {context : Context CharT}
    (accounted : AccountedBut grammar input seeds exempt opened context)
    {exempt' : Nat → RuleId → Prop} (more : ∀ pos rule, exempt pos rule → exempt' pos rule) :
    AccountedBut grammar input seeds exempt' opened context :=
  fun pos rule row spared => accounted pos rule row fun found => spared (more pos rule found)

theorem AccountedBut.stored {rule : RuleId} {pos : Nat} {context : Context CharT}
    (accounted : AccountedBut grammar input seeds (OwnRow rule pos) opened context) {entry : RuleState}
    (row : RowAccounts grammar input seeds opened context pos rule entry) :
    Accounted grammar input seeds opened (context.updateRuleState rule pos entry).2 := by
  unfold Context.updateRuleState
  split
  · intro pos' rule' found _ held
    rcases Memo.write_eq_some held with ⟨rfl, rfl, rfl⟩ | ⟨different, before⟩
    · exact row
    · exact accounted pos' rule' found different before
  · rename_i missing
    intro pos' rule' found _ held
    refine accounted pos' rule' found ?_ held
    rintro ⟨rfl, rfl⟩
    rw [missing] at held
    cases held

end Rows

section Contracts

variable [PegValue CharT] (grammar : Grammar CharT NodeType) (input : List CharT) (seeds : Prop)

/-- What is left to show of a parser whose trees cover what it moved over. -/
def Explains (expr : Expr CharT) (parser : Parser CharT ParseResult) : Prop :=
  ∀ opened context, Steady input grammar.skipper opened context →
    Accounted grammar input seeds opened context →
    wp (sprouting CharT seeds) parser (fun result last => Accounted grammar input seeds opened last ∧
      (result.success = true → Accounts grammar input seeds openedᶜ last.nodeArena
        (.one expr result.tree) context.position last.position)) context

/-- A run that only hands sealed nodes on. -/
structure Passed (opened : Set NodePtr) (context last : Context CharT) : Prop where
  went : Went input grammar.skipper opened context last
  untyped : KeepsUntyped grammar context last

/-- A parser whose trees account for what it moved over. -/
structure Builds (expr : Expr CharT) (parser : Parser CharT ParseResult) : Prop where
  nests : Nests input grammar.skipper parser
  untyped : LeavesUntyped grammar parser
  explains : Explains grammar input seeds expr parser

/-- A skip, whose stretch is accounted for too. -/
def Bridges (skip : Parser CharT Unit) : Prop :=
  ∀ opened context, Steady input grammar.skipper opened context →
    Accounted grammar input seeds opened context →
    wp (sprouting CharT seeds) skip (fun _ last => Passed grammar input opened context last ∧
      Accounted grammar input seeds opened last ∧
      Accounts grammar input seeds openedᶜ last.nodeArena .gap context.position last.position) context

variable {grammar input seeds}

omit [PegValue CharT] in
theorem Passed.carried {opened : Set NodePtr} {context last : Context CharT}
    (passed : Passed grammar input opened context last) :
    Carried grammar openedᶜ openedᶜ context.nodeArena last.nodeArena :=
  carried_kept passed.went.kept passed.untyped (Set.empty_subset _)

theorem Builds.run {expr : Expr CharT} {parser : Parser CharT ParseResult}
    (builds : Builds grammar input seeds expr parser) {opened : Set NodePtr} {context : Context CharT}
    (steady : Steady input grammar.skipper opened context)
    (accounted : Accounted grammar input seeds opened context) :
    wp (sprouting CharT seeds) parser (fun result last =>
      (Accounted grammar input seeds opened last ∧
        (result.success = true → Accounts grammar input seeds openedᶜ last.nodeArena
          (.one expr result.tree) context.position last.position)) ∧
      Passed grammar input opened context last ∧ Covers opened context result last) context := by
  have ran := wp_with (builds.explains opened context steady accounted)
    (builds.nests opened context steady) fun _ _ => trivial
  refine wp_post (wp_preserves ran builds.untyped) ?_
  rintro result last ⟨⟨explained, went, covers⟩, untyped⟩
  exact ⟨explained, ⟨went, untyped⟩, covers⟩

end Contracts

section Writes

variable {grammar : Grammar CharT NodeType} {opened : Set NodePtr} {node : NodePtr}

theorem carried_own {before after : List ParseTreeNode} (kept : Kept {node}ᶜ {node} before after) :
    Carried grammar (insert node opened)ᶜ (insert node opened)ᶜ before after := by
  intro other closed old held
  obtain ⟨new, found, same, -⟩ := kept other old held
  have apart : other ≠ node := fun same => closed (same ▸ Set.mem_insert _ _)
  obtain rfl := same (by simpa using apart)
  refine ⟨closed, ⟨new, found, .refl new⟩, ?_⟩
  rintro ⟨fields, held', plain⟩
  obtain rfl := Option.some.inj (held.symm.trans held')
  exact ⟨new, found, plain⟩

theorem own_kept {arena : List ParseTreeNode} {update : ParseTreeNode → ParseTreeNode} :
    Kept {node}ᶜ {node} arena (arena.modify node update) :=
  kept_update (by simp) fun absent => absurd (Set.mem_singleton _) absent

theorem made_kept (context : Context CharT) (update : ParseTreeNode → ParseTreeNode) :
    Kept {context.makeNode.1}ᶜ {context.makeNode.1} context.nodeArena
      (context.makeNode.2.updateNode context.makeNode.1 update).nodeArena :=
  (kept_make _ _).trans own_kept

theorem carried_made {context : Context CharT} {after : List ParseTreeNode}
    (kept : Kept {context.makeNode.1}ᶜ {context.makeNode.1} context.nodeArena after) :
    Carried grammar openedᶜ openedᶜ context.nodeArena after :=
  carried_trans (carried_trans (carried_open context.nodeArena) (carried_own kept)) (carried_close _ _)

theorem push_kept (node : NodePtr) (tree : Option NodePtr) (context : Context CharT) :
    Kept {node}ᶜ {node} context.nodeArena (pushChild node tree context).nodeArena := by
  cases tree with
  | none => exact .refl _
  | some child => exact own_kept

theorem push_read {context : Context CharT} {fields : ParseTreeNode}
    (held : context.nodeArena[node]? = some fields) (tree : Option NodePtr) :
    (pushChild node tree context).nodeArena[node]? =
      some { fields with children := fields.children ++ pushed tree } := by
  cases tree with
  | none => simpa [pushChild, pushed] using held
  | some child =>
      have read := modify_read context.nodeArena node node
        (fun fields => { fields with children := fields.children ++ [some child] }) held
      rw [if_pos rfl] at read
      exact read

theorem end_kept (node : NodePtr) (context : Context CharT) :
    Kept {node}ᶜ {node} context.nodeArena (markEnd node context).nodeArena := own_kept

theorem end_written {context : Context CharT} {fields : ParseTreeNode}
    (held : context.nodeArena[node]? = some fields) : (markEnd node context).nodeArena[node]? =
      some { fields with endOffset := context.position } := by
  have read := modify_read context.nodeArena node node
    (fun fields => { fields with endOffset := context.position }) held
  rw [if_pos rfl] at read
  exact read

theorem raise_passes {seeds : Prop} {context : Context CharT} {post : Unit → Context CharT → Prop}
    (met : post () context) : wp (sprouting CharT seeds) raiseIfCommitted post context := by
  rw [raiseIfCommitted, wp_bind, announce, wp_announce]
  refine fun _ => ⟨trivial, ?_⟩
  rw [wp_bind, wp_read, wp_onlyIf, wp_throw]
  exact ⟨fun _ => trivial, fun _ => met⟩

theorem remove_cut_active (context : Context CharT) : active context.removeCut = active context := by
  unfold Context.removeCut
  split
  · rfl
  · split_ifs <;> rfl

theorem set_cut_still (context : Context CharT) (committed : Bool) :
    (context.setCut committed).mem = context.mem ∧
      active (context.setCut committed) = active context := by
  unfold Context.setCut
  split <;> exact ⟨rfl, rfl⟩

theorem store_passes {seeds : Prop} {rule : RuleId} {startPos : Nat}
    {context : Context CharT} {entry : RuleState}
    {post : Bool → Context CharT → Prop}
    (met : ∀ present, post present (context.updateRuleState rule startPos entry).2) :
    wp (sprouting CharT seeds) (NonTerminal.store rule startPos entry) post context := by
  rw [NonTerminal.store, wp_bind, wp_modifyGet, wp_bind, announce, wp_announce]
  exact fun _ => ⟨trivial, met _⟩

theorem set_frame_running (pos : Nat) (context : Context CharT) :
    active (NonTerminal.setFrameLastPos pos context) = active context := by
  unfold active NonTerminal.setFrameLastPos
  cases context.lrStack <;> rfl

end Writes

section Leaves

variable [PegValue CharT] {grammar : Grammar CharT NodeType} {input : List CharT} {seeds : Prop}
  {opened : Set NodePtr}

theorem leaf_accounted {context : Context CharT}
    (accounted : Accounted grammar input seeds opened context)
    (bounded : ∀ node ∈ opened, node < context.nodeArena.length)
    (update : ParseTreeNode → ParseTreeNode) (childless : (update {}).children = [])
    (unproduced : (update {}).producer = none) {start stop : Nat}
    (starts : (update {}).startOffset = start) (stops : (update {}).endOffset = stop) :
    let here := context.makeNode.2.updateNode context.makeNode.1 update
    Accounted grammar input seeds opened here ∧
      NodeAt openedᶜ here.nodeArena context.makeNode.1 [] start stop ∧
      Untyped grammar here.nodeArena context.makeNode.1 := by
  have carried : Carried grammar openedᶜ openedᶜ context.nodeArena
      (context.makeNode.2.updateNode context.makeNode.1 update).nodeArena :=
    carried_made (made_kept context update)
  have read := modify_read context.makeNode.2.nodeArena context.makeNode.1 context.makeNode.1 update
    (node_made context)
  rw [if_pos rfl] at read
  refine ⟨accounted.step carried (fun _ _ _ => id) fun _ => id, ⟨fun member => ?_, _, read, childless,
    starts, stops⟩, _, read, by simp [unproduced]⟩
  exact Nat.lt_irrefl _ (bounded _ member)

theorem next_accounted {context : Context CharT}
    (accounted : Accounted grammar input seeds opened context) :
    Accounted grammar input seeds opened context.next := by
  unfold Context.next
  split_ifs
  · exact accounted.moved rfl (fun _ _ _ => id) rfl
  · exact accounted

theorem terminal_explains (value : TerminalValue CharT) :
    Explains grammar input seeds (.terminal value) (TerminalExpr.parse value) := by
  intro opened context steady accounted
  rw [TerminalExpr.parse, wp_bind, wp_read, wp_ite]
  simp only [wp_bind, wp_modify, wp_pure]
  refine ⟨fun accepted => ⟨next_accounted accounted, fun _ => ?_⟩, fun _ =>
    ⟨accounted.moved rfl (fun _ _ _ => id) rfl, by simp⟩⟩
  have consumed := consume_next accepted
  rw [steady.sound.source] at consumed
  exact .terminal consumed

theorem match_values_accounted (values : List CharT) {context : Context CharT}
    (source : context.input = input) (accounted : Accounted grammar input seeds opened context) :
    wp (sprouting CharT seeds) (TerminalSeqExpr.matchValues values) (fun matched last =>
      Accounted grammar input seeds opened last ∧
        (matched = true → consumeAll input values context.position = some last.position)) context := by
  induction values generalizing context with
  | nil => exact ⟨accounted, fun _ => rfl⟩
  | cons value rest induction =>
      rw [TerminalSeqExpr.matchValues, wp_bind, wp_read, wp_ite]
      refine ⟨fun accepted => ?_, fun _ => ⟨accounted, by simp⟩⟩
      have consumed := consume_next accepted
      rw [source] at consumed
      have source' : context.next.input = input := by
        unfold Context.next
        split_ifs <;> exact source
      rw [wp_bind, wp_modify]
      refine wp_post (induction source' (next_accounted accounted)) ?_
      intro matched last later
      refine ⟨later.1, fun success => ?_⟩
      rw [consumeAll, consumed, Option.bind_some]
      exact later.2 success

theorem terminal_seq_explains (values : List CharT) :
    Explains grammar input seeds (.terminalSeq values) (TerminalSeqExpr.parse values) := by
  intro opened context steady accounted
  rw [TerminalSeqExpr.parse, wp_bind, wp_read, wp_bind]
  refine wp_post (match_values_accounted values steady.sound.source accounted) ?_
  intro matched last later
  rw [wp_ite]
  simp only [wp_bind, wp_modify, wp_pure]
  exact ⟨fun success => ⟨later.1, fun _ => .terminalSeq (later.2 success)⟩,
    fun _ => ⟨later.1.moved rfl (fun _ _ _ => id) rfl, by simp⟩⟩

theorem token_explains (value : TerminalValue CharT) :
    Explains grammar input seeds (.token value) (TokenExpr.parse value) := by
  intro opened context steady accounted
  rw [TokenExpr.parse, wp_bind, wp_read, wp_ite]
  simp only [wp_bind, wp_modify, wp_modifyGet, wp_pure]
  refine ⟨fun accepted => ?_, fun _ => ⟨accounted.moved rfl (fun _ _ _ => id) rfl, by simp⟩⟩
  have consumed := consume_next accepted
  rw [steady.sound.source] at consumed
  obtain ⟨advanced, -⟩ := consume_bounds consumed
  have bounded : ∀ node ∈ opened, node < context.next.nodeArena.length := by
    rw [(next_arena context).1]
    exact steady.tidy.bounded
  have back : context.next.position - 1 = context.position := by omega
  have leaf := leaf_accounted (next_accounted accounted) bounded (fun fields =>
    { fields with
      startOffset := context.next.position - 1
      endOffset := context.next.position }) rfl rfl back rfl
  exact ⟨leaf.1, fun _ => .token consumed leaf.2.1 leaf.2.2⟩

theorem matcher_explains (fn : Context CharT → Span → Option Span) :
    Explains grammar input seeds (.matcher fn) (MatcherExpr.parse fn) := by
  intro opened context steady accounted
  rw [MatcherExpr.parse, wp_bind, wp_read]
  dsimp only [id]
  cases ended : fn context ⟨context.position, context.position⟩ with
  | none => exact ⟨accounted, by simp⟩
  | some consumed =>
      simp only [wp_bind, wp_modify, wp_modifyGet, wp_pure]
      have here : Accounted grammar input seeds opened (context.reset consumed.stop) :=
        accounted.moved rfl (fun _ _ _ => id) rfl
      have leaf := leaf_accounted here steady.tidy.bounded (fun fields =>
        { fields with startOffset := context.position, endOffset := consumed.stop }) rfl rfl rfl rfl
      exact ⟨leaf.1, fun _ => .matcher steady.sound.source ended rfl leaf.2.1 leaf.2.2⟩

end Leaves

section Combinators

variable [PegValue CharT] {grammar : Grammar CharT NodeType} {input : List CharT} {seeds : Prop}
  {opened : Set NodePtr} {node : NodePtr} {exprs : List (Expr CharT)} {start stop : Nat}

/-- The node in the making: its children are what the parts so far gave. -/
structure Collecting (grammar : Grammar CharT NodeType) (input : List CharT) (seeds : Prop)
    (opened : Set NodePtr) (node : NodePtr) (start : Nat) (exprs : List (Expr CharT)) (stop : Nat)
    (context : Context CharT) : Prop where
  assembling : Assembling input grammar.skipper opened node start stop context
  accounted : Accounted grammar input seeds (insert node opened) context
  parts : ∃ fields, context.nodeArena[node]? = some fields ∧ fields.producer = none ∧
    Accounts grammar input seeds (insert node opened)ᶜ context.nodeArena
      (.parts false exprs fields.children) start stop

theorem Collecting.begun {context : Context CharT}
    (steady : Steady input grammar.skipper opened context)
    (accounted : Accounted grammar input seeds opened context) :
    Collecting grammar input seeds opened context.makeNode.1 context.position [] context.position
      (markStart context.makeNode.1 context.makeNode.2) := by
  have kept : Kept {context.makeNode.1}ᶜ {context.makeNode.1} context.nodeArena
      (markStart context.makeNode.1 context.makeNode.2).nodeArena := made_kept context _
  have read := modify_read context.makeNode.2.nodeArena context.makeNode.1 context.makeNode.1
    (fun fields => { fields with startOffset := context.position }) (node_made context)
  rw [if_pos rfl] at read
  refine ⟨.begun steady, ?_, _, read, rfl, .done⟩
  exact accounted.step (carried_trans (carried_open context.nodeArena) (carried_own kept))
    (fun _ _ _ => id) fun _ => id

theorem Collecting.went {before after : Context CharT}
    (collecting : Collecting grammar input seeds opened node start exprs stop before)
    (passed : Passed grammar input (insert node opened) before after)
    (accounted : Accounted grammar input seeds (insert node opened) after) :
    Collecting grammar input seeds opened node start exprs stop after := by
  obtain ⟨fields, held, unproduced, parts⟩ := collecting.parts
  obtain ⟨new, found, same, -⟩ := passed.went.kept node fields held
  obtain rfl := same (Set.mem_insert _ _)
  exact ⟨collecting.assembling.went passed.went, accounted, new, found, unproduced,
    parts.carried passed.carried⟩

theorem Collecting.moved {before after : Context CharT}
    (collecting : Collecting grammar input seeds opened node start exprs stop before)
    (assembling : Assembling input grammar.skipper opened node start stop after)
    (arena : after.nodeArena = before.nodeArena) (mem : after.mem = before.mem)
    (running : active after = active before) :
    Collecting grammar input seeds opened node start exprs stop after := by
  refine ⟨assembling, collecting.accounted.moved arena (by rw [mem]; exact fun _ _ _ => id) running, ?_⟩
  rw [arena]
  exact collecting.parts

theorem Collecting.part {expr : Expr CharT} {parser : Parser CharT ParseResult}
    (builds : Builds grammar input seeds expr parser) {context : Context CharT}
    (collecting : Collecting grammar input seeds opened node start exprs stop context)
    (gap : Between grammar input seeds (insert node opened)ᶜ context.nodeArena (!exprs.isEmpty) stop
      context.position) :
    wp (sprouting CharT seeds) parser (fun result last =>
      Collecting grammar input seeds opened node start exprs stop last ∧
        (result.success = true → Collecting grammar input seeds opened node start (exprs ++ [expr])
          last.position (pushChild node result.tree last))) context := by
  have ran := builds.run collecting.assembling.steady collecting.accounted
  refine wp_post (wp_with ran (collecting.assembling.part builds.nests) fun _ _ => trivial) ?_
  rintro result last ⟨⟨⟨accounted, explained⟩, passed, -⟩, -, assembled⟩
  have later := collecting.went passed accounted
  refine ⟨later, fun success => ?_⟩
  obtain ⟨fields, held, unproduced, parts⟩ := later.parts
  have bridged := gap.carried passed.carried
  have more := parts.more bridged (explained success)
  have kept := push_kept node result.tree last
  refine ⟨assembled success, ?_, _, push_read held result.tree, unproduced,
    more.carried (carried_own kept)⟩
  refine accounted.step (carried_own kept) ?_ ?_
  · cases result.tree <;> exact fun _ _ _ => id
  · cases result.tree <;> exact fun _ => id

theorem Collecting.skipped {skip : Parser CharT Unit} (bridges : Bridges grammar input seeds skip)
    {context : Context CharT}
    (collecting : Collecting grammar input seeds opened node start exprs stop context)
    (stands : context.position = stop) :
    wp (sprouting CharT seeds) (Comp.onlyIf (0 < exprs.length) skip) (fun _ last =>
      Collecting grammar input seeds opened node start exprs stop last ∧
        Between grammar input seeds (insert node opened)ᶜ last.nodeArena (!exprs.isEmpty) stop
          last.position) context := by
  subst stands
  rw [wp_onlyIf]
  refine ⟨fun some => ?_, fun none => ⟨collecting, ?_⟩⟩
  · refine wp_post (bridges _ context collecting.assembling.steady collecting.accounted) ?_
    rintro _ last ⟨passed, accounted, gap⟩
    refine ⟨collecting.went passed accounted, ?_⟩
    cases exprs with
    | nil => cases some
    | cons head rest => exact gap
  · cases exprs with
    | nil => rfl
    | cons head rest => exact absurd (Nat.succ_pos _) none

theorem parse_seq_explains {skip : Parser CharT Unit} (bridges : Bridges grammar input seeds skip)
    (parser : Expr CharT → Parser CharT ParseResult) {rest : List (Expr CharT)}
    (each : ∀ expr ∈ rest, Builds grammar input seeds expr (parser expr)) {context : Context CharT}
    (collecting : Collecting grammar input seeds opened node start exprs stop context)
    (stands : context.position = stop) :
    wp (sprouting CharT seeds) (SequenceExpr.parseSeq skip node exprs.length (rest.map parser))
      (fun matched last => ∃ done stop, Collecting grammar input seeds opened node start done stop last ∧
        (matched = true → done = exprs ++ rest ∧ last.position = stop)) context := by
  induction rest generalizing exprs stop context with
  | nil => exact ⟨exprs, stop, collecting, fun _ => ⟨by simp, stands⟩⟩
  | cons expr rest induction =>
      rw [List.map_cons, SequenceExpr.parseSeq, wp_bind]
      refine wp_post (collecting.skipped bridges stands) ?_
      rintro _ here ⟨ready, gap⟩
      rw [wp_bind]
      refine wp_post (ready.part (each expr (by simp)) gap) ?_
      rintro result last ⟨plain, added⟩
      rw [wp_ite, wp_bind, wp_modify]
      refine ⟨fun success => ?_, fun _ => ⟨exprs, stop, plain, by simp⟩⟩
      have position : (pushChild node result.tree last).position = last.position := by
        cases result.tree <;> rfl
      have onward := induction (fun other member => each other (by simp [member])) (added success) position
      rw [List.length_append, List.length_singleton] at onward
      refine wp_post onward ?_
      rintro matched final ⟨done, end', collected, whole⟩
      exact ⟨done, end', collected, fun success => by simpa using whole success⟩

theorem Collecting.closed {context after : Context CharT}
    (collecting : Collecting grammar input seeds opened node start exprs stop context)
    (kept : Kept {node}ᶜ {node} context.nodeArena after.nodeArena) (mem : after.mem = context.mem)
    (running : active after = active context) {update : ParseTreeNode → ParseTreeNode}
    (written : ∀ fields, context.nodeArena[node]? = some fields →
      after.nodeArena[node]? = some (update fields))
    (produced : ∀ fields, (update fields).producer = fields.producer)
    (starts : ∀ fields, (update fields).startOffset = fields.startOffset)
    (stops : ∀ fields, (update fields).endOffset = stop) :
    Accounted grammar input seeds opened after ∧ ∃ fields,
      Accounts grammar input seeds openedᶜ after.nodeArena (.parts false exprs fields.children)
        start stop ∧
      NodeAt openedᶜ after.nodeArena node (update fields).children start stop ∧
      Untyped grammar after.nodeArena node := by
  obtain ⟨fields, held, unproduced, parts⟩ := collecting.parts
  obtain ⟨fields', held', started, -⟩ := collecting.assembling.ordered
  obtain rfl := Option.some.inj (held.symm.trans held')
  have carried : Carried grammar (insert node opened)ᶜ openedᶜ context.nodeArena after.nodeArena :=
    carried_trans (carried_own kept) (carried_close node _)
  refine ⟨collecting.accounted.step carried ?_ ?_, fields, parts.carried carried,
    ⟨collecting.assembling.outside, _, written fields held, rfl, (starts fields).trans started,
      stops fields⟩, _, written fields held, by simp [produced, unproduced]⟩
  · rw [mem]
    exact fun _ _ _ => id
  · rw [running]
    exact fun _ => id

theorem Collecting.finished {context : Context CharT}
    (collecting : Collecting grammar input seeds opened node start exprs stop context)
    (stands : context.position = stop) :
    Accounted grammar input seeds opened (markEnd node context) ∧ ∃ children,
      Accounts grammar input seeds openedᶜ (markEnd node context).nodeArena
        (.parts false exprs children) start stop ∧
      NodeAt openedᶜ (markEnd node context).nodeArena node children start stop ∧
      Untyped grammar (markEnd node context).nodeArena node := by
  have ended := collecting.closed (end_kept node context) rfl rfl (fun _ => end_written)
    (fun _ => rfl) (fun _ => rfl) fun _ => stands
  exact ⟨ended.1, _, ended.2.choose_spec⟩

theorem Collecting.dropped {context : Context CharT}
    (collecting : Collecting grammar input seeds opened node start exprs stop context) :
    Accounted grammar input seeds opened context :=
  collecting.accounted.step (carried_close node _) (fun _ _ _ => id) fun _ => id

theorem sequence_explains {skip : Parser CharT Unit} (bridges : Bridges grammar input seeds skip)
    (parser : Expr CharT → Parser CharT ParseResult) {children : List (Expr CharT)}
    (each : ∀ expr ∈ children, Builds grammar input seeds expr (parser expr)) :
    Explains grammar input seeds (.sequence children)
      (SequenceExpr.parse skip (children.map parser)) := by
  intro opened context steady accounted
  rw [SequenceExpr.parse, wp_bind, wp_read, wp_bind, wp_modifyGet, wp_bind, wp_modify, wp_bind]
  refine wp_post (parse_seq_explains bridges parser each (.begun steady accounted) rfl) ?_
  rintro matched last ⟨done, stop, collecting, whole⟩
  rw [wp_ite]
  simp only [wp_bind, wp_modify, wp_pure]
  refine ⟨fun success => ?_, fun _ => ⟨collecting.dropped.moved rfl (fun _ _ _ => id) rfl, by simp⟩⟩
  obtain ⟨all, stands⟩ := whole success
  obtain ⟨closed, children', parts, placed, untyped⟩ := collecting.finished stands
  refine ⟨closed, fun _ => ?_⟩
  rw [List.nil_append] at all
  rw [all, ← stands] at parts
  rw [← stands] at placed
  exact .sequence parts placed untyped

theorem stamp_accounted {context : Context CharT} {tree : Option NodePtr} {stretch : Stretch CharT}
    (accounted : Accounted grammar input seeds opened context)
    (accounts : Accounts grammar input seeds openedᶜ context.nodeArena stretch start stop)
    (index : Nat) : Accounted grammar input seeds opened (stampWinner tree index context) ∧
      Accounts grammar input seeds openedᶜ (stampWinner tree index context).nodeArena stretch
        start stop := by
  cases tree with
  | none => exact ⟨accounted, accounts⟩
  | some root =>
      have kept : Kept ∅ ∅ context.nodeArena (stampWinner (some root) index context).nodeArena :=
        kept_update (Set.notMem_empty _) fun _ _ _ => ⟨rfl, rfl, rfl, fun _ => rfl⟩
      have carried : Carried grammar openedᶜ openedᶜ context.nodeArena
          (stampWinner (some root) index context).nodeArena :=
        carried_kept kept (stamp_winner_kept (some root) index context) (Set.empty_subset _)
      exact ⟨accounted.step carried (fun _ _ _ => id) fun _ => id, accounts.carried carried⟩

theorem parse_alt_explains (parser : Expr CharT → Parser CharT ParseResult)
    {branches : List (Expr CharT)}
    (each : ∀ expr ∈ branches, Builds grammar input seeds expr (parser expr)) (index : Nat)
    {context : Context CharT} (steady : Steady input grammar.skipper opened context)
    (accounted : Accounted grammar input seeds opened context) (stands : context.position = start) :
    wp (sprouting CharT seeds) (AlternationExpr.parseAlt index (branches.map parser))
      (fun result last => Accounted grammar input seeds opened last ∧
        (result.success = true → ∃ child ∈ branches, Accounts grammar input seeds openedᶜ last.nodeArena
          (.one child result.tree) start last.position)) context := by
  induction branches generalizing index context with
  | nil => exact ⟨accounted, by simp⟩
  | cons child rest induction =>
      rw [List.map_cons, AlternationExpr.parseAlt, wp_bind]
      refine wp_post ((each child (by simp)).run steady accounted) ?_
      rintro result last ⟨⟨later, explained⟩, passed, covers⟩
      rw [wp_ite, wp_bind, wp_modify, wp_pure, wp_bind]
      refine ⟨fun success => ?_, fun failure => raise_passes ?_⟩
      · have stamped := @stamp_accounted _ _ _ _ _ _ _ _ _ _ result.tree _ later (explained success) index
        rw [stands] at stamped
        have position : (stampWinner result.tree index last).position = last.position := by
          cases result.tree <;> rfl
        refine ⟨stamped.1, fun _ => ⟨child, by simp, ?_⟩⟩
        rw [position]
        exact stamped.2
      · refine wp_post (induction (fun other member => each other (by simp [member])) (index + 1)
          passed.went.steady later ((covers.restored failure).trans stands)) ?_
        rintro result final ⟨held, found⟩
        refine ⟨held, fun success => ?_⟩
        obtain ⟨other, member, accounts⟩ := found success
        exact ⟨other, by simp [member], accounts⟩

theorem scope_explains {body : Parser CharT ParseResult} {expr : Expr CharT}
    (explains : Explains grammar input seeds expr body) :
    Explains grammar input seeds expr (Comp.modify Context.initCut >>= fun _ =>
      Comp.guarded body Context.removeCut) := by
  intro opened context steady accounted
  rw [wp_bind, wp_modify, wp_guarded]
  refine wp_post (explains opened context.initCut ?_ ?_) ?_
  · exact steady.moved rfl rfl steady.inside rfl fun _ _ _ => id
  · exact accounted.moved rfl (fun _ _ _ => id) rfl
  · rintro result last ⟨later, explained⟩
    have arena := remove_cut_arena last
    refine ⟨later.moved arena.1 (remove_cut_rows last) (remove_cut_active last), ?_⟩
    rw [arena.1, arena.2]
    exact explained

theorem alternation_explains (parser : Expr CharT → Parser CharT ParseResult)
    {branches : List (Expr CharT)}
    (each : ∀ expr ∈ branches, Builds grammar input seeds expr (parser expr)) :
    Explains grammar input seeds (.alternation branches)
      (AlternationExpr.parse (branches.map parser)) := by
  refine scope_explains fun opened context steady accounted => ?_
  refine wp_post (parse_alt_explains parser each 0 steady accounted rfl) ?_
  rintro result last ⟨later, found⟩
  refine ⟨later, fun success => ?_⟩
  obtain ⟨child, member, accounts⟩ := found success
  exact .branch member accounts

theorem repeat_loop_explains {skip : Parser CharT Unit} (bridges : Bridges grammar input seeds skip)
    {child : Expr CharT} {parser : Parser CharT ParseResult}
    (builds : Builds grammar input seeds child parser) (maxRep : Int)
    (fuel loopCount lastSuccessState : Nat) {context : Context CharT}
    (collecting : Collecting grammar input seeds opened node start (List.replicate loopCount child)
      lastSuccessState context) (stands : context.position = lastSuccessState)
    (few : 0 < maxRep → loopCount < maxRep.toNat) :
    wp (sprouting CharT seeds) (repeatLoop skip parser maxRep node fuel loopCount lastSuccessState)
      (fun ended last => Collecting grammar input seeds opened node start
          (List.replicate ended.loopCount child) ended.lastSuccessState last ∧
        (¬ended.exitedViaFailure = true → last.position = ended.lastSuccessState) ∧
        (0 < maxRep → ended.loopCount ≤ maxRep.toNat)) context := by
  induction fuel generalizing loopCount lastSuccessState context with
  | zero => trivial
  | succ fuel induction =>
      rw [repeatLoop, wp_bind]
      have skipped := collecting.skipped bridges stands
      rw [List.length_replicate] at skipped
      refine wp_post skipped ?_
      rintro _ here ⟨ready, gap⟩
      rw [wp_bind, wp_read, wp_bind, wp_modify, wp_bind]
      have cleared := set_cut_arena here false
      have still := set_cut_still here false
      have uncut : Collecting grammar input seeds opened node start (List.replicate loopCount child)
          lastSuccessState (here.setCut false) := by
        refine ready.moved ?_ cleared.1 still.1 still.2
        refine ready.assembling.moved (set_cut_steady ready.assembling.steady false) cleared.1
          (Nat.le_refl _) ?_
        rw [cleared.2]
        exact ready.assembling.reached
      rw [← cleared.1, ← cleared.2] at gap
      refine wp_post (uncut.part builds gap) ?_
      rintro result last ⟨plain, added⟩
      have position : (pushChild node result.tree last).position = last.position := by
        cases result.tree <;> rfl
      rw [wp_ite, wp_bind, wp_read, wp_bind, wp_modify, wp_ite]
      refine ⟨fun success => ?_, fun _ => ⟨plain, fun absent => absurd rfl absent, fun bounded =>
        Nat.le_of_lt (few bounded)⟩⟩
      have next := added success
      rw [← List.replicate_succ'] at next
      refine ⟨fun _ => ⟨next, fun _ => position, fun bounded => few bounded⟩, fun onward => ?_⟩
      refine induction (loopCount + 1) last.position next position fun bounded => ?_
      have room := few bounded
      simp only [boundReached, Bool.or_eq_true, Bool.and_eq_true, decide_eq_true_eq, not_or,
        not_and, Nat.not_le] at onward
      exact onward.1 bounded

theorem Collecting.padded {child : Expr CharT} {count : Nat} {context : Context CharT}
    (collecting : Collecting grammar input seeds opened node start (List.replicate count child) stop
      context) (stands : context.position = stop) :
    let here := markEnd node (context.updateNode node (resizeChildren count))
    Accounted grammar input seeds opened here ∧ ∃ children pads,
      Accounts grammar input seeds openedᶜ here.nodeArena
        (.parts false (List.replicate count child) children) start stop ∧
      children.length + pads = count ∧
      NodeAt openedᶜ here.nodeArena node (children ++ List.replicate pads none) start stop ∧
      Untyped grammar here.nodeArena node := by
  have resized : Kept {node}ᶜ {node} context.nodeArena
      (context.updateNode node (resizeChildren count)).nodeArena := own_kept
  have written : ∀ fields, context.nodeArena[node]? = some fields →
      (markEnd node (context.updateNode node (resizeChildren count))).nodeArena[node]? =
        some { resizeChildren count fields with endOffset := context.position } := by
    intro fields held
    have read := modify_read context.nodeArena node node (resizeChildren count) held
    rw [if_pos rfl] at read
    exact end_written read
  have ended := collecting.closed (resized.trans (end_kept node _)) rfl rfl written (fun _ => rfl)
    (fun _ => rfl) fun _ => stands
  obtain ⟨accounted, fields, parts, placed, untyped⟩ := ended
  have short := parts.children_le
  rw [List.length_replicate] at short
  refine ⟨accounted, fields.children, count - fields.children.length, parts, by omega, ?_, untyped⟩
  rw [show fields.children ++ List.replicate (count - fields.children.length) none =
    fields.children.take count ++ List.replicate (count - fields.children.length) none by
      rw [List.take_of_length_le short]]
  exact placed

theorem repeat_finish_explains {kind : RepKind} {child : Expr CharT} {ended : LoopExit}
    {context : Context CharT}
    (collecting : Collecting grammar input seeds opened node start
      (List.replicate ended.loopCount child) ended.lastSuccessState context)
    (stands : ¬ended.exitedViaFailure = true → context.position = ended.lastSuccessState)
    (enough : kind.minRep ≤ ended.loopCount)
    (few : 0 < kind.maxRep → ended.loopCount ≤ kind.maxRep.toNat) :
    wp (sprouting CharT seeds) (repeatFinish kind.maxRep node ended) (fun result last =>
      Accounted grammar input seeds opened last ∧ (result.success = true →
        Accounts grammar input seeds openedᶜ last.nodeArena (.one (.repetition kind child) result.tree)
          start last.position)) context := by
  have inside := Nat.le_trans collecting.assembling.reached collecting.assembling.steady.inside
  have steady : Steady input grammar.skipper (insert node opened)
      (context.reset ended.lastSuccessState) :=
    collecting.assembling.steady.moved rfl rfl inside rfl fun _ _ _ => id
  have rewound : Collecting grammar input seeds opened node start
      (List.replicate ended.loopCount child) ended.lastSuccessState
      (context.reset ended.lastSuccessState) :=
    collecting.moved (collecting.assembling.moved steady rfl (Nat.le_refl _) (Nat.le_refl _)) rfl rfl rfl
  rw [repeatFinish, wp_bind, wp_onlyIf, wp_modify]
  simp only [wp_bind, wp_onlyIf, wp_modify, wp_pure]
  refine ⟨fun _ => ?_, fun finished => ?_⟩
  · obtain ⟨accounted, children, pads, parts, padded, placed, untyped⟩ := rewound.padded rfl
    have whole := Accounts.repetition enough few parts (Or.inr padded) placed untyped
    exact ⟨fun _ => raise_passes ⟨accounted, fun _ => whole⟩, fun _ => ⟨accounted, fun _ => whole⟩⟩
  · obtain ⟨accounted, children, parts, placed, untyped⟩ := collecting.finished (stands finished)
    rw [← stands finished] at parts placed
    have placed' : NodeAt openedᶜ (markEnd node context).nodeArena node
        (children ++ List.replicate 0 none) start context.position := by
      simpa using placed
    have whole := Accounts.repetition enough few parts (Or.inl rfl) placed' untyped
    exact ⟨fun _ => raise_passes ⟨accounted, fun _ => whole⟩, fun _ => ⟨accounted, fun _ => whole⟩⟩

theorem repeat_explains (fuel : Nat) {skip : Parser CharT Unit}
    (bridges : Bridges grammar input seeds skip) (kind : RepKind) {child : Expr CharT}
    {parser : Parser CharT ParseResult} (builds : Builds grammar input seeds child parser) :
    Explains grammar input seeds (.repetition kind child)
      (repeatParseImpl fuel skip parser kind.minRep kind.maxRep) := by
  refine scope_explains fun opened context steady accounted => ?_
  rw [wp_bind, wp_read, wp_bind, wp_modifyGet, wp_bind, wp_modify, wp_bind]
  have begun := Collecting.begun steady accounted
  refine wp_post (repeat_loop_explains bridges builds kind.maxRep fuel 0 context.position begun rfl
    fun bounded => by omega) ?_
  rintro ended last ⟨collecting, stands, few⟩
  rw [wp_ite, wp_bind, wp_modify, wp_pure]
  refine ⟨fun _ => ⟨collecting.dropped.moved rfl (fun _ _ _ => id) rfl, by simp⟩, fun enough => ?_⟩
  exact repeat_finish_explains collecting stands (Nat.not_lt.mp enough) few

theorem cut_explains : Explains grammar input seeds .cut CutExpr.parse := by
  intro opened context steady accounted
  have arena := set_cut_arena context true
  have still := set_cut_still context true
  rw [CutExpr.parse, wp_bind, wp_modify, wp_pure, arena.1, arena.2]
  refine ⟨accounted.moved arena.1 ?_ still.2, fun _ => .cut⟩
  rw [still.1]
  exact fun _ _ _ => id

theorem not_explains {child : Expr CharT} {parser : Parser CharT ParseResult}
    (builds : Builds grammar input seeds child parser) :
    Explains grammar input seeds (.not child) (predicateParseImpl parser true) := by
  intro opened context steady accounted
  rw [predicateParseImpl, wp_bind, wp_read, wp_bind]
  refine wp_post (builds.run steady accounted) ?_
  rintro result last ⟨⟨later, -⟩, -⟩
  rw [wp_bind, wp_modify, wp_pure]
  exact ⟨later.moved rfl (fun _ _ _ => id) rfl, fun _ => .not⟩

theorem and_explains {child : Expr CharT} {parser : Parser CharT ParseResult}
    (builds : Builds grammar input seeds child parser) :
    Explains grammar input seeds (.and child) (predicateParseImpl parser false) := by
  intro opened context steady accounted
  rw [predicateParseImpl, wp_bind, wp_read, wp_bind]
  refine wp_post (builds.run steady accounted) ?_
  rintro result last ⟨⟨later, explained⟩, -⟩
  rw [wp_bind, wp_modify, wp_pure]
  exact ⟨later.moved rfl (fun _ _ _ => id) rfl, fun success => .and (explained (by simpa using success))⟩

theorem lexeme_explains {child : Expr CharT} {parser : Parser CharT ParseResult}
    (builds : Builds grammar input seeds child parser) :
    Explains grammar input seeds (.lexeme child) (LexemeExpr.parse parser) := by
  intro opened context steady accounted
  rw [LexemeExpr.parse, wp_bind, wp_read, wp_bind, wp_modify, wp_guarded]
  refine wp_post (builds.explains opened { context with skipEnabled := false } ?_ ?_) ?_
  · exact steady.moved rfl rfl steady.inside rfl fun _ _ _ => id
  · exact accounted.moved rfl (fun _ _ _ => id) rfl
  · rintro result last ⟨later, explained⟩
    exact ⟨later.moved rfl (fun _ _ _ => id) rfl, fun success => .lexeme (explained success)⟩

end Combinators

section RuleApplication

variable [PegValue CharT] {grammar : Grammar CharT NodeType} {input : List CharT} {seeds : Prop}
  {opened : Set NodePtr} {rule : RuleId} {startPos : Nat} {body : Expr CharT}

/-- What the growth of a rule has in hand: the tree of its body from the start of the
application to where its row ends. -/
structure Ripening (grammar : Grammar CharT NodeType) (input : List CharT) (seeds : Prop)
    (opened : Set NodePtr) (rule : RuleId) (startPos : Nat) (body : Expr CharT)
    (context : Context CharT) (best : ParseResult) (ruleState : RuleState) : Prop where
  thriving : Thriving input grammar.skipper opened rule startPos context best ruleState
  accounted : Accounted grammar input seeds opened context
  part : best.success = true → Accounts grammar input seeds openedᶜ context.nodeArena
    (.one body best.tree) startPos ruleState.lastPos

theorem seed_accounted {last : Nat} {context : Context CharT} {entry : RuleState}
    (accounted : Accounted grammar input seeds opened context) (top : Top rule startPos last context)
    (assigned : grammar.body rule = some body)
    (part : entry.cachedResult.success = true → Accounts grammar input seeds openedᶜ context.nodeArena
      (.one body entry.cachedResult.tree) startPos entry.lastPos) :
    Accounted grammar input seeds opened (context.updateRuleState rule startPos entry).2 :=
  AccountedBut.stored (accounted.others fun _ _ => False.elim) fun success =>
    Or.inr ⟨in_progress_iff.mp top.active, body, assigned, part success⟩

theorem grow_loop_explains {parseBody : Parser CharT ParseResult}
    (assigned : grammar.body rule = some body)
    (builds : Builds grammar input seeds body parseBody) (stable : StableParser parseBody)
    (bounded : startPos ≤ input.length) (fuel : Nat) {best : ParseResult} {ruleState : RuleState}
    {context : Context CharT}
    (ripening : Ripening grammar input seeds opened rule startPos body context best ruleState) :
    wp (sprouting CharT seeds) (NonTerminal.growLoop rule startPos parseBody fuel best ruleState)
      (fun grown last => Ripening grammar input seeds opened rule startPos body last grown.1 grown.2)
      context := by
  induction fuel generalizing best ruleState context with
  | zero => trivial
  | succ fuel induction =>
      rw [NonTerminal.growLoop, wp_bind, wp_modify, wp_bind, wp_read, wp_bind]
      have thriving := ripening.thriving
      have growing := thriving.growing
      have ready : ∀ mem : Memo, (∀ pos rule row, mem pos rule = some row →
          context.mem pos rule = some row) →
          Ripening grammar input seeds opened rule startPos body
              { context.reset startPos with mem := mem } best ruleState ∧
            Steady input grammar.skipper opened { context.reset startPos with mem := mem } := by
        intro mem fewer
        have sound : Sound input grammar.skipper (InBounds input)
            { context.reset startPos with mem := mem } :=
          ⟨thriving.sound.source, thriving.sound.skipper,
            fun pos rule row held => thriving.sound.rows pos rule row (fewer pos rule row held)⟩
        have tidy : Tidy opened { context.reset startPos with mem := mem } :=
          growing.tidy.moved rfl fewer
        have arranged : Arranged { context.reset startPos with mem := mem } :=
          thriving.arranged.moved rfl fewer
        exact ⟨⟨⟨⟨tidy, growing.top.moved rfl, growing.forward, growing.unmoved, growing.placed⟩,
          sound, thriving.inside, arranged, thriving.yields⟩, ripening.accounted.moved rfl fewer rfl,
          ripening.part⟩, ⟨sound, bounded, tidy, arranged⟩⟩
      have cleared : wp (sprouting CharT seeds)
          (Comp.onlyIf ((NonTerminal.frame (context.reset startPos)).isHead = true ∧
              best.success = true)
            (Comp.modify fun context => context.clearSiblingsAt startPos rule))
          (fun _ here => (Ripening grammar input seeds opened rule startPos body here best ruleState ∧
            Steady input grammar.skipper opened here) ∧ here.position = startPos)
          (context.reset startPos) := by
        rw [wp_onlyIf, wp_modify]
        refine ⟨fun _ => ⟨ready ((context.reset startPos).clearSiblingsAt startPos rule).mem
          fun pos other row held => ?_, rfl⟩, fun _ => ⟨ready _ fun _ _ _ => id, rfl⟩⟩
        simp only [Context.clearSiblingsAt] at held
        split_ifs at held
        exact held
      refine wp_post cleared ?_
      rintro ⟨⟩ here ⟨⟨ready, steady⟩, atStart⟩
      rw [wp_bind]
      refine wp_post (wp_preserves (builds.run steady ready.accounted) stable) ?_
      rintro result after ⟨⟨⟨accounted, explained⟩, passed, covers⟩, step⟩
      have later := ready.thriving.went passed.went (ready.thriving.growing.top.stable step)
      have best' : best.success = true → Accounts grammar input seeds openedᶜ after.nodeArena
          (.one body best.tree) startPos ruleState.lastPos := fun success =>
        (ready.part success).carried passed.carried
      have placed := covers.placed
      have forward := passed.went.forward
      rw [atStart] at placed forward explained
      rw [wp_bind, wp_read, wp_ite]
      dsimp only [id]
      refine ⟨fun success => ?_, fun _ => ⟨later, accounted, best'⟩⟩
      rw [wp_ite]
      refine ⟨fun progress => ?_, fun stuck => ?_⟩
      · have next := Thriving.planted passed.went.steady later.growing.top success forward (placed success)
          covers.yields
        have marked : Accounted grammar input seeds opened
            (NonTerminal.setFrameLastPos after.position after) :=
          accounted.moved rfl (fun _ _ _ => id) (set_frame_running _ _)
        have planted : Accounted grammar input seeds opened
            ((NonTerminal.setFrameLastPos after.position after).updateRuleState rule startPos
              ⟨after.position, result⟩).2 :=
          seed_accounted marked (later.growing.top.marked _) assigned explained
        have frame := update_row_frame (NonTerminal.setFrameLastPos after.position after) rule startPos
          ⟨after.position, result⟩
        have ripe : Ripening grammar input seeds opened rule startPos body _ result
            ⟨after.position, result⟩ := ⟨next, planted, by rw [frame.1]; exact explained⟩
        rw [wp_bind, wp_modify, wp_bind]
        refine store_passes fun present => ?_
        rw [wp_ite]
        exact ⟨fun _ => induction ripe, fun _ => ripe⟩
      · rw [wp_bind, later.growing.top.last_eq]
        refine store_passes fun present => ?_
        rw [wp_pure]
        have settled : ∀ kept : ParseResult,
            Thriving input grammar.skipper opened rule startPos after kept ruleState →
            (kept.success = true → Accounts grammar input seeds openedᶜ after.nodeArena
              (.one body kept.tree) startPos ruleState.lastPos) →
            Ripening grammar input seeds opened rule startPos body
              (after.updateRuleState rule startPos ⟨ruleState.lastPos, kept⟩).2 kept
              ⟨ruleState.lastPos, kept⟩ := by
          intro kept ripe part
          have frame := update_row_frame after rule startPos ⟨ruleState.lastPos, kept⟩
          exact ⟨ripe.settled, seed_accounted accounted later.growing.top assigned part,
            by rw [frame.1]; exact part⟩
        split_ifs with held
        · exact settled best later best'
        · -- A first match that did not move covers the empty stretch at the start.
          have seed : ruleState.lastPos = startPos := later.growing.unmoved held
          rw [later.growing.top.last_eq] at stuck
          have stayed : after.position = ruleState.lastPos := by omega
          rw [stayed] at placed explained
          refine settled result ?_ explained
          exact ⟨⟨later.growing.tidy, later.growing.top, later.growing.forward,
            fun failure => absurd success failure, placed⟩, later.sound, later.inside,
            later.arranged, covers.yields⟩

theorem AccountedBut.left {last : Nat} {context : Context CharT}
    (accounted : Accounted grammar input seeds opened context) (top : Top rule startPos last context) :
    AccountedBut grammar input seeds (OwnRow rule startPos) opened
      (NonTerminal.leave startPos context) := by
  obtain ⟨frame, rest, stack, core⟩ := top
  have keyed : active context = (rule, startPos) :: active { context with lrStack := rest } := by
    have same : frame.rule = rule ∧ frame.pos = startPos ∧ frame.lastPos = last := by
      simpa [frameCore] using core
    simp [active, stack, same.1, same.2.1]
  obtain ⟨arena, mem, -⟩ := leave_frame startPos context
  intro pos other row spared held success
  rw [mem] at held
  rw [arena, leave_active keyed]
  rcases accounted pos other row not_false held success with whole | ⟨member, found⟩
  · exact Or.inl whole
  · rw [keyed] at member
    rcases List.mem_cons.mp member with own | deeper
    · simp only [Prod.mk.injEq] at own
      exact absurd ⟨own.2, own.1⟩ spared
    · exact Or.inr ⟨deeper, found⟩

theorem invoke_explains {parseBody : Parser CharT ParseResult} (assigned : grammar.body rule = some body)
    (builds : Builds grammar input seeds body parseBody) (stable : StableParser parseBody)
    (bounded : startPos ≤ input.length) (fuel : Nat) {context : Context CharT}
    (tidy : TidyBut (OwnRow rule startPos) opened context) (arranged : Arranged context)
    (source : context.input = input) (same : context.skipper = grammar.skipper)
    (rows : ∀ pos other row, ¬(pos = startPos ∧ other = rule) → context.mem pos other = some row →
      RowSound input (InBounds input) other pos row)
    (accounted : AccountedBut grammar input seeds (OwnRow rule startPos) opened context) :
    wp (sprouting CharT seeds) (NonTerminal.invoke rule startPos (some parseBody) fuel)
      (fun grown last => (AccountedBut grammar input seeds (OwnRow rule startPos) opened last ∧
          (grown.1.success = true → Accounts grammar input seeds openedᶜ last.nodeArena
            (.one body grown.1.tree) startPos last.position)) ∧
        Left input grammar.skipper opened startPos grown last) context := by
  have nested := @invoke_nests _ input grammar.skipper opened rule startPos (some parseBody)
    (fun _ member => Option.some.inj member ▸ builds.nests)
    (fun _ member => Option.some.inj member ▸ stable) bounded fuel context tidy arranged source same rows
  refine wp_with ?_ nested fun _ _ => trivial
  rw [NonTerminal.invoke, wp_bind, wp_modify, wp_bind]
  generalize pushed : context.lrPush ⟨rule, startPos, startPos, false⟩ = entered
  have top : Top rule startPos startPos entered := by
    subst pushed
    exact ⟨_, _, rfl, rfl⟩
  have frame := update_row_frame entered rule startPos ⟨startPos, {}⟩
  have entry : TidyBut (OwnRow rule startPos) opened entered ∧ Arranged entered ∧
      entered.input = input ∧ entered.skipper = grammar.skipper ∧ entered.mem = context.mem ∧
      AccountedBut grammar input seeds (OwnRow rule startPos) opened entered := by
    subst pushed
    refine ⟨tidy.moved rfl fun _ _ _ => id, arranged.moved rfl fun _ _ _ => id, source, same, rfl, ?_⟩
    exact accounted.step (carried_refl _ _) (fun _ _ _ => id) fun _ => List.mem_cons_of_mem _
  have planted : Ripening grammar input seeds opened rule startPos body
      (entered.updateRuleState rule startPos ⟨startPos, {}⟩).2 {} ⟨startPos, {}⟩ := by
    refine ⟨⟨⟨entry.1.stored ⟨by simp, fun _ => rfl⟩, top.moved frame.2.1, Nat.le_refl _,
      fun _ => rfl, by simp⟩, ?_, bounded, entry.2.1.stored (yields_bare _ _),
      yields_bare _ _⟩, entry.2.2.2.2.2.stored (by simp [RowAccounts]), by simp⟩
    refine update_sound entry.2.2.1 entry.2.2.2.1 ?_ failure_row
    rw [entry.2.2.2.2.1]
    exact rows
  rw [NonTerminal.parseImpl, wp_bind]
  refine store_passes fun present => ?_
  rw [wp_bind]
  refine wp_post (grow_loop_explains assigned builds stable bounded fuel planted) ?_
  rintro grown last ripe
  rw [wp_bind, wp_modify, wp_pure, wp_bind, wp_modify, wp_pure]
  have top' := ripe.thriving.growing.top
  obtain ⟨arena, mem, position⟩ :=
    leave_frame startPos (last.reset (NonTerminal.frame last).lastPos)
  have rewound : Accounted grammar input seeds opened (last.reset (NonTerminal.frame last).lastPos) :=
    ripe.accounted.moved rfl (fun _ _ _ => id) rfl
  refine ⟨AccountedBut.left rewound (top'.moved rfl), ?_⟩
  rw [arena, position.trans top'.last_eq]
  exact ripe.part

theorem wrap_accounts {action : Action CharT NodeType} {context : Context CharT}
    {tree : Option NodePtr} {stop : Nat} (assigned : grammar.body rule = some body)
    (typed : (grammar.nonTerminal rule).typedFold = some action)
    (bounded : ∀ node ∈ opened, node < context.nodeArena.length)
    (accounted : AccountedBut grammar input seeds (OwnRow rule startPos) opened context)
    (part : Accounts grammar input seeds openedᶜ context.nodeArena (.one body tree) startPos stop)
    (update : ParseTreeNode → ParseTreeNode) (childless : (update {}).children = [])
    (produced : (update {}).producer = some rule) (starts : (update {}).startOffset = startPos)
    (stops : (update {}).endOffset = stop) :
    let here := pushChild context.makeNode.1 tree
      (context.makeNode.2.updateNode context.makeNode.1 update)
    AccountedBut grammar input seeds (OwnRow rule startPos) opened here ∧
      Accounts grammar input seeds openedᶜ here.nodeArena
        (.one (.rule rule) (some context.makeNode.1)) startPos stop := by
  have carried : Carried grammar openedᶜ openedᶜ context.nodeArena
      (pushChild context.makeNode.1 tree
        (context.makeNode.2.updateNode context.makeNode.1 update)).nodeArena :=
    carried_made ((made_kept context update).trans (push_kept _ tree
      (context.makeNode.2.updateNode context.makeNode.1 update)))
  have read := modify_read context.makeNode.2.nodeArena context.makeNode.1 context.makeNode.1 update
    (node_made context)
  rw [if_pos rfl] at read
  have written := @push_read _ context.makeNode.1
    (context.makeNode.2.updateNode context.makeNode.1 update) _ read tree
  have still : (pushChild context.makeNode.1 tree
      (context.makeNode.2.updateNode context.makeNode.1 update)).mem = context.mem ∧
      active (pushChild context.makeNode.1 tree
        (context.makeNode.2.updateNode context.makeNode.1 update)) = active context := by
    cases tree <;> exact ⟨rfl, rfl⟩
  refine ⟨accounted.step carried ?_ ?_, ?_⟩
  · rw [still.1]
    exact fun _ _ _ => id
  · rw [still.2]
    exact fun _ => id
  · refine .wrapped assigned (by rw [typed]; rfl) (part.carried carried) ⟨?_, _, written, ?_, starts,
      stops⟩ ⟨_, written, produced⟩
    · exact fun member => Nat.lt_irrefl _ (bounded _ member)
    · rw [childless, List.nil_append]

theorem build_node_explains {context : Context CharT} {grown : ParseResult × RuleState}
    (assigned : grammar.body rule = some body) (success : grown.1.success = true)
    (left : Left input grammar.skipper opened startPos grown context)
    (accounted : AccountedBut grammar input seeds (OwnRow rule startPos) opened context)
    (part : Accounts grammar input seeds openedᶜ context.nodeArena (.one body grown.1.tree) startPos
      context.position) :
    wp (sprouting CharT seeds)
      (NonTerminal.buildNode (grammar.nonTerminal rule) rule startPos grown.1.tree)
      (fun node last => (AccountedBut grammar input seeds (OwnRow rule startPos) opened last ∧
        Accounts grammar input seeds openedᶜ last.nodeArena (.one (.rule rule) (some node)) startPos
          context.position) ∧ last.position = context.position) context := by
  unfold NonTerminal.buildNode
  cases typed : (grammar.nonTerminal rule).typedFold with
  | some action =>
      simp only [wp_bind, wp_modify, wp_modifyGet, wp_pure]
      refine ⟨wrap_accounts assigned typed left.steady.tidy.bounded accounted part (fun fields =>
        { fields with
          name := (grammar.nonTerminal rule).name
          producer := some rule
          startOffset := startPos
          endOffset := context.position }) rfl rfl rfl rfl, ?_⟩
      cases grown.1.tree <;> rfl
  | none =>
      cases tree : grown.1.tree with
      | none =>
          simp only [Option.elim_none, wp_bind, wp_modify, wp_modifyGet, wp_pure]
          rw [tree] at part
          have carried : Carried grammar openedᶜ openedᶜ context.nodeArena
              (context.makeNode.2.updateNode context.makeNode.1
                (adopt (grammar.nonTerminal rule) rule startPos context)).nodeArena :=
            carried_made (made_kept context _)
          have read := modify_read context.makeNode.2.nodeArena context.makeNode.1 context.makeNode.1
            (adopt (grammar.nonTerminal rule) rule startPos context) (node_made context)
          rw [if_pos rfl] at read
          refine ⟨⟨accounted.step carried (fun _ _ _ => id) fun _ => id, ?_⟩, rfl⟩
          refine .bare assigned typed (part.carried carried) ⟨?_, _, read, rfl, rfl, rfl⟩
            ⟨_, read, by simp [adopt, typed]⟩
          exact fun member => Nat.lt_irrefl _ (left.steady.tidy.bounded _ member)
      | some root =>
          simp only [Option.elim_some, wp_bind, wp_modify, wp_pure]
          rw [tree] at part
          obtain ⟨-, fields, held, starts, stops⟩ := left.placed success root tree
          have kept : Kept ∅ ∅ context.nodeArena (context.updateNode root
              (adopt (grammar.nonTerminal rule) rule startPos context)).nodeArena := by
            refine kept_update (Set.notMem_empty _) fun _ fields' held' => ?_
            obtain rfl := Option.some.inj (held.symm.trans held')
            exact adopt_unchanged _ context starts stops
          have untyped : KeepsUntyped grammar context (context.updateNode root
              (adopt (grammar.nonTerminal rule) rule startPos context)) := by
            refine write_kept context fun fields _ => ?_
            cases produced : fields.producer with
            | none => exact Or.inr ⟨rule, by simp [adopt, produced], typed⟩
            | some other => exact Or.inl (by simp [adopt, produced])
          have carried : Carried grammar openedᶜ openedᶜ context.nodeArena (context.updateNode root
              (adopt (grammar.nonTerminal rule) rule startPos context)).nodeArena :=
            carried_kept kept untyped (Set.empty_subset _)
          exact ⟨⟨accounted.step carried (fun _ _ _ => id) fun _ => id,
            .adopted assigned typed (part.carried carried)⟩, rfl⟩

theorem finish_success_explains {context : Context CharT} {grown : ParseResult × RuleState}
    (assigned : grammar.body rule = some body) (success : grown.1.success = true)
    (left : Left input grammar.skipper opened startPos grown context)
    (accounted : AccountedBut grammar input seeds (OwnRow rule startPos) opened context)
    (part : Accounts grammar input seeds openedᶜ context.nodeArena (.one body grown.1.tree) startPos
      context.position) :
    wp (sprouting CharT seeds)
      (NonTerminal.finishSuccess (grammar.nonTerminal rule) rule startPos grown.1 grown.2)
      (fun result last => Accounted grammar input seeds opened last ∧ (result.success = true →
        Accounts grammar input seeds openedᶜ last.nodeArena (.one (.rule rule) result.tree) startPos
          last.position)) context := by
  rw [NonTerminal.finishSuccess, wp_bind]
  refine wp_post (build_node_explains assigned success left accounted part) ?_
  rintro node last ⟨⟨kept, whole⟩, position⟩
  rw [wp_bind]
  refine store_passes fun present => ?_
  have frame := update_row_frame last rule startPos ⟨grown.2.lastPos, ⟨true, some node⟩⟩
  rw [wp_pure, frame.1, frame.2.2, position]
  refine ⟨kept.stored fun _ => Or.inl ?_, fun _ => whole⟩
  rw [← left.stopped]
  exact whole

theorem finish_failure_explains {context : Context CharT} (source : context.input = input)
    (accounted : AccountedBut grammar input seeds (OwnRow rule startPos) opened context)
    (ruleState : RuleState) :
    wp (sprouting CharT seeds)
      (NonTerminal.finishFailure (grammar.nonTerminal rule) rule startPos ruleState)
      (fun result last => Accounted grammar input seeds opened last ∧ (result.success = true →
        Accounts grammar input seeds openedᶜ last.nodeArena (.one (.rule rule) result.tree) startPos
          last.position)) context := by
  obtain ⟨errors, recorded⟩ :=
    NonTerminal.record_rule_failure_frame (grammar.nonTerminal rule) startPos context
  rw [NonTerminal.finishFailure, wp_bind, wp_modify, recorded, wp_bind, wp_read]
  have here : AccountedBut grammar input seeds (OwnRow rule startPos) opened
      ({ context with errors := errors } : Context CharT) :=
    accounted.moved rfl (fun _ _ _ => id) rfl
  dsimp only [id]
  split
  · rename_i isSyncToken configured _
    rw [wp_bind, wp_modify, wp_bind]
    refine store_passes fun present => ?_
    subst source
    rw [wp_pure, (update_row_frame _ _ _ _).1, (update_row_frame _ _ _ _).2.2]
    have whole : ∀ arena, Accounts grammar context.input seeds openedᶜ arena
        (.one (.rule rule) none) startPos (resumption isSyncToken context.input startPos) :=
      fun _ => .recovered configured
    refine ⟨AccountedBut.stored ?_ fun _ => Or.inl (whole _), fun _ => whole _⟩
    exact here.moved rfl (fun _ _ _ => id) rfl
  · rw [wp_bind]
    refine store_passes fun present => ?_
    rw [wp_pure]
    exact ⟨here.stored (by simp [RowAccounts]), by simp⟩

/-- A row that is present is the row of a finished application, or of one in progress,
which `seeds` then allows to reenter. -/
theorem replay_explains {context : Context CharT} {row : RuleState}
    (accounted : Accounted grammar input seeds opened context)
    (held : context.mem startPos rule = some row)
    (calm : context.lrInProgress rule startPos = false ∨ seeds) :
    wp (sprouting CharT seeds) (NonTerminal.replay rule startPos row) (fun result last =>
      Accounted grammar input seeds opened last ∧ (result.success = true →
        Accounts grammar input seeds openedᶜ last.nodeArena (.one (.rule rule) result.tree) startPos
          last.position)) context := by
  have live : ∀ here : Context CharT, here.mem = context.mem → here.memoGet rule startPos = row := by
    intro here same
    rw [Context.memoGet, same, held, Option.getD_some]
  have whole : row.cachedResult.success = true →
      Accounts grammar input seeds openedᶜ context.nodeArena
        (.one (.rule rule) row.cachedResult.tree) startPos row.lastPos := by
    intro success
    rcases accounted startPos rule row not_false held success with whole | ⟨member, found⟩
    · exact whole
    · obtain ⟨body, assigned, part⟩ := found
      have running := in_progress_iff.mpr member
      rcases calm with absent | allowed
      · rw [running] at absent
        cases absent
      · exact .seed allowed assigned part
  have answer : ∀ here : Context CharT, here.nodeArena = context.nodeArena → here.mem = context.mem →
      active here = active context → here.position = row.lastPos →
      Accounted grammar input seeds opened here ∧ (row.cachedResult.success = true →
        Accounts grammar input seeds openedᶜ here.nodeArena (.one (.rule rule) row.cachedResult.tree)
          startPos here.position) := by
    intro here arena mem running position
    refine ⟨accounted.moved arena (by rw [mem]; exact fun _ _ _ => id) running, ?_⟩
    rw [arena, position]
    exact whole
  have marked : (context.markHead rule startPos).nodeArena = context.nodeArena ∧
      (context.markHead rule startPos).mem = context.mem ∧
      active (context.markHead rule startPos) = active context := by
    unfold Context.markHead
    split
    · split_ifs
      · exact ⟨rfl, rfl, rfl⟩
      · exact ⟨rfl, rfl, active_of_frames (mark_frame_core rule startPos context.lrStack)⟩
    · exact ⟨rfl, rfl, rfl⟩
  rw [NonTerminal.replay, wp_bind, wp_read, wp_ite]
  dsimp only [id]
  rw [live context rfl]
  refine ⟨fun _ => ?_, fun _ => ?_⟩
  · rw [wp_bind, wp_modify, wp_bind, wp_modify, wp_pure]
    refine answer _ marked.1 marked.2.1 marked.2.2 ?_
    exact congrArg RuleState.lastPos (live _ marked.2.1)
  · cases context.growingHead startPos with
    | none =>
        rw [wp_bind, wp_modify, wp_pure]
        exact answer _ rfl rfl rfl rfl
    | some head =>
        rw [wp_ite]
        simp only [wp_bind, wp_modify, wp_pure]
        exact ⟨fun _ => answer _ rfl rfl rfl (congrArg RuleState.lastPos (live context rfl)),
          fun _ => answer _ rfl rfl rfl rfl⟩

theorem parse_explains {parseBody : Option (Parser CharT ParseResult)}
    (builds : ∀ parse ∈ parseBody, ∃ body, grammar.body rule = some body ∧
      Builds grammar input seeds body parse)
    (stable : ∀ parse ∈ parseBody, StableParser parse) (fuel : Nat) :
    Explains grammar input seeds (.rule rule)
      (NonTerminal.parse (grammar.nonTerminal rule) rule parseBody fuel) := by
  intro opened context steady accounted
  rw [NonTerminal.parse, wp_bind, announce, wp_announce]
  refine fun calm => ⟨trivial, ?_⟩
  rw [wp_bind, wp_read, wp_bind, wp_modifyGet, wp_ite]
  unfold Context.ruleState
  cases held : context.mem context.position rule with
  | some row =>
      exact ⟨fun present => absurd present Bool.false_ne_true,
        fun _ => replay_explains accounted held calm⟩
  | none =>
      refine ⟨fun _ => ?_, fun absent => absurd rfl absent⟩
      cases parseBody with
      | none => trivial
      | some parse =>
          obtain ⟨body, assigned, built⟩ := builds parse rfl
          have others : ∀ pos other row, ¬(pos = context.position ∧ other = rule) →
              context.mem.write context.position rule {} pos other = some row →
              context.mem pos other = some row := by
            intro pos other row different found
            rcases Memo.write_eq_some found with ⟨samePos, sameRule, -⟩ | ⟨-, before⟩
            · exact absurd ⟨samePos, sameRule⟩ different
            · exact before
          have tidy : TidyBut (OwnRow rule context.position) opened
              { context with mem := context.mem.write context.position rule {} } :=
            ⟨fun pos other row spared found => steady.tidy.rows pos other row not_false
              (others pos other row spared found), steady.tidy.children, steady.tidy.bounded⟩
          have arranged : Arranged { context with mem := context.mem.write context.position rule {} } := by
            refine ⟨fun pos other row found => ?_, steady.arranged.children⟩
            rcases Memo.write_eq_some found with ⟨-, -, rfl⟩ | ⟨-, before⟩
            · exact yields_bare _ _
            · exact steady.arranged.rows pos other row before
          have entered : AccountedBut grammar input seeds (OwnRow rule context.position) opened
              { context with mem := context.mem.write context.position rule {} } :=
            fun pos other row spared found =>
              accounted pos other row not_false (others pos other row spared found)
          rw [wp_bind]
          refine wp_post (invoke_explains assigned built (stable parse rfl) steady.inside fuel tidy
            arranged steady.sound.source steady.sound.skipper (fun pos other row different found =>
              steady.sound.rows pos other row (others pos other row different found)) entered) ?_
          rintro grown last ⟨⟨later, part⟩, left⟩
          rw [wp_ite]
          exact ⟨fun success => finish_success_explains assigned success left later (part success),
            fun _ => finish_failure_explains left.steady.sound.source later grown.2⟩

end RuleApplication

variable [PegValue CharT] {grammar : Grammar CharT NodeType} {input : List CharT} {seeds : Prop}
  (inRange : InRange grammar)

include inRange

theorem skip_bridges {fuel : Nat}
    (applies : ∀ rule, Builds grammar input seeds (.rule rule) (grammar.apply fuel rule)) :
    Bridges grammar input seeds (runSkipper (grammar.apply fuel)) := by
  intro opened context steady accounted
  have moved := skip_nests inRange (fun rule => (applies rule).nests) opened context steady
  have skips := skip_untyped fun rule => (applies rule).untyped
  refine wp_post (wp_preserves (wp_with (?_ : wp (sprouting CharT seeds) _ (fun _ last =>
    Accounted grammar input seeds opened last ∧ Accounts grammar input seeds openedᶜ last.nodeArena
      .gap context.position last.position) context) moved fun _ _ => trivial) skips) fun _ last met =>
        ⟨⟨met.1.2, met.2⟩, met.1.1⟩
  rw [runSkipper, wp_bind, wp_read]
  dsimp only [id]
  split
  · rename_i skipper _ configured
    rw [steady.sound.skipper] at configured
    rw [wp_bind, wp_modify, wp_bind]
    refine wp_post ((applies skipper).run (steady.moved rfl rfl steady.inside rfl fun _ _ _ => id)
      (accounted.moved rfl (fun _ _ _ => id) rfl)) ?_
    rintro result last ⟨⟨later, explained⟩, -, covers⟩
    rw [wp_modify]
    refine ⟨later.moved rfl (fun _ _ _ => id) rfl, ?_⟩
    by_cases success : result.success = true
    · exact .skipped configured (explained success)
    · rw [covers.restored success]
      exact .still
  · exact ⟨accounted, .still⟩

theorem expr_explains {fuel : Nat}
    (applies : ∀ rule, Builds grammar input seeds (.rule rule) (grammar.apply fuel rule))
    {expr : Expr CharT} (range : expr.Every MatcherInRange) :
    Builds grammar input seeds expr (grammar.eval fuel expr) := by
  have bridges := skip_bridges inRange applies
  have whole : ∀ expr : Expr CharT, expr.Every MatcherInRange →
      Explains grammar input seeds expr (grammar.eval fuel expr) →
      Builds grammar input seeds expr (grammar.eval fuel expr) := fun expr range explains =>
    ⟨expr_nests inRange (fun rule => (applies rule).nests) range,
      expr_untyped (fun rule => (applies rule).untyped) fuel expr, explains⟩
  induction expr using Expr.induct with
  | terminal value => exact whole _ range (terminal_explains value)
  | terminalSeq values => exact whole _ range (terminal_seq_explains values)
  | token value => exact whole _ range (token_explains value)
  | matcher fn => exact whole _ range (matcher_explains fn)
  | empty => exact whole _ range fun _ _ _ accounted => ⟨accounted, fun _ => .empty⟩
  | cut => exact whole _ range cut_explains
  | sequence children induction =>
      refine whole _ range ?_
      unfold Expr.Every at range
      rw [Grammar.eval, Expr.parse, Expr.parse_all_eq_map]
      exact sequence_explains bridges _ fun child member =>
        induction child member (Expr.every_all_iff.mp range.2 child member)
  | alternation children induction =>
      refine whole _ range ?_
      unfold Expr.Every at range
      rw [Grammar.eval, Expr.parse, Expr.parse_all_eq_map]
      exact alternation_explains _ fun child member =>
        induction child member (Expr.every_all_iff.mp range.2 child member)
  | repetition kind child induction =>
      refine whole _ range (repeat_explains fuel bridges kind (induction ?_))
      unfold Expr.Every at range
      exact range.2
  | not child induction =>
      refine whole _ range (not_explains (induction ?_))
      unfold Expr.Every at range
      exact range.2
  | and child induction =>
      refine whole _ range (and_explains (induction ?_))
      unfold Expr.Every at range
      exact range.2
  | lexeme child induction =>
      refine whole _ range (lexeme_explains (induction ?_))
      unfold Expr.Every at range
      exact range.2
  | rule id => exact applies id

theorem apply_builds (fuel : Nat) (rule : RuleId) :
    Builds grammar input seeds (.rule rule) (grammar.apply fuel rule) := by
  induction fuel generalizing rule with
  | zero => exact ⟨apply_nests inRange 0 rule, apply_untyped grammar 0 rule, fun _ _ _ _ => trivial⟩
  | succ fuel induction =>
      refine ⟨apply_nests inRange (fuel + 1) rule, apply_untyped grammar (fuel + 1) rule,
        parse_explains (fun parse member => ?_) (fun parse member => ?_) fuel⟩
      · obtain ⟨body, assigned, rfl⟩ := Option.map_eq_some_iff.mp member
        exact ⟨body, assigned, expr_explains inRange induction (inRange rule body assigned)⟩
      · obtain ⟨body, -, rfl⟩ := Option.map_eq_some_iff.mp member
        exact expr_stable (apply_stable grammar fuel) fuel body

omit inRange in
theorem parse_tree_boundary {name : Str} {start : RuleId} (found : grammar.find name = some start)
    (fuel : Nat) (context : Context CharT) : grammar.parseTree fuel name context =
      boundary grammar fuel start ParseResult.tree none context := by
  rw [Grammar.parseTree, found]
  rfl

/-- Rules are reentered in grammars with left recursion only. -/
theorem parse_tree_calm {name : Str} {start : RuleId} (found : grammar.find name = some start)
    (input : List CharT) (fuel : Nat) :
    ∀ moment ∈ (grammar.parseTree fuel name (Context.fresh input)).trace,
      NotReentered moment ∨ ¬ReentryFree grammar := by
  intro moment member
  by_cases free : ReentryFree grammar
  · rw [parse_tree_boundary found] at member
    exact Or.inl (boundary_never_reentered free inRange input fuel start ParseResult.tree none
      moment member)
  · exact Or.inr free

/-- What a call of `parse_tree` that returns a tree leaves behind. -/
structure Delivered (grammar : Grammar CharT NodeType) (input : List CharT) (seeds : Prop)
    (start : RuleId) (root : NodePtr) (first : Nat) (last : Context CharT) : Prop where
  steady : Steady input grammar.skipper ∅ last
  orderly : Orderly last.nodeArena root
  accounts : Accounts grammar input seeds Set.univ last.nodeArena (.one (.rule start) (some root))
    first last.position

theorem parse_tree_delivers (input : List CharT) (fuel : Nat) (name : Str) {start : RuleId}
    (found : grammar.find name = some start) {root : NodePtr}
    (returned : (grammar.parseTree fuel name (Context.fresh input)).outcome = .returned (some root))
    (calm : ∀ moment ∈ (grammar.parseTree fuel name (Context.fresh input)).trace,
      NotReentered moment ∨ seeds) :
    Delivered grammar input seeds start root
      (grammar.leadingSkip fuel (Context.fresh input)).state.position
      (grammar.parseTree fuel name (Context.fresh input)).state := by
  let skipped := (grammar.leadingSkip fuel (Context.fresh input)).state
  have applies := @apply_builds _ _ _ grammar input seeds inRange fuel
  have steady := fresh_steady input grammar.skipper
  have explained : wp (sprouting CharT seeds) (grammar.parseTree fuel name) (fun tree last =>
      ∀ root, tree = some root → Delivered grammar input seeds start root skipped.position last)
      (Context.fresh input) := by
    unfold Grammar.parseTree
    rw [found, wp_bind]
    have leading : wp (sprouting CharT seeds) (grammar.leadingSkip fuel) (fun _ here =>
        (Steady input grammar.skipper ∅ here ∧ Accounted grammar input seeds ∅ here) ∧
          here.position = skipped.position) (Context.fresh input) := by
      have fresh : Accounted grammar input seeds ∅
          { Context.fresh input with skipper := grammar.skipper } := by
        intro pos rule row _ held
        cases held
      have bridged : wp (sprouting CharT seeds) (grammar.leadingSkip fuel) (fun _ here =>
          Steady input grammar.skipper ∅ here ∧ Accounted grammar input seeds ∅ here)
          (Context.fresh input) := by
        rw [Grammar.leadingSkip, wp_bind, wp_modify]
        exact wp_post (skip_bridges inRange applies ∅ _ steady fresh) fun _ _ met =>
          ⟨met.1.went.steady, met.2.1⟩
      have named : wp returning (grammar.leadingSkip fuel) (fun _ here => True ∧ here = skipped)
          (Context.fresh input) := wp_state ((along_unconstrained _ _).mpr (by
        cases (grammar.leadingSkip fuel (Context.fresh input)).outcome <;> trivial))
      refine wp_post (wp_with bridged named fun _ _ => trivial) ?_
      rintro _ here ⟨ready, -, rfl⟩
      exact ⟨ready, rfl⟩
    refine wp_post leading ?_
    rintro _ here ⟨⟨steady, accounted⟩, position⟩
    rw [wp_catching, wp_bind]
    refine wp_mono ((applies start).run steady accounted) (fun _ => id) (fun _ _ => id) ?_ ?_
    · intro exn last _
      cases exn with
      | parseError position expected =>
          intro root absent
          cases absent
      | _ => exact trivial
    · rintro result last ⟨⟨-, accounts⟩, passed, covers⟩ root tree
      obtain ⟨success, orderly⟩ := covers.yields root tree
      have whole := accounts success
      rw [position, tree, Set.compl_empty] at whole
      exact ⟨passed.went.steady, orderly, whole⟩
  exact wp_returned explained calm returned root rfl

/-- The tree that `parse_tree` returns is a derivation tree of what was read after the leading
skip. In a grammar without left recursion no rule in it stands for its bare body. -/
theorem parse_tree_derives (input : List CharT) (fuel : Nat) (name : Str) {start : RuleId}
    (found : grammar.find name = some start) {root : NodePtr}
    (returned : (grammar.parseTree fuel name (Context.fresh input)).outcome = .returned (some root)) :
    let skipped := (grammar.leadingSkip fuel (Context.fresh input)).state
    let last := (grammar.parseTree fuel name (Context.fresh input)).state
    Accounts grammar input (¬ReentryFree grammar) Set.univ last.nodeArena
      (.one (.rule start) (some root)) skipped.position last.position :=
  (parse_tree_delivers inRange input fuel name found returned
    (parse_tree_calm inRange found input fuel)).accounts

omit [PegValue CharT] inRange

/-- The tree of " n + n": an `A` whose left part is the `A` that it grew from. -/
theorem sums_derived :
    let last := (sums.parseTree 8 (ascii "A") (Context.fresh (ascii " n + n"))).state
    Accounts sums (ascii " n + n") (¬ReentryFree sums) Set.univ
      last.nodeArena (.one (.rule 0) (some 4)) 1 6 := by
  intro last
  have skipped : (sums.leadingSkip 8 (Context.fresh (ascii " n + n"))).state.position = 1 := by
    decide +kernel
  have reached : last.position = 6 := by decide +kernel
  have derived := parse_tree_derives sums_in_range (ascii " n + n") 8 (ascii "A")
    (show sums.find (ascii "A") = some 0 by decide)
    (Outcome.value_eq_some.mp (by decide +kernel : _ = some (some 4)))
  dsimp only at derived
  rwa [skipped, show (sums.parseTree 8 (ascii "A") (Context.fresh (ascii " n + n"))).state.position = 6
    from reached] at derived

end Peglib.TreeConstruction
