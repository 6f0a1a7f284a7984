import Mathlib.Data.Finset.Card
import Mathlib.Data.Finset.Prod
import Peglib.EngineSteps
import Peglib.PositionDiscipline

/-!
# The depth of the invocation stack

Without cuts every rule in progress keeps its memo row, so that a rule that comes
upon itself at the same position is recognised. The invocation stack then never
holds a rule twice at one position, at any moment of any parse, and its depth is
bounded by the number of rules and the length of the input.
-/

namespace Peglib.InvocationStack

open Peglib.TracedComputation Peglib.Coupling Peglib.LoggedSteps Peglib.EngineSteps
open Peglib.ParseError Peglib.ParseContext Peglib.Expressions Peglib.Rules
open Peglib.ControlDiscipline Peglib.ScopeBlindness Peglib.SuccessfulAnswers Peglib.Termination
open Peglib.PositionDiscipline

set_option autoImplicit false

variable {CharT NodeType : Type}

/-- The rules in progress differ from each other, have their rows, and lie inside the input. -/
structure Layered (reach : RuleId → Prop) (size : Nat) (context : Context CharT) : Prop where
  sized : context.inputSize = size
  inside : context.position ≤ size
  uncommitted : Uncommitted context
  distinct : (active context).Nodup
  rows : ∀ key ∈ active context, (context.mem key.2 key.1).isSome = true
  bounded : ∀ key ∈ active context, reach key.1 ∧ key.2 ≤ size

/-- A run without a failed assertion keeps the stack layered, at each of its moments. -/
structure KeepsLayers (reach : RuleId → Prop) (size : Nat) (before : Context CharT)
    (log : List (Moment CharT)) (after : Context CharT) : Prop where
  checked : after.outOfRange = false → before.outOfRange = false
  layered : after.outOfRange = false → Layered reach size before →
    Layered reach size after ∧ ∀ moment ∈ log, Layered reach size moment.context

section Steps

variable {reach : RuleId → Prop} {size : Nat} {context after : Context CharT}

theorem Layered.moved (layered : Layered reach size context) (same : after.inputSize = context.inputSize)
    (inside : after.position ≤ size) (uncommitted : Uncommitted after)
    (frames : (active after).Sublist (active context))
    (rows : ∀ key ∈ active after, (context.mem key.2 key.1).isSome = true →
      (after.mem key.2 key.1).isSome = true) : Layered reach size after where
  sized := same.trans layered.sized
  inside := inside
  uncommitted := uncommitted
  distinct := layered.distinct.sublist frames
  rows key member := rows key member (layered.rows key (frames.subset member))
  bounded key member := layered.bounded key (frames.subset member)

theorem remove_cut_uncommitted (uncommitted : Uncommitted context) :
    Uncommitted context.removeCut ∧ context.removeCut.mem = context.mem := by
  unfold Context.removeCut
  cases scopes : context.cutStack with
  | nil => exact ⟨uncommitted, rfl⟩
  | cons scope outer =>
      rw [Uncommitted, scopes] at uncommitted
      simp only [uncommitted scope (by simp), Bool.false_eq_true, if_false]
      exact ⟨fun other member => uncommitted other (by simp [member]), trivial⟩

theorem set_frame_active (pos : Nat) (context : Context CharT) :
    active (NonTerminal.setFrameLastPos pos context) = active context := by
  unfold active NonTerminal.setFrameLastPos
  cases context.lrStack with
  | nil => rfl
  | cons top rest => rfl

theorem recognise_kept (rule : RuleId) (context : Context CharT) :
    active (recognise rule context) = active context ∧ (recognise rule context).mem = context.mem ∧
      (recognise rule context).cutStack = context.cutStack ∧
      (recognise rule context).position = context.position ∧
      (recognise rule context).input = context.input ∧
      (recognise rule context).outOfRange = context.outOfRange := by
  unfold recognise Context.markHead
  split_ifs
  · split
    · split_ifs
      · simp
      · refine ⟨?_, by simp⟩
        exact active_of_frames (mark_frame_core rule context.position context.lrStack)
    · simp
  · simp

instance : Chained (@KeepsLayers CharT reach size) where
  refl context := ⟨id, fun _ layered => ⟨layered, by simp⟩⟩
  trans first middle last log rest early late := by
    refine ⟨fun checked => early.checked (late.checked checked), fun checked layered => ?_⟩
    have halfway := early.layered (late.checked checked) layered
    have whole := late.layered checked halfway.1
    refine ⟨whole.1, fun moment member => ?_⟩
    rcases List.mem_append.mp member with before | later
    · exact halfway.2 moment before
    · exact whole.2 moment later

theorem keeps_silently (same : after.outOfRange = context.outOfRange)
    (keeps : Layered reach size context → Layered reach size after) :
    KeepsLayers reach size context [] after :=
  ⟨by simp [same], fun _ layered => ⟨keeps layered, by simp⟩⟩

instance : Grounded (@KeepsLayers CharT reach size) where
  aside before after aside := by
    refine ⟨aside.checked, fun checked layered => ⟨?_, by simp⟩⟩
    have size' : after.inputSize = before.inputSize := by simp [Context.inputSize, aside.input]
    have frames : active after = active before := by simp [active, aside.lrStack]
    have inside := aside.inside checked (by rw [layered.sized]; exact layered.inside)
    refine layered.moved size' (by rwa [layered.sized] at inside) ?_ (by rw [frames]) ?_
    · rw [Uncommitted, aside.cutStack]
      exact layered.uncommitted
    · simp [aside.mem]
  opened context := by
    refine keeps_silently rfl fun layered => ?_
    refine layered.moved rfl layered.inside ?_ (by rfl) (by simp [Context.initCut])
    intro scope member
    rcases List.mem_cons.mp member with rfl | outer
    · rfl
    · exact layered.uncommitted scope outer
  closed context := by
    have same : context.removeCut.outOfRange = context.outOfRange ∧
        context.removeCut.inputSize = context.inputSize ∧
        context.removeCut.position = context.position ∧ active context.removeCut = active context := by
      unfold Context.removeCut
      split
      · simp
      · split_ifs <;> exact ⟨rfl, rfl, rfl, rfl⟩
    refine keeps_silently same.1 fun layered => ?_
    have kept := remove_cut_uncommitted layered.uncommitted
    refine layered.moved same.2.1 (by rw [same.2.2.1]; exact layered.inside) kept.1 (by rw [same.2.2.2]) ?_
    simp [kept.2]
  reopened context := by
    unfold Context.setCut
    cases scopes : context.cutStack with
    | nil => exact Chained.refl context
    | cons scope outer =>
        refine keeps_silently rfl fun layered => ?_
        refine layered.moved rfl layered.inside ?_ (by rfl) (by simp)
        have outside := layered.uncommitted
        rw [Uncommitted, scopes] at outside
        intro other member
        rcases List.mem_cons.mp member with rfl | inner
        · rfl
        · exact outside other (by simp [inner])
  failed context := ⟨id, fun _ layered => ⟨layered, by simpa using layered⟩⟩
  stored rule pos entry context := by
    have same : (context.updateRuleState rule pos entry).2.outOfRange = context.outOfRange := by
      unfold Context.updateRuleState
      split <;> rfl
    refine ⟨by simp [same], fun _ layered => ?_⟩
    have written : Layered reach size (context.updateRuleState rule pos entry).2 := by
      unfold Context.updateRuleState
      split
      · refine layered.moved rfl layered.inside layered.uncommitted (by rfl) fun key _ held => ?_
        simp only [Memo.write]
        split_ifs <;> simp [held]
      · exact layered
    exact ⟨written, by simpa using written⟩
  grew pos context := by
    refine keeps_silently rfl fun layered => ?_
    exact layered.moved rfl layered.inside layered.uncommitted (by rw [set_frame_active]) fun _ _ => id
  cleared rule pos context _ := by
    refine keeps_silently rfl fun layered => ?_
    refine layered.moved rfl layered.inside layered.uncommitted (by rfl) fun key member held => ?_
    -- The rows of rules in progress are spared.
    have spared := in_progress_iff.mpr (show (key.1, key.2) ∈ active context from member)
    by_cases here : key.2 = pos
    · subst here
      simpa [Context.clearSiblingsAt, spared] using held
    · simpa [Context.clearSiblingsAt, here] using held
  left pos context := by
    have same : (NonTerminal.leave pos context).outOfRange = context.outOfRange ∧
        (NonTerminal.leave pos context).inputSize = context.inputSize ∧
        (NonTerminal.leave pos context).position = context.position ∧
        (NonTerminal.leave pos context).cutStack = context.cutStack ∧
        (NonTerminal.leave pos context).mem = context.mem := by
      unfold NonTerminal.leave
      split_ifs <;> exact ⟨rfl, rfl, rfl, rfl, rfl⟩
    have frames : (active (NonTerminal.leave pos context)).Sublist (active context) := by
      have popped : (active context.lrPop).Sublist (active context) := by
        unfold active Context.lrPop
        exact (List.tail_sublist context.lrStack).map _
      unfold NonTerminal.leave
      split_ifs <;> exact popped
    refine keeps_silently same.1 fun layered => ?_
    refine layered.moved same.2.1 (by rw [same.2.2.1]; exact layered.inside) ?_ frames ?_
    · rw [Uncommitted, same.2.2.2.1]
      exact layered.uncommitted
    · simp [same.2.2.2.2]

theorem layers_engine : EngineRules reach False (@KeepsLayers CharT reach size) where
  committed := False.elim
  met rule context _ _ := by
    obtain ⟨frames, mem, cutStack, position, input, outOfRange⟩ := recognise_kept rule context
    refine ⟨by simp [outOfRange], fun _ layered => ⟨?_, by simpa using layered⟩⟩
    refine layered.moved (by simp [Context.inputSize, input]) (by rw [position]; exact layered.inside)
      ?_ (by rw [frames]) (by simp [mem])
    rw [Uncommitted, cutStack]
    exact layered.uncommitted
  entered rule context inside absent := by
    refine ⟨id, fun _ layered => ⟨?_, by simpa using layered⟩⟩
    have fresh : (rule, context.position) ∉ active context := by
      intro member
      have held := layered.rows _ member
      simp [absent] at held
    have frames : active (embark rule context) = (rule, context.position) :: active context := rfl
    refine ⟨layered.sized, layered.inside, layered.uncommitted, ?_, ?_, ?_⟩
    · rw [frames]
      exact List.nodup_cons.mpr ⟨fresh, layered.distinct⟩
    · intro key member
      have rows := layered.rows key
      simp only [embark, Context.lrPush, Memo.write]
      split_ifs with same
      · rfl
      · rw [frames] at member
        rcases List.mem_cons.mp member with rfl | outer
        · simp at same
        · exact rows outer
    · rw [frames]
      exact List.forall_mem_cons.mpr ⟨⟨inside, layered.inside⟩, layered.bounded⟩

end Steps

section Depth

variable [PegValue CharT] {grammar : Grammar CharT NodeType} {rules : Finset RuleId}
  {input : List CharT}

theorem parse_in_range (inRange : InRange grammar) {context : Context CharT}
    (visited : Visited grammar input context) (inside : context.position ≤ input.length)
    (fuel : Nat) {name : Str} {rule : RuleId} (found : grammar.find name = some rule) :
    (grammar.parse fuel name context).state.outOfRange = context.outOfRange := by
  have same := (entry_same inRange visited inside fuel found).states
  cases ended : (grammar.parse fuel name context).outcome with
  | returned value | thrown exn | exhausted =>
      rw [ended] at same
      exact same.1.clean.1

/-- Keys of rules of a finite set at positions of the input, all different, are few. -/
theorem keys_bounded {keys : List (RuleId × Nat)} {size : Nat} (distinct : keys.Nodup)
    (bounded : ∀ key ∈ keys, key.1 ∈ rules ∧ key.2 ≤ size) :
    keys.length ≤ rules.card * (size + 1) := by
  have among : keys.toFinset ⊆ rules ×ˢ Finset.range (size + 1) := by
    intro key member
    have found := bounded key (List.mem_toFinset.mp member)
    rw [Finset.mem_product, Finset.mem_range]
    exact ⟨found.1, Nat.lt_succ_of_le found.2⟩
  have counted := Finset.card_le_card among
  rwa [List.toFinset_card_of_nodup distinct, Finset.card_product, Finset.card_range] at counted

/-- At every moment of a parse without cuts the stack is layered. -/
theorem parse_layered {reach : RuleId → Prop} (closed : ClosedUnder grammar reach False)
    (inRange : InRange grammar)
    (skips : ∀ skipper, grammar.skipper = some skipper → reach skipper) {name : Str} {start : RuleId}
    (found : grammar.find name = some start) (inside : reach start) (input : List CharT) (fuel : Nat) :
    ∀ moment ∈ (grammar.parse fuel name (Context.fresh input)).trace,
      Layered reach input.length moment.context := by
  have raising : MayRaise grammar reach fun _ => True := ⟨fun _ _ => trivial, fun _ _ _ => trivial⟩
  have followed := parse_moves (@layers_engine CharT reach input.length) closed raising fuel found
    inside skips (Context.fresh input)
  have idle : Layered reach input.length { Context.fresh input with skipper := grammar.skipper } := by
    refine ⟨rfl, Nat.zero_le _, ?_, ?_, ?_, ?_⟩ <;> simp [Context.fresh, Uncommitted, active]
  have ended : (grammar.parse fuel name (Context.fresh input)).state.outOfRange = false :=
    parse_in_range inRange .fresh (Nat.zero_le _) fuel found
  exact (followed.steps.kept.layered ended idle).2

/-- In a grammar without cuts, left-recursive rules included, no rule is ever twice in
progress at one position. -/
theorem stack_stays_shallow (closed : ClosedUnder grammar (· ∈ rules) False) (inRange : InRange grammar)
    (skips : ∀ skipper, grammar.skipper = some skipper → skipper ∈ rules) {name : Str} {start : RuleId}
    (found : grammar.find name = some start) (inside : start ∈ rules) (input : List CharT) (fuel : Nat) :
    ∀ moment ∈ (grammar.parse fuel name (Context.fresh input)).trace,
      (active moment.context).Nodup ∧
        moment.context.lrStack.length ≤ rules.card * (input.length + 1) := by
  intro moment member
  have layered := parse_layered closed inRange skips found inside input fuel moment member
  have counted := keys_bounded layered.distinct layered.bounded
  exact ⟨layered.distinct, by simpa [active] using counted⟩

theorem left_recursion_closed : ClosedUnder leftRecursion (· ∈ ({0} : Finset RuleId)) False := by
  intro rule body inside assigned
  obtain rfl : rule = 0 := by simpa using inside
  obtain rfl := Option.some.inj assigned
  simp [Expr.Every, Expr.EveryAll, Confined]

/-- `A = A >> 'a' | 'a'` on "aa": the one rule is in progress at most three times. -/
theorem left_recursion_stays_shallow :
    (leftRecursion.parse 5 (ascii "A") (Context.fresh (ascii "aa"))).outcome.value? = some true ∧
      ∀ moment ∈ (leftRecursion.parse 5 (ascii "A") (Context.fresh (ascii "aa"))).trace,
        (active moment.context).Nodup ∧ moment.context.lrStack.length ≤ 1 * (2 + 1) :=
  ⟨by decide +kernel, stack_stays_shallow left_recursion_closed left_recursion_in_range
    (by simp [leftRecursion]) (show leftRecursion.find (ascii "A") = some 0 by decide) (by simp)
    (ascii "aa") 5⟩

end Depth

end Peglib.InvocationStack
