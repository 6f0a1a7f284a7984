import Peglib.Repetitions
import Peglib.Termination

/-!
# A repetition of a recovering rule reaches the end of the input

A rule with a recovery spec succeeds wherever it is not in progress already:
its body matched and consumed something, or the scan for a sync token did, or
the rule was applied at the end of the input. The last of these adds a
diagnostic as well, so a repetition of such a rule never ends without one.
-/

namespace Peglib.RecoveryProgress

open Peglib.TracedComputation Peglib.WeakestPrecondition Peglib.Preservation Peglib.Halting
open Peglib.ParseError Peglib.ParseError.Errors Peglib.ParseContext Peglib.Expressions Peglib.Rules
open Peglib.ControlDiscipline Peglib.Parametricity Peglib.PegSemantics Peglib.Evaluation
open Peglib.ExpressionSteps Peglib.Repetitions Peglib.Termination

set_option autoImplicit false

variable {CharT NodeType : Type}

/-- The body of the rule, in progress at the position, has matched there and
consumed nothing. -/
def MatchesInPlace (root : RuleId) (moment : Moment CharT) : Prop :=
  match moment.event with
  | .store rule pos => rule = root ∧ moment.context.lrInProgress rule pos = true ∧
      moment.context.position ≤ pos ∧
      (moment.context.memoGet rule pos).cachedResult.success = true
  | _ => False

instance (root : RuleId) : DecidablePred (@MatchesInPlace CharT root) := fun ⟨event, context⟩ =>
  match event with
  | .store rule pos => inferInstanceAs (Decidable (rule = root ∧
      context.lrInProgress rule pos = true ∧ context.position ≤ pos ∧
      (context.memoGet rule pos).cachedResult.success = true))
  | .apply _ | .failure | .onMatch _ _ => inferInstanceAs (Decidable False)

/-- No rule that the rules of the set can get to contains a cut. -/
structure CutFree (grammar : Grammar CharT NodeType) (reach : RuleId → Prop) : Prop where
  skipper : ∀ rule, grammar.skipper = some rule → reach rule
  bodies : ∀ rule, reach rule → ∃ body, grammar.body rule = some body ∧ body.Every (Sealed reach)

/-- What the recovering rule achieves: it moves, or it has been reported at the end
of the input. -/
def Fruit (input : List CharT) (context : Context CharT) (pos stop : Nat) : Prop :=
  pos < stop ∨ (input.length ≤ pos ∧ context.errors.diagnostics ≠ [])

/-- No scope is committed, the rules in progress have their rows, and every other
row of the recovering rule is a success that achieved something. -/
structure Fruitful (input : List CharT) (reach : RuleId → Prop) (root : RuleId)
    (pending : List (RuleId × Nat)) (context : Context CharT) : Prop where
  source : context.input = input
  skipper : ∀ rule, context.skipper = some rule → reach rule
  scopes : ∀ scope ∈ context.cutStack, scope.cut = false
  present : ∀ rule pos, (rule, pos) ∈ pending → (context.mem pos rule).isSome = true
  failed : ∀ pos rule row, context.mem pos rule = some row → ¬row.cachedResult.success = true →
    row.lastPos = pos
  fruit : ∀ pos row, context.mem pos root = some row → (root, pos) ∉ pending →
    row.cachedResult.success = true ∧ Fruit input context pos row.lastPos

/-- Between two steps of an expression. -/
abbrev Settled (input : List CharT) (reach : RuleId → Prop) (root : RuleId)
    (context : Context CharT) : Prop :=
  Fruitful input reach root (active context) context

def fruiting (root : RuleId) : Contract (Moment CharT) (Context CharT) Exn :=
  ⟨fun moment => ¬MatchesInPlace root moment, RowKept, fun _ _ => False⟩

section Steps

variable {input : List CharT} {reach : RuleId → Prop} {root : RuleId}
  {pending : List (RuleId × Nat)}

theorem Fruit.reported {before after : Context CharT} {pos stop : Nat}
    (fruit : Fruit input before pos stop)
    (reported : before.errors.diagnostics ≠ [] → after.errors.diagnostics ≠ []) :
    Fruit input after pos stop :=
  fruit.imp id fun atEnd => ⟨atEnd.1, reported atEnd.2⟩

theorem Fruitful.carried {before after : Context CharT}
    (fruitful : Fruitful input reach root pending before) (source : after.input = before.input)
    (skipper : after.skipper = before.skipper) (scopes : after.cutStack = before.cutStack)
    (mem : after.mem = before.mem)
    (reported : before.errors.diagnostics ≠ [] → after.errors.diagnostics ≠ []) :
    Fruitful input reach root pending after where
  source := source.trans fruitful.source
  skipper rule set := fruitful.skipper rule (skipper ▸ set)
  scopes scope member := fruitful.scopes scope (scopes ▸ member)
  present rule pos member := by
    rw [mem]
    exact fruitful.present rule pos member
  failed pos rule row held := fruitful.failed pos rule row (mem ▸ held)
  fruit pos row held fresh := by
    obtain ⟨success, fruit⟩ := fruitful.fruit pos row (mem ▸ held) fresh
    exact ⟨success, fruit.reported reported⟩

theorem Fruitful.uncommitted {context : Context CharT}
    (fruitful : Fruitful input reach root pending context) : context.cut = false := by
  unfold Context.cut
  cases stack : context.cutStack with
  | nil => rfl
  | cons scope outer => exact fruitful.scopes scope (by rw [stack]; exact List.mem_cons_self)

theorem Fruitful.rescoped {context : Context CharT}
    (fruitful : Fruitful input reach root pending context) {cutStack : List CutRecord}
    (scopes : ∀ scope ∈ cutStack, scope.cut = false) :
    Fruitful input reach root pending { context with cutStack := cutStack } :=
  ⟨fruitful.source, fruitful.skipper, scopes, fruitful.present, fruitful.failed, fruitful.fruit⟩

theorem fruitful_invariant :
    Invariant (fruiting root) input (Settled input reach root : Context CharT → Prop) where
  input _ settled := settled.source
  moved before after settled step := by
    have same : active after = active before := by unfold active; rw [step.lrStack]
    unfold Settled
    rw [same]
    exact settled.carried step.input step.skipper step.cutStack step.mem
      fun reported => step.errors.diagnostics ▸ reported
  opened context settled := settled.rescoped fun scope member => by
    rcases List.mem_cons.mp member with rfl | member
    · rfl
    · exact settled.scopes scope member
  cleared context settled := by
    unfold Context.setCut
    split
    · exact settled
    · next outer stack =>
        refine settled.rescoped fun scope member => ?_
        rcases List.mem_cons.mp member with rfl | member
        · rfl
        · exact settled.scopes scope (by rw [stack]; exact List.mem_cons_of_mem _ member)
  closed context settled := by
    unfold Context.removeCut
    split
    · exact settled
    · next scope outer stack =>
        have inner : scope.cut = false :=
          settled.scopes scope (by rw [stack]; exact List.mem_cons_self)
        rw [if_neg (by rw [inner]; exact Bool.false_ne_true)]
        exact settled.rescoped fun other member =>
          settled.scopes other (by rw [stack]; exact List.mem_cons_of_mem _ member)
  failure _ _ := trivial
  throws _ _ settled _ committed := by
    rw [settled.uncommitted] at committed
    cases committed
  unwinds _ _ := id
  relabels _ _ _ := id

theorem Fruitful.stored {context : Context CharT}
    (fruitful : Fruitful input reach root pending context) {pending' : List (RuleId × Nat)}
    {rule : RuleId} {pos : Nat} {entry : RuleState} (member : (rule, pos) ∈ pending)
    (fewer : ∀ key ∈ pending', key ∈ pending)
    (others : ∀ key ∈ pending, key ≠ (rule, pos) → key ∈ pending')
    (failed : ¬entry.cachedResult.success = true → entry.lastPos = pos)
    (fruit : rule = root → (rule, pos) ∉ pending' →
      entry.cachedResult.success = true ∧ Fruit input context pos entry.lastPos) :
    Fruitful input reach root pending' (context.updateRuleState rule pos entry).2 ∧
      (context.updateRuleState rule pos entry).2.memoGet rule pos = entry := by
  have present := fruitful.present rule pos member
  unfold Context.updateRuleState
  cases held : context.mem pos rule with
  | none => rw [held] at present; cases present
  | some row =>
      dsimp only
      refine ⟨⟨fruitful.source, fruitful.skipper, fruitful.scopes, ?_, ?_, ?_⟩, ?_⟩
      · intro rule' pos' inside
        simp only [Memo.write]
        split_ifs
        · rfl
        · exact fruitful.present rule' pos' (fewer _ inside)
      · intro pos' rule' row' found
        rcases Memo.write_eq_some found with ⟨rfl, rfl, rfl⟩ | ⟨-, before⟩
        · exact failed
        · exact fruitful.failed pos' rule' row' before
      · intro pos' row' found fresh
        rcases Memo.write_eq_some found with ⟨rfl, rfl, rfl⟩ | ⟨different, before⟩
        · exact fruit rfl fresh
        · refine fruitful.fruit pos' row' before fun inside => fresh (others _ inside ?_)
          intro same
          rw [Prod.mk.injEq] at same
          exact different same.symm
      · simp [Context.memoGet, Memo.write]

theorem store_fruitful {context : Context CharT}
    (fruitful : Fruitful input reach root pending context) {pending' : List (RuleId × Nat)}
    {rule : RuleId} {pos : Nat} (entry : RuleState) (member : (rule, pos) ∈ pending)
    (fewer : ∀ key ∈ pending', key ∈ pending)
    (others : ∀ key ∈ pending, key ≠ (rule, pos) → key ∈ pending')
    (failed : ¬entry.cachedResult.success = true → entry.lastPos = pos)
    (fruit : rule = root → (rule, pos) ∉ pending' →
      entry.cachedResult.success = true ∧ Fruit input context pos entry.lastPos) :
    wp (fruiting root) (NonTerminal.store rule pos entry) (fun _ last =>
      last = (context.updateRuleState rule pos entry).2 ∧
      Fruitful input reach root pending' last ∧ last.memoGet rule pos = entry ∧
      ¬MatchesInPlace root ⟨.store rule pos, last⟩) context := by
  rw [NonTerminal.store, wp_bind, wp_modifyGet, wp_bind, announce, wp_announce]
  intro moves
  have stored := fruitful.stored member fewer others failed fruit
  exact ⟨trivial, rfl, stored.1, stored.2, moves⟩

theorem clear_siblings_fruitful {context : Context CharT} {rule : RuleId} {pos : Nat}
    (settled : Settled input reach root context) :
    Fruitful input reach root (active context) (context.clearSiblingsAt pos rule) := by
  refine ⟨settled.source, settled.skipper, settled.scopes, fun rule' pos' member => ?_, ?_, ?_⟩
  · have held := settled.present rule' pos' member
    simp only [Context.clearSiblingsAt]
    rw [if_neg]
    · exact held
    · rintro ⟨rfl, dropped⟩
      exact dropped (Or.inr (in_progress_iff.mpr member))
  · intro pos' rule' row held
    simp only [Context.clearSiblingsAt] at held
    split_ifs at held
    exact settled.failed pos' rule' row held
  · intro pos' row held fresh
    simp only [Context.clearSiblingsAt] at held
    split_ifs at held
    exact settled.fruit pos' row held fresh

end Steps

section RuleApplication

variable {input : List CharT} {reach : RuleId → Prop} {root : RuleId}
  {pending : List (RuleId × Nat)}

/-- The head of the growth loop: a failing best result stays at the start, and one of
the recovering rule has moved. -/
structure Ripening (input : List CharT) (reach : RuleId → Prop) (root : RuleId)
    (pending : List (RuleId × Nat)) (rule : RuleId) (startPos : Nat) (context : Context CharT)
    (best : ParseResult) (ruleState : RuleState) : Prop where
  fruitful : Fruitful input reach root ((rule, startPos) :: pending) context
  active : active context = (rule, startPos) :: pending
  last : (NonTerminal.frame context).lastPos = ruleState.lastPos
  seed : ¬best.success = true → ruleState.lastPos = startPos
  forward : startPos ≤ ruleState.lastPos
  moved : rule = root → best.success = true → startPos < ruleState.lastPos

theorem active_of_stack {before after : Context CharT} (same : after.lrStack = before.lrStack) :
    active after = active before := by
  unfold active
  rw [same]

theorem set_frame_last {context : Context CharT} (filled : active context ≠ []) (pos : Nat) :
    active (NonTerminal.setFrameLastPos pos context) = active context ∧
      (NonTerminal.frame (NonTerminal.setFrameLastPos pos context)).lastPos = pos := by
  unfold active NonTerminal.frame NonTerminal.setFrameLastPos at *
  cases stack : context.lrStack with
  | nil => rw [stack] at filled; exact absurd rfl filled
  | cons top rest => exact ⟨rfl, rfl⟩

theorem grow_loop_fruitful {rule : RuleId} {startPos : Nat} {parseBody : Parser CharT ParseResult}
    {sem : Option RuleId → Nat → Option Nat → Prop}
    (evaluates : Evaluates (fruiting root) (Settled input reach root) parseBody sem)
    (stable : StableParser parseBody) (fuel : Nat) (best : ParseResult) (ruleState : RuleState)
    (context : Context CharT)
    (ripening : Ripening input reach root pending rule startPos context best ruleState) :
    wp (fruiting root) (NonTerminal.growLoop rule startPos parseBody fuel best ruleState)
      (fun grown last => Ripening input reach root pending rule startPos last grown.1 grown.2)
      context := by
  induction fuel generalizing best ruleState context with
  | zero => exact trivial
  | succ fuel induction =>
      rw [NonTerminal.growLoop, wp_bind, wp_modify, wp_bind, wp_read, wp_bind]
      have reset : Settled input reach root (context.reset startPos) := by
        have same : active (context.reset startPos) = (rule, startPos) :: pending := ripening.active
        unfold Settled
        rw [same]
        exact ripening.fruitful.carried rfl rfl rfl rfl id
      have cleared : wp (fruiting root)
          (Comp.onlyIf ((NonTerminal.frame (context.reset startPos)).isHead = true ∧
              best.success = true)
            (Comp.modify fun context => context.clearSiblingsAt startPos rule))
          (fun _ here => Settled input reach root here ∧ here.lrStack = context.lrStack)
          (context.reset startPos) := by
        rw [wp_onlyIf, wp_modify]
        exact ⟨fun _ => ⟨clear_siblings_fruitful reset, rfl⟩, fun _ => ⟨reset, rfl⟩⟩
      refine wp_post cleared ?_
      rintro ⟨⟩ here ⟨settled, sameStack⟩
      rw [wp_bind]
      refine wp_post (wp_preserves (evaluates here settled) stable) ?_
      rintro result after ⟨⟨settledAfter, -, -⟩, step⟩
      have activeAfter : active after = (rule, startPos) :: pending :=
        (active_of_frames step.frames).trans ((active_of_stack sameStack).trans ripening.active)
      have lastAfter : (NonTerminal.frame after).lastPos = ruleState.lastPos := by
        rw [frame_last_of_frames step.frames, ← ripening.last, NonTerminal.frame, NonTerminal.frame,
          sameStack]
      have fruitfulAfter : Fruitful input reach root ((rule, startPos) :: pending) after :=
        activeAfter ▸ settledAfter
      have filled : active after ≠ [] := by rw [activeAfter]; exact List.cons_ne_nil _ _
      rw [wp_bind, wp_read, wp_ite]
      dsimp only [id]
      constructor
      · intro success
        rw [wp_ite]
        constructor
        · intro progress
          rw [lastAfter] at progress
          have beyond := Nat.lt_of_le_of_lt ripening.forward progress
          rw [wp_bind, wp_modify, wp_bind]
          obtain ⟨activeMarked, lastMarked⟩ := set_frame_last filled after.position
          have marked : Fruitful input reach root ((rule, startPos) :: pending)
              (NonTerminal.setFrameLastPos after.position after) :=
            fruitfulAfter.carried rfl rfl rfl rfl id
          refine wp_post (store_fruitful marked ⟨after.position, result⟩
            List.mem_cons_self (fun _ => id) (fun _ member _ => member)
            (fun failure => absurd success failure)
            (fun _ fresh => absurd List.mem_cons_self fresh)) ?_
          rintro present last ⟨rfl, stored, -, -⟩
          have kept := SuccessfulAnswers.update_framed
            (NonTerminal.setFrameLastPos after.position after) rule startPos ⟨after.position, result⟩
          have next : Ripening input reach root pending rule startPos
              ((NonTerminal.setFrameLastPos after.position after).updateRuleState rule startPos
                ⟨after.position, result⟩).2 result ⟨after.position, result⟩ := by
            refine ⟨stored, ?_, ?_, fun failure => absurd success failure, Nat.le_of_lt beyond,
              fun _ _ => beyond⟩
            · exact (active_of_stack kept.2.1).trans (activeMarked.trans activeAfter)
            · rw [NonTerminal.frame, kept.2.1]
              exact lastMarked
          rw [wp_ite]
          exact ⟨fun _ => induction _ _ _ next, fun _ => next⟩
        · intro stuck
          rw [lastAfter] at stuck ⊢
          have adopted : (if best.success then best else result).success = true := by
            split_ifs with held
            · exact held
            · exact success
          rw [wp_bind]
          refine wp_post (store_fruitful fruitfulAfter
            ⟨ruleState.lastPos, if best.success then best else result⟩
            List.mem_cons_self (fun _ => id) (fun _ member _ => member)
            (fun failure => absurd adopted failure)
            (fun _ fresh => absurd List.mem_cons_self fresh)) ?_
          rintro present last ⟨rfl, stored, found, moves⟩
          have kept := SuccessfulAnswers.update_framed after rule startPos
            ⟨ruleState.lastPos, if best.success then best else result⟩
          have activeLast := (active_of_stack kept.2.1).trans activeAfter
          rw [wp_pure]
          refine ⟨stored, activeLast, ?_, fun failure => absurd adopted failure, ripening.forward, ?_⟩
          · rw [NonTerminal.frame, kept.2.1]
            exact lastAfter
          · -- The first match of the recovering rule would have been a match in place.
            rintro rfl -
            by_cases held : best.success = true
            · exact ripening.moved rfl held
            · refine absurd ⟨rfl, in_progress_iff.mpr ?_, ?_, ?_⟩ moves
              · rw [activeLast]
                exact List.mem_cons_self
              · rw [kept.2.2]
                have atSeed := ripening.seed held
                omega
              · dsimp only
                rw [found]
                exact adopted
      · intro failure
        rw [wp_pure]
        exact ⟨fruitfulAfter, activeAfter, lastAfter, ripening.seed, ripening.forward,
          ripening.moved⟩

/-- The rule is on the invocation stack and its failing seed in the memo while its body
is evaluated; afterwards only its row is left to be written. -/
theorem invoke_fruitful {rule : RuleId} {parseBody : Parser CharT ParseResult}
    {sem : Option RuleId → Nat → Option Nat → Prop}
    (evaluates : Evaluates (fruiting root) (Settled input reach root) parseBody sem)
    (stable : StableParser parseBody) (fuel : Nat) {context : Context CharT}
    (settled : Settled input reach root context)
    (absent : context.mem context.position rule = none) :
    wp (fruiting root) (NonTerminal.invoke rule context.position (some parseBody) fuel)
      (fun grown last => Fruitful input reach root ((rule, context.position) :: active context) last ∧
        last.position = grown.2.lastPos ∧
        (¬grown.1.success = true → grown.2.lastPos = context.position) ∧
        (rule = root → grown.1.success = true → context.position < grown.2.lastPos))
      { context with mem := context.mem.write context.position rule {} } := by
  rw [NonTerminal.invoke, wp_bind, wp_modify, wp_bind, NonTerminal.parseImpl, wp_bind,
    NonTerminal.store, wp_bind, wp_modifyGet, wp_bind, announce, wp_announce]
  refine fun _ => ⟨trivial, ?_⟩
  rw [wp_pure, wp_bind]
  have fresh : (rule, context.position) ∉ active context := by
    intro inside
    have held := settled.present rule context.position inside
    rw [absent] at held
    cases held
  have kept := SuccessfulAnswers.update_framed (Termination.entered rule context) rule context.position
    ⟨context.position, {}⟩
  have seeded : ((Termination.entered rule context).updateRuleState rule context.position
      ⟨context.position, {}⟩).2 = { Termination.entered rule context with
        mem := (context.mem.write context.position rule {}).write context.position rule
          ⟨context.position, {}⟩ } := by
    have held : (Termination.entered rule context).mem context.position rule = some {} := by
      simp [Termination.entered, Context.lrPush, Memo.write]
    unfold Context.updateRuleState
    rw [held]
    rfl
  have planted : Fruitful input reach root ((rule, context.position) :: active context)
      ((Termination.entered rule context).updateRuleState rule context.position ⟨context.position, {}⟩).2 := by
    rw [seeded]
    refine ⟨settled.source, settled.skipper, settled.scopes, ?_, ?_, ?_⟩
    · intro rule' pos' member
      simp only [Memo.write]
      split_ifs with same
      · rfl
      · rcases List.mem_cons.mp member with pair | inside
        · rw [Prod.mk.injEq] at pair
          exact absurd pair.symm same
        · exact settled.present rule' pos' inside
    · intro pos' rule' row' found failure
      rcases Memo.write_eq_some found with ⟨rfl, rfl, rfl⟩ | ⟨different, earlier⟩
      · rfl
      · rcases Memo.write_eq_some earlier with ⟨rfl, rfl, -⟩ | ⟨-, before⟩
        · exact absurd ⟨rfl, rfl⟩ different
        · exact settled.failed pos' rule' row' before failure
    · intro pos' row' found outside
      rcases Memo.write_eq_some found with ⟨rfl, rfl, rfl⟩ | ⟨different, earlier⟩
      · exact absurd List.mem_cons_self outside
      · rcases Memo.write_eq_some earlier with ⟨rfl, rfl, -⟩ | ⟨-, before⟩
        · exact absurd ⟨rfl, rfl⟩ different
        · exact settled.fruit pos' row' before fun inside =>
            outside (List.mem_cons_of_mem _ inside)
  have begins : Ripening input reach root (active context) rule context.position
      ((Termination.entered rule context).updateRuleState rule context.position ⟨context.position, {}⟩).2 {}
      ⟨context.position, {}⟩ := by
    refine ⟨planted, active_of_stack kept.2.1, ?_, fun _ => rfl, Nat.le_refl _, by simp⟩
    rw [NonTerminal.frame, kept.2.1]
    rfl
  refine wp_post (grow_loop_fruitful evaluates stable fuel _ _ _ begins) ?_
  rintro ⟨best, ruleState⟩ last ripening
  rw [wp_bind, wp_modify, wp_pure, wp_bind, wp_modify, wp_pure]
  have left : ∀ here : Context CharT, (NonTerminal.leave context.position here).position = here.position ∧
      (Fruitful input reach root ((rule, context.position) :: active context) here →
        Fruitful input reach root ((rule, context.position) :: active context)
          (NonTerminal.leave context.position here)) := by
    intro here
    unfold NonTerminal.leave
    split_ifs <;> exact ⟨rfl, fun held => held.carried rfl rfl rfl rfl id⟩
  refine ⟨(left _).2 (ripening.fruitful.carried rfl rfl rfl rfl id), ?_, ripening.seed,
    ripening.moved⟩
  rw [(left _).1]
  exact ripening.last

theorem store_finished {context : Context CharT} {rule : RuleId} {startPos : Nat}
    (fruitful : Fruitful input reach root ((rule, startPos) :: pending) context) (entry : RuleState)
    (failed : ¬entry.cachedResult.success = true → entry.lastPos = startPos)
    (fruit : rule = root →
      entry.cachedResult.success = true ∧ Fruit input context startPos entry.lastPos) :
    wp (fruiting root) (NonTerminal.store rule startPos entry)
      (fun _ last => Fruitful input reach root pending last ∧ last.position = context.position ∧
        last.errors = context.errors) context := by
  have others : ∀ key ∈ (rule, startPos) :: pending, key ≠ (rule, startPos) → key ∈ pending := by
    intro key member different
    rcases List.mem_cons.mp member with same | inside
    · exact absurd same different
    · exact inside
  refine wp_post (store_fruitful fruitful entry List.mem_cons_self
    (fun _ => List.mem_cons_of_mem _) others failed fun same _ => fruit same) ?_
  rintro _ last ⟨rfl, stored, -, -⟩
  refine ⟨stored, (SuccessfulAnswers.update_framed context rule startPos entry).2.2, ?_⟩
  unfold Context.updateRuleState
  split <;> rfl

theorem build_node_fruitful (nonTerminal : NonTerminal CharT NodeType) (rule : RuleId)
    (startPos : Nat) (inner : Option NodePtr) {context : Context CharT}
    (fruitful : Fruitful input reach root pending context) :
    wp (fruiting root) (NonTerminal.buildNode nonTerminal rule startPos inner)
      (fun _ last => Fruitful input reach root pending last ∧ last.position = context.position)
      context := by
  unfold NonTerminal.buildNode
  split
  · rw [wp_bind, wp_modifyGet, wp_bind, wp_modify, wp_bind, wp_modify, wp_pure]
    cases inner <;> exact ⟨fruitful.carried rfl rfl rfl rfl id, rfl⟩
  · rw [wp_bind]
    cases inner <;> exact ⟨fruitful.carried rfl rfl rfl rfl id, rfl⟩

theorem finish_success_fruitful (nonTerminal : NonTerminal CharT NodeType) {rule : RuleId}
    {startPos : Nat} {inner : ParseResult} {ruleState : RuleState} {context : Context CharT}
    (fruitful : Fruitful input reach root ((rule, startPos) :: pending) context)
    (stopped : context.position = ruleState.lastPos)
    (moved : rule = root → startPos < ruleState.lastPos) :
    wp (fruiting root) (NonTerminal.finishSuccess nonTerminal rule startPos inner ruleState)
      (fun result last => Fruitful input reach root pending last ∧ result.success = true ∧
        last.position = ruleState.lastPos) context := by
  rw [NonTerminal.finishSuccess, wp_bind]
  refine wp_post (build_node_fruitful nonTerminal rule startPos inner.tree fruitful) ?_
  rintro node built ⟨builtFruitful, samePos⟩
  rw [wp_bind]
  refine wp_post (store_finished builtFruitful ⟨ruleState.lastPos, ⟨true, some node⟩⟩
    (fun failure => absurd rfl failure) fun same => ⟨rfl, Or.inl (moved same)⟩) ?_
  rintro _ last ⟨stored, kept, -⟩
  exact ⟨stored, rfl, kept.trans (samePos.trans stopped)⟩

/-- The scan for a sync token moves, unless the end of the input is reached already. -/
theorem resume_moves {isSyncToken : CharT → Bool} {context : Context CharT} {startPos : Nat}
    (inside : startPos < context.inputSize) :
    startPos < (if NonTerminal.scanSync isSyncToken context startPos < context.inputSize then
      NonTerminal.scanSync isSyncToken context startPos + 1 else context.inputSize) := by
  split_ifs
  · unfold NonTerminal.scanSync
    omega
  · exact inside

theorem finish_failure_fruitful (nonTerminal : NonTerminal CharT NodeType) {rule : RuleId}
    (recovers : rule = root → nonTerminal.recover.isSyncToken.isSome = true) {startPos : Nat}
    {ruleState : RuleState} {context : Context CharT}
    (fruitful : Fruitful input reach root ((rule, startPos) :: pending) context)
    (stopped : context.position = startPos) (seed : ruleState.lastPos = startPos) :
    wp (fruiting root) (NonTerminal.finishFailure nonTerminal rule startPos ruleState)
      (fun result last => Fruitful input reach root pending last ∧
        (¬result.success = true → last.position = startPos) ∧
        (rule = root → result.success = true ∧ Fruit input last startPos last.position))
      context := by
  rw [NonTerminal.finishFailure, wp_bind, wp_modify, wp_bind, wp_read]
  dsimp only [id]
  obtain ⟨errors, recorded⟩ :=
    NonTerminal.record_rule_failure_frame nonTerminal startPos context
  have noticed : Noticed context.errors
      (NonTerminal.recordRuleFailure nonTerminal startPos context).errors := by
    unfold NonTerminal.recordRuleFailure
    split_ifs
    · exact record_failure_noticed _ _ _
    · exact record_failure_noticed _ _ _
    · exact .refl _
  have kept : Fruitful input reach root ((rule, startPos) :: pending)
      (NonTerminal.recordRuleFailure nonTerminal startPos context) := by
    refine fruitful.carried ?_ ?_ ?_ ?_ fun reported => noticed.diagnostics ▸ reported
    all_goals rw [recorded]
  have samePos : (NonTerminal.recordRuleFailure nonTerminal startPos context).position = startPos := by
    rw [recorded]
    exact stopped
  have uncut := kept.uncommitted
  have size : (NonTerminal.recordRuleFailure nonTerminal startPos context).inputSize =
      input.length := congrArg List.length kept.source
  revert kept samePos uncut size
  generalize NonTerminal.recordRuleFailure nonTerminal startPos context = here
  intro kept samePos uncut size
  rw [uncut]
  cases configured : nonTerminal.recover.isSyncToken with
  | none =>
      dsimp only
      rw [wp_bind]
      have other : rule ≠ root := by
        intro same
        have present := recovers same
        rw [configured] at present
        cases present
      refine wp_post (store_finished kept ⟨ruleState.lastPos, ⟨false, none⟩⟩ (fun _ => seed)
        fun same => absurd same other) ?_
      rintro _ last ⟨stored, position, -⟩
      exact ⟨stored, fun _ => position.trans samePos, fun same => absurd same other⟩
  | some isSyncToken =>
      have reported : ∀ diagnostic,
          (here.errors.recordDiagnostic diagnostic).diagnostics ≠ [] := fun _ =>
        List.append_ne_nil_of_right_ne_nil _ (List.cons_ne_nil _ _)
      have resumed : ∀ resumeAt diagnostic, Fruitful input reach root ((rule, startPos) :: pending)
          ((here.reset resumeAt).recordDiagnostic diagnostic) := fun _ _ =>
        kept.carried rfl rfl rfl rfl fun _ => reported _
      have fruit : ∀ last : Context CharT, last.errors.diagnostics ≠ [] →
          Fruit input last startPos (if NonTerminal.scanSync isSyncToken here startPos < here.inputSize
            then NonTerminal.scanSync isSyncToken here startPos + 1 else here.inputSize) := by
        intro last held
        rcases Nat.lt_or_ge startPos here.inputSize with inside | beyond
        · exact Or.inl (resume_moves inside)
        · exact Or.inr ⟨size ▸ beyond, held⟩
      dsimp only
      rw [wp_bind, wp_modify, wp_bind]
      refine wp_post (store_finished (resumed _ _) ⟨_, ⟨true, none⟩⟩
        (fun failure => absurd rfl failure) fun _ => ⟨rfl, fruit _ (reported _)⟩) ?_
      rintro _ last ⟨stored, position, errors⟩
      rw [wp_pure]
      refine ⟨stored, fun failure => absurd rfl failure, fun _ => ⟨rfl, ?_⟩⟩
      rw [position]
      exact fruit last (by rw [errors]; exact reported _)

theorem replay_fruitful {rule : RuleId} {row : RuleState} {context : Context CharT}
    (settled : Settled input reach root context)
    (held : context.mem context.position rule = some row) :
    wp (fruiting root) (NonTerminal.replay rule context.position row)
      (fun result last => Fruitful input reach root (active context) last ∧
        result = row.cachedResult ∧ last.position = row.lastPos ∧ last.errors = context.errors)
      context := by
  have live : ∀ here : Context CharT, here.mem = context.mem →
      here.memoGet rule context.position = row := by
    intro here same
    rw [Context.memoGet, same, held, Option.getD_some]
  rw [NonTerminal.replay, wp_bind, wp_read]
  dsimp only [id]
  rw [wp_ite]
  constructor
  · intro _
    have marked : (context.markHead rule context.position).mem = context.mem ∧
        (context.markHead rule context.position).errors = context.errors ∧
        Fruitful input reach root (active context) (context.markHead rule context.position) := by
      unfold Context.markHead
      split
      · split_ifs
        · exact ⟨rfl, rfl, settled⟩
        · exact ⟨rfl, rfl, settled.carried rfl rfl rfl rfl id⟩
      · exact ⟨rfl, rfl, settled⟩
    rw [wp_bind, wp_modify, wp_bind, wp_modify, wp_pure, live _ rfl]
    refine ⟨marked.2.2.carried rfl rfl rfl rfl id, rfl, ?_, marked.2.1⟩
    exact congrArg RuleState.lastPos (live _ marked.1)
  · intro _
    split
    · rw [wp_ite]
      refine ⟨fun _ => ?_, fun _ => ?_⟩
      · rw [wp_bind, wp_modify, wp_pure, live _ rfl]
        exact ⟨settled.carried rfl rfl rfl rfl id, rfl, rfl, rfl⟩
      · exact ⟨settled.carried rfl rfl rfl rfl id, rfl, rfl, rfl⟩
    · exact ⟨settled.carried rfl rfl rfl rfl id, rfl, rfl, rfl⟩

/-- What an application of a rule adds to the control discipline. -/
def Bears (input : List CharT) (reach : RuleId → Prop) (root rule : RuleId)
    (parser : Parser CharT ParseResult) : Prop :=
  ∀ context, Settled input reach root context → wp (fruiting root) parser
    (fun result last => Fruitful input reach root (active context) last ∧
      (¬result.success = true → last.position = context.position) ∧
      (rule = root → (root, context.position) ∉ active context →
        result.success = true ∧ Fruit input last context.position last.position)) context

theorem parse_fruitful (nonTerminal : NonTerminal CharT NodeType) {rule : RuleId}
    (recovers : rule = root → nonTerminal.recover.isSyncToken.isSome = true)
    {parseBody : Parser CharT ParseResult} {sem : Option RuleId → Nat → Option Nat → Prop}
    (evaluates : Evaluates (fruiting root) (Settled input reach root) parseBody sem)
    (stable : StableParser parseBody) (fuel : Nat) :
    Bears input reach root rule (NonTerminal.parse nonTerminal rule (some parseBody) fuel) := by
  intro context settled
  rw [NonTerminal.parse, wp_bind, announce, wp_announce]
  refine fun _ => ⟨fun inside => settled.present _ _ (in_progress_iff.mp inside), ?_⟩
  rw [wp_bind, wp_read, wp_bind, wp_modifyGet, wp_ite]
  unfold Context.ruleState
  cases held : context.mem context.position rule with
  | some row =>
      refine ⟨fun present => absurd present Bool.false_ne_true, fun _ => ?_⟩
      refine wp_post (replay_fruitful settled held) ?_
      rintro result last ⟨kept, rfl, position, errors⟩
      refine ⟨kept, fun failure => position.trans (settled.failed _ _ _ held failure), ?_⟩
      rintro rfl fresh
      obtain ⟨success, fruit⟩ := settled.fruit _ _ held fresh
      refine ⟨success, position ▸ fruit.reported fun reported => ?_⟩
      rw [errors]
      exact reported
  | none =>
      refine ⟨fun _ => ?_, fun absent => absurd rfl absent⟩
      rw [wp_bind]
      refine wp_post (invoke_fruitful evaluates stable fuel settled held) ?_
      rintro grown last ⟨fruitful, position, seed, moved⟩
      rw [wp_ite]
      constructor
      · intro success
        refine wp_post (finish_success_fruitful nonTerminal fruitful position
          fun same => moved same success) ?_
        rintro result final ⟨kept, succeeded, stop⟩
        refine ⟨kept, fun failure => absurd succeeded failure, fun same _ => ⟨succeeded, ?_⟩⟩
        rw [stop]
        exact Or.inl (moved same success)
      · intro failure
        refine wp_post (finish_failure_fruitful nonTerminal recovers fruitful
          (position.trans (seed failure)) (seed failure)) ?_
        rintro result final ⟨kept, stayed, fruit⟩
        exact ⟨kept, stayed, fun same _ => fruit same⟩

variable [PegValue CharT] {grammar : Grammar CharT NodeType}

omit [PegValue CharT] in
theorem sealed_admits {expr : Expr CharT} (closed : expr.Every (Sealed reach)) :
    expr.Every (Admits reach (fun _ _ _ => True) (Settled input reach root)) := by
  refine closed.mono fun part holds => ?_
  cases part with
  | rule id => exact holds
  | cut => exact absurd holds id
  | matcher fn => exact fun _ _ => trivial
  | _ => trivial

theorem apply_bears (closed : CutFree grammar reach)
    (recovers : (grammar.nonTerminal root).recover.isSyncToken.isSome = true) (fuel : Nat)
    (rule : RuleId) (member : reach rule) :
    Bears input reach root rule (grammar.apply fuel rule) ∧
      Evaluates (fruiting root) (Settled input reach root) (grammar.apply fuel rule)
        fun _ _ _ => True := by
  have evaluates : ∀ fuel rule, Bears input reach root rule (grammar.apply fuel rule) →
      Evaluates (fruiting root) (Settled input reach root) (grammar.apply fuel rule)
        fun _ _ _ => True := by
    intro fuel rule bears context settled
    refine wp_post (wp_preserves (bears context settled) (apply_stable grammar fuel rule)) ?_
    rintro result last ⟨⟨fruitful, stayed, -⟩, step⟩
    refine ⟨?_, ⟨step.skipper, step.skipEnabled⟩, ?_⟩
    · rw [Settled, active_of_frames step.frames]
      exact fruitful
    unfold Answers
    split_ifs with success
    · trivial
    · exact ⟨stayed success, trivial⟩
  suffices bears : Bears input reach root rule (grammar.apply fuel rule) from
    ⟨bears, evaluates fuel rule bears⟩
  induction fuel generalizing rule with
  | zero => exact fun _ _ => trivial
  | succ fuel induction =>
      obtain ⟨body, assigned, sealed'⟩ := closed.bodies rule member
      have run : grammar.apply (fuel + 1) rule = NonTerminal.parse (grammar.nonTerminal rule) rule
          (some (body.parse (grammar.apply fuel) fuel)) fuel := by
        rw [Grammar.apply, assigned]
        rfl
      have evaluated : Evaluates (fruiting root) (Settled input reach root)
          (body.parse (grammar.apply fuel) fuel) fun mode pos outcome =>
            Peg input (fun _ _ _ => True) (fun _ _ _ _ _ => True) () mode (.expr body) pos outcome :=
        expr_evaluates fruitful_invariant
          (fun id inside => evaluates fuel id (induction id inside))
          (fun context settled rule set => settled.skipper rule set) fuel (sealed_admits sealed')
      rw [run]
      exact parse_fruitful (grammar.nonTerminal rule) (fun same => by rw [same]; exact recovers)
        evaluated (eval_stable grammar fuel body) fuel

end RuleApplication

section Loop

variable [PegValue CharT] {grammar : Grammar CharT NodeType} {input : List CharT}
  {reach : RuleId → Prop} {root : RuleId} {skipper : Option RuleId}

/-- Between two steps of the repetition, no rule being in progress. -/
structure Safe (input : List CharT) (reach : RuleId → Prop) (root : RuleId)
    (skipper : Option RuleId) (context : Context CharT) : Prop where
  settled : Settled input reach root context
  ready : Ready input skipper [] context

omit [PegValue CharT] in
theorem Safe.pushed {context : Context CharT} (safe : Safe input reach root skipper context)
    (node : NodePtr) (tree : Option NodePtr) :
    Safe input reach root skipper (pushChild node tree context) :=
  ⟨push_child_inv fruitful_invariant safe.settled node tree, push_child_ready safe.ready node tree⟩

omit [PegValue CharT] in
theorem Safe.uncut {context : Context CharT} (safe : Safe input reach root skipper context) :
    Safe input reach root skipper (context.setCut false) ∧
      (context.setCut false).position = context.position := by
  refine ⟨⟨fruitful_invariant.cleared context safe.settled, ?_⟩, ?_⟩ <;> unfold Context.setCut <;> split
  · exact safe.ready
  · exact safe.ready.moved rfl rfl rfl rfl safe.ready.inside
  · rfl
  · rfl

variable (inRange : InRange grammar) (closed : CutFree grammar reach)
  (recovers : (grammar.nonTerminal root).recover.isSyncToken.isSome = true)

include inRange closed recovers

theorem skip_safe (fuel count : Nat) {context : Context CharT}
    (safe : Safe input reach root skipper context) :
    wp (fruiting root) (Comp.onlyIf (0 < count) (runSkipper (grammar.apply fuel)))
      (fun _ last => Safe input reach root skipper last ∧ context.position ≤ last.position)
      context := by
  have skips : Skips (fruiting root) (Settled input reach root) (runSkipper (grammar.apply fuel))
      fun mode pos outcome =>
        Peg input (fun _ _ _ => True) (fun _ _ _ _ _ => True) () mode .skip pos outcome :=
    skipper_skips fruitful_invariant
      (fun rule inside => (apply_bears closed recovers fuel rule inside).2)
      fun context settled rule set => settled.skipper rule set
  rw [wp_onlyIf]
  refine ⟨fun _ => ?_, fun _ => ⟨safe, Nat.le_refl _⟩⟩
  refine wp_post (wp_with (skips context safe.settled)
    (skip_advances inRange fuel context safe.ready) fun _ _ => trivial) ?_
  rintro _ last ⟨⟨settled, -, -⟩, ready, forward, -⟩
  exact ⟨⟨settled, ready⟩, forward⟩

/-- Every iteration matches, and moves unless it is at the end of the input. -/
theorem child_safe (member : reach root) (fuel : Nat) {context : Context CharT}
    (safe : Safe input reach root skipper context) :
    wp (fruiting root) (grammar.apply fuel root)
      (fun result last => Safe input reach root skipper last ∧ result.success = true ∧
        (context.position < last.position ∨ last.position = context.position ∧
          last.position = input.length ∧ last.errors.diagnostics ≠ [])) context := by
  have bears := (apply_bears closed recovers fuel root member).1 context safe.settled
  refine wp_post (wp_with bears (apply_advances inRange fuel root context safe.ready)
    fun _ _ => trivial) ?_
  rintro result last ⟨⟨fruitful, -, achieved⟩, ready, forward, frames⟩
  have same := active_of_frames frames
  have idle : (root, context.position) ∉ active context := by
    rw [safe.ready.pending]
    exact List.not_mem_nil
  obtain ⟨success, fruit⟩ := achieved rfl idle
  have settled : Settled input reach root last := by
    rw [Settled, same]
    exact fruitful
  refine ⟨⟨settled, ready⟩, success, ?_⟩
  have inside := ready.inside
  rcases Nat.lt_or_ge context.position last.position with moved | stayed
  · exact Or.inl moved
  · rcases fruit with moved | ⟨atEnd, reported⟩
    · exact Or.inl moved
    · exact Or.inr ⟨by omega, by omega, reported⟩

theorem repeat_loop_arrives (member : reach root) (fuel : Nat) {maxRep : Int}
    (unbounded : maxRep < 0) (node : NodePtr) (budget count last : Nat) {context : Context CharT}
    (safe : Safe input reach root skipper context) :
    wp (fruiting root)
      (repeatLoop (runSkipper (grammar.apply fuel)) (grammar.apply fuel root) maxRep node budget count last)
      (fun ended final => ended.exitedViaFailure = false ∧ final.position = input.length ∧
        final.errors.diagnostics ≠ []) context := by
  induction budget generalizing count last context with
  | zero => exact trivial
  | succ budget induction =>
      rw [repeatLoop, wp_bind]
      refine wp_post (skip_safe inRange closed recovers fuel count safe) ?_
      rintro _ start ⟨atStart, -⟩
      obtain ⟨uncut, samePos⟩ := atStart.uncut
      rw [wp_bind, wp_read, wp_bind, wp_modify, wp_bind]
      refine wp_post (child_safe inRange closed recovers member fuel uncut) ?_
      rintro result after ⟨atAfter, success, moves⟩
      rw [samePos] at moves
      rw [wp_ite]
      refine ⟨fun _ => ?_, fun failure => absurd success failure⟩
      rw [wp_bind, wp_read, wp_bind, wp_modify, wp_ite,
        not_bound_reached (Int.le_of_lt unbounded), Bool.false_or,
        decide_eq_true_iff]
      refine ⟨fun stopped => ?_, fun _ => induction _ _ (atAfter.pushed node result.tree)⟩
      rcases moves with moved | ⟨-, atEnd, reported⟩
      · exact absurd stopped (Nat.ne_of_gt moved)
      · cases result.tree <;> exact ⟨rfl, atEnd, reported⟩

/-- A repetition of the rule arrives at the end of the input, and a diagnostic has been
recorded by then. -/
theorem repetition_arrives (member : reach root) (fuel : Nat) {context : Context CharT}
    (safe : Safe input reach root skipper context) :
    wp (fruiting root) (grammar.eval fuel (.repetition .zeroOrMore (.rule root)))
      (fun result last => result.success = true ∧ last.position = input.length ∧
        last.errors.diagnostics ≠ []) context := by
  have run : grammar.eval fuel (.repetition .zeroOrMore (.rule root)) =
      repeatParseImpl fuel (runSkipper (grammar.apply fuel)) (grammar.apply fuel root) 0 (-1) := rfl
  rw [run, repeatParseImpl, wp_bind, wp_modify, wp_guarded, wp_bind, wp_read, wp_bind, wp_modifyGet,
    wp_bind, wp_modify, wp_bind]
  have opened : Safe input reach root skipper
      (markStart context.initCut.makeNode.1 context.initCut.makeNode.2) := by
    refine ⟨?_, safe.ready.moved rfl rfl rfl rfl safe.ready.inside⟩
    exact moved_inv fruitful_invariant (fruitful_invariant.opened context safe.settled) rfl rfl rfl rfl
      rfl rfl (.refl _)
  refine wp_mono (repeat_loop_arrives inRange closed recovers member fuel (by decide)
    context.initCut.makeNode.1 fuel 0 context.initCut.position opened) (fun _ => id) (fun _ _ => id)
    (fun _ _ => id) ?_
  rintro ended last ⟨matched, atEnd, reported⟩
  have closing : ∀ here : Context CharT, here.removeCut.position = here.position ∧
      here.removeCut.errors = here.errors := by
    intro here
    unfold Context.removeCut
    split
    · exact ⟨rfl, rfl⟩
    · split_ifs <;> exact ⟨rfl, rfl⟩
  rw [wp_ite]
  refine ⟨fun few => absurd few (Nat.not_lt_zero _), fun _ => ?_⟩
  rw [repeatFinish, wp_bind, wp_onlyIf]
  refine ⟨fun failed => ?_, fun _ => ?_⟩
  · rw [matched] at failed
    cases failed
  · rw [wp_bind, wp_onlyIf]
    refine ⟨fun failed => ?_, fun _ => ?_⟩
    · rw [matched] at failed
      cases failed.2
    · rw [wp_bind, wp_modify, wp_pure]
      refine ⟨rfl, ?_, ?_⟩
      · rw [(closing _).1]
        exact atEnd
      · rw [(closing _).2]
        exact reported

/-- Every iteration of the loop matches, and all but the last one consume something. -/
theorem iterations_progress (member : reach root) (fuel : Nat) {maxRep : Int}
    (node : NodePtr) (budget count last : Nat) {context : Context CharT}
    (safe : Safe input reach root skipper context)
    (moves : ∀ moment ∈ (repeatLoop (runSkipper (grammar.apply fuel)) (grammar.apply fuel root) maxRep
      node budget count last context).trace, ¬MatchesInPlace root moment) :
    let performed := iterations (runSkipper (grammar.apply fuel)) (grammar.apply fuel root) maxRep node
      budget count context
    (∀ iteration ∈ performed, iteration.matched = true) ∧
      ∀ iteration ∈ performed.dropLast, iteration.start < iteration.stop := by
  induction budget generalizing count last context with
  | zero => exact ⟨nofun, nofun⟩
  | succ budget induction =>
      rw [iterations]
      rcases skipped : Comp.onlyIf (0 < count) (runSkipper (grammar.apply fuel)) context with
        ⟨outcome, start, log⟩
      cases outcome with
      | thrown _ | exhausted => exact ⟨nofun, nofun⟩
      | returned value =>
          dsimp only
          rcases parsed : grammar.apply fuel root (start.setCut false) with ⟨outcome, after, log'⟩
          cases outcome with
          | thrown _ | exhausted => exact ⟨nofun, nofun⟩
          | returned result =>
              dsimp only
              rw [loop_trace skipped parsed] at moves
              simp only [List.mem_append] at moves
              obtain ⟨atStart, -⟩ := wp_run (skip_safe inRange closed recovers fuel count safe) skipped
                fun moment inside => moves moment (Or.inl inside)
              obtain ⟨uncut, samePos⟩ := atStart.uncut
              obtain ⟨atAfter, success, moved⟩ := wp_run
                (child_safe inRange closed recovers member fuel uncut) parsed
                fun moment inside => moves moment (Or.inr (Or.inl inside))
              rw [samePos] at moved
              split_ifs with goes
              · have later : ∀ moment ∈ (repeatLoop (runSkipper (grammar.apply fuel))
                    (grammar.apply fuel root) maxRep node budget (count + 1) after.position
                    (pushChild node result.tree after)).trace, ¬MatchesInPlace root moment := by
                  rw [← after_iteration_trace success goes.2]
                  exact fun moment inside => moves moment (Or.inr (Or.inr inside))
                obtain ⟨matched, progress⟩ := induction (count + 1) after.position
                  (atAfter.pushed node result.tree) later
                refine ⟨List.forall_mem_cons.mpr ⟨success, matched⟩, fun iteration early => ?_⟩
                by_cases none : iterations (runSkipper (grammar.apply fuel)) (grammar.apply fuel root)
                    maxRep node budget (count + 1) (pushChild node result.tree after) = []
                · rw [none] at early
                  cases early
                · rw [List.dropLast_cons_of_ne_nil none] at early
                  rcases List.mem_cons.mp early with rfl | early
                  · rcases moved with moved | ⟨stayed, -⟩
                    · exact moved
                    · have different := goes.2
                      rw [stayed] at different
                      simp at different
                  · exact progress iteration early
              · exact ⟨List.forall_mem_cons.mpr ⟨success, nofun⟩, nofun⟩

end Loop

section Claims

/-- `rule.set_recovery(spec)`. -/
def setRecovery (grammar : Grammar CharT NodeType) (rule : RuleId)
    (spec : RecoverSpec CharT) : Grammar CharT NodeType :=
  { grammar with
    rules := grammar.rules.modify rule fun entry => (entry.1, { entry.2 with recover := spec }) }

/-- A fresh context that has been given the skipper of the grammar. -/
def opening (grammar : Grammar CharT NodeType) (input : List CharT) : Context CharT :=
  { Context.fresh input with skipper := grammar.skipper }

abbrev star (rule : RuleId) : Expr CharT := .repetition .zeroOrMore (.rule rule)

def starIterations [PegValue CharT] (grammar : Grammar CharT NodeType) (fuel : Nat) (rule : RuleId)
    (context : Context CharT) : List Performed :=
  iterations (runSkipper (grammar.apply fuel)) (grammar.apply fuel rule) RepKind.zeroOrMore.maxRep
    context.initCut.makeNode.1 fuel 0 (Repetitions.entered context)

/-- A parse that succeeded at the end of the input. -/
def ReachesEnd (input : List CharT) (run : Run (Moment CharT) (Context CharT) Exn ParseResult) :
    Prop :=
  ∃ result, run.outcome = .returned result ∧ result.success = true ∧
    run.state.position = input.length

/-- A parse that succeeded at the end of the input and has nothing to report. -/
def Silent (input : List CharT) (run : Run (Moment CharT) (Context CharT) Exn ParseResult) : Prop :=
  ReachesEnd input run ∧ run.state.errors.diagnostics = []

theorem set_recovery_non_terminal (grammar : Grammar CharT NodeType) (root : RuleId)
    (spec : RecoverSpec CharT) (rule : RuleId) :
    (setRecovery grammar root spec).body rule = grammar.body rule ∧
      ((grammar.body root).isSome = true →
        ((setRecovery grammar root spec).nonTerminal root).recover = spec) := by
  unfold Grammar.body Grammar.nonTerminal setRecovery
  simp only [List.getElem?_modify]
  constructor
  · by_cases same : root = rule <;> cases grammar.rules[rule]? <;> simp [same]
  · cases grammar.rules[root]? <;> simp

theorem set_recovery_in_range {grammar : Grammar CharT NodeType} (inRange : InRange grammar)
    {root : RuleId} {spec : RecoverSpec CharT} : InRange (setRecovery grammar root spec) :=
  fun rule body assigned =>
    inRange rule body ((set_recovery_non_terminal grammar root spec rule).1.symm.trans assigned)

theorem set_recovery_cut_free {grammar : Grammar CharT NodeType} {reach : RuleId → Prop}
    (closed : CutFree grammar reach) {root : RuleId} {spec : RecoverSpec CharT} :
    CutFree (setRecovery grammar root spec) reach where
  skipper := closed.skipper
  bodies rule inside := by
    rw [(set_recovery_non_terminal grammar root spec rule).1]
    exact closed.bodies rule inside

variable [PegValue CharT] {grammar : Grammar CharT NodeType} {input : List CharT}
  {reach : RuleId → Prop} {root : RuleId}

omit [PegValue CharT] in
theorem opening_safe (closed : CutFree grammar reach) :
    Safe input reach root grammar.skipper (opening grammar input) where
  settled := ⟨rfl, fun rule set => closed.skipper rule set, nofun, nofun, nofun, nofun⟩
  ready := ⟨⟨rfl, rfl, nofun⟩, Nat.zero_le _, rfl⟩

/-- `digit = '0'..'9'`. -/
def digits : Grammar UInt8 Unit where
  rules := [(ascii "digit", { body := some (.terminal (.range 48 57)), name := ascii "digit" })]

/-- `recover_set({';'})`. -/
def semicolon : RecoverSpec UInt8 where
  isSyncToken := some fun letter => letter == 59

theorem digits_in_range : InRange digits := by
  intro rule body assigned
  cases rule with
  | zero =>
      obtain rfl := Option.some.inj assigned
      simp [Expr.Every, MatcherInRange]
  | succ rule => cases assigned

theorem digits_cut_free : CutFree digits fun rule => rule = 0 := by
  refine ⟨nofun, ?_⟩
  rintro rule rfl
  exact ⟨_, rfl, by simp [Expr.Every, Sealed]⟩

/-- A repetition of a recovering rule comes to an end. -/
theorem star_settles (inRange : InRange grammar) (closed : CutFree grammar reach)
    (member : reach root)
    (recovers : (grammar.nonTerminal root).recover.isSyncToken.isSome = true)
    (consumes : ∀ fuel, ∀ moment ∈ (grammar.eval fuel (star root) (opening grammar input)).trace,
      ¬MatchesInPlace root moment) :
    ∃ run, ReachesEnd input run ∧ run.state.errors.diagnostics ≠ [] ∧
      ∃ enough, ∀ fuel, enough ≤ fuel →
        grammar.eval fuel (star root) (opening grammar input) = run := by
  have safe : Safe input reach root grammar.skipper (opening grammar input) := opening_safe closed
  have arrives := fun fuel => repetition_arrives inRange closed recovers member fuel safe
  have total : Total input grammar.skipper [] fun fuel => grammar.eval fuel (star root) :=
    expr_total inRange (fun rule => apply_total inRange _ (Nat.le_refl _) rule)
      (by simp [Expr.Every, MatcherInRange])
  have kept : ∀ fuel, ∀ moment ∈ (grammar.eval fuel (star root) (opening grammar input)).trace,
      RowKept moment := fun fuel => (wp_elim (arrives fuel) (consumes fuel)).1
  obtain ⟨run, finished, enough, same⟩ := total.terminates _ safe.ready ⟨0, fun fuel _ => kept fuel⟩
  have ran : grammar.eval enough (star root) (opening grammar input) = run :=
    same enough (Nat.le_refl _)
  have met := (wp_elim (arrives enough) (consumes enough)).2
  rw [ran] at met
  refine ⟨run, ?_⟩
  cases ended : run.outcome with
  | returned result =>
      rw [ended] at met
      exact ⟨⟨result, ended, met.1, met.2.1⟩, met.2.2, enough, same⟩
  | thrown exn => rw [ended] at met; exact absurd met id
  | exhausted => exact absurd ended finished

/-- `*R` with a recovery spec on `R` succeeds at the end of the input, and each of its
iterations but the last consumes something. -/
theorem recovering_star_progresses (inRange : InRange grammar) (closed : CutFree grammar reach)
    (member : reach root)
    (recovers : (grammar.nonTerminal root).recover.isSyncToken.isSome = true)
    (consumes : ∀ fuel, ∀ moment ∈ (grammar.eval fuel (star root) (opening grammar input)).trace,
      ¬MatchesInPlace root moment) :
    (∃ run, ReachesEnd input run ∧ ∃ enough, ∀ fuel, enough ≤ fuel →
      grammar.eval fuel (star root) (opening grammar input) = run) ∧
    ∀ fuel, ∀ iteration ∈ (starIterations grammar fuel root (opening grammar input)).dropLast,
      iteration.start < iteration.stop := by
  obtain ⟨run, reaches, -, settles⟩ := star_settles inRange closed member recovers consumes
  refine ⟨⟨run, reaches, settles⟩, fun fuel => ?_⟩
  have entered' : Safe input reach root grammar.skipper
      (Repetitions.entered (opening grammar input)) := by
    have safe : Safe input reach root grammar.skipper (opening grammar input) := opening_safe closed
    refine ⟨?_, safe.ready.moved rfl rfl rfl rfl safe.ready.inside⟩
    exact moved_inv fruitful_invariant (fruitful_invariant.opened _ safe.settled) rfl rfl rfl rfl
      rfl rfl (.refl _)
  exact (iterations_progress inRange closed recovers member fuel _ fuel 0 _ entered'
    fun moment inside => consumes fuel moment (repeat_trace inside)).2

theorem recovering_digits_progress :
    (∃ run, ReachesEnd (ascii "x;1") run ∧ ∃ enough, ∀ fuel, enough ≤ fuel →
      (setRecovery digits 0 semicolon).eval fuel (star 0)
        (opening (setRecovery digits 0 semicolon) (ascii "x;1")) = run) ∧
    ∀ fuel, ∀ iteration ∈ (starIterations (setRecovery digits 0 semicolon) fuel 0
        (opening (setRecovery digits 0 semicolon) (ascii "x;1"))).dropLast,
      iteration.start < iteration.stop := by
  refine recovering_star_progresses (set_recovery_in_range digits_in_range)
    (set_recovery_cut_free digits_cut_free) rfl rfl ?_
  refine moments_of_finished (fun larger => eval_extends _ (star 0) larger) 5 ?_ ?_
  · exact Outcome.finished_of_value (by decide +kernel)
  · decide +kernel

/-- However well formed the input, `*R` with a recovery spec on `R` ends with a
diagnostic. -/
theorem recovering_star_reports (inRange : InRange grammar) (closed : CutFree grammar reach)
    (member : reach root) (spec : RecoverSpec CharT) (configured : spec.isSyncToken.isSome = true)
    (consumes : ∀ fuel, ∀ moment ∈ ((setRecovery grammar root spec).eval fuel (star root)
      (opening grammar input)).trace, ¬MatchesInPlace root moment) :
    (∃ run, ReachesEnd input run ∧ run.state.errors.diagnostics ≠ [] ∧
      ∃ enough, ∀ fuel, enough ≤ fuel →
        (setRecovery grammar root spec).eval fuel (star root) (opening grammar input) = run) ∧
    ∀ fuel, ¬Silent input
      ((setRecovery grammar root spec).eval fuel (star root) (opening grammar input)) := by
  have range : InRange (setRecovery grammar root spec) := set_recovery_in_range inRange
  have sealed' : CutFree (setRecovery grammar root spec) reach := set_recovery_cut_free closed
  have recovers : ((setRecovery grammar root spec).nonTerminal root).recover.isSyncToken.isSome =
      true := by
    obtain ⟨body, assigned, -⟩ := closed.bodies root member
    rw [(set_recovery_non_terminal grammar root spec root).2 (by rw [assigned]; rfl)]
    exact configured
  refine ⟨star_settles range sealed' member recovers consumes, ?_⟩
  rintro fuel ⟨⟨result, ended, -, -⟩, quiet⟩
  have safe : Safe input reach root grammar.skipper (opening grammar input) := opening_safe closed
  have arrives := repetition_arrives range sealed' recovers member fuel safe
  exact (wp_returned arrives (consumes fuel) ended).2.2 quiet

theorem recovering_digits_report :
    (∃ run, ReachesEnd (ascii "12") run ∧ run.state.errors.diagnostics ≠ [] ∧
      ∃ enough, ∀ fuel, enough ≤ fuel →
        (setRecovery digits 0 semicolon).eval fuel (star 0) (opening digits (ascii "12")) = run) ∧
    ∀ fuel, ¬Silent (ascii "12")
      ((setRecovery digits 0 semicolon).eval fuel (star 0) (opening digits (ascii "12"))) := by
  refine recovering_star_reports digits_in_range digits_cut_free rfl semicolon rfl ?_
  refine moments_of_finished (fun larger => eval_extends _ (star 0) larger) 5 ?_ ?_
  · exact Outcome.finished_of_value (by decide +kernel)
  · decide +kernel

/-- On "12" the repetition without the spec is content with the input; with it, the end
of the input is reported as a digit that is missing. -/
theorem well_formed_digits_reported :
    Silent (ascii "12") (digits.eval 5 (star 0) (opening digits (ascii "12"))) ∧
      ∀ fuel, ¬Silent (ascii "12")
        ((setRecovery digits 0 semicolon).eval fuel (star 0) (opening digits (ascii "12"))) := by
  refine ⟨⟨⟨⟨true, some 0⟩, rfl, rfl, rfl⟩, rfl⟩, ?_⟩
  rintro fuel ⟨⟨result, ended, -, -⟩, quiet⟩
  have reported : ((setRecovery digits 0 semicolon).eval 5 (star 0)
      (opening digits (ascii "12"))).state.errors.diagnostics =
        [⟨2, [⟨.ruleLabel, ascii "digit"⟩]⟩] := rfl
  have finished : ((setRecovery digits 0 semicolon).eval 5 (star 0)
      (opening digits (ascii "12"))).outcome ≠ .exhausted :=
    Outcome.finished_of_value (by decide +kernel)
  rcases Nat.le_total 5 fuel with larger | smaller
  · rw [← (eval_extends _ (star 0) larger).run_eq finished, reported] at quiet
    cases quiet
  · rw [(eval_extends _ (star 0) smaller).run_eq (by rw [ended]; exact nofun), reported] at quiet
    cases quiet

end Claims

end Peglib.RecoveryProgress
