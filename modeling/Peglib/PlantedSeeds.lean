import Peglib.GrowthSemantics
import Peglib.Termination

/-!
# Planted seeds

A rule in progress answers with the row that it has planted for itself: a failure at
first, then the best match so far. While its body is evaluated again and again that
row follows the growth of the seed, whatever the other rows have to be.
-/

namespace Peglib.PlantedSeeds

open Peglib.TracedComputation Peglib.WeakestPrecondition Peglib.Preservation
open Peglib.ParseError Peglib.ParseContext Peglib.Expressions Peglib.Rules
open Peglib.ControlDiscipline Peglib.PegSemantics Peglib.Evaluation Peglib.SuccessfulAnswers
open Peglib.Termination Peglib.GrowthSemantics

set_option autoImplicit false

variable {CharT NodeType : Type}

section Engine

/-- A row read as an outcome. -/
def Shows (row : RuleState) (pos : Nat) (outcome : Option Nat) : Prop :=
  row.cachedResult.success = outcome.isSome ∧ row.lastPos = outcome.getD pos

theorem shows_success {pos stop : Nat} {result : ParseResult} (success : result.success = true) :
    Shows ⟨stop, result⟩ pos (some stop) :=
  ⟨success, rfl⟩

theorem shows_failure {pos : Nat} {result : ParseResult} (failure : result.success = false) :
    Shows ⟨pos, result⟩ pos none :=
  ⟨failure, rfl⟩

theorem Shows.answers {row : RuleState} {pos : Nat} {outcome : Option Nat}
    (shows' : Shows row pos outcome) {sem : Nat → Option Nat → Prop} (answer : sem pos outcome) :
    Answers sem pos row.cachedResult row.lastPos := by
  obtain ⟨success, last⟩ := shows'
  unfold Answers
  cases outcome with
  | none =>
      rw [if_neg (by simp [success])]
      exact ⟨last, answer⟩
  | some stop =>
      rw [if_pos (by simp [success]), last]
      exact answer

theorem set_frame_kept {context : Context CharT} {key : RuleId × Nat} {keys : List (RuleId × Nat)}
    (keyed : active context = key :: keys) (pos : Nat) :
    active (NonTerminal.setFrameLastPos pos context) = active context ∧
      (NonTerminal.frame (NonTerminal.setFrameLastPos pos context)).lastPos = pos := by
  unfold active at keyed ⊢
  unfold NonTerminal.setFrameLastPos NonTerminal.frame
  cases stack : context.lrStack with
  | nil => rw [stack] at keyed; cases keyed
  | cons top rest => exact ⟨rfl, rfl⟩

theorem leave_active {context : Context CharT} {key : RuleId × Nat} {keys : List (RuleId × Nat)}
    (keyed : active context = key :: keys) (startPos : Nat) :
    active (NonTerminal.leave startPos context) = keys := by
  unfold active at keyed ⊢
  unfold NonTerminal.leave
  cases stack : context.lrStack with
  | nil => rw [stack] at keyed; cases keyed
  | cons top rest =>
      rw [stack, List.map_cons, List.cons.injEq] at keyed
      split_ifs <;> simp [Context.clearGrowingHead, Context.lrPop, stack, keyed.2]

theorem leave_kept (startPos : Nat) (context : Context CharT) :
    Framed context (NonTerminal.leave startPos context) ∧
      (NonTerminal.leave startPos context).input = context.input ∧
      (NonTerminal.leave startPos context).mem = context.mem ∧
      (NonTerminal.leave startPos context).cutStack = context.cutStack ∧
      (NonTerminal.leave startPos context).position = context.position := by
  unfold NonTerminal.leave
  split_ifs <;> exact ⟨⟨rfl, rfl⟩, rfl, rfl, rfl, rfl⟩

theorem mark_head_kept (rule : RuleId) (pos : Nat) (context : Context CharT) :
    Framed context (context.markHead rule pos) ∧
      (context.markHead rule pos).input = context.input ∧
      (context.markHead rule pos).mem = context.mem ∧
      (context.markHead rule pos).cutStack = context.cutStack ∧
      active (context.markHead rule pos) = active context := by
  have frames := active_of_frames (mark_head_stable rule pos context).frames
  refine ⟨?_, ?_, ?_, ?_, frames⟩ <;> unfold Context.markHead
  · split
    · split_ifs <;> exact ⟨rfl, rfl⟩
    · exact ⟨rfl, rfl⟩
  all_goals
    split
    · split_ifs <;> rfl
    · rfl

theorem replay_run {rule : RuleId} {pos : Nat} {row : RuleState} {context : Context CharT}
    (held : context.mem pos rule = some row) :
    (NonTerminal.replay rule pos row context : Run (Moment CharT) _ Exn ParseResult) =
      ⟨.returned row.cachedResult,
        (if context.lrInProgress rule pos then context.markHead rule pos else context).reset
          row.lastPos, []⟩ := by
  have got : context.memoGet rule pos = row := by rw [Context.memoGet, held, Option.getD_some]
  have marked : (context.markHead rule pos).memoGet rule pos = row := by
    rw [Context.memoGet, (mark_head_kept rule pos context).2.2.1, held, Option.getD_some]
  have looked : (Comp.read id context : Run (Moment CharT) _ Exn (Context CharT)) =
      ⟨.returned context, context, []⟩ := rfl
  have hit : (⟨.returned (context.memoGet rule pos).cachedResult,
      context.reset (context.memoGet rule pos).lastPos, []⟩ : Run (Moment CharT) _ Exn _) =
        ⟨.returned row.cachedResult, context.reset row.lastPos, []⟩ := by rw [got]
  rw [NonTerminal.replay, Comp.bind_returned looked]
  split_ifs with progress
  · have seed : (⟨.returned (context.memoGet rule pos).cachedResult, (context.markHead rule pos).reset
        ((context.markHead rule pos).memoGet rule pos).lastPos, []⟩ : Run (Moment CharT) _ Exn _) =
          ⟨.returned row.cachedResult, (context.markHead rule pos).reset row.lastPos, []⟩ := by
      rw [got, marked]
    exact seed
  · cases context.growingHead pos with
    | none => rfl
    | some head =>
        dsimp only
        split_ifs
        · exact hit
        · rfl

theorem wp_replay {contract : Contract (Moment CharT) (Context CharT) Exn}
    {post : ParseResult → Context CharT → Prop} {rule : RuleId} {pos : Nat} {row : RuleState}
    {context : Context CharT} (held : context.mem pos rule = some row) :
    wp contract (NonTerminal.replay rule pos row) post context ↔ post row.cachedResult
      ((if context.lrInProgress rule pos then context.markHead rule pos else context).reset
        row.lastPos) := by
  rw [wp, replay_run held]
  rfl

end Engine

section Planting

/-- The contract of runs that never throw and keep the rows of the rules in progress. -/
def keeping (assume : Moment CharT → Prop) : Contract (Moment CharT) (Context CharT) Exn :=
  ⟨assume, RowKept, fun _ _ => False⟩

/-- The rows of the rules in progress hold their seeds, all other rows are good. No
open scope is committed. -/
structure Planted (input : List CharT) (skipper : Option RuleId)
    (good : RuleId → Nat → RuleState → Prop) (held : List Seed) (context : Context CharT) : Prop where
  source : context.input = input
  skipper : context.skipper = skipper
  uncut : ∀ scope ∈ context.cutStack, scope.cut = false
  active : active context = held.map Seed.key
  distinct : (held.map Seed.key).Nodup
  seeds : ∀ seed ∈ held, ∃ row, context.mem seed.pos seed.rule = some row ∧
    Shows row seed.pos seed.outcome
  rows : ∀ pos rule row, context.mem pos rule = some row → (rule, pos) ∉ held.map Seed.key →
    good rule pos row

variable {assume : Moment CharT → Prop} {input : List CharT} {skipper : Option RuleId}
  {good : RuleId → Nat → RuleState → Prop} {held : List Seed} {context : Context CharT}

theorem Planted.moved {after : Context CharT} (planted : Planted input skipper good held context)
    (source : after.input = context.input) (same : after.skipper = context.skipper)
    (uncut : ∀ scope ∈ after.cutStack, scope.cut = false) (lrStack : after.lrStack = context.lrStack)
    (mem : after.mem = context.mem) : Planted input skipper good held after where
  source := source.trans planted.source
  skipper := same.trans planted.skipper
  uncut := uncut
  active := by
    rw [← planted.active]
    unfold ControlDiscipline.active
    rw [lrStack]
  distinct := planted.distinct
  seeds := by
    rw [mem]
    exact planted.seeds
  rows := by
    rw [mem]
    exact planted.rows

theorem Planted.reset (planted : Planted input skipper good held context) (pos : Nat) :
    Planted input skipper good held (context.reset pos) :=
  planted.moved rfl rfl planted.uncut rfl rfl

theorem Planted.uncommitted (planted : Planted input skipper good held context) :
    context.cut = false := by
  unfold Context.cut
  cases stack : context.cutStack with
  | nil => rfl
  | cons scope outer => exact planted.uncut scope (by rw [stack]; exact List.mem_cons_self)

theorem planted_invariant (held : List Seed) :
    Invariant (keeping assume) input (Planted input skipper good held) where
  input _ planted := planted.source
  moved before after planted step := by
    refine planted.moved step.input step.skipper ?_ step.lrStack step.mem
    rw [step.cutStack]
    exact planted.uncut
  opened context planted := by
    refine planted.moved rfl rfl (fun scope member => ?_) rfl rfl
    rcases List.mem_cons.mp member with rfl | inner
    · rfl
    · exact planted.uncut scope inner
  cleared context planted := by
    unfold Context.setCut
    split
    · exact planted
    · next top outer stack =>
        refine planted.moved rfl rfl (fun scope member => ?_) rfl rfl
        rcases List.mem_cons.mp member with rfl | inner
        · rfl
        · exact planted.uncut scope (by rw [stack]; exact List.mem_cons_of_mem _ inner)
  closed context planted := by
    unfold Context.removeCut
    split
    · exact planted
    · next top outer stack =>
        have uncommitted : top.cut = false :=
          planted.uncut top (by rw [stack]; exact List.mem_cons_self)
        rw [if_neg (by simp [uncommitted])]
        refine planted.moved rfl rfl (fun scope inner => ?_) rfl rfl
        exact planted.uncut scope (by rw [stack]; exact List.mem_cons_of_mem _ inner)
  failure _ _ := trivial
  throws _ context planted _ committed := by
    rw [planted.uncommitted] at committed
    cases committed
  unwinds _ _ never := never
  relabels _ _ _ never := never

theorem Planted.in_progress (planted : Planted input skipper good held context) {rule : RuleId}
    {pos : Nat} : context.lrInProgress rule pos = true ↔ (rule, pos) ∈ held.map Seed.key := by
  rw [in_progress_iff, planted.active]

theorem Planted.present (planted : Planted input skipper good held context) {rule : RuleId}
    {pos : Nat} (inProgress : context.lrInProgress rule pos = true) :
    (context.mem pos rule).isSome = true := by
  obtain ⟨seed, member, same⟩ := List.mem_map.mp (planted.in_progress.mp inProgress)
  obtain ⟨row, present, -⟩ := planted.seeds seed member
  obtain ⟨rfl, rfl⟩ := Prod.mk.inj same
  rw [present]
  rfl

theorem Planted.outside (planted : Planted input skipper good held context) {rule : RuleId}
    {pos : Nat} (absent : context.mem pos rule = none) : (rule, pos) ∉ held.map Seed.key := by
  intro member
  have present := planted.present (planted.in_progress.mpr member)
  rw [absent] at present
  cases present

/-- A write to the row of the rule innermost in progress moves its seed. -/
theorem Planted.reseeded {rule : RuleId} {pos : Nat} {outcome : Option Nat}
    (planted : Planted input skipper good (⟨rule, pos, outcome⟩ :: held) context) {entry : RuleState}
    {next : Option Nat} (shown : Shows entry pos next) :
    (context.updateRuleState rule pos entry).1 = true ∧
      Planted input skipper good (⟨rule, pos, next⟩ :: held)
        (context.updateRuleState rule pos entry).2 := by
  obtain ⟨row, present, -⟩ := planted.seeds _ List.mem_cons_self
  have distinct := planted.distinct
  rw [List.map_cons, List.nodup_cons] at distinct
  unfold Context.updateRuleState
  rw [present]
  refine ⟨rfl, planted.source, planted.skipper, planted.uncut, planted.active, planted.distinct,
    ?_, ?_⟩
  · intro seed member
    rcases List.mem_cons.mp member with rfl | inner
    · exact ⟨entry, if_pos ⟨rfl, rfl⟩, shown⟩
    · obtain ⟨row', present', shown'⟩ := planted.seeds seed (List.mem_cons_of_mem _ inner)
      refine ⟨row', ?_, shown'⟩
      rw [← present']
      refine if_neg ?_
      rintro ⟨rfl, rfl⟩
      exact distinct.1 (List.mem_map.mpr ⟨seed, inner, rfl⟩)
  · intro pos' rule' row' found outside
    rcases Memo.write_eq_some found with ⟨rfl, rfl, -⟩ | ⟨-, before⟩
    · exact absurd List.mem_cons_self outside
    · exact planted.rows pos' rule' row' before outside

/-- A write to the row of a rule that is not in progress. -/
theorem Planted.settled (planted : Planted input skipper good held context) {rule : RuleId}
    {pos : Nat} (outside : (rule, pos) ∉ held.map Seed.key) {entry : RuleState}
    (fine : good rule pos entry) :
    Planted input skipper good held (context.updateRuleState rule pos entry).2 := by
  unfold Context.updateRuleState
  split
  · refine ⟨planted.source, planted.skipper, planted.uncut, planted.active, planted.distinct,
      ?_, ?_⟩
    · intro seed member
      obtain ⟨row, present, shown⟩ := planted.seeds seed member
      refine ⟨row, ?_, shown⟩
      rw [← present]
      refine if_neg ?_
      rintro ⟨rfl, rfl⟩
      exact outside (List.mem_map_of_mem member)
    · intro pos' rule' row found outside'
      rcases Memo.write_eq_some found with ⟨rfl, rfl, rfl⟩ | ⟨-, before⟩
      · exact fine
      · exact planted.rows pos' rule' row before outside'
  · exact planted

theorem Planted.siblings_cleared (planted : Planted input skipper good held context) (pos : Nat)
    (keep : RuleId) : Planted input skipper good held (context.clearSiblingsAt pos keep) := by
  refine ⟨planted.source, planted.skipper, planted.uncut, planted.active, planted.distinct, ?_, ?_⟩
  · intro seed member
    obtain ⟨row, present, shown⟩ := planted.seeds seed member
    refine ⟨row, ?_, shown⟩
    rw [← present]
    refine if_neg ?_
    rintro ⟨rfl, dropped⟩
    exact dropped (Or.inr (planted.in_progress.mpr (List.mem_map_of_mem member)))
  · intro pos' rule row found outside
    simp only [Context.clearSiblingsAt] at found
    split_ifs at found
    exact planted.rows pos' rule row found outside

theorem Planted.marked {seed : Seed}
    (planted : Planted input skipper good (seed :: held) context) (pos : Nat) :
    Planted input skipper good (seed :: held) (NonTerminal.setFrameLastPos pos context) :=
  ⟨planted.source, planted.skipper, planted.uncut,
    (set_frame_kept planted.active pos).1.trans planted.active, planted.distinct, planted.seeds,
    planted.rows⟩

/-- Pushing a rule with no row, and planting its failing seed. -/
theorem Planted.entered {rule : RuleId} (planted : Planted input skipper good held context)
    (absent : context.mem context.position rule = none) :
    Planted input skipper good (⟨rule, context.position, none⟩ :: held)
      ((Context.lrPush { context with mem := context.mem.write context.position rule {} }
        ⟨rule, context.position, context.position, false⟩).updateRuleState rule context.position
          ⟨context.position, {}⟩).2 := by
  have outside := planted.outside absent
  have written : (Context.lrPush { context with mem := context.mem.write context.position rule {} }
      ⟨rule, context.position, context.position, false⟩).mem context.position rule = some {} :=
    if_pos ⟨rfl, rfl⟩
  unfold Context.updateRuleState
  rw [written]
  have other : ∀ {pos' : Nat} {rule' : RuleId}, ¬(pos' = context.position ∧ rule' = rule) →
      ((context.mem.write context.position rule {}).write context.position rule
        ⟨context.position, {}⟩) pos' rule' = context.mem pos' rule' := by
    intro pos' rule' different
    unfold Memo.write
    rw [if_neg different, if_neg different]
  refine ⟨planted.source, planted.skipper, planted.uncut, ?_, ?_, ?_, ?_⟩
  · rw [List.map_cons, ← planted.active]
    rfl
  · rw [List.map_cons, List.nodup_cons]
    exact ⟨outside, planted.distinct⟩
  · intro seed member
    rcases List.mem_cons.mp member with rfl | inner
    · exact ⟨⟨context.position, {}⟩, if_pos ⟨rfl, rfl⟩, shows_failure rfl⟩
    · obtain ⟨row, present, shown⟩ := planted.seeds seed inner
      refine ⟨row, ?_, shown⟩
      rw [← present]
      refine other ?_
      rintro ⟨same, rfl⟩
      rw [← same] at outside
      exact outside (List.mem_map.mpr ⟨seed, inner, rfl⟩)
  · intro pos' rule' row found outside'
    have different : ¬(pos' = context.position ∧ rule' = rule) := by
      rintro ⟨rfl, rfl⟩
      exact outside' List.mem_cons_self
    have before : context.mem pos' rule' = some row := (other different).symm.trans found
    exact planted.rows pos' rule' row before fun inner => outside' (List.mem_cons_of_mem _ inner)

/-- Popping the innermost rule, whose seed has become a good row. -/
theorem Planted.left {rule : RuleId} {startPos : Nat} {outcome : Option Nat}
    (planted : Planted input skipper good (⟨rule, startPos, outcome⟩ :: held) context)
    (fine : ∀ row, Shows row startPos outcome → good rule startPos row) :
    Planted input skipper good held (NonTerminal.leave startPos context) := by
  obtain ⟨framed, source, mem, cutStack, -⟩ := leave_kept startPos context
  have distinct := planted.distinct
  rw [List.map_cons, List.nodup_cons] at distinct
  refine ⟨source.trans planted.source, framed.skipper.trans planted.skipper, ?_,
    leave_active planted.active startPos, distinct.2, ?_, ?_⟩
  · rw [cutStack]
    exact planted.uncut
  · rw [mem]
    exact fun seed member => planted.seeds seed (List.mem_cons_of_mem _ member)
  · rw [mem]
    intro pos' rule' row found outside
    by_cases own : (rule', pos') = (rule, startPos)
    · obtain ⟨rfl, rfl⟩ := Prod.mk.inj own
      obtain ⟨row', present, shown⟩ := planted.seeds _ List.mem_cons_self
      obtain rfl := Option.some.inj (found.symm.trans present)
      exact fine row shown
    · refine planted.rows pos' rule' row found fun member => ?_
      rcases List.mem_cons.mp member with same | inner
      · exact own same
      · exact outside inner

end Planting

section Growth

variable {assume : Moment CharT → Prop} {input : List CharT} {skipper : Option RuleId}
  {good : RuleId → Nat → RuleState → Prop} {held : List Seed} {rule : RuleId}
  {parseBody : Parser CharT ParseResult}

theorem store_keeping {pos : Nat} {entry : RuleState} {context : Context CharT}
    {post : Bool → Context CharT → Prop}
    (later : post (context.updateRuleState rule pos entry).1
      (context.updateRuleState rule pos entry).2) :
    wp (keeping assume) (NonTerminal.store rule pos entry) post context := by
  rw [NonTerminal.store, wp_bind, wp_modifyGet, wp_bind, announce, wp_announce]
  exact fun _ => ⟨trivial, later⟩

/-- The head of the growth loop: the best result, the row and the frame agree on
the seed. -/
structure Rising (input : List CharT) (skipper : Option RuleId)
    (good : RuleId → Nat → RuleState → Prop) (held : List Seed) (rule : RuleId) (startPos : Nat)
    (start context : Context CharT) (best : ParseResult) (ruleState : RuleState)
    (outcome : Option Nat) : Prop where
  planted : Planted input skipper good (⟨rule, startPos, outcome⟩ :: held) context
  framed : Framed start context
  last : (NonTerminal.frame context).lastPos = ruleState.lastPos
  shown : Shows ⟨ruleState.lastPos, best⟩ startPos outcome

theorem grow_loop_grows {startPos : Nat} {sem : Option Nat → Option RuleId → Nat → Option Nat → Prop}
    (evaluates : ∀ outcome, Evaluates (keeping assume)
      (Planted input skipper good (⟨rule, startPos, outcome⟩ :: held)) parseBody (sem outcome))
    (stable : StableParser parseBody) (start : Context CharT) (fuel : Nat) (best : ParseResult)
    (ruleState : RuleState) (outcome : Option Nat) (context : Context CharT)
    (rising : Rising input skipper good held rule startPos start context best ruleState outcome) :
    wp (keeping assume) (NonTerminal.growLoop rule startPos parseBody fuel best ruleState)
      (fun grown last => ∃ final,
        Rising input skipper good held rule startPos start last grown.1 grown.2 final ∧
        Grows (fun best result => sem best (mode start) startPos result) startPos outcome final)
      context := by
  induction fuel generalizing best ruleState outcome context with
  | zero => exact trivial
  | succ fuel induction =>
      rw [NonTerminal.growLoop, wp_bind, wp_modify, wp_bind, wp_read, wp_bind]
      have reset := rising.planted.reset startPos
      have framedReset : Framed start (context.reset startPos) :=
        ⟨rising.framed.skipper, rising.framed.skipEnabled⟩
      have cleared : wp (keeping assume)
          (Comp.onlyIf ((NonTerminal.frame (context.reset startPos)).isHead = true ∧
              best.success = true)
            (Comp.modify fun context => context.clearSiblingsAt startPos rule))
          (fun _ here => Planted input skipper good (⟨rule, startPos, outcome⟩ :: held) here ∧
            Framed start here ∧ here.position = startPos ∧ here.lrStack = context.lrStack)
          (context.reset startPos) := by
        rw [wp_onlyIf, wp_modify]
        refine ⟨fun _ => ⟨reset.siblings_cleared startPos rule, ?_, rfl, rfl⟩,
          fun _ => ⟨reset, framedReset, rfl, rfl⟩⟩
        exact ⟨framedReset.skipper, framedReset.skipEnabled⟩
      refine wp_post cleared ?_
      rintro ⟨⟩ here ⟨ready, framed, at_start, sameStack⟩
      rw [wp_bind]
      refine wp_post (wp_preserves (evaluates outcome here ready) stable) ?_
      rintro result after ⟨⟨kept, framedAfter, answers⟩, step⟩
      have lastAfter : (NonTerminal.frame after).lastPos = ruleState.lastPos := by
        rw [← rising.last]
        exact frame_last_of_frames (step.frames.trans (by rw [sameStack]))
      have whole := framed.trans framedAfter
      rw [framed.mode_eq, at_start] at answers
      rw [wp_bind, wp_read, wp_ite]
      dsimp only [id]
      constructor
      · intro success
        have evaluated := answers.of_success success
        rw [wp_ite, lastAfter, rising.shown.2]
        constructor
        · intro ahead
          have marked := (set_frame_kept kept.active after.position).2
          obtain ⟨present, stored⟩ := (kept.marked after.position).reseeded (shows_success success)
          have framing := update_framed (NonTerminal.setFrameLastPos after.position after) rule
            startPos ⟨after.position, result⟩
          rw [wp_bind, wp_modify, wp_bind]
          refine store_keeping ?_
          rw [wp_ite]
          refine ⟨fun _ => ?_, fun absent => absurd present absent⟩
          have next : Rising input skipper good held rule startPos start
              ((NonTerminal.setFrameLastPos after.position after).updateRuleState rule startPos
                ⟨after.position, result⟩).2 result ⟨after.position, result⟩
              (some after.position) := by
            refine ⟨stored, ?_, ?_, shows_success success⟩
            · exact ⟨framing.1.skipper.trans whole.skipper,
                framing.1.skipEnabled.trans whole.skipEnabled⟩
            · unfold NonTerminal.frame
              rw [framing.2.1]
              exact marked
          refine wp_post (induction result ⟨after.position, result⟩ (some after.position) _ next) ?_
          rintro grown last ⟨final, risen, grows⟩
          exact ⟨final, risen, Grows.more evaluated ahead grows⟩
        · intro stuck
          have shown : Shows ⟨outcome.getD startPos, if best.success then best else result⟩
              startPos (some (outcome.getD startPos)) := by
            refine ⟨?_, rfl⟩
            by_cases held : best.success = true
            · simp [held]
            · simp [held, success]
          obtain ⟨-, stored⟩ := kept.reseeded shown
          have framing := update_framed after rule startPos
            ⟨outcome.getD startPos, if best.success then best else result⟩
          rw [wp_bind]
          refine store_keeping ?_
          rw [wp_pure]
          refine ⟨some (outcome.getD startPos), ⟨stored, whole.trans framing.1, ?_, shown⟩,
            Grows.stuck evaluated (Nat.not_lt.mp stuck)⟩
          unfold NonTerminal.frame
          rw [framing.2.1]
          exact lastAfter.trans rising.shown.2
      · intro failure
        exact ⟨outcome, ⟨kept, whole, lastAfter, rising.shown⟩,
          Grows.failed (answers.of_failure failure).2⟩

/-- A first-time parse grows its seed from a failure on. -/
theorem invoke_grows {context : Context CharT}
    {sem : Option Nat → Option RuleId → Nat → Option Nat → Prop}
    (evaluates : ∀ outcome, Evaluates (keeping assume)
      (Planted input skipper good (⟨rule, context.position, outcome⟩ :: held)) parseBody (sem outcome))
    (stable : StableParser parseBody) (fuel : Nat) (planted : Planted input skipper good held context)
    (absent : context.mem context.position rule = none)
    (fine : ∀ final, Grows (fun best result => sem best (mode context) context.position result)
      context.position none final → ∀ row, Shows row context.position final →
      good rule context.position row) :
    wp (keeping assume) (NonTerminal.invoke rule context.position (some parseBody) fuel)
      (fun grown last => ∃ final, Planted input skipper good held last ∧ Framed context last ∧
        last.position = grown.2.lastPos ∧ Shows ⟨grown.2.lastPos, grown.1⟩ context.position final ∧
        Grows (fun best result => sem best (mode context) context.position result) context.position
          none final)
      { context with mem := context.mem.write context.position rule {} } := by
  have framing := update_framed (Context.lrPush
    { context with mem := context.mem.write context.position rule {} }
    ⟨rule, context.position, context.position, false⟩) rule context.position ⟨context.position, {}⟩
  rw [NonTerminal.invoke, wp_bind, wp_modify, wp_bind, NonTerminal.parseImpl, wp_bind]
  refine store_keeping ?_
  rw [wp_bind]
  refine wp_post (grow_loop_grows evaluates stable context fuel {} ⟨context.position, {}⟩ none _
    ⟨planted.entered absent, ⟨framing.1.skipper, framing.1.skipEnabled⟩, ?_, shows_failure rfl⟩) ?_
  · unfold NonTerminal.frame
    rw [framing.2.1]
    rfl
  rintro grown last ⟨final, risen, grows⟩
  rw [wp_bind, wp_modify, wp_pure, wp_bind, wp_modify, wp_pure]
  obtain ⟨framed, -, -, -, samePos⟩ :=
    leave_kept context.position (last.reset (NonTerminal.frame last).lastPos)
  refine ⟨final, (risen.planted.reset _).left (fine final grows), ?_, ?_, risen.shown, grows⟩
  · exact ⟨framed.skipper.trans risen.framed.skipper,
      framed.skipEnabled.trans risen.framed.skipEnabled⟩
  · rw [samePos]
    exact risen.last

theorem build_node_planted (nonTerminal : NonTerminal CharT NodeType) (startPos : Nat)
    (inner : Option NodePtr) {context : Context CharT}
    (planted : Planted input skipper good held context) :
    wp (keeping assume) (NonTerminal.buildNode nonTerminal rule startPos inner)
      (fun _ last => Planted input skipper good held last ∧ Framed context last ∧
        last.position = context.position) context := by
  unfold NonTerminal.buildNode
  split
  · rw [wp_bind, wp_modifyGet, wp_bind, wp_modify, wp_bind, wp_modify, wp_pure]
    cases inner <;> exact ⟨planted.moved rfl rfl planted.uncut rfl rfl, ⟨rfl, rfl⟩, rfl⟩
  · rw [wp_bind]
    cases inner <;> exact ⟨planted.moved rfl rfl planted.uncut rfl rfl, ⟨rfl, rfl⟩, rfl⟩

/-- The row that is written in the end shows what has grown. -/
theorem finish_shows {nonTerminal : NonTerminal CharT NodeType}
    (plain : nonTerminal.recover.isSyncToken = none) {grown : ParseResult × RuleState}
    {startPos : Nat} {final : Option Nat} {context : Context CharT}
    (planted : Planted input skipper good held context)
    (outside : (rule, startPos) ∉ held.map Seed.key) (stopped : context.position = grown.2.lastPos)
    (shown : Shows ⟨grown.2.lastPos, grown.1⟩ startPos final)
    (fine : ∀ row, Shows row startPos final → good rule startPos row) :
    wp (keeping assume)
      (if grown.1.success then NonTerminal.finishSuccess nonTerminal rule startPos grown.1 grown.2
      else NonTerminal.finishFailure nonTerminal rule startPos grown.2)
      (fun result last => Planted input skipper good held last ∧ Framed context last ∧
        Shows ⟨last.position, result⟩ startPos final) context := by
  have stands : ∀ {result : ParseResult} {last : Context CharT}, result.success = grown.1.success →
      last.position = context.position → Shows ⟨last.position, result⟩ startPos final := by
    intro result last success position
    exact ⟨success.trans shown.1, (position.trans stopped).trans shown.2⟩
  rw [wp_ite]
  constructor
  · intro success
    rw [NonTerminal.finishSuccess, wp_bind]
    refine wp_post (build_node_planted nonTerminal startPos grown.1.tree planted) ?_
    rintro node built ⟨kept, framed, samePos⟩
    have framing := update_framed built rule startPos ⟨grown.2.lastPos, ⟨true, some node⟩⟩
    rw [wp_bind]
    refine store_keeping ?_
    rw [wp_pure]
    exact ⟨kept.settled outside (fine _ ⟨success.symm.trans shown.1, shown.2⟩),
      framed.trans framing.1, stands success.symm (framing.2.2.trans samePos)⟩
  · intro failure
    obtain ⟨errors, recorded⟩ :=
      NonTerminal.record_rule_failure_frame nonTerminal startPos context
    have failed : Planted input skipper good held { context with errors := errors } :=
      planted.moved rfl rfl planted.uncut rfl rfl
    have framing := update_framed { context with errors := errors } rule startPos
      ⟨grown.2.lastPos, ⟨false, none⟩⟩
    have unsuccessful : false = grown.1.success := by simpa using failure
    rw [NonTerminal.finishFailure, wp_bind, wp_modify, recorded, wp_bind, wp_read, plain]
    dsimp only [id]
    rw [wp_bind]
    refine store_keeping ?_
    rw [wp_pure]
    exact ⟨failed.settled outside (fine _ ⟨unsuccessful.trans shown.1, shown.2⟩),
      ⟨framing.1.skipper, framing.1.skipEnabled⟩, stands unsuccessful framing.2.2⟩

theorem replay_shows {context : Context CharT} {row : RuleState}
    (planted : Planted input skipper good held context)
    (present : context.mem context.position rule = some row) {outcome : Option Nat}
    (shown : Shows row context.position outcome) :
    wp (keeping assume) (NonTerminal.replay rule context.position row)
      (fun result last => Planted input skipper good held last ∧ Framed context last ∧
        Shows ⟨last.position, result⟩ context.position outcome) context := by
  rw [wp_replay present]
  split_ifs with inProgress
  · obtain ⟨framed, source, mem, cutStack, frames⟩ := mark_head_kept rule context.position context
    exact ⟨⟨source.trans planted.source, framed.skipper.trans planted.skipper,
      cutStack ▸ planted.uncut, frames.trans planted.active, planted.distinct, mem ▸ planted.seeds,
      mem ▸ planted.rows⟩, ⟨framed.skipper, framed.skipEnabled⟩, shown⟩
  · exact ⟨planted.reset _, ⟨rfl, rfl⟩, shown⟩

/-- An application is answered by a row that is present, or by the growth of a seed. -/
theorem parse_evaluates {nonTerminal : NonTerminal CharT NodeType}
    (plain : nonTerminal.recover.isSyncToken = none)
    {sem : Nat → Option Nat → Option RuleId → Nat → Option Nat → Prop}
    {answers : Option RuleId → Nat → Option Nat → Prop}
    (evaluates : ∀ pos outcome, Evaluates (keeping assume)
      (Planted input skipper good (⟨rule, pos, outcome⟩ :: held)) parseBody (sem pos outcome))
    (stable : StableParser parseBody) (fuel : Nat)
    (hit : ∀ context row, Planted input skipper good held context → assume ⟨.apply rule, context⟩ →
      context.mem context.position rule = some row →
      ∃ outcome, Shows row context.position outcome ∧ answers (mode context) context.position outcome)
    (grown : ∀ context final, Planted input skipper good held context →
      assume ⟨.apply rule, context⟩ → (rule, context.position) ∉ held.map Seed.key →
      Grows (fun best result => sem context.position best (mode context) context.position result)
        context.position none final →
      answers (mode context) context.position final ∧
        ∀ row, Shows row context.position final → good rule context.position row) :
    Evaluates (keeping assume) (Planted input skipper good held)
      (NonTerminal.parse nonTerminal rule (some parseBody) fuel) answers := by
  intro context planted
  rw [NonTerminal.parse, wp_bind, announce, wp_announce]
  intro met
  refine ⟨fun inProgress => planted.present inProgress, ?_⟩
  rw [wp_bind, wp_read, wp_bind, wp_modifyGet, wp_ite]
  unfold Context.ruleState
  cases present : context.mem context.position rule with
  | some row =>
      refine ⟨fun present => absurd present Bool.false_ne_true, fun _ => ?_⟩
      obtain ⟨outcome, shown, answer⟩ := hit context row planted met present
      refine wp_post (replay_shows planted present shown) ?_
      rintro result last ⟨kept, framed, shows'⟩
      exact ⟨kept, framed, shows'.answers answer⟩
  | none =>
      refine ⟨fun _ => ?_, fun absent => absurd rfl absent⟩
      have outside := planted.outside present
      rw [wp_bind]
      refine wp_post (invoke_grows (evaluates context.position) stable fuel planted present
        fun final grows => (grown context final planted met outside grows).2) ?_
      rintro result last ⟨final, kept, framed, stopped, shown, grows⟩
      obtain ⟨answer, fine⟩ := grown context final planted met outside grows
      refine wp_post (finish_shows plain kept outside stopped shown fine) ?_
      rintro result final' ⟨keptLast, framedLast, shows'⟩
      exact ⟨keptLast, framed.trans framedLast, shows'.answers answer⟩

end Growth

end Peglib.PlantedSeeds
