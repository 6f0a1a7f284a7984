import Peglib.Evaluation

/-!
# Properties of successful answers

A property of rule, start and end that the bodies of all rules reproduce holds
of every successful answer: of those the rules return and of those the memo
holds at any moment, the seeds of a growth in progress included. Neither the
order of growth nor the eviction of rows matters for this.
-/

namespace Peglib.SuccessfulAnswers

open Peglib.TracedComputation Peglib.WeakestPrecondition Peglib.Preservation
open Peglib.ParseError Peglib.ParseContext Peglib.Expressions Peglib.Rules
open Peglib.ControlDiscipline Peglib.PegSemantics Peglib.Evaluation

set_option autoImplicit false

variable {CharT NodeType : Type}

/-- What is known of a rule's answer: a success inside the input is good. -/
def Held (input : List CharT) (Good : RuleId → Nat → Nat → Prop) (_ : Unit) (_ : Option RuleId)
    (rule : RuleId) (pos : Nat) (outcome : Option Nat) : Prop :=
  ∀ stop, outcome = some stop → pos ≤ input.length → Good rule pos stop

structure RowSound (input : List CharT) (Good : RuleId → Nat → Nat → Prop) (rule : RuleId)
    (pos : Nat) (row : RuleState) : Prop where
  good : row.cachedResult.success = true → pos ≤ input.length → Good rule pos row.lastPos
  failed : ¬row.cachedResult.success = true → row.lastPos = pos

theorem success_row {input : List CharT} {Good : RuleId → Nat → Nat → Prop} {rule : RuleId}
    {pos stop : Nat} {tree : Option NodePtr} (good : pos ≤ input.length → Good rule pos stop) :
    RowSound input Good rule pos ⟨stop, ⟨true, tree⟩⟩ :=
  ⟨fun _ => good, fun failure => absurd rfl failure⟩

theorem failure_row {input : List CharT} {Good : RuleId → Nat → Nat → Prop} {rule : RuleId}
    {pos : Nat} {tree : Option NodePtr} : RowSound input Good rule pos ⟨pos, ⟨false, tree⟩⟩ :=
  ⟨nofun, fun _ => rfl⟩

structure Sound (input : List CharT) (skipper : Option RuleId) (Good : RuleId → Nat → Nat → Prop)
    (context : Context CharT) : Prop where
  source : context.input = input
  skipper : context.skipper = skipper
  rows : ∀ pos rule row, context.mem pos rule = some row → RowSound input Good rule pos row

theorem Sound.mode_cases {input : List CharT} {skipper : Option RuleId}
    {Good : RuleId → Nat → Nat → Prop} {context : Context CharT}
    (sound : Sound input skipper Good context) : mode context = none ∨ mode context = skipper := by
  unfold mode
  split_ifs
  · exact Or.inr sound.skipper
  · exact Or.inl rfl

/-- The contract of a run that keeps the memo sound at every moment. -/
def upholding (input : List CharT) (skipper : Option RuleId) (Good : RuleId → Nat → Nat → Prop) :
    Contract (Moment CharT) (Context CharT) Exn :=
  ⟨fun _ => True, fun moment => Sound input skipper Good moment.context,
    fun exn last => exn ≠ .assertion → Sound input skipper Good last⟩

section Steps

variable {input : List CharT} {skipper : Option RuleId} {Good : RuleId → Nat → Nat → Prop}

theorem remove_cut_sound {context : Context CharT} (sound : Sound input skipper Good context) :
    Sound input skipper Good context.removeCut := by
  unfold Context.removeCut
  split
  · exact sound
  · split_ifs
    · refine ⟨sound.source, sound.skipper, fun pos rule row held => ?_⟩
      dsimp only at held
      split_ifs at held
      exact sound.rows pos rule row held
    · exact ⟨sound.source, sound.skipper, sound.rows⟩

theorem sound_invariant : Invariant (upholding input skipper Good) input (Sound input skipper Good) where
  input _ sound := sound.source
  moved before after sound step := ⟨step.input.trans sound.source, step.skipper.trans sound.skipper,
    by rw [step.mem]; exact sound.rows⟩
  opened _ sound := ⟨sound.source, sound.skipper, sound.rows⟩
  cleared context sound := by
    unfold Context.setCut
    split <;> exact ⟨sound.source, sound.skipper, sound.rows⟩
  closed _ := remove_cut_sound
  failure _ sound := sound
  throws _ _ sound _ _ _ := sound
  unwinds _ _ sound plain := remove_cut_sound (sound plain)
  relabels _ _ _ sound plain := ⟨(sound plain).source, (sound plain).skipper, (sound plain).rows⟩

theorem update_sound {context : Context CharT} {rule : RuleId} {pos : Nat} {entry : RuleState}
    (source : context.input = input) (same : context.skipper = skipper)
    (others : ∀ pos' rule' row, ¬(pos' = pos ∧ rule' = rule) → context.mem pos' rule' = some row →
      RowSound input Good rule' pos' row)
    (sound : RowSound input Good rule pos entry) :
    Sound input skipper Good (context.updateRuleState rule pos entry).2 := by
  unfold Context.updateRuleState
  split
  · refine ⟨source, same, fun pos' rule' row held => ?_⟩
    rcases Memo.write_eq_some held with ⟨rfl, rfl, rfl⟩ | ⟨different, before⟩
    · exact sound
    · exact others _ _ _ different before
  · next absent =>
      refine ⟨source, same, fun pos' rule' row held => others _ _ _ ?_ held⟩
      rintro ⟨rfl, rfl⟩
      rw [absent] at held
      cases held

theorem update_framed (context : Context CharT) (rule : RuleId) (pos : Nat) (entry : RuleState) :
    Framed context (context.updateRuleState rule pos entry).2 ∧
      (context.updateRuleState rule pos entry).2.lrStack = context.lrStack ∧
      (context.updateRuleState rule pos entry).2.position = context.position := by
  unfold Context.updateRuleState
  split <;> exact ⟨⟨rfl, rfl⟩, rfl, rfl⟩

theorem store_sound {context : Context CharT} (sound : Sound input skipper Good context) {rule : RuleId}
    {pos : Nat} {entry : RuleState} (row : RowSound input Good rule pos entry)
    {post : Bool → Context CharT → Prop}
    (later : ∀ present, Sound input skipper Good (context.updateRuleState rule pos entry).2 →
      post present (context.updateRuleState rule pos entry).2) :
    wp (upholding input skipper Good) (NonTerminal.store rule pos entry) post context := by
  have after : Sound input skipper Good (context.updateRuleState rule pos entry).2 :=
    update_sound sound.source sound.skipper (fun _ _ _ _ held => sound.rows _ _ _ held) row
  rw [NonTerminal.store, wp_bind, wp_modifyGet, wp_bind, announce, wp_announce]
  exact fun _ => ⟨after, later _ after⟩

theorem clear_siblings_sound {context : Context CharT} (sound : Sound input skipper Good context)
    (pos : Nat) (keep : RuleId) : Sound input skipper Good (context.clearSiblingsAt pos keep) := by
  refine ⟨sound.source, sound.skipper, fun pos' rule row held => ?_⟩
  simp only [Context.clearSiblingsAt] at held
  split_ifs at held
  exact sound.rows pos' rule row held

/-- Rebuilding or adopting the body's node touches the arena only. -/
theorem build_node_sound (nonTerminal : NonTerminal CharT NodeType) (rule : RuleId) (startPos : Nat)
    (inner : Option NodePtr) {context : Context CharT} (sound : Sound input skipper Good context) :
    wp (upholding input skipper Good) (NonTerminal.buildNode nonTerminal rule startPos inner)
      (fun _ last => Sound input skipper Good last ∧ Framed context last ∧ last.position = context.position)
      context := by
  unfold NonTerminal.buildNode
  split
  · rw [wp_bind, wp_modifyGet, wp_bind, wp_modify, wp_bind, wp_modify, wp_pure]
    cases inner <;> exact ⟨⟨sound.source, sound.skipper, sound.rows⟩, ⟨rfl, rfl⟩, rfl⟩
  · rw [wp_bind]
    cases inner <;> exact ⟨⟨sound.source, sound.skipper, sound.rows⟩, ⟨rfl, rfl⟩, rfl⟩

theorem finish_success_sound (nonTerminal : NonTerminal CharT NodeType) {rule : RuleId}
    {startPos : Nat} {inner : ParseResult} {ruleState : RuleState} {context : Context CharT}
    (sound : Sound input skipper Good context) (success : inner.success = true)
    (row : RowSound input Good rule startPos ⟨ruleState.lastPos, inner⟩)
    (stopped : context.position = ruleState.lastPos) :
    wp (upholding input skipper Good)
      (NonTerminal.finishSuccess nonTerminal rule startPos inner ruleState)
      (fun result last => Sound input skipper Good last ∧ Framed context last ∧
        Answers (Held input Good () none rule) startPos result last.position) context := by
  rw [NonTerminal.finishSuccess, wp_bind]
  refine wp_post (build_node_sound nonTerminal rule startPos inner.tree sound) ?_
  rintro node built ⟨builtSound, framed, samePos⟩
  rw [wp_bind]
  refine store_sound builtSound (success_row (row.good success)) fun present stored => ?_
  rw [wp_pure]
  refine ⟨stored, framed.trans (update_framed _ _ _ _).1, ?_⟩
  rw [Answers, if_pos rfl, (update_framed _ _ _ _).2.2, samePos, stopped]
  rintro stop ended bounded
  obtain rfl := Option.some.inj ended
  exact row.good success bounded

theorem replay_sound {rule : RuleId} {startPos : Nat} {ruleState : RuleState}
    {context : Context CharT} (sound : Sound input skipper Good context)
    (held : context.mem startPos rule = some ruleState) :
    wp (upholding input skipper Good) (NonTerminal.replay rule startPos ruleState)
      (fun result last => Sound input skipper Good last ∧ Framed context last ∧
        Answers (Held input Good () none rule) startPos result last.position) context := by
  have row := sound.rows _ _ _ held
  have answer : Answers (Held input Good () none rule) startPos ruleState.cachedResult
      ruleState.lastPos := by
    unfold Answers
    split_ifs with success
    · rintro stop ended bounded
      obtain rfl := Option.some.inj ended
      exact row.good success bounded
    · exact ⟨row.failed success, nofun⟩
  have live : ∀ here : Context CharT, here.mem = context.mem →
      here.memoGet rule startPos = ruleState := by
    intro here same
    rw [Context.memoGet, same, held, Option.getD_some]
  rw [NonTerminal.replay, wp_bind, wp_read]
  dsimp only [id]
  rw [wp_ite]
  constructor
  · intro inProgress
    have marked : (context.markHead rule startPos).mem = context.mem ∧
        (context.markHead rule startPos).input = context.input ∧
        Framed context (context.markHead rule startPos) := by
      unfold Context.markHead
      split
      · split_ifs <;> exact ⟨rfl, rfl, ⟨rfl, rfl⟩⟩
      · exact ⟨rfl, rfl, ⟨rfl, rfl⟩⟩
    rw [wp_bind, wp_modify, wp_bind, wp_modify, wp_pure]
    refine ⟨⟨marked.2.1.trans sound.source, marked.2.2.skipper.trans sound.skipper, ?_⟩, ⟨marked.2.2.skipper, marked.2.2.skipEnabled⟩, ?_⟩
    · intro pos rule' row' found
      change (context.markHead rule startPos).mem pos rule' = some row' at found
      rw [marked.1] at found
      exact sound.rows _ _ _ found
    · rw [live _ rfl]
      rw [show ((context.markHead rule startPos).reset
        ((context.markHead rule startPos).memoGet rule startPos).lastPos).position =
          ruleState.lastPos by rw [live _ marked.1]; rfl]
      exact answer
  · intro _
    have jump : ∀ target : Nat, ∀ result : ParseResult, target = ruleState.lastPos →
        result = ruleState.cachedResult →
        wp (upholding input skipper Good) (Comp.modify (fun context => context.reset target) >>= fun _ =>
          (pure result : Parser CharT ParseResult)) (fun result last => Sound input skipper Good last ∧
          Framed context last ∧
          Answers (Held input Good () none rule) startPos result last.position) context := by
      rintro target result rfl rfl
      exact ⟨⟨sound.source, sound.skipper, sound.rows⟩, ⟨rfl, rfl⟩, answer⟩
    split
    · rw [wp_ite]
      refine ⟨fun _ => ?_, fun _ => jump _ _ rfl rfl⟩
      rw [wp_bind, wp_modify]
      refine ⟨⟨sound.source, sound.skipper, sound.rows⟩, ⟨rfl, rfl⟩, ?_⟩
      rw [live context rfl]
      exact answer
    · exact jump _ _ rfl rfl

end Steps

/-- What the bodies and the recovery of a grammar have to reproduce. -/
structure Reading (grammar : Grammar CharT NodeType) (input : List CharT)
    (skipper : Option RuleId) (matched : (Context CharT → Span → Option Span) → Nat → Option Nat → Prop)
    (Good : RuleId → Nat → Nat → Prop) [PegValue CharT] : Prop where
  forward : ∀ rule pos stop, Good rule pos stop → pos ≤ stop
  matchers : ∀ rule body, grammar.body rule = some body →
    body.Every (Admits (fun _ => True) matched fun context => context.input = input)
  bodies : ∀ rule body mode pos stop, grammar.body rule = some body → mode = none ∨ mode = skipper →
    Peg input matched (Held input Good) () mode (.expr body) pos (some stop) →
    pos ≤ input.length → Good rule pos stop
  recovers : ∀ rule isSyncToken, (grammar.nonTerminal rule).recover.isSyncToken = some isSyncToken →
    ∀ pos stop, pos ≤ stop → stop ≤ input.length → Good rule pos stop

/-- The head of the growth loop: the best result ends where the frame of the
rule says, and fails while the frame is at its start. -/
structure Growing (input : List CharT) (skipper : Option RuleId) (Good : RuleId → Nat → Nat → Prop) (rule : RuleId)
    (startPos : Nat) (start context : Context CharT) (best : ParseResult) (ruleState : RuleState) :
    Prop where
  sound : Sound input skipper Good context
  framed : Framed start context
  top : ∃ frame rest, context.lrStack = frame :: rest ∧ frame.lastPos = ruleState.lastPos
  best : RowSound input Good rule startPos ⟨ruleState.lastPos, best⟩

theorem Growing.frame_last {input : List CharT} {skipper : Option RuleId}
    {Good : RuleId → Nat → Nat → Prop} {rule : RuleId}
    {startPos : Nat} {start context : Context CharT}
    {best : ParseResult} {ruleState : RuleState}
    (growing : Growing input skipper Good rule startPos start context best ruleState) :
    (NonTerminal.frame context).lastPos = ruleState.lastPos := by
  obtain ⟨frame, rest, stack, last⟩ := growing.top
  rw [NonTerminal.frame, stack]
  exact last

/-- An invariant of the memo admits cuts. -/
theorem admits_sound {input : List CharT} {skipper : Option RuleId} {Good : RuleId → Nat → Nat → Prop}
    {matched : (Context CharT → Span → Option Span) → Nat → Option Nat → Prop} {expr : Expr CharT}
    (admitted : expr.Every (Admits (fun _ => True) matched fun context => context.input = input)) :
    expr.Every (Admits (fun _ => True) matched (Sound input skipper Good)) := by
  refine admitted.mono fun part admits => ?_
  cases part with
  | matcher fn => exact fun context sound => admits context sound.source
  | cut =>
      intro context sound
      unfold Context.setCut
      split <;> exact ⟨sound.source, sound.skipper, sound.rows⟩
  | _ => trivial

section Growth

variable [PegValue CharT] {grammar : Grammar CharT NodeType} {input : List CharT}
  {skipper : Option RuleId}
  {matched : (Context CharT → Span → Option Span) → Nat → Option Nat → Prop}
  {Good : RuleId → Nat → Nat → Prop} (reading : Reading grammar input skipper matched Good)

include reading

theorem grow_loop_sound {rule : RuleId} {body : Expr CharT} (assigned : grammar.body rule = some body)
    {parseBody : Parser CharT ParseResult}
    (evaluates : Evaluates (upholding input skipper Good) (Sound input skipper Good) parseBody
      fun mode pos outcome => Peg input matched (Held input Good) () mode (.expr body) pos outcome)
    (stable : StableParser parseBody) (startPos : Nat) (start : Context CharT) (fuel : Nat)
    (best : ParseResult) (ruleState : RuleState) (context : Context CharT)
    (growing : Growing input skipper Good rule startPos start context best ruleState) :
    wp (upholding input skipper Good) (NonTerminal.growLoop rule startPos parseBody fuel best ruleState)
      (fun grown last => Growing input skipper Good rule startPos start last grown.1 grown.2) context := by
  induction fuel generalizing best ruleState context with
  | zero => exact trivial
  | succ fuel induction =>
      obtain ⟨frame, rest, stack, last⟩ := growing.top
      rw [NonTerminal.growLoop, wp_bind, wp_modify, wp_bind, wp_read, wp_bind]
      have reset : Growing input skipper Good rule startPos start (context.reset startPos) best ruleState :=
        ⟨⟨growing.sound.source, growing.sound.skipper, growing.sound.rows⟩, ⟨growing.framed.skipper,
          growing.framed.skipEnabled⟩, growing.top, growing.best⟩
      have cleared : wp (upholding input skipper Good)
          (Comp.onlyIf ((NonTerminal.frame (context.reset startPos)).isHead = true ∧
              best.success = true)
            (Comp.modify fun context => context.clearSiblingsAt startPos rule))
          (fun _ here => Growing input skipper Good rule startPos start here best ruleState ∧
            here.position = startPos ∧ here.lrStack = context.lrStack)
          (context.reset startPos) := by
        rw [wp_onlyIf, wp_modify]
        refine ⟨fun _ => ⟨?_, rfl, rfl⟩, fun _ => ⟨reset, rfl, rfl⟩⟩
        exact ⟨clear_siblings_sound reset.sound startPos rule, ⟨reset.framed.skipper,
          reset.framed.skipEnabled⟩, reset.top, reset.best⟩
      refine wp_post cleared ?_
      rintro ⟨⟩ here ⟨ready, at_start, sameStack⟩
      rw [wp_bind]
      refine wp_post (wp_preserves (evaluates here ready.sound) stable) ?_
      rintro result after ⟨⟨sound, framed, answers⟩, step⟩
      obtain ⟨frame', rest', stack', core, -⟩ := stable_top step (sameStack.trans stack)
      have lastAfter : (NonTerminal.frame after).lastPos = ruleState.lastPos := by
        rw [NonTerminal.frame, stack', ← last]
        exact congrArg (fun core => core.2.2) core
      rw [wp_bind, wp_read, wp_ite]
      dsimp only [id]
      constructor
      · intro success
        have good : startPos ≤ input.length → Good rule startPos after.position := by
          rw [at_start, ← framed.mode_eq] at answers
          exact reading.bodies rule body _ startPos _ assigned sound.mode_cases
            (answers.of_success success)
        rw [wp_ite]
        constructor
        · intro progress
          rw [wp_bind, wp_modify, wp_bind]
          have row : RowSound input Good rule startPos ⟨after.position, result⟩ :=
            ⟨fun _ => good, fun failure => absurd success failure⟩
          have grownSound : Sound input skipper Good (NonTerminal.setFrameLastPos after.position after) :=
            ⟨sound.source, sound.skipper, sound.rows⟩
          refine store_sound grownSound row fun present stored => ?_
          have kept := update_framed (NonTerminal.setFrameLastPos after.position after) rule startPos
            ⟨after.position, result⟩
          have next : Growing input skipper Good rule startPos start
              ((NonTerminal.setFrameLastPos after.position after).updateRuleState rule startPos
                ⟨after.position, result⟩).2 result ⟨after.position, result⟩ := by
            refine ⟨stored, ?_, ⟨{ frame' with lastPos := after.position }, rest', ?_, rfl⟩, row⟩
            · have whole := ready.framed.trans framed
              have set : Framed start (NonTerminal.setFrameLastPos after.position after) :=
                ⟨whole.skipper, whole.skipEnabled⟩
              exact set.trans kept.1
            · rw [kept.2.1, NonTerminal.setFrameLastPos, stack']
          rw [wp_ite]
          exact ⟨fun _ => induction _ _ _ next, fun _ => next⟩
        · intro stuck
          rw [lastAfter] at stuck ⊢
          have row : RowSound input Good rule startPos
              ⟨ruleState.lastPos, if best.success then best else result⟩ := by
            by_cases held : best.success = true
            · rw [if_pos held]
              exact growing.best
            · rw [if_neg held]
              refine ⟨fun _ bounded => ?_, fun failure => absurd success failure⟩
              have at_seed : ruleState.lastPos = startPos := growing.best.failed held
              have forward := reading.forward _ _ _ (good bounded)
              have found := good bounded
              rw [show after.position = startPos by omega] at found
              rw [at_seed]
              exact found
          rw [wp_bind]
          refine store_sound sound row fun present stored => ?_
          have kept := update_framed after rule startPos
            ⟨ruleState.lastPos, if best.success then best else result⟩
          exact ⟨stored, (ready.framed.trans framed).trans kept.1,
            ⟨frame', rest', kept.2.1.trans stack', by
              rw [← lastAfter, NonTerminal.frame, stack']; rfl⟩, row⟩
      · intro failure
        exact ⟨sound, ready.framed.trans framed, ⟨frame', rest', stack', by
          rw [← lastAfter, NonTerminal.frame, stack']; rfl⟩, growing.best⟩

theorem invoke_sound {rule : RuleId} {body : Option (Expr CharT)}
    (assigned : grammar.body rule = body) {toParser : Expr CharT → Parser CharT ParseResult}
    (evaluates : ∀ expr ∈ body, Evaluates (upholding input skipper Good) (Sound input skipper Good) (toParser expr)
      fun mode pos outcome => Peg input matched (Held input Good) () mode (.expr expr) pos outcome)
    (stable : ∀ expr ∈ body, StableParser (toParser expr)) (startPos fuel : Nat)
    (entered : Context CharT) (source : entered.input = input) (same : entered.skipper = skipper)
    (others : ∀ pos' rule' row, ¬(pos' = startPos ∧ rule' = rule) →
      entered.mem pos' rule' = some row → RowSound input Good rule' pos' row) :
    wp (upholding input skipper Good) (NonTerminal.invoke rule startPos (body.map toParser) fuel)
      (fun grown last => Sound input skipper Good last ∧ Framed entered last ∧
        last.position = grown.2.lastPos ∧
        RowSound input Good rule startPos ⟨grown.2.lastPos, grown.1⟩) entered := by
  rw [NonTerminal.invoke, wp_bind, wp_modify, wp_bind]
  cases body with
  | none => exact fun plain => absurd rfl plain
  | some expr =>
      have seed : RowSound input Good rule startPos ⟨startPos, {}⟩ := failure_row
      have planted : Sound input skipper Good ((entered.lrPush ⟨rule, startPos, startPos,
          false⟩).updateRuleState rule startPos ⟨startPos, {}⟩).2 :=
        update_sound source same others seed
      have kept := update_framed (entered.lrPush ⟨rule, startPos, startPos, false⟩) rule startPos
        ⟨startPos, {}⟩
      rw [Option.map_some, NonTerminal.parseImpl, wp_bind, NonTerminal.store, wp_bind, wp_modifyGet,
        wp_bind, announce, wp_announce]
      refine fun _ => ⟨planted, ?_⟩
      rw [wp_pure, wp_bind]
      refine wp_post (grow_loop_sound reading assigned (evaluates expr rfl) (stable expr rfl) startPos
        entered fuel {} ⟨startPos, {}⟩ _ ⟨planted, ⟨kept.1.skipper, kept.1.skipEnabled⟩,
          ⟨_, _, kept.2.1, rfl⟩, seed⟩) ?_
      rintro ⟨best, ruleState⟩ last growing
      rw [wp_bind, wp_modify, wp_pure, wp_bind, wp_modify, wp_pure]
      have left : ∀ here : Context CharT, Framed here (NonTerminal.leave startPos here) ∧
          (NonTerminal.leave startPos here).input = here.input ∧
          (NonTerminal.leave startPos here).mem = here.mem ∧
          (NonTerminal.leave startPos here).position = here.position := by
        intro here
        unfold NonTerminal.leave
        split_ifs <;> exact ⟨⟨rfl, rfl⟩, rfl, rfl, rfl⟩
      obtain ⟨framed, sameInput, sameMem, samePos⟩ :=
        left (last.reset (NonTerminal.frame last).lastPos)
      refine ⟨⟨sameInput.trans growing.sound.source, framed.skipper.trans growing.sound.skipper, ?_⟩,
        ?_, ?_, growing.best⟩
      · rw [sameMem]
        exact growing.sound.rows
      · have reset : Framed entered (last.reset (NonTerminal.frame last).lastPos) :=
          ⟨growing.framed.skipper, growing.framed.skipEnabled⟩
        exact reset.trans framed
      · rw [samePos]
        exact growing.frame_last

theorem finish_failure_sound {rule : RuleId} {startPos : Nat} {ruleState : RuleState}
    {context : Context CharT} (sound : Sound input skipper Good context)
    (at_start : ruleState.lastPos = startPos) (stopped : context.position = startPos) :
    wp (upholding input skipper Good)
      (NonTerminal.finishFailure (grammar.nonTerminal rule) rule startPos ruleState)
      (fun result last => Sound input skipper Good last ∧ Framed context last ∧
        Answers (Held input Good () none rule) startPos result last.position) context := by
  obtain ⟨errors, recorded⟩ :=
    NonTerminal.record_rule_failure_frame (grammar.nonTerminal rule) startPos context
  rw [NonTerminal.finishFailure, wp_bind, wp_modify, recorded, wp_bind, wp_read]
  dsimp only [id]
  split
  · next isSyncToken configured uncommitted =>
      rw [wp_bind, wp_modify, wp_bind]
      generalize scanned : NonTerminal.scanSync isSyncToken { context with errors := errors }
        startPos = scan
      have after : startPos ≤ scan := by
        rw [← scanned]
        exact Nat.le_add_right _ _
      have good : startPos ≤ input.length → Good rule startPos
          (if scan < ({ context with errors := errors } : Context CharT).inputSize then scan + 1
            else ({ context with errors := errors } : Context CharT).inputSize) := by
        intro bounded
        have size : ({ context with errors := errors } : Context CharT).inputSize = input.length :=
          congrArg List.length sound.source
        rw [size]
        split_ifs with inside
        · exact reading.recovers rule isSyncToken configured _ _ (by omega) (by omega)
        · exact reading.recovers rule isSyncToken configured _ _ bounded (Nat.le_refl _)
      refine store_sound ?_ (success_row good) fun present stored => ?_
      · exact ⟨sound.source, sound.skipper, sound.rows⟩
      rw [wp_pure]
      refine ⟨stored, ⟨(update_framed _ _ _ _).1.skipper, (update_framed _ _ _ _).1.skipEnabled⟩, ?_⟩
      rw [Answers, if_pos rfl, (update_framed _ _ _ _).2.2]
      rintro stop ended bounded
      obtain rfl := Option.some.inj ended
      exact good bounded
  · rw [wp_bind, at_start]
    refine store_sound ?_ failure_row fun present stored => ?_
    · exact ⟨sound.source, sound.skipper, sound.rows⟩
    rw [wp_pure]
    refine ⟨stored, ⟨(update_framed _ _ _ _).1.skipper, (update_framed _ _ _ _).1.skipEnabled⟩, ?_⟩
    rw [Answers, if_neg Bool.false_ne_true, (update_framed _ _ _ _).2.2]
    exact ⟨stopped, fun _ absent => by cases absent⟩

theorem parse_sound {rule : RuleId} {body : Option (Expr CharT)}
    (assigned : grammar.body rule = body) {toParser : Expr CharT → Parser CharT ParseResult}
    (evaluates : ∀ expr ∈ body, Evaluates (upholding input skipper Good) (Sound input skipper Good) (toParser expr)
      fun mode pos outcome => Peg input matched (Held input Good) () mode (.expr expr) pos outcome)
    (stable : ∀ expr ∈ body, StableParser (toParser expr)) (fuel : Nat) :
    Evaluates (upholding input skipper Good) (Sound input skipper Good)
      (NonTerminal.parse (grammar.nonTerminal rule) rule (body.map toParser) fuel)
      fun mode pos outcome => Held input Good () mode rule pos outcome := by
  intro context sound
  rw [NonTerminal.parse, wp_bind, announce, wp_announce]
  refine fun _ => ⟨sound, ?_⟩
  rw [wp_bind, wp_read, wp_bind, wp_modifyGet, wp_ite]
  unfold Context.ruleState
  cases held : context.mem context.position rule with
  | some row =>
      refine ⟨fun present => absurd present Bool.false_ne_true, fun _ => ?_⟩
      exact replay_sound sound held
  | none =>
      refine ⟨fun _ => ?_, fun absent => absurd rfl absent⟩
      have others : ∀ pos' rule' row, ¬(pos' = context.position ∧ rule' = rule) →
          context.mem.write context.position rule {} pos' rule' = some row →
          RowSound input Good rule' pos' row := by
        intro pos' rule' row different found
        rcases Memo.write_eq_some found with ⟨rfl, rfl, -⟩ | ⟨-, before⟩
        · exact absurd ⟨rfl, rfl⟩ different
        · exact sound.rows _ _ _ before
      rw [wp_bind]
      refine wp_post (invoke_sound reading assigned evaluates stable context.position fuel
        { context with mem := context.mem.write context.position rule {} } sound.source sound.skipper
        others) ?_
      rintro grown last ⟨grownSound, framed, stopped, row⟩
      have framedLast : Framed context last := ⟨framed.skipper, framed.skipEnabled⟩
      rw [wp_ite]
      constructor
      · intro success
        refine wp_post (finish_success_sound (grammar.nonTerminal rule) grownSound success row
          stopped) ?_
        rintro result final ⟨finalSound, finish, answers⟩
        exact ⟨finalSound, framedLast.trans finish, answers⟩
      · intro failure
        have at_start := row.failed failure
        refine wp_post (finish_failure_sound reading grownSound at_start (stopped.trans at_start)) ?_
        rintro result final ⟨finalSound, finish, answers⟩
        exact ⟨finalSound, framedLast.trans finish, answers⟩

/-- Every rule application keeps the memo sound and answers soundly. -/
theorem apply_sound (fuel : Nat) (rule : RuleId) :
    Evaluates (upholding input skipper Good) (Sound input skipper Good) (grammar.apply fuel rule)
      fun mode pos outcome => Held input Good () mode rule pos outcome := by
  induction fuel generalizing rule with
  | zero => exact fun _ _ => trivial
  | succ fuel induction =>
      refine parse_sound reading rfl (fun expr assigned => ?_) (fun expr _ => ?_) fuel
      · exact expr_evaluates sound_invariant (fun id _ => induction id) (fun _ _ _ _ => trivial) fuel
          (admits_sound (reading.matchers rule expr assigned))
      · exact expr_stable (apply_stable grammar fuel) fuel expr

end Growth

section Visits

variable [PegValue CharT] {grammar : Grammar CharT NodeType} {input : List CharT}
  {matched : (Context CharT → Span → Option Span) → Nat → Option Nat → Prop}
  {Good : RuleId → Nat → Nat → Prop}

/-- The contexts over one input that parses of a grammar lead to, whether they
returned or were cut off by a `ParseError`. Everything but the memo may be
changed in between. -/
inductive Visited (grammar : Grammar CharT NodeType) (input : List CharT) : Context CharT → Prop where
  | fresh : Visited grammar input (Context.fresh input)
  | adjusted {before after : Context CharT} : Visited grammar input before →
      after.input = before.input → after.mem = before.mem →
      after.skipper = before.skipper ∨ after.skipper = grammar.skipper →
      Visited grammar input after
  | applied {context : Context CharT} (fuel : Nat) (rule : RuleId) : Visited grammar input context →
      (∃ result, (grammar.apply fuel rule context).outcome = .returned result) ∨
        (∃ position expected,
          (grammar.apply fuel rule context).outcome = .thrown (.parseError position expected)) →
      Visited grammar input (grammar.apply fuel rule context).state

theorem visited_sound (reading : ∀ skipper, skipper = none ∨ skipper = grammar.skipper →
      Reading grammar input skipper matched Good) {context : Context CharT}
    (visited : Visited grammar input context) :
    (context.skipper = none ∨ context.skipper = grammar.skipper) ∧
      Sound input context.skipper Good context := by
  induction visited with
  | fresh => exact ⟨Or.inl rfl, rfl, rfl, fun _ _ _ held => nomatch held⟩
  | adjusted _ same mem skipper earlier =>
      obtain ⟨choice, sound⟩ := earlier
      refine ⟨?_, same.trans sound.source, rfl, by rw [mem]; exact sound.rows⟩
      rcases skipper with kept | set
      · rwa [kept]
      · exact Or.inr set
  | @applied before fuel rule _ ended earlier =>
      obtain ⟨choice, sound⟩ := earlier
      have runs := apply_sound (reading _ choice) fuel rule before sound
      have after : Sound input before.skipper Good (grammar.apply fuel rule before).state := by
        rcases ended with ⟨result, returned⟩ | ⟨position, expected, thrown⟩
        · exact (wp_returned runs (fun _ _ => trivial) returned).1
        · exact wp_thrown runs (fun _ _ => trivial) thrown nofun
      rw [after.skipper]
      exact ⟨choice, after⟩

end Visits

end Peglib.SuccessfulAnswers
