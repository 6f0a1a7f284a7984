import Peglib.ControlDiscipline

/-!
# The grow loop keeps the longest match

`parseImpl` for an arbitrary body. The evaluations of the body are laid out as a
list; what is returned, where the parse stands and what the memo row holds are
all read off the initial run of that list in which every evaluation ends further
than the one before.
-/

namespace Peglib.LongestMatch

open Peglib.TracedComputation Peglib.WeakestPrecondition Peglib.Preservation
open Peglib.ParseError Peglib.ParseContext Peglib.Expressions Peglib.Rules
open Peglib.Rules.NonTerminal Peglib.ControlDiscipline

set_option autoImplicit false

variable {CharT : Type}

/-- One evaluation of a body, from its context on. -/
abbrev Evaluation (CharT : Type) : Type := Run (Moment CharT) (Context CharT) Exn ParseResult

/-- What every evaluation of the body of a rule at a position is free to do. -/
structure Behaves (rule : RuleId) (startPos : Nat) (parseBody : Parser CharT ParseResult) :
    Prop where
  input : ∀ before after result log, parseBody before = ⟨.returned result, after, log⟩ →
    before.position = startPos → after.input = before.input
  frame : ∀ before after result log, parseBody before = ⟨.returned result, after, log⟩ →
    before.position = startPos → before.lrStack ≠ [] →
    after.lrStack ≠ [] ∧ (frame after).lastPos = (frame before).lastPos
  ends : ∀ before after result log, parseBody before = ⟨.returned result, after, log⟩ →
    before.position = startPos → result.success = true →
    startPos ≤ after.position ∧ after.position ≤ before.inputSize
  row : ∀ before after result log, parseBody before = ⟨.returned result, after, log⟩ →
    before.position = startPos →
    after.mem startPos rule = before.mem startPos rule ∨ after.mem startPos rule = none

/-- A body of the engine keeps the input and the frame of its caller, whatever the
grammar. -/
theorem eval_behaves {NodeType : Type} [PegValue CharT] (grammar : Grammar CharT NodeType)
    (fuel : Nat) (body : Expr CharT) {rule : RuleId} {startPos : Nat}
    (ends : ∀ before after result log,
      grammar.eval fuel body before = ⟨.returned result, after, log⟩ →
      before.position = startPos → result.success = true →
      startPos ≤ after.position ∧ after.position ≤ before.inputSize)
    (row : ∀ before after result log,
      grammar.eval fuel body before = ⟨.returned result, after, log⟩ →
      before.position = startPos →
      after.mem startPos rule = before.mem startPos rule ∨ after.mem startPos rule = none) :
    Behaves rule startPos (grammar.eval fuel body) := by
  have kept : ∀ before after result log,
      grammar.eval fuel body before = ⟨.returned result, after, log⟩ → Stable before after := by
    intro before after result log run
    have step := (eval_stable grammar fuel body).returned (congrArg Run.outcome run)
    rwa [run] at step
  refine ⟨fun before after result log run _ => (kept before after result log run).input,
    fun before after result log run _ stack => ?_, ends, row⟩
  have step := kept before after result log run
  refine ⟨fun empty => stack ?_, frame_last_of_frames step.frames⟩
  have same := step.lr_length
  rw [empty] at same
  exact List.length_eq_zero_iff.mp same.symm

section Loop

variable (rule : RuleId) (startPos : Nat) (parseBody : Parser CharT ParseResult)

def prepared (best : ParseResult) (context : Context CharT) : Context CharT :=
  if (frame (context.reset startPos)).isHead = true ∧ best.success = true then
    (context.reset startPos).clearSiblingsAt startPos rule
  else context.reset startPos

/-- The `while (true)` loop without a budget: its evaluations, how it ends and in
which context. -/
inductive Loops : ParseResult → RuleState → Context CharT → List (Evaluation CharT) →
    Outcome Exn (ParseResult × RuleState) → Context CharT → Prop
  | thrown {best ruleState context exn last log} :
      parseBody (prepared rule startPos best context) = ⟨.thrown exn, last, log⟩ →
      Loops best ruleState context [⟨.thrown exn, last, log⟩] (.thrown exn) last
  | exhausted {best ruleState context last log} :
      parseBody (prepared rule startPos best context) = ⟨.exhausted, last, log⟩ →
      Loops best ruleState context [⟨.exhausted, last, log⟩] .exhausted last
  | failed {best ruleState context result after log} :
      parseBody (prepared rule startPos best context) = ⟨.returned result, after, log⟩ →
      result.success = false →
      Loops best ruleState context [⟨.returned result, after, log⟩]
        (.returned (best, ruleState)) after
  | settled {best ruleState context result after log} (kept : ParseResult) :
      parseBody (prepared rule startPos best context) = ⟨.returned result, after, log⟩ →
      result.success = true → after.position ≤ (frame after).lastPos →
      kept = (if best.success then best else result) →
      Loops best ruleState context [⟨.returned result, after, log⟩]
        (.returned (kept, ⟨(frame after).lastPos, kept⟩))
        (after.updateRuleState rule startPos ⟨(frame after).lastPos, kept⟩).2
  | evicted {best ruleState context result after log} (marked : Context CharT) :
      parseBody (prepared rule startPos best context) = ⟨.returned result, after, log⟩ →
      result.success = true → (frame after).lastPos < after.position →
      marked = setFrameLastPos after.position after →
      (marked.updateRuleState rule startPos ⟨after.position, result⟩).1 = false →
      Loops best ruleState context [⟨.returned result, after, log⟩]
        (.returned (result, ⟨after.position, result⟩))
        (marked.updateRuleState rule startPos ⟨after.position, result⟩).2
  | grown {best ruleState context result after log evaluations outcome last}
      (marked : Context CharT) :
      parseBody (prepared rule startPos best context) = ⟨.returned result, after, log⟩ →
      result.success = true → (frame after).lastPos < after.position →
      marked = setFrameLastPos after.position after →
      (marked.updateRuleState rule startPos ⟨after.position, result⟩).1 = true →
      Loops result ⟨after.position, result⟩
        (marked.updateRuleState rule startPos ⟨after.position, result⟩).2 evaluations outcome last →
      Loops best ruleState context (⟨.returned result, after, log⟩ :: evaluations) outcome last

def conclude (fuel : Nat) (best : ParseResult) (ruleState : RuleState) (result : ParseResult) :
    Parser CharT (ParseResult × RuleState) := do
  let after ← Comp.read id
  if result.success then
    if (frame after).lastPos < after.position then
      Comp.modify (setFrameLastPos after.position)
      if ← store rule startPos ⟨after.position, result⟩ then
        growLoop rule startPos parseBody fuel result ⟨after.position, result⟩
      else pure (result, ⟨after.position, result⟩)
    else
      let kept := if best.success then best else result
      let _ ← store rule startPos ⟨(frame after).lastPos, kept⟩
      pure (kept, ⟨(frame after).lastPos, kept⟩)
  else pure (best, ruleState)

variable {rule startPos parseBody}

theorem grow_loop_prepared (fuel : Nat) (best : ParseResult) (ruleState : RuleState)
    (context : Context CharT) :
    growLoop rule startPos parseBody (fuel + 1) best ruleState context =
      (parseBody >>= conclude rule startPos parseBody fuel best ruleState)
        (prepared rule startPos best context) := by
  rw [growLoop]
  unfold prepared
  by_cases marked : (frame (context.reset startPos)).isHead = true ∧ best.success = true
  · rw [if_pos marked]
    have cleared : Comp.onlyIf ((frame (context.reset startPos)).isHead = true ∧ best.success = true)
        (Comp.modify fun context => context.clearSiblingsAt startPos rule) =
        (Comp.modify (fun context => context.clearSiblingsAt startPos rule) :
          Parser CharT Unit) := if_pos marked
    calc
      _ = ((Comp.onlyIf ((frame (context.reset startPos)).isHead = true ∧ best.success = true)
            (Comp.modify fun context => context.clearSiblingsAt startPos rule)) >>=
          fun _ => parseBody >>= conclude rule startPos parseBody fuel best ruleState)
            (context.reset startPos) := rfl
      _ = _ := by rw [cleared]; rfl
  · rw [if_neg marked]
    have kept : Comp.onlyIf ((frame (context.reset startPos)).isHead = true ∧ best.success = true)
        (Comp.modify fun context => context.clearSiblingsAt startPos rule) =
        (Comp.pure () : Parser CharT Unit) := if_neg marked
    calc
      _ = ((Comp.onlyIf ((frame (context.reset startPos)).isHead = true ∧ best.success = true)
            (Comp.modify fun context => context.clearSiblingsAt startPos rule)) >>=
          fun _ => parseBody >>= conclude rule startPos parseBody fuel best ruleState)
            (context.reset startPos) := rfl
      _ = _ := by rw [kept]; rfl

theorem store_run (pos : Nat) (entry : RuleState) (context : Context CharT) :
    store rule pos entry context =
      ⟨.returned (context.updateRuleState rule pos entry).1,
        (context.updateRuleState rule pos entry).2,
        [⟨.store rule pos, (context.updateRuleState rule pos entry).2⟩]⟩ := rfl

theorem conclude_failed {fuel : Nat} {best result : ParseResult} {ruleState : RuleState}
    {after : Context CharT} (failure : result.success = false) :
    conclude rule startPos parseBody fuel best ruleState result after =
      ⟨.returned (best, ruleState), after, []⟩ := by
  unfold conclude
  rw [Comp.bind_returned (rfl : Comp.read id after = ⟨.returned after, after, []⟩), failure]
  rfl

theorem conclude_settled {fuel : Nat} {best result kept : ParseResult} {ruleState : RuleState}
    {after : Context CharT} (success : result.success = true)
    (still : after.position ≤ (frame after).lastPos)
    (adopted : kept = if best.success then best else result) :
    (conclude rule startPos parseBody fuel best ruleState result after).outcome =
        .returned (kept, ⟨(frame after).lastPos, kept⟩) ∧
      (conclude rule startPos parseBody fuel best ruleState result after).state =
        (after.updateRuleState rule startPos ⟨(frame after).lastPos, kept⟩).2 := by
  subst adopted
  unfold conclude
  rw [Comp.bind_returned (rfl : Comp.read id after = ⟨.returned after, after, []⟩), if_pos success]
  dsimp only [id]
  rw [if_neg (Nat.not_lt.mpr still), Comp.bind_returned (store_run _ _ _)]
  exact ⟨rfl, rfl⟩

theorem conclude_further {fuel : Nat} {best result : ParseResult} {ruleState : RuleState}
    {after marked : Context CharT} {next : Parser CharT (ParseResult × RuleState)}
    (success : result.success = true) (further : (frame after).lastPos < after.position)
    (mark : marked = setFrameLastPos after.position after)
    (goesOn : next =
      if (marked.updateRuleState rule startPos ⟨after.position, result⟩).1 = true then
        growLoop rule startPos parseBody fuel result ⟨after.position, result⟩
      else pure (result, ⟨after.position, result⟩)) :
    (conclude rule startPos parseBody fuel best ruleState result after).outcome =
        (next (marked.updateRuleState rule startPos ⟨after.position, result⟩).2).outcome ∧
      (conclude rule startPos parseBody fuel best ruleState result after).state =
        (next (marked.updateRuleState rule startPos ⟨after.position, result⟩).2).state := by
  subst mark goesOn
  unfold conclude
  rw [Comp.bind_returned (rfl : Comp.read id after = ⟨.returned after, after, []⟩), if_pos success]
  dsimp only [id]
  rw [if_pos further, Comp.bind_returned (rfl : Comp.modify (setFrameLastPos after.position) after =
    ⟨.returned (), setFrameLastPos after.position after, []⟩), Comp.bind_returned (store_run _ _ _)]
  exact ⟨rfl, rfl⟩

end Loop

section Answer

/-- The initial run of successful evaluations each of which ends further than the
one before. -/
def growingRun : Nat → List (ParseResult × Nat) → List (ParseResult × Nat)
  | _, [] => []
  | last, (result, stop) :: rest =>
      if result.success = true ∧ last < stop then (result, stop) :: growingRun stop rest else []

/-- The last match of that run, a first match that consumes nothing, or failure. -/
def longest (startPos : Nat) (matches' : List (ParseResult × Nat)) : ParseResult × Nat :=
  match (growingRun startPos matches').getLast?, matches'.head? with
  | some found, _ => found
  | none, some (result, _) => if result.success = true then (result, startPos) else ({}, startPos)
  | none, none => ({}, startPos)

/-- What the evaluations that returned have returned, and where they ended. -/
def matchesOf (evaluations : List (Evaluation CharT)) : List (ParseResult × Nat) :=
  evaluations.filterMap fun run => run.outcome.value?.map fun result => (result, run.state.position)

def longestFrom (best : ParseResult) (last : Nat) (matches' : List (ParseResult × Nat)) :
    ParseResult × Nat :=
  match (growingRun last matches').getLast?, matches'.head? with
  | some found, _ => found
  | none, some (result, _) =>
      if best.success = true then (best, last)
      else if result.success = true then (result, last) else (best, last)
  | none, none => (best, last)

theorem longest_from_start (startPos : Nat) (matches' : List (ParseResult × Nat)) :
    longestFrom {} startPos matches' = longest startPos matches' := by
  unfold longestFrom longest
  split <;> simp_all

theorem longest_from_grown {best result : ParseResult} {last stop : Nat}
    {rest : List (ParseResult × Nat)} (success : result.success = true) (further : last < stop) :
    longestFrom best last ((result, stop) :: rest) = longestFrom result stop rest := by
  unfold longestFrom
  rw [growingRun, if_pos ⟨success, further⟩]
  cases run : growingRun stop rest with
  | nil => cases rest <;> simp [success]
  | cons first more => rw [List.getLast?_cons_cons, List.getLast?_cons]

theorem longest_from_stopped {best result : ParseResult} {last stop : Nat}
    (still : ¬(result.success = true ∧ last < stop)) :
    longestFrom best last [(result, stop)] =
      if best.success = true then (best, last)
      else if result.success = true then (result, last) else (best, last) := by
  unfold longestFrom
  rw [growingRun, if_neg still]
  rfl

end Answer

section Invariant

variable {rule : RuleId} {startPos size : Nat} {parseBody : Parser CharT ParseResult}

/-- The marker of the frame, the local rule state and the memo row agree. -/
structure Agrees (rule : RuleId) (startPos size last : Nat) (entry : RuleState)
    (context : Context CharT) : Prop where
  size : context.inputSize = size
  stack : context.lrStack ≠ []
  marker : (frame context).lastPos = last
  row : ∀ row, context.mem startPos rule = some row → row = entry

theorem Agrees.prepared {last : Nat} {entry : RuleState} {context : Context CharT}
    (agrees : Agrees rule startPos size last entry context) (best : ParseResult) :
    Agrees rule startPos size last entry (prepared rule startPos best context) ∧
      (prepared rule startPos best context).position = startPos := by
  unfold LongestMatch.prepared
  split_ifs with marked
  · refine ⟨⟨agrees.size, agrees.stack, agrees.marker, fun row held => ?_⟩, rfl⟩
    simp only [Context.clearSiblingsAt] at held
    split_ifs at held
    exact agrees.row row held
  · exact ⟨⟨agrees.size, agrees.stack, agrees.marker, agrees.row⟩, rfl⟩

theorem Agrees.evaluated {last : Nat} {entry : RuleState} {before after : Context CharT}
    {result : ParseResult} {log : List (Moment CharT)} (behaves : Behaves rule startPos parseBody)
    (agrees : Agrees rule startPos size last entry before) (position : before.position = startPos)
    (run : parseBody before = ⟨.returned result, after, log⟩) :
    Agrees rule startPos size last entry after := by
  obtain ⟨stack, marker⟩ := behaves.frame _ _ _ _ run position agrees.stack
  have input := behaves.input _ _ _ _ run position
  refine ⟨?_, stack, marker.trans agrees.marker, fun row held => ?_⟩
  · rw [← agrees.size, Context.inputSize, input, Context.inputSize]
  · rcases behaves.row _ _ _ _ run position with same | erased
    · exact agrees.row row (same ▸ held)
    · rw [erased] at held
      cases held

theorem Agrees.marked {last stop : Nat} {entry : RuleState} {context : Context CharT}
    (agrees : Agrees rule startPos size last entry context) :
    Agrees rule startPos size stop entry (setFrameLastPos stop context) := by
  have stack := agrees.stack
  cases there : context.lrStack with
  | nil => exact absurd there stack
  | cons top rest =>
      have here : (setFrameLastPos stop context).lrStack = { top with lastPos := stop } :: rest := by
        unfold setFrameLastPos
        rw [there]
      refine ⟨agrees.size, by rw [here]; exact List.cons_ne_nil _ _, ?_, agrees.row⟩
      unfold frame
      rw [here]
      rfl

theorem Agrees.stored {last : Nat} {entry : RuleState} {context : Context CharT}
    (agrees : Agrees rule startPos size last entry context) (entry' : RuleState) :
    Agrees rule startPos size last entry' (context.updateRuleState rule startPos entry').2 := by
  unfold Context.updateRuleState
  cases there : context.mem startPos rule with
  | none =>
      refine ⟨agrees.size, agrees.stack, agrees.marker, fun row held => ?_⟩
      rw [there] at held
      cases held
  | some old =>
      refine ⟨agrees.size, agrees.stack, agrees.marker, fun row held => ?_⟩
      rcases Memo.write_eq_some held with ⟨-, -, same⟩ | ⟨other, -⟩
      · exact same
      · exact absurd ⟨rfl, rfl⟩ other

/-- Every iteration but the last one ends further, so that the input bounds them. -/
theorem grow_loop_loops (behaves : Behaves rule startPos parseBody) (fuel : Nat)
    (best : ParseResult) {ruleState : RuleState} {last : Nat} {context : Context CharT}
    (agrees : Agrees rule startPos size last ruleState context) (enough : size - last < fuel) :
    ∃ evaluations, Loops rule startPos parseBody best ruleState context evaluations
        (growLoop rule startPos parseBody fuel best ruleState context).outcome
        (growLoop rule startPos parseBody fuel best ruleState context).state ∧
      evaluations.length ≤ size - last + 1 := by
  induction fuel generalizing best ruleState last context with
  | zero => exact absurd enough (Nat.not_lt_zero _)
  | succ fuel induction =>
      obtain ⟨ready, position⟩ := agrees.prepared best
      rw [grow_loop_prepared]
      rcases run : parseBody (prepared rule startPos best context) with ⟨outcome, after, log⟩
      cases outcome with
      | thrown exn =>
          rw [Comp.bind_thrown run]
          exact ⟨_, .thrown run, Nat.le_add_left 1 _⟩
      | exhausted =>
          rw [Comp.bind_exhausted run]
          exact ⟨_, .exhausted run, Nat.le_add_left 1 _⟩
      | returned result =>
          rw [Comp.bind_returned run]
          have evaluated := ready.evaluated behaves position run
          cases success : result.success with
          | false =>
              rw [conclude_failed success]
              exact ⟨_, .failed run success, Nat.le_add_left 1 _⟩
          | true =>
              by_cases further : (frame after).lastPos < after.position
              · have bound := (behaves.ends _ _ _ _ run position success).2
                have marker := evaluated.marker
                rw [ready.size] at bound
                cases present : ((setFrameLastPos after.position after).updateRuleState rule
                    startPos ⟨after.position, result⟩).1 with
                | false =>
                    obtain ⟨outcome, state⟩ := @conclude_further _ rule startPos parseBody fuel best
                      result ruleState after _ (pure (result, ⟨after.position, result⟩)) success
                      further rfl (by rw [present]; rfl)
                    dsimp only
                    rw [outcome, state]
                    exact ⟨_, .evicted _ run success further rfl present, Nat.le_add_left 1 _⟩
                | true =>
                    obtain ⟨outcome, state⟩ := @conclude_further _ rule startPos parseBody fuel best
                      result ruleState after _
                      (growLoop rule startPos parseBody fuel result ⟨after.position, result⟩) success
                      further rfl (by rw [present, if_pos rfl])
                    dsimp only
                    rw [outcome, state]
                    have next : Agrees rule startPos size after.position ⟨after.position, result⟩
                      _ := evaluated.marked.stored ⟨after.position, result⟩
                    obtain ⟨evaluations, loops, length⟩ := induction result next (by omega)
                    refine ⟨_, .grown _ run success further rfl present loops, ?_⟩
                    rw [List.length_cons]
                    omega
              · obtain ⟨outcome, state⟩ := @conclude_settled _ rule startPos parseBody fuel best
                  result _ ruleState after success (Nat.not_lt.mp further) rfl
                dsimp only
                rw [outcome, state]
                exact ⟨_, .settled _ run success (Nat.not_lt.mp further) rfl, Nat.le_add_left 1 _⟩

/-- What the loop returns, the marker it leaves and the row it leaves. -/
theorem Loops.longest (behaves : Behaves rule startPos parseBody) {best : ParseResult}
    {ruleState : RuleState} {context after : Context CharT}
    {evaluations : List (Evaluation CharT)} {outcome : Outcome Exn (ParseResult × RuleState)}
    (loops : Loops rule startPos parseBody best ruleState context evaluations outcome after)
    {last : Nat} (agrees : Agrees rule startPos size last ruleState context)
    (same : ruleState = ⟨last, best⟩) :
    (outcome = .exhausted → ∃ evaluation ∈ evaluations, evaluation.outcome = .exhausted) ∧
      ∀ value, outcome = .returned value →
        value = ((longestFrom best last (matchesOf evaluations)).1,
            ⟨(longestFrom best last (matchesOf evaluations)).2,
              (longestFrom best last (matchesOf evaluations)).1⟩) ∧
          Agrees rule startPos size (longestFrom best last (matchesOf evaluations)).2 value.2
            after := by
  induction loops generalizing last with
  | thrown run => exact ⟨nofun, nofun⟩
  | exhausted run => exact ⟨fun _ => ⟨_, List.mem_cons_self, rfl⟩, nofun⟩
  | @failed best ruleState context result stop log run failure =>
      subst same
      obtain ⟨ready, position⟩ := agrees.prepared best
      have evaluated := ready.evaluated behaves position run
      have kept : longestFrom best last (matchesOf [⟨.returned result, stop, log⟩]) =
          (best, last) := by
        have still : ¬(result.success = true ∧ last < stop.position) := by simp [failure]
        rw [show matchesOf [(⟨.returned result, stop, log⟩ : Evaluation CharT)] =
          [(result, stop.position)] from rfl, longest_from_stopped still, failure,
          if_neg Bool.false_ne_true, ite_self]
      refine ⟨nofun, ?_⟩
      rintro value ⟨⟩
      rw [kept]
      exact ⟨rfl, evaluated⟩
  | @settled best ruleState context result stop log kept run success still adopted =>
      subst same
      obtain ⟨ready, position⟩ := agrees.prepared best
      have evaluated := ready.evaluated behaves position run
      have marker := evaluated.marker
      have chosen : longestFrom best last (matchesOf [⟨.returned result, stop, log⟩]) =
          (kept, last) := by
        have notFurther : ¬(result.success = true ∧ last < stop.position) := by
          rw [marker] at still
          exact fun further => Nat.not_lt.mpr still further.2
        rw [show matchesOf [(⟨.returned result, stop, log⟩ : Evaluation CharT)] =
          [(result, stop.position)] from rfl, longest_from_stopped notFurther, adopted, if_pos success]
        split_ifs <;> rfl
      refine ⟨nofun, ?_⟩
      rintro value ⟨⟩
      rw [chosen, marker]
      exact ⟨rfl, evaluated.stored _⟩
  | @evicted best ruleState context result stop log marked run success further mark absent =>
      subst same mark
      obtain ⟨ready, position⟩ := agrees.prepared best
      have evaluated := ready.evaluated behaves position run
      have chosen : longestFrom best last (matchesOf [⟨.returned result, stop, log⟩]) =
          (result, stop.position) := by
        rw [evaluated.marker] at further
        exact longest_from_grown success further
      refine ⟨nofun, ?_⟩
      rintro value ⟨⟩
      rw [chosen]
      exact ⟨rfl, evaluated.marked.stored _⟩
  | @grown best ruleState context result stop log evaluations outcome after marked run success
      further mark present loops induction =>
      subst same mark
      obtain ⟨ready, position⟩ := agrees.prepared best
      have evaluated := ready.evaluated behaves position run
      have chosen : longestFrom best last
          (matchesOf (⟨.returned result, stop, log⟩ :: evaluations)) =
          longestFrom result stop.position (matchesOf evaluations) := by
        rw [evaluated.marker] at further
        exact longest_from_grown success further
      have next : Agrees rule startPos size stop.position ⟨stop.position, result⟩ _ :=
        evaluated.marked.stored ⟨stop.position, result⟩
      obtain ⟨spent, answered⟩ := induction next rfl
      rw [chosen]
      refine ⟨fun ended => ?_, answered⟩
      obtain ⟨evaluation, member, here⟩ := spent ended
      exact ⟨evaluation, List.mem_cons_of_mem _ member, here⟩

/-- The row, the local state, the position and the result are those of the longest
match, and the body is evaluated no more often than the input allows. -/
theorem parse_impl_longest (behaves : Behaves rule startPos parseBody) {context : Context CharT}
    {isHead : Bool} {above : List LRFrame}
    (pushed : context.lrStack = ⟨rule, startPos, startPos, isHead⟩ :: above)
    {fuel : Nat} (enough : context.inputSize - startPos < fuel) :
    ∃ evaluations last,
      Loops rule startPos parseBody {} ⟨startPos, {}⟩
          (context.updateRuleState rule startPos ⟨startPos, {}⟩).2 evaluations
          (parseImpl rule startPos (some parseBody) fuel context).outcome last ∧
        evaluations.length ≤ context.inputSize - startPos + 1 ∧
        ((parseImpl rule startPos (some parseBody) fuel context).outcome = .exhausted →
          ∃ evaluation ∈ evaluations, evaluation.outcome = .exhausted) ∧
        ∀ value, (parseImpl rule startPos (some parseBody) fuel context).outcome =
            .returned value →
          let found := longest startPos (matchesOf evaluations)
          value = (found.1, ⟨found.2, found.1⟩) ∧
            (parseImpl rule startPos (some parseBody) fuel context).state.position = found.2 ∧
            ∀ row, (parseImpl rule startPos (some parseBody) fuel context).state.mem startPos rule =
              some row → row = ⟨found.2, found.1⟩ := by
  have entered : Agrees rule startPos context.inputSize startPos (context.memoGet rule startPos)
      context := by
    refine ⟨rfl, by rw [pushed]; exact List.cons_ne_nil _ _, ?_, fun row held => ?_⟩
    · rw [frame, pushed]
      rfl
    · rw [Context.memoGet, held, Option.getD_some]
  have seeded := entered.stored ⟨startPos, {}⟩
  obtain ⟨evaluations, loops, length⟩ := grow_loop_loops behaves fuel {} seeded enough
  obtain ⟨spent, answered⟩ := loops.longest behaves seeded rfl
  rw [longest_from_start] at answered
  have planted : parseImpl rule startPos (some parseBody) fuel context =
      ((store rule startPos ⟨startPos, {}⟩ >>= fun _ =>
        growLoop rule startPos parseBody fuel {} ⟨startPos, {}⟩ >>= fun grown =>
          Comp.modify (fun context => context.reset (frame context).lastPos) >>= fun _ =>
            pure grown) : Parser CharT (ParseResult × RuleState)) context := rfl
  rw [planted, Comp.bind_returned (store_run _ _ _)]
  rcases run : growLoop rule startPos parseBody fuel {} ⟨startPos, {}⟩
      (context.updateRuleState rule startPos ⟨startPos, {}⟩).2 with ⟨outcome, last, log⟩
  rw [run] at loops spent answered
  cases outcome with
  | thrown exn =>
      rw [Comp.bind_thrown run]
      exact ⟨evaluations, last, loops, length, by simp, by simp⟩
  | exhausted =>
      rw [Comp.bind_exhausted run]
      exact ⟨evaluations, last, loops, length, spent, by simp⟩
  | returned grown =>
      rw [Comp.bind_returned run]
      obtain ⟨same, agrees⟩ := answered grown rfl
      refine ⟨evaluations, last, loops, length, by rintro ⟨⟩, ?_⟩
      rintro value ⟨⟩
      refine ⟨same, agrees.marker, fun row held => ?_⟩
      rw [agrees.row row held, same]

end Invariant

/-- A body that takes one letter more than the seed that is published for it. -/
def seedEater : Parser Nat ParseResult := fun context =>
  ⟨.returned ⟨true, none⟩,
    { context with position := min ((context.memoGet 0 0).lastPos + 1) context.inputSize }, []⟩

theorem seed_eater_behaves : Behaves 0 0 seedEater where
  input := by
    rintro before after result log ⟨⟩ _
    rfl
  frame := by
    rintro before after result log ⟨⟩ _ stack
    exact ⟨stack, rfl⟩
  ends := by
    rintro before after result log ⟨⟩ _ _
    exact ⟨Nat.zero_le _, Nat.min_le_right _ _⟩
  row := by
    rintro before after result log ⟨⟩ _
    exact Or.inl rfl

/-- The rule entered on two letters, its row inserted. -/
def twoLetters : Context Nat where
  input := [97, 97]
  mem := Memo.write (fun _ _ => none) 0 0 {}
  lrStack := [⟨0, 0, 0, false⟩]

theorem seed_eater_longest :
    (parseImpl 0 0 (some seedEater) 3 twoLetters).outcome.value?.isSome = true ∧
      ∃ evaluations last,
        Loops 0 0 seedEater {} ⟨0, {}⟩ (twoLetters.updateRuleState 0 0 ⟨0, {}⟩).2 evaluations
            (parseImpl 0 0 (some seedEater) 3 twoLetters).outcome last ∧
          evaluations.length ≤ twoLetters.inputSize - 0 + 1 ∧
          ((parseImpl 0 0 (some seedEater) 3 twoLetters).outcome = .exhausted →
            ∃ evaluation ∈ evaluations, evaluation.outcome = .exhausted) ∧
          ∀ value, (parseImpl 0 0 (some seedEater) 3 twoLetters).outcome = .returned value →
            let found := longest 0 (matchesOf evaluations)
            value = (found.1, ⟨found.2, found.1⟩) ∧
              (parseImpl 0 0 (some seedEater) 3 twoLetters).state.position = found.2 ∧
              ∀ row, (parseImpl 0 0 (some seedEater) 3 twoLetters).state.mem 0 0 = some row →
                row = ⟨found.2, found.1⟩ :=
  ⟨by decide +kernel, @parse_impl_longest _ 0 0 seedEater seed_eater_behaves twoLetters false [] rfl 3
    (by decide)⟩

end Peglib.LongestMatch
