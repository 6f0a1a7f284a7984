import Peglib.CommittedFailures

/-!
# What the entry points let out and what they leave behind

`Grammar::parse`, `parse_tree` and `parse_ast` run the leading skip before
their handler. A committed failure in the skipper therefore escapes, and one
after it is caught while the frames it was thrown through stay on the
invocation stack.
-/

namespace Peglib.EntryPoints

open Peglib.TracedComputation Peglib.WeakestPrecondition Peglib.Preservation
open Peglib.ParseError Peglib.ParseContext Peglib.Expressions Peglib.Rules Peglib.TypedFold
open Peglib.ControlDiscipline Peglib.CommittedFailures

set_option autoImplicit false

variable {CharT NodeType : Type}

/-- The parts of a context that govern how the next parse behaves. -/
structure ControlState where
  lrStack : List LRFrame
  growingHead : Nat → Option RuleId
  cutStack : List CutRecord
  skipEnabled : Bool

def control (context : Context CharT) : ControlState :=
  ⟨context.lrStack, context.growingHead, context.cutStack, context.skipEnabled⟩

/-- No rule is in progress, no head grows and no scope is open. -/
structure AtRest (context : Context CharT) : Prop where
  stack : context.lrStack = []
  heads : ∀ pos, context.growingHead pos = none
  scopes : context.cutStack = []

theorem AtRest.kept {before after : Context CharT} (rest : AtRest before)
    (step : Stable before after) : AtRest after where
  stack := by
    have frames := step.frames
    rw [rest.stack] at frames
    exact List.map_eq_nil_iff.mp frames
  heads pos := by
    have tracked : HeadsTracked before := fun pos head set => by rw [rest.heads] at set; cases set
    cases set : after.growingHead pos with
    | none => rfl
    | some head =>
        obtain ⟨frame, member, -⟩ := step.heads tracked pos head set
        have frames := step.frames
        rw [rest.stack] at frames
        rw [List.map_eq_nil_iff.mp frames] at member
        cases member
  scopes := by
    have depth := step.depth
    rw [rest.scopes] at depth
    exact List.length_eq_zero_iff.mp depth

theorem AtRest.control_eq {before after : Context CharT} (rest : AtRest before)
    (restAfter : AtRest after) (skipEnabled : after.skipEnabled = before.skipEnabled) :
    control after = control before := by
  unfold control
  rw [rest.stack, rest.scopes, restAfter.stack, restAfter.scopes, skipEnabled,
    funext rest.heads, funext restAfter.heads]

theorem AtRest.of_control_eq {before after : Context CharT} (rest : AtRest before)
    (same : control after = control before) : AtRest after := by
  simp only [control, ControlState.mk.injEq] at same
  exact ⟨same.1.trans rest.stack, fun pos => same.2.1 ▸ rest.heads pos, same.2.2.1.trans rest.scopes⟩

theorem fresh_at_rest (input : List CharT) : AtRest (Context.fresh input) :=
  ⟨rfl, fun _ => rfl, rfl⟩

section Boundary

variable [PegValue CharT] (grammar : Grammar CharT NodeType)

/-- What a run of an entry point says about committed failures. -/
structure EntryFacts {Value : Type} (fuel : Nat) (context : Context CharT)
    (run : Run (Moment CharT) (Context CharT) Exn Value) : Prop where
  raised : Raised run.outcome ↔
    ∃ moment ∈ (grammar.leadingSkip fuel context).trace, Committed moment
  restored : AtRest context → ∀ value, run.outcome = .returned value →
    (control run.state = control context ↔ ∀ moment ∈ run.trace, ¬Committed moment)

/-- The leading skip followed by the handler around the start rule. -/
def boundary {Value : Type} (fuel : Nat) (rule : RuleId) (view : ParseResult → Value)
    (fallback : Value) : Parser CharT Value := do
  grammar.leadingSkip fuel
  Comp.catching (do
    let result ← grammar.apply fuel rule
    pure (view result)) (Grammar.onParseError fallback)

theorem leading_skip_stable {fuel : Nat} {context : Context CharT} {value : Unit}
    (ended : (grammar.leadingSkip fuel context).outcome = .returned value) :
    Stable { context with skipper := grammar.skipper } (grammar.leadingSkip fuel context).state := by
  have ran : (runSkipper (grammar.apply fuel)
      { context with skipper := grammar.skipper }).outcome = .returned value := ended
  exact (skip_stable (apply_stable grammar fuel)).returned ran

/-- The handler turns a `ParseError` of the start rule into the fallback. -/
theorem boundary_run {Value : Type} {fuel : Nat} {rule : RuleId} {view : ParseResult → Value}
    {fallback : Value} {context middle last : Context CharT} {skipLog log : List (Moment CharT)}
    {outcome : Outcome Exn ParseResult}
    (skipRun : grammar.leadingSkip fuel context = ⟨.returned (), middle, skipLog⟩)
    (applyRun : grammar.apply fuel rule middle = ⟨outcome, last, log⟩) :
    boundary grammar fuel rule view fallback context =
      ⟨match outcome with
        | .returned result => .returned (view result)
        | .thrown (.parseError _ _) => .returned fallback
        | .thrown exn => .thrown exn
        | .exhausted => .exhausted, last, skipLog ++ log⟩ := by
  unfold boundary
  rw [Comp.bind_returned skipRun]
  unfold Comp.catching
  cases outcome with
  | returned result =>
      rw [Comp.bind_returned applyRun]
      simp [Comp.pure_eq, Comp.pure]
  | thrown exn =>
      rw [Comp.bind_thrown applyRun]
      cases exn <;> rfl
  | exhausted => rw [Comp.bind_exhausted applyRun]

theorem boundary_facts {Value : Type} (fuel : Nat) (rule : RuleId) (view : ParseResult → Value)
    (fallback : Value) (context : Context CharT) :
    EntryFacts grammar fuel context (boundary grammar fuel rule view fallback context) := by
  have skipLogged := leading_skip_announced grammar fuel context
  have skipKept := @leading_skip_stable _ _ _ grammar fuel context
  rcases skipRun : grammar.leadingSkip fuel context with ⟨outcome, middle, skipLog⟩
  rw [skipRun] at skipLogged skipKept
  cases outcome with
  | thrown exn =>
      unfold boundary
      rw [Comp.bind_thrown skipRun]
      exact ⟨by rw [skipRun, ← skipLogged, thrown_raised, thrown_raised], fun _ _ ended => nomatch ended⟩
  | exhausted =>
      unfold boundary
      rw [Comp.bind_exhausted skipRun]
      refine ⟨?_, fun _ _ ended => nomatch ended⟩
      rw [skipRun, ← skipLogged]
      exact iff_of_false exhausted_not_raised exhausted_not_raised
  | returned value =>
      have skipQuiet : ¬∃ moment ∈ skipLog, Committed moment := by
        rw [← skipLogged]
        exact returned_not_raised value
      have skipped := skipKept rfl
      have applyLogged := apply_announced grammar fuel rule middle
      have entered := apply_entered grammar fuel rule middle
      rcases applyRun : grammar.apply fuel rule middle with ⟨outcome, last, log⟩
      rw [applyRun] at applyLogged entered
      rw [boundary_run grammar skipRun applyRun]
      have notRaised : ∀ result : Outcome Exn Value, ¬Raised result →
          (Raised result ↔ ∃ moment ∈ (grammar.leadingSkip fuel context).trace,
            Committed moment) := by
        intro result calm
        rw [skipRun]
        exact iff_of_false calm skipQuiet
      have quietIff : (∀ moment ∈ skipLog ++ log, ¬Committed moment) ↔
          ¬∃ moment ∈ log, Committed moment := by
        push Not at skipQuiet ⊢
        simp only [List.mem_append, or_imp, forall_and]
        exact and_iff_right skipQuiet
      cases outcome with
      | returned result =>
          refine ⟨notRaised _ (returned_not_raised _), fun rest value _ => ?_⟩
          have step := skipped.trans entered
          have restSkipping : AtRest { context with skipper := grammar.skipper } :=
            ⟨rest.stack, rest.heads, rest.scopes⟩
          rw [quietIff, ← applyLogged]
          exact iff_of_true (rest.control_eq (restSkipping.kept step) step.skipEnabled)
            (returned_not_raised result)
      | exhausted =>
          exact ⟨notRaised _ exhausted_not_raised, fun _ _ ended => nomatch ended⟩
      | thrown exn =>
          cases exn with
          | parseError position expected =>
              refine ⟨notRaised _ (returned_not_raised _), fun rest value _ => ?_⟩
              rw [quietIff, ← applyLogged]
              refine iff_of_false (fun same => ?_) (not_not.mpr ⟨position, expected, rfl⟩)
              have deeper : middle.lrStack.length < last.lrStack.length := entered
              rw [(rest.of_control_eq same).stack] at deeper
              cases deeper
          | outOfRange _ | logicError _ | assertion | nullPointer =>
              refine ⟨notRaised _ ?_, fun _ _ ended => nomatch ended⟩
              rw [thrown_raised]
              rintro ⟨position, expected, same⟩
              cases same

variable {grammar}

theorem EntryFacts.followed {Value Other : Type} {fuel : Nat} {context : Context CharT}
    {first : Parser CharT Value} {next : Value → Parser CharT Other}
    (facts : EntryFacts grammar fuel context (first context)) (later : ∀ value, Plain (next value)) :
    EntryFacts grammar fuel context ((first >>= next) context) := by
  obtain ⟨raised, restored⟩ := facts
  rcases run : first context with ⟨outcome, middle, log⟩
  rw [run] at raised restored
  cases outcome with
  | returned value =>
      rw [Comp.bind_returned run]
      obtain ⟨calm, quiet, same⟩ := later value middle
      refine ⟨?_, fun rest other ended => ?_⟩
      · rw [← raised]
        exact iff_of_false calm (returned_not_raised value)
      · dsimp only at ended ⊢
        rw [same other ended, restored rest value rfl]
        simp only [List.mem_append, or_imp, forall_and]
        exact (and_iff_left quiet).symm
  | thrown exn =>
      rw [Comp.bind_thrown run]
      exact ⟨by rw [← raised, thrown_raised, thrown_raised], fun _ _ ended => nomatch ended⟩
  | exhausted =>
      rw [Comp.bind_exhausted run]
      exact ⟨by rw [← raised]; exact iff_of_false exhausted_not_raised exhausted_not_raised,
        fun _ _ ended => nomatch ended⟩

end Boundary

section Calls

variable [PegValue CharT] [Inhabited NodeType]

/-- The parsing calls of a grammar. -/
inductive Entry where
  | parseStart
  | parse (name : Str)
  | parseTree (name : Str)
  | parseAst (name : Str)

namespace Entry

/-- The rule a call starts from, if there is one. -/
def startRule (grammar : Grammar CharT NodeType) : Entry → Option RuleId
  | .parseStart => if grammar.start = [] then none else grammar.find grammar.start
  | .parse name | .parseTree name | .parseAst name => grammar.find name

def call (grammar : Grammar CharT NodeType) (fuel : Nat) : Entry → Parser CharT Unit
  | .parseStart => do let _ ← grammar.parseStart fuel; pure ()
  | .parse name => do let _ ← grammar.parse fuel name; pure ()
  | .parseTree name => do let _ ← grammar.parseTree fuel name; pure ()
  | .parseAst name => do let _ ← TypedFold.parseAst grammar fuel name; pure ()

theorem call_facts {grammar : Grammar CharT NodeType} {entry : Entry} {rule : RuleId}
    (found : entry.startRule grammar = some rule) (fuel : Nat) (context : Context CharT) :
    EntryFacts grammar fuel context (entry.call grammar fuel context) := by
  cases entry with
  | parseStart =>
      rw [startRule] at found
      split_ifs at found with start
      refine EntryFacts.followed ?_ fun _ => plain_pure ()
      rw [Grammar.parseStart, if_neg start, Grammar.parse, found]
      exact boundary_facts grammar fuel rule _ _ context
  | parse name =>
      refine EntryFacts.followed ?_ fun _ => plain_pure ()
      rw [Grammar.parse, show grammar.find name = some rule from found]
      exact boundary_facts grammar fuel rule _ _ context
  | parseTree name =>
      refine EntryFacts.followed ?_ fun _ => plain_pure ()
      rw [Grammar.parseTree, show grammar.find name = some rule from found]
      exact boundary_facts grammar fuel rule _ _ context
  | parseAst name =>
      refine EntryFacts.followed ?_ fun _ => plain_pure ()
      rw [TypedFold.parseAst, show grammar.find name = some rule from found]
      refine EntryFacts.followed ?_ fun tree => ?_
      · rw [Grammar.parseTree, show grammar.find name = some rule from found]
        exact boundary_facts grammar fuel rule _ _ context
      · cases tree with
        | none => exact plain_pure none
        | some node =>
            refine plain_bind ((fire_plain grammar fuel).1 _ _) fun _ => ?_
            refine plain_bind (plain_ask (fold_start_not_raised grammar fuel rule node)) fun _ => ?_
            exact plain_pure _

theorem unknown_not_returned {grammar : Grammar CharT NodeType} {entry : Entry}
    (unknown : entry.startRule grammar = none) (fuel : Nat) (context : Context CharT) :
    (entry.call grammar fuel context).outcome ≠ .returned () := by
  cases entry with
  | parseStart =>
      rw [startRule] at unknown
      rw [call, Grammar.parseStart]
      split_ifs at unknown ⊢ with start
      · exact nofun
      · rw [Grammar.parse, unknown]
        exact nofun
  | parse name =>
      rw [call, Grammar.parse, show grammar.find name = none from unknown]
      exact nofun
  | parseTree name =>
      rw [call, Grammar.parseTree, show grammar.find name = none from unknown]
      exact nofun
  | parseAst name =>
      rw [call, TypedFold.parseAst, show grammar.find name = none from unknown]
      exact nofun

end Entry

/-- The contexts that calls without a committed failure lead to. Between calls
anything but the control state may be changed, and the skip flag may be set. -/
inductive Reached (grammar : Grammar CharT NodeType) : Context CharT → Prop where
  | fresh (input : List CharT) : Reached grammar (Context.fresh input)
  | adjusted {before after : Context CharT} : Reached grammar before →
      control after = { control before with skipEnabled := after.skipEnabled } →
      Reached grammar after
  | called {context : Context CharT} (entry : Entry) (fuel : Nat) : Reached grammar context →
      (entry.call grammar fuel context).outcome = .returned () →
      (∀ moment ∈ (entry.call grammar fuel context).trace, ¬Committed moment) →
      Reached grammar (entry.call grammar fuel context).state

theorem Reached.at_rest {grammar : Grammar CharT NodeType} {context : Context CharT}
    (reached : Reached grammar context) : AtRest context := by
  induction reached with
  | fresh input => exact fresh_at_rest input
  | adjusted _ same rest =>
      simp only [control, ControlState.mk.injEq] at same
      exact ⟨same.1.trans rest.stack, fun pos => same.2.1 ▸ rest.heads pos,
        same.2.2.1.trans rest.scopes⟩
  | @called context entry fuel _ ended quiet rest =>
      cases found : entry.startRule grammar with
      | none => exact absurd ended (Entry.unknown_not_returned found fuel context)
      | some rule =>
          have facts := Entry.call_facts found fuel context
          exact rest.of_control_eq ((facts.restored rest () ended).mpr quiet)

/-- A call that returns has restored the control state exactly when it met no
committed failure. -/
theorem control_restored_iff {grammar : Grammar CharT NodeType} {context : Context CharT}
    (reached : Reached grammar context) (entry : Entry) (fuel : Nat)
    (ended : (entry.call grammar fuel context).outcome = .returned ()) :
    control (entry.call grammar fuel context).state = control context ↔
      ∀ moment ∈ (entry.call grammar fuel context).trace, ¬Committed moment := by
  cases found : entry.startRule grammar with
  | none => exact absurd ended (Entry.unknown_not_returned found fuel context)
  | some rule => exact (Entry.call_facts found fuel context).restored reached.at_rest () ended

/-- `S = 'a' >> cut >> 'x' | 'a'`. -/
def committedChoice : Grammar UInt8 Unit where
  rules := [(ascii "S",
    { body := some (.alternation [
        .sequence [.terminal (.value 97), .cut, .terminal (.value 120)],
        .terminal (.value 97)]) })]

theorem control_restored_on_plain_input :
    control ((Entry.parse (ascii "S")).call committedChoice 4 (Context.fresh (ascii "ax"))).state =
      control (Context.fresh (ascii "ax")) := by
  refine (control_restored_iff (.fresh _) _ _ rfl).mpr ?_
  decide

/-- On "ab" the second branch is never tried: the first one has committed. The
rule stays on the invocation stack of the context. -/
theorem control_leaks_on_committed_failure :
    ((Entry.parse (ascii "S")).call committedChoice 4 (Context.fresh (ascii "ab"))).outcome =
        .returned () ∧
      control ((Entry.parse (ascii "S")).call committedChoice 4
          (Context.fresh (ascii "ab"))).state ≠
        control (Context.fresh (ascii "ab")) := by
  refine ⟨rfl, fun same => ?_⟩
  have stack := congrArg (fun state => state.lrStack.length) same
  revert stack
  decide

/-- A `ParseError` leaves a call exactly when the leading skip met a committed
failure. -/
theorem parse_error_escapes_iff {grammar : Grammar CharT NodeType} {entry : Entry} {rule : RuleId}
    (found : entry.startRule grammar = some rule) (fuel : Nat) (context : Context CharT) :
    Raised (entry.call grammar fuel context).outcome ↔
      ∃ moment ∈ (grammar.leadingSkip fuel context).trace, Committed moment :=
  (Entry.call_facts found fuel context).raised

/-- `S = 'z'` with the skipper `W = cut >> 'x' | 'y'`. -/
def committedSkipper : Grammar UInt8 Unit where
  rules := [(ascii "S", { body := some (.terminal (.value 122)) }),
    (ascii "W", { body := some (.alternation [
        .sequence [.cut, .terminal (.value 120)],
        .terminal (.value 121)]) })]
  skipper := some 1

/-- The start rule's own commitment is caught. -/
theorem parse_error_caught_after_skip :
    ¬Raised ((Entry.parse (ascii "S")).call committedChoice 4
      (Context.fresh (ascii "ab"))).outcome := by
  have found : (Entry.parse (ascii "S")).startRule committedChoice = some 0 := by decide
  rw [parse_error_escapes_iff found]
  decide

theorem parse_error_escapes_skipper :
    ((Entry.parse (ascii "S")).call committedSkipper 4 (Context.fresh (ascii "z"))).outcome =
      .thrown (.parseError 0 [⟨.literal, ascii "'x'"⟩]) :=
  rfl

end Calls

end Peglib.EntryPoints
