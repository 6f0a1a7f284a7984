import Mathlib.Data.Finset.Card
import Mathlib.Data.Finset.Prod
import Peglib.Halting
import Peglib.Parametricity
import Peglib.SuccessfulAnswers

/-!
# Parses reach a result

Left recursion is recognised through the memo row of the rule in progress. As
long as every rule that is applied while in progress at the position still has
that row, a parse settles: a first-time parse pushes a frame that was not on the
invocation stack, a growth step moves the progress marker, and an iteration of a
repetition moves the position. A committed scope can erase the row, and then the
same rule is entered at the same position for ever.
-/

namespace Peglib.Termination

open Peglib.TracedComputation Peglib.WeakestPrecondition Peglib.Preservation Peglib.Halting
open Peglib.ParseError Peglib.ParseContext Peglib.Expressions Peglib.Rules
open Peglib.ControlDiscipline Peglib.Parametricity Peglib.PegSemantics Peglib.Evaluation
open Peglib.SuccessfulAnswers

set_option autoImplicit false

variable {CharT NodeType : Type}

/-- A matcher that succeeds ends in `[position, input size]`. -/
def MatcherInRange : Expr CharT → Prop
  | .matcher fn => ∀ (context : Context CharT) (consumed : Span),
      context.position ≤ context.inputSize →
      fn context ⟨context.position, context.position⟩ = some consumed →
      context.position ≤ consumed.stop ∧ consumed.stop ≤ context.inputSize
  | _ => True

def InRange (grammar : Grammar CharT NodeType) : Prop :=
  ∀ rule body, grammar.body rule = some body → body.Every MatcherInRange

/-- An application of a rule in progress at the position finds the rule's row. -/
def RowKept (moment : Moment CharT) : Prop :=
  match moment.event with
  | .apply rule => moment.context.lrInProgress rule moment.context.position = true →
      (moment.context.mem moment.context.position rule).isSome = true
  | _ => True

/-- An application of a rule in progress at the position is no first-time
parse: `emplace` inserts no row. -/
def Recognised (moment : Moment CharT) : Prop :=
  match moment.event with
  | .apply rule => moment.context.lrInProgress rule moment.context.position = true →
      (moment.context.ruleState rule moment.context.position).1.1 = false
  | _ => True

instance : DecidablePred (@RowKept CharT) := fun ⟨event, context⟩ =>
  match event with
  | .apply rule => inferInstanceAs (Decidable (context.lrInProgress rule context.position = true →
      (context.mem context.position rule).isSome = true))
  | .store _ _ | .failure | .onMatch _ _ => inferInstanceAs (Decidable True)

theorem recognised_iff_row_kept {moment : Moment CharT} : Recognised moment ↔ RowKept moment := by
  have inserted : ∀ rule, (moment.context.ruleState rule moment.context.position).1.1 = false ↔
      (moment.context.mem moment.context.position rule).isSome = true := by
    intro rule
    unfold Context.ruleState
    cases moment.context.mem moment.context.position rule <;> simp
  unfold Recognised RowKept
  simp only [inserted]

section Bounds

/-- The stretch that a successful answer may cover. -/
def InBounds (input : List CharT) (_ : RuleId) (pos stop : Nat) : Prop :=
  pos ≤ stop ∧ stop ≤ input.length

/-- What is known of a matcher in range. -/
def spanned (input : List CharT) (_ : Context CharT → Span → Option Span) (pos : Nat)
    (outcome : Option Nat) : Prop :=
  ∀ stop, outcome = some stop → Within input pos stop

variable [PegValue CharT] {grammar : Grammar CharT NodeType} {input : List CharT}
  {skipper : Option RuleId}

omit [PegValue CharT] in
theorem held_within {env : Unit} {mode : Option RuleId} {rule : RuleId} {pos stop : Nat}
    (held : Held input (InBounds input) env mode rule pos (some stop)) : Within input pos stop :=
  held stop rfl

theorem spanned_within {env : Unit} {mode : Option RuleId} {task : Pending CharT} {pos stop : Nat}
    (peg : Peg input (spanned input) (Held input (InBounds input)) env mode task pos (some stop)) :
    Within input pos stop :=
  peg_within (fun _ _ stop spans => spans stop rfl) (fun _ _ _ _ _ held => held_within held) peg

omit [PegValue CharT] in
theorem in_range_admits {expr : Expr CharT} (inRange : expr.Every MatcherInRange) :
    expr.Every (Admits (fun _ => True) (spanned input) fun context => context.input = input) := by
  refine inRange.mono fun part range => ?_
  cases part with
  | matcher fn =>
      intro context source stop ended bounded
      obtain ⟨consumed, found, rfl⟩ := Option.map_eq_some_iff.mp ended
      have size : context.inputSize = input.length := congrArg List.length source
      rw [← size]
      exact range context consumed (by rw [size]; exact bounded) found
  | cut =>
      intro context source
      unfold Context.setCut
      split <;> exact source
  | _ => trivial

theorem bounded_reading (inRange : InRange grammar) :
    Reading grammar input skipper (spanned input) (InBounds input) where
  forward _ _ _ bounds := bounds.1
  matchers rule body assigned := in_range_admits (inRange rule body assigned)
  bodies _ _ _ _ _ _ _ peg bounded := spanned_within peg bounded
  recovers _ _ _ _ _ forward bounded := ⟨forward, bounded⟩

end Bounds

/-- Between two steps of a parse, with the given rules in progress. -/
structure Ready (input : List CharT) (skipper : Option RuleId) (pending : List (RuleId × Nat))
    (context : Context CharT) : Prop where
  sound : Sound input skipper (InBounds input) context
  inside : context.position ≤ input.length
  pending : active context = pending

abbrev bounding (input : List CharT) (skipper : Option RuleId) :
    Contract (Moment CharT) (Context CharT) Exn :=
  upholding input skipper (InBounds input)

/-- A parser that keeps the state ready, leaves the frames alone and moves
forward if it moves. -/
def Advances {Value : Type} (input : List CharT) (skipper : Option RuleId)
    (pending : List (RuleId × Nat)) (parser : Parser CharT Value) : Prop :=
  ∀ context, Ready input skipper pending context → wp (bounding input skipper) parser
    (fun _ last => Ready input skipper pending last ∧ context.position ≤ last.position ∧
      last.lrStack.map frameCore = context.lrStack.map frameCore) context

section Ready

variable {input : List CharT} {skipper : Option RuleId} {pending : List (RuleId × Nat)}

theorem Ready.moved {before after : Context CharT} (ready : Ready input skipper pending before)
    (source : after.input = before.input) (mem : after.mem = before.mem)
    (lrStack : after.lrStack = before.lrStack) (same : after.skipper = before.skipper)
    (inside : after.position ≤ input.length) : Ready input skipper pending after where
  sound := ⟨source.trans ready.sound.source, same.trans ready.sound.skipper,
    by rw [mem]; exact ready.sound.rows⟩
  inside := inside
  pending := by
    have kept := ready.pending
    unfold active at kept ⊢
    rw [lrStack]
    exact kept

theorem advances_of_answers {parser : Parser CharT ParseResult}
    {sem : Option RuleId → Nat → Option Nat → Prop}
    (evaluates : Evaluates (bounding input skipper) (Sound input skipper (InBounds input)) parser sem)
    (stable : StableParser parser)
    (within : ∀ mode pos stop, sem mode pos (some stop) → Within input pos stop) :
    Advances input skipper pending parser := by
  intro context ready
  refine wp_post (wp_preserves (evaluates context ready.sound) stable) ?_
  rintro result last ⟨⟨sound, -, answers⟩, step⟩
  have moved : context.position ≤ last.position ∧ last.position ≤ input.length := by
    by_cases success : result.success = true
    · exact within _ _ _ (answers.of_success success) ready.inside
    · have stayed := (answers.of_failure success).1
      have inside := ready.inside
      omega
  exact ⟨⟨sound, moved.2, (active_of_frames step.frames).trans ready.pending⟩, moved.1, step.frames⟩

variable [PegValue CharT] {grammar : Grammar CharT NodeType} (inRange : InRange grammar)

include inRange

theorem apply_advances (fuel : Nat) (rule : RuleId) :
    Advances input skipper pending (grammar.apply fuel rule) :=
  advances_of_answers (apply_sound (bounded_reading inRange) fuel rule)
    (apply_stable grammar fuel rule) fun _ _ stop held => held stop rfl

theorem eval_advances (fuel : Nat) {expr : Expr CharT} (range : expr.Every MatcherInRange) :
    Advances input skipper pending (grammar.eval fuel expr) := by
  have evaluates := expr_evaluates (@sound_invariant _ input skipper (InBounds input))
    (fun rule _ => apply_sound (bounded_reading inRange) fuel rule) (fun _ _ _ _ => trivial) fuel
    (admits_sound (in_range_admits range))
  exact advances_of_answers evaluates (eval_stable grammar fuel expr)
    fun _ _ _ peg => spanned_within peg

theorem skip_advances (fuel : Nat) :
    Advances input skipper pending (runSkipper (grammar.apply fuel)) := by
  intro context ready
  have skips : Skips (bounding input skipper) (Sound input skipper (InBounds input))
      (runSkipper (grammar.apply fuel)) fun mode pos outcome =>
        Peg input (spanned input) (Held input (InBounds input)) () mode .skip pos outcome :=
    skipper_skips sound_invariant
      (fun rule (_ : True) => apply_sound (bounded_reading inRange) fuel rule) fun _ _ _ _ => trivial
  refine wp_post (wp_preserves (skips context ready.sound) (skip_stable (apply_stable grammar fuel))) ?_
  rintro ⟨⟩ last ⟨⟨sound, -, skip⟩, step⟩
  have moved := spanned_within skip ready.inside
  exact ⟨⟨sound, moved.2, (active_of_frames step.frames).trans ready.pending⟩, moved.1, step.frames⟩

end Ready

/-- A family of parsers that advance and settle. -/
structure Total {Value : Type} (input : List CharT) (skipper : Option RuleId)
    (pending : List (RuleId × Nat)) (family : Nat → Parser CharT Value) : Prop where
  advances : ∀ fuel, Advances input skipper pending (family fuel)
  terminates : ∀ context, Ready input skipper pending context →
    Terminates RowKept family context

section Constructs

variable {input : List CharT} {skipper : Option RuleId} {pending : List (RuleId × Nat)}
  {Value Other : Type}

theorem terminates_silent {step : Parser CharT Value} (silent : Silent step)
    {context : Context CharT} : Terminates RowKept (fun _ => step) context := by
  obtain ⟨value, last, run⟩ := silent context
  exact terminates_const (by rw [run]; exact nofun)

theorem Total.later {family : Nat → Parser CharT Value}
    (total : Total input skipper pending family) :
    Total input skipper pending fun fuel => family (fuel + 1) :=
  ⟨fun fuel => total.advances (fuel + 1),
    fun context ready => terminates_shift.mpr (total.terminates context ready)⟩

theorem Total.bind {first : Nat → Parser CharT Value} {next : Nat → Value → Parser CharT Other}
    (total : Total input skipper pending first) {context : Context CharT}
    (ready : Ready input skipper pending context)
    (rest : ∀ value middle, Ready input skipper pending middle →
      context.position ≤ middle.position →
      middle.lrStack.map frameCore = context.lrStack.map frameCore →
      Terminates RowKept (fun fuel => next fuel value) middle) :
    Terminates RowKept (fun fuel => first fuel >>= next fuel) context :=
  terminates_bind (total.terminates context ready) (fun fuel => total.advances fuel context ready)
    (fun _ => trivial) fun value middle met => rest value middle met.1 met.2.1 met.2.2

theorem onlyIf_total {condition : Prop} [Decidable condition] {family : Nat → Parser CharT Unit}
    (total : Total input skipper pending family) :
    Total input skipper pending fun fuel => Comp.onlyIf condition (family fuel) where
  advances fuel context ready := by
    rw [wp_onlyIf]
    exact ⟨fun _ => total.advances fuel context ready, fun _ => ⟨ready, Nat.le_refl _, rfl⟩⟩
  terminates context ready := terminates_onlyIf (total.terminates context ready)

theorem push_child_ready {context : Context CharT} (ready : Ready input skipper pending context)
    (node : NodePtr) (tree : Option NodePtr) :
    Ready input skipper pending (pushChild node tree context) := by
  cases tree with
  | none => exact ready
  | some child => exact ready.moved rfl rfl rfl rfl ready.inside

theorem parse_seq_terminates {skip : Nat → Parser CharT Unit}
    (skips : Total input skipper pending skip) (node : NodePtr)
    {children : List (Nat → Parser CharT ParseResult)}
    (each : ∀ child ∈ children, Total input skipper pending child) (index : Nat)
    {context : Context CharT} (ready : Ready input skipper pending context) :
    Terminates RowKept (fun fuel =>
      SequenceExpr.parseSeq (skip fuel) node index (children.map fun child => child fuel))
      context := by
  induction children generalizing index context with
  | nil => exact terminates_pure true
  | cons child rest induction =>
      simp only [List.map_cons, SequenceExpr.parseSeq]
      refine (onlyIf_total skips).bind ready fun _ skipped atSkip _ _ => ?_
      refine (each child (by simp)).bind atSkip fun result here atHere _ _ => ?_
      refine terminates_ite (fun _ => terminates_modify ?_) fun _ => terminates_pure false
      exact induction (fun other member => each other (by simp [member])) (index + 1)
        (push_child_ready atHere node result.tree)

theorem raise_terminates {context : Context CharT} :
    Terminates RowKept (fun _ => (raiseIfCommitted : Parser CharT Unit)) context := by
  refine terminates_announce fun _ => terminates_read (terminates_onlyIf ?_)
  exact terminates_throw _

theorem sequence_terminates {skip : Nat → Parser CharT Unit}
    (skips : Total input skipper pending skip)
    {children : List (Nat → Parser CharT ParseResult)}
    (each : ∀ child ∈ children, Total input skipper pending child) {context : Context CharT}
    (ready : Ready input skipper pending context) :
    Terminates RowKept (fun fuel =>
      SequenceExpr.parse (skip fuel) (children.map fun child => child fuel)) context := by
  refine terminates_read (terminates_modifyGet (terminates_modify ?_))
  refine terminates_then ?_ fun found last => ?_
  · exact parse_seq_terminates skips _ each 0 (ready.moved rfl rfl rfl rfl ready.inside)
  · refine terminates_ite (fun _ => terminates_modify ?_) fun _ => terminates_modify ?_
    · exact terminates_pure _
    · exact terminates_pure _

theorem parse_alt_terminates {children : List (Nat → Parser CharT ParseResult)}
    (each : ∀ child ∈ children, Total input skipper pending child) (index : Nat)
    {context : Context CharT} (ready : Ready input skipper pending context) :
    Terminates RowKept (fun fuel =>
      AlternationExpr.parseAlt index (children.map fun child => child fuel)) context := by
  induction children generalizing index context with
  | nil => exact terminates_pure _
  | cons child rest induction =>
      simp only [List.map_cons, AlternationExpr.parseAlt]
      refine (each child (by simp)).bind ready fun result here atHere _ _ => ?_
      refine terminates_ite (fun _ => terminates_modify (terminates_pure _)) fun _ => ?_
      have raises := raise_evaluates (@sound_invariant _ input skipper (InBounds input)) here
        atHere.sound
      refine terminates_meets raise_terminates raises (fun _ => trivial) ?_
      rintro ⟨⟩ last rfl
      exact induction (fun other member => each other (by simp [member])) (index + 1) atHere

/-- Each iteration but the last moves the position. -/
theorem repeat_loop_terminates {maxRep : Int} {node : NodePtr} (left : Nat)
    {skip : Nat → Parser CharT Unit} (skips : Total input skipper pending skip)
    {child : Nat → Parser CharT ParseResult} (total : Total input skipper pending child)
    (loopCount lastSuccessState : Nat) {context : Context CharT}
    (ready : Ready input skipper pending context)
    (measure : input.length - context.position ≤ left) :
    Terminates RowKept (fun fuel =>
      repeatLoop (skip fuel) (child fuel) maxRep node fuel loopCount lastSuccessState) context := by
  induction left using Nat.strong_induction_on
    generalizing skip child loopCount lastSuccessState context with
  | _ left induction =>
      rw [← terminates_shift]
      simp only [repeatLoop]
      refine (onlyIf_total skips.later).bind ready fun _ skipped atSkip forward _ => ?_
      refine terminates_read (terminates_modify ?_)
      have cleared : Ready input skipper pending (skipped.setCut false) := by
        unfold Context.setCut
        split
        · exact atSkip
        · exact atSkip.moved rfl rfl rfl rfl atSkip.inside
      have samePos : (skipped.setCut false).position = skipped.position := by
        unfold Context.setCut
        split <;> rfl
      refine total.later.bind cleared fun result here atHere onward _ => ?_
      refine terminates_ite (fun _ => ?_) fun _ => terminates_pure _
      refine terminates_read (terminates_modify (terminates_ite ?_ ?_))
      · exact fun _ => terminates_pure _
      · intro more
        have moved : here.position ≠ skipped.position := by
          intro same
          simp [same] at more
        have pushed := push_child_ready atHere node result.tree
        have kept : (pushChild node result.tree here).position = here.position := by
          cases result.tree <;> rfl
        have inside := atHere.inside
        exact induction (input.length - here.position) (by omega) skips.later total.later
          (loopCount + 1) here.position pushed (by rw [kept])

theorem repeat_finish_terminates (maxRep : Int) (node : NodePtr) (ended : LoopExit)
    (context : Context CharT) :
    Terminates RowKept (fun _ => repeatFinish maxRep node ended) context := by
  refine terminates_follow ?_ fun _ middle => ?_
  · exact terminates_onlyIf (terminates_const nofun)
  refine terminates_follow ?_ fun _ last => ?_
  · exact terminates_onlyIf raise_terminates
  · exact terminates_modify (terminates_pure _)

theorem repeat_terminates {skip : Nat → Parser CharT Unit}
    (skips : Total input skipper pending skip) {child : Nat → Parser CharT ParseResult}
    (total : Total input skipper pending child) (minRep : Nat) (maxRep : Int)
    {context : Context CharT} (ready : Ready input skipper pending context) :
    Terminates RowKept (fun fuel =>
      repeatParseImpl fuel (skip fuel) (child fuel) minRep maxRep) context := by
  refine terminates_modify (terminates_guarded (terminates_read (terminates_modifyGet
    (terminates_modify (terminates_then ?_ fun ended last => ?_)))))
  · have begun : Ready input skipper pending
        (markStart context.initCut.makeNode.1 context.initCut.makeNode.2) :=
      ready.moved rfl rfl rfl rfl ready.inside
    exact repeat_loop_terminates _ skips total 0 _ begun (Nat.le_refl _)
  · refine terminates_ite (fun _ => terminates_modify (terminates_pure _)) fun _ => ?_
    exact repeat_finish_terminates maxRep _ ended last

theorem skipper_terminates {apply : Nat → RuleId → Parser CharT ParseResult}
    (applies : ∀ rule, Total input skipper pending fun fuel => apply fuel rule)
    {context : Context CharT} (ready : Ready input skipper pending context) :
    Terminates RowKept (fun fuel => runSkipper (apply fuel)) context := by
  refine terminates_read ?_
  dsimp only [id]
  split
  · next rule _ _ =>
      refine terminates_modify (terminates_then ?_ fun _ _ => terminates_const nofun)
      exact (applies rule).terminates _ (ready.moved rfl rfl rfl rfl ready.inside)
  · exact terminates_pure ()

variable [PegValue CharT] {grammar : Grammar CharT NodeType}

theorem skipper_total (inRange : InRange grammar)
    (applies : ∀ rule, Total input skipper pending fun fuel => grammar.apply fuel rule) :
    Total input skipper pending fun fuel => runSkipper (grammar.apply fuel) :=
  ⟨fun fuel => skip_advances inRange fuel, fun _ ready => skipper_terminates applies ready⟩

theorem expr_total (inRange : InRange grammar)
    (applies : ∀ rule, Total input skipper pending fun fuel => grammar.apply fuel rule)
    {expr : Expr CharT} (range : expr.Every MatcherInRange) :
    Total input skipper pending fun fuel => grammar.eval fuel expr := by
  refine ⟨fun fuel => eval_advances inRange fuel range, fun context ready => ?_⟩
  have skips := skipper_total inRange applies
  unfold Grammar.eval
  induction expr using Expr.induct generalizing context with
  | terminal value => exact terminates_silent (terminal_silent value)
  | terminalSeq values => exact terminates_silent (terminal_seq_silent values)
  | token value => exact terminates_silent (token_silent value)
  | matcher fn => exact terminates_silent (matcher_silent fn)
  | empty => exact terminates_pure _
  | cut => exact terminates_modify (terminates_pure _)
  | sequence children induction =>
      unfold Expr.Every at range
      have ranges := Expr.every_all_iff.mp range.2
      have each : ∀ child ∈ children.map fun child fuel => grammar.eval fuel child,
          Total input skipper pending child := by
        intro family member
        obtain ⟨child, inside, rfl⟩ := List.mem_map.mp member
        exact ⟨fun fuel => eval_advances inRange fuel (ranges child inside),
          fun here atHere => induction child inside (ranges child inside) here atHere⟩
      have terminates := sequence_terminates skips each ready
      simp only [List.map_map] at terminates
      simp only [Expr.parse, Expr.parse_all_eq_map]
      exact terminates
  | alternation children induction =>
      unfold Expr.Every at range
      have ranges := Expr.every_all_iff.mp range.2
      have each : ∀ child ∈ children.map fun child fuel => grammar.eval fuel child,
          Total input skipper pending child := by
        intro family member
        obtain ⟨child, inside, rfl⟩ := List.mem_map.mp member
        exact ⟨fun fuel => eval_advances inRange fuel (ranges child inside),
          fun here atHere => induction child inside (ranges child inside) here atHere⟩
      have opened : Ready input skipper pending context.initCut :=
        ready.moved rfl rfl rfl rfl ready.inside
      have terminates := parse_alt_terminates each 0 opened
      simp only [List.map_map] at terminates
      simp only [Expr.parse, Expr.parse_all_eq_map]
      exact terminates_modify (terminates_guarded terminates)
  | repetition kind child induction =>
      unfold Expr.Every at range
      have total : Total input skipper pending fun fuel => grammar.eval fuel child :=
        ⟨fun fuel => eval_advances inRange fuel range.2, induction range.2⟩
      exact repeat_terminates skips total kind.minRep kind.maxRep ready
  | not child induction | and child induction =>
      unfold Expr.Every at range
      refine terminates_read (terminates_then (induction range.2 context ready) fun _ _ => ?_)
      exact terminates_modify (terminates_pure _)
  | lexeme child induction =>
      unfold Expr.Every at range
      refine terminates_read (terminates_modify (terminates_guarded (induction range.2 _ ?_)))
      exact ready.moved rfl rfl rfl rfl ready.inside
  | rule id => exact (applies id).terminates context ready

end Constructs

section RuleApplication

variable {input : List CharT} {skipper : Option RuleId} {pending : List (RuleId × Nat)}

theorem store_terminates (rule : RuleId) (pos : Nat) (entry : RuleState) (context : Context CharT) :
    Terminates RowKept (fun _ => NonTerminal.store rule pos entry) context :=
  terminates_modifyGet (terminates_announce fun _ => terminates_pure _)

theorem store_ready {context : Context CharT} (ready : Ready input skipper pending context)
    {rule : RuleId} {pos : Nat} {entry : RuleState}
    (row : RowSound input (InBounds input) rule pos entry) :
    wp (bounding input skipper) (NonTerminal.store rule pos entry)
      (fun _ last => Ready input skipper pending last ∧ last.lrStack = context.lrStack) context := by
  have kept := update_framed context rule pos entry
  refine store_sound ready.sound row fun _ sound => ⟨⟨sound, ?_, ?_⟩, kept.2.1⟩
  · rw [kept.2.2]
    exact ready.inside
  · have same := ready.pending
    unfold active at same ⊢
    rw [kept.2.1]
    exact same

theorem set_frame_ready {entered : RuleId × Nat} {context : Context CharT}
    (ready : Ready input skipper (entered :: pending) context) (pos : Nat) :
    Ready input skipper (entered :: pending) (NonTerminal.setFrameLastPos pos context) ∧
      (NonTerminal.frame (NonTerminal.setFrameLastPos pos context)).lastPos = pos := by
  have same := ready.pending
  unfold active at same
  cases stack : context.lrStack with
  | nil => rw [stack] at same; cases same
  | cons top rest =>
      rw [stack] at same
      have marked : (NonTerminal.setFrameLastPos pos context).lrStack =
          { top with lastPos := pos } :: rest := by
        rw [NonTerminal.setFrameLastPos, stack]
      refine ⟨⟨⟨ready.sound.source, ready.sound.skipper, ready.sound.rows⟩, ready.inside, ?_⟩, ?_⟩
      · unfold active
        rw [marked]
        exact same
      · unfold NonTerminal.frame
        rw [marked]
        rfl

theorem clear_ready {rule : RuleId} {startPos : Nat} (bounded : startPos ≤ input.length)
    {entered : List (RuleId × Nat)} {context : Context CharT}
    (ready : Ready input skipper entered context) (condition : Prop) [Decidable condition] :
    wp (bounding input skipper)
      (Comp.onlyIf condition (Comp.modify fun context => context.clearSiblingsAt startPos rule))
      (fun _ last => Ready input skipper entered last ∧ last.position = startPos ∧
        last.lrStack = context.lrStack)
      (context.reset startPos) := by
  have reset : Ready input skipper entered (context.reset startPos) :=
    ready.moved rfl rfl rfl rfl bounded
  rw [wp_onlyIf, wp_modify]
  refine ⟨fun _ => ⟨⟨?_, bounded, ready.pending⟩, rfl, rfl⟩, fun _ => ⟨reset, rfl, rfl⟩⟩
  exact clear_siblings_sound reset.sound startPos rule

/-- Each growth step but the last moves the progress marker of the frame. -/
theorem grow_loop_terminates {rule : RuleId} {startPos : Nat} (bounded : startPos ≤ input.length)
    (left : Nat) {body : Nat → Parser CharT ParseResult}
    (total : Total input skipper ((rule, startPos) :: pending) body) (best : ParseResult)
    (ruleState : RuleState) {context : Context CharT}
    (ready : Ready input skipper ((rule, startPos) :: pending) context)
    (measure : input.length - (NonTerminal.frame context).lastPos ≤ left) :
    Terminates RowKept (fun fuel =>
      NonTerminal.growLoop rule startPos (body fuel) fuel best ruleState) context := by
  induction left using Nat.strong_induction_on generalizing body best ruleState context with
  | _ left induction =>
      rw [← terminates_shift]
      simp only [NonTerminal.growLoop]
      refine terminates_modify (terminates_read ?_)
      dsimp only [id]
      refine terminates_meets (terminates_onlyIf (terminates_const (by rintro ⟨⟩)))
        (clear_ready bounded ready _) (fun _ => trivial) ?_
      rintro ⟨⟩ here ⟨atHere, samePos, sameStack⟩
      refine total.later.bind atHere fun result after atAfter forward frames => ?_
      have lastAfter : (NonTerminal.frame after).lastPos = (NonTerminal.frame context).lastPos :=
        frame_last_of_frames (frames.trans (by rw [sameStack]))
      refine terminates_read ?_
      dsimp only [id]
      refine terminates_ite (fun success => terminates_ite (fun progress => ?_) fun _ => ?_)
        fun _ => terminates_pure _
      · obtain ⟨marked, markedLast⟩ := set_frame_ready atAfter after.position
        have row : RowSound input (InBounds input) rule startPos ⟨after.position, result⟩ :=
          ⟨fun _ _ => ⟨by rw [← samePos]; exact forward, atAfter.inside⟩,
            fun failure => absurd success failure⟩
        refine terminates_modify (terminates_meets (store_terminates _ _ _ _)
          (store_ready marked row) (fun _ => trivial) ?_)
        rintro present last ⟨atLast, lastStack⟩
        refine terminates_ite (fun _ => ?_) fun _ => terminates_pure _
        have lastPos : (NonTerminal.frame last).lastPos = after.position := by
          rw [← markedLast, NonTerminal.frame, NonTerminal.frame, lastStack]
        have inside := atAfter.inside
        exact induction (input.length - after.position) (by omega) total.later result
          ⟨after.position, result⟩ atLast (by rw [lastPos])
      · exact terminates_follow (store_terminates _ _ _ _) fun _ _ => terminates_pure _

theorem finish_success_terminates (nonTerminal : NonTerminal CharT NodeType) (rule : RuleId)
    (startPos : Nat) (inner : ParseResult) (ruleState : RuleState) (context : Context CharT) :
    Terminates RowKept
      (fun _ => NonTerminal.finishSuccess nonTerminal rule startPos inner ruleState) context := by
  refine terminates_follow ?_ fun node built => ?_
  · unfold NonTerminal.buildNode
    split
    · exact terminates_modifyGet (terminates_modify (terminates_modify (terminates_pure _)))
    · refine terminates_follow ?_ fun node last => ?_
      · cases inner.tree <;> exact terminates_const nofun
      · exact terminates_modify (terminates_pure _)
  · exact terminates_follow (store_terminates _ _ _ _) fun _ _ => terminates_pure _

theorem finish_failure_terminates (nonTerminal : NonTerminal CharT NodeType) (rule : RuleId)
    (startPos : Nat) (ruleState : RuleState) (context : Context CharT) :
    Terminates RowKept (fun _ => NonTerminal.finishFailure nonTerminal rule startPos ruleState)
      context := by
  refine terminates_modify (terminates_read ?_)
  dsimp only [id]
  split
  · exact terminates_modify (terminates_follow (store_terminates _ _ _ _) fun _ _ => terminates_pure _)
  · exact terminates_follow (store_terminates _ _ _ _) fun _ _ => terminates_pure _

theorem replay_terminates (rule : RuleId) (startPos : Nat) (ruleState : RuleState)
    (context : Context CharT) :
    Terminates RowKept (fun _ => NonTerminal.replay rule startPos ruleState) context := by
  refine terminates_read (terminates_ite (fun _ => ?_) fun _ => ?_)
  · exact terminates_modify (terminates_modify (terminates_pure _))
  · split
    · exact terminates_ite (fun _ => terminates_modify (terminates_pure _))
        fun _ => terminates_modify (terminates_pure _)
    · exact terminates_modify (terminates_pure _)

/-- A rule entered for the first time, its frame on top of the invocation stack. -/
def entered (rule : RuleId) (context : Context CharT) : Context CharT :=
  Context.lrPush { context with mem := context.mem.write context.position rule {} }
    ⟨rule, context.position, context.position, false⟩

theorem plant_ready {rule : RuleId} {context : Context CharT}
    (ready : Ready input skipper pending context) :
    wp (bounding input skipper) (NonTerminal.store rule context.position ⟨context.position, {}⟩)
      (fun _ last => Ready input skipper ((rule, context.position) :: pending) last ∧
        last.lrStack = (entered rule context).lrStack) (entered rule context) := by
  have seed : RowSound input (InBounds input) rule context.position ⟨context.position, {}⟩ :=
    failure_row
  have planted : Sound input skipper (InBounds input)
      ((entered rule context).updateRuleState rule context.position ⟨context.position, {}⟩).2 := by
    refine update_sound ready.sound.source ready.sound.skipper ?_ seed
    intro pos' rule' row different found
    rcases Memo.write_eq_some found with ⟨rfl, rfl, -⟩ | ⟨-, before⟩
    · exact absurd ⟨rfl, rfl⟩ different
    · exact ready.sound.rows _ _ _ before
  have kept := update_framed (entered rule context) rule context.position ⟨context.position, {}⟩
  have seeded : Ready input skipper ((rule, context.position) :: pending)
      ((entered rule context).updateRuleState rule context.position ⟨context.position, {}⟩).2 := by
    refine ⟨planted, by rw [kept.2.2]; exact ready.inside, ?_⟩
    unfold active
    rw [kept.2.1, ← ready.pending]
    rfl
  rw [NonTerminal.store, wp_bind, wp_modifyGet, wp_bind, announce, wp_announce]
  exact fun _ => ⟨planted, seeded, kept.2.1⟩

theorem grow_terminates {rule : RuleId} {context : Context CharT}
    (ready : Ready input skipper pending context) {body : Nat → Parser CharT ParseResult}
    (total : Total input skipper ((rule, context.position) :: pending) body) :
    Terminates RowKept (fun fuel =>
      NonTerminal.parseImpl rule context.position (some (body fuel)) fuel) (entered rule context) := by
  refine terminates_meets (store_terminates _ _ _ _) (plant_ready ready) (fun _ => trivial) ?_
  rintro _ last ⟨atLast, -⟩
  refine terminates_then ?_ fun _ _ => terminates_modify (terminates_pure _)
  exact grow_loop_terminates ready.inside _ total _ _ atLast (Nat.le_refl _)

/-- A rule settles if its body does with the rule in progress. -/
theorem parse_terminates (nonTerminal : NonTerminal CharT NodeType) (rule : RuleId)
    {body : Option (Nat → Parser CharT ParseResult)}
    (totals : ∀ family ∈ body, ∀ pos ≤ input.length, (rule, pos) ∉ pending →
      Total input skipper ((rule, pos) :: pending) family)
    {context : Context CharT} (ready : Ready input skipper pending context) :
    Terminates RowKept (fun fuel =>
      NonTerminal.parse nonTerminal rule (body.map fun family => family fuel) fuel) context := by
  refine terminates_announce fun kept => terminates_read (terminates_modifyGet ?_)
  have present : _ → _ := kept
  dsimp only at present
  unfold Context.ruleState
  cases held : context.mem context.position rule with
  | some row => exact replay_terminates rule context.position row context
  | none =>
      have fresh : (rule, context.position) ∉ pending := by
        intro entered
        rw [← ready.pending, ← in_progress_iff] at entered
        have absent := present entered
        rw [held] at absent
        cases absent
      refine terminates_then ?_ fun grown last => terminates_ite (fun _ => ?_) fun _ => ?_
      · cases body with
        | none => exact terminates_modify (terminates_then (terminates_throw _) fun _ _ =>
            terminates_const nofun)
        | some family =>
            refine terminates_modify (terminates_then ?_ fun _ _ => terminates_const nofun)
            exact grow_terminates ready (totals family rfl _ ready.inside fresh)
      · exact finish_success_terminates nonTerminal rule context.position _ _ last
      · exact finish_failure_terminates nonTerminal rule context.position _ last

/-- The rules and positions that may still be entered. -/
def unentered (grammar : Grammar CharT NodeType) (input : List CharT)
    (pending : List (RuleId × Nat)) : Finset (RuleId × Nat) :=
  (Finset.range grammar.rules.length ×ˢ Finset.range (input.length + 1)) \ pending.toFinset

theorem unentered_decreases {grammar : Grammar CharT NodeType} {rule : RuleId} {pos : Nat}
    {body : Expr CharT} (assigned : grammar.body rule = some body) (inside : pos ≤ input.length)
    (fresh : (rule, pos) ∉ pending) :
    (unentered grammar input ((rule, pos) :: pending)).card <
      (unentered grammar input pending).card := by
  have listed : rule < grammar.rules.length := by
    by_contra beyond
    rw [Grammar.body, Grammar.nonTerminal, List.getElem?_eq_none (Nat.not_lt.mp beyond)] at assigned
    cases assigned
  refine Finset.card_lt_card (Finset.ssubset_iff_of_subset ?_ |>.mpr ⟨(rule, pos), ?_, ?_⟩)
  · refine Finset.sdiff_subset_sdiff (Finset.Subset.refl _) ?_
    rw [List.toFinset_cons]
    exact Finset.subset_insert _ _
  · simp only [unentered, Finset.mem_sdiff, Finset.mem_product, Finset.mem_range, List.mem_toFinset]
    exact ⟨⟨listed, by omega⟩, fresh⟩
  · simp [unentered]

variable [PegValue CharT] {grammar : Grammar CharT NodeType}

/-- Every rule settles, whatever is in progress. -/
theorem apply_total (inRange : InRange grammar) (left : Nat) {pending : List (RuleId × Nat)}
    (measure : (unentered grammar input pending).card ≤ left) (rule : RuleId) :
    Total input skipper pending fun fuel => grammar.apply fuel rule := by
  induction left using Nat.strong_induction_on generalizing pending rule with
  | _ left induction =>
      refine ⟨fun fuel => apply_advances inRange fuel rule, fun context ready => ?_⟩
      rw [← terminates_shift]
      have bodies : ∀ family ∈ (grammar.body rule).map fun expr fuel => grammar.eval fuel expr,
          ∀ pos ≤ input.length, (rule, pos) ∉ pending →
            Total input skipper ((rule, pos) :: pending) family := by
        intro family member pos inside fresh
        obtain ⟨expr, assigned, rfl⟩ := Option.map_eq_some_iff.mp member
        have less := unentered_decreases assigned inside fresh
        refine expr_total inRange (fun other => ?_) (inRange rule expr assigned)
        exact induction _ (by omega) (Nat.le_refl _) other
      have settles := parse_terminates (grammar.nonTerminal rule) rule bodies ready
      simp only [Option.map_map] at settles
      exact settles

end RuleApplication

section Claim

variable [PegValue CharT] {grammar : Grammar CharT NodeType} {input : List CharT}

theorem parse_entry_terminates (inRange : InRange grammar) {context : Context CharT}
    (visited : Visited grammar input context) (inside : context.position ≤ input.length)
    (name : Str) : Terminates RowKept (fun fuel => grammar.parse fuel name) context := by
  have sound := (visited_sound (fun _ _ => bounded_reading inRange) visited).2
  unfold Grammar.parse
  cases grammar.find name with
  | none => exact terminates_throw _
  | some rule =>
      have ready : Ready input grammar.skipper (active context)
          { context with skipper := grammar.skipper } :=
        ⟨⟨sound.source, rfl, sound.rows⟩, inside, rfl⟩
      have applies : ∀ id, Total input grammar.skipper (active context) fun fuel =>
          grammar.apply fuel id :=
        fun id => apply_total inRange _ (Nat.le_refl _) id
      have skips := skipper_total inRange applies
      have leading : ∀ fuel, wp (bounding input grammar.skipper) (grammar.leadingSkip fuel)
          (fun _ last => Ready input grammar.skipper (active context) last) context := by
        intro fuel
        rw [Grammar.leadingSkip, wp_bind, wp_modify]
        exact wp_post (skips.advances fuel _ ready) fun _ _ met => met.1
      have begins : Terminates RowKept (fun fuel => grammar.leadingSkip fuel) context :=
        terminates_modify (skips.terminates _ ready)
      refine terminates_bind begins leading (fun _ => trivial) fun _ skipped atSkip => ?_
      · refine terminates_catching (terminates_then ?_ fun _ _ => terminates_pure _)
        exact (applies rule).terminates skipped atSkip

section Budgets

omit [PegValue CharT]

theorem extends_rules :
    ParserRelation fun _ (small large : Parser CharT _) => Extends small large where
  silent step _ := extends_refl step
  throw exn _ := extends_refl (Comp.throw exn)
  exhaust parser := extends_exhaust parser
  announce event _ := extends_refl (announce event)
  raise := extends_refl raiseIfCommitted
  bind firsts nexts := extends_bind firsts nexts
  guarded cleanup _ bodies := extends_guarded cleanup bodies

/-- A larger budget continues the run of a smaller one. -/
theorem apply_extends [PegValue CharT] (grammar : Grammar CharT NodeType) (rule : RuleId)
    {fuel fuel' : Nat} (larger : fuel ≤ fuel') :
    Extends (grammar.apply fuel rule) (grammar.apply fuel' rule) :=
  apply_related extends_rules grammar larger rule

theorem eval_extends [PegValue CharT] (grammar : Grammar CharT NodeType) (expr : Expr CharT)
    {fuel fuel' : Nat} (larger : fuel ≤ fuel') :
    Extends (grammar.eval fuel expr) (grammar.eval fuel' expr) :=
  eval_related extends_rules grammar larger expr

theorem parse_extends [PegValue CharT] (grammar : Grammar CharT NodeType) {fuel fuel' : Nat}
    (larger : fuel ≤ fuel') (name : Str) :
    Extends (grammar.parse fuel name) (grammar.parse fuel' name) := by
  unfold Grammar.parse
  cases grammar.find name with
  | none => exact extends_refl _
  | some rule =>
      refine extends_bind (leading_skip_related extends_rules grammar larger) fun _ => ?_
      refine extends_catching _ (extends_bind (apply_extends grammar rule larger) ?_)
      exact fun _ => extends_refl _

end Budgets

/-- `Grammar::parse` reaches a result and recognises every re-entry of a rule in
progress exactly when every such re-entry finds the rule's row. -/
theorem reaches_result_iff (inRange : InRange grammar) {context : Context CharT}
    (visited : Visited grammar input context) (inside : context.position ≤ input.length)
    (name : Str) :
    (Settles (fun fuel => grammar.parse fuel name) context ∧
        ∀ fuel, ∀ moment ∈ (grammar.parse fuel name context).trace, Recognised moment) ↔
      ∀ fuel, ∀ moment ∈ (grammar.parse fuel name context).trace, RowKept moment := by
  constructor
  · rintro ⟨-, recognised⟩ fuel moment member
    exact recognised_iff_row_kept.mp (recognised fuel moment member)
  · intro kept
    refine ⟨?_, fun fuel moment member => recognised_iff_row_kept.mpr (kept fuel moment member)⟩
    exact parse_entry_terminates inRange visited inside name ⟨0, fun fuel _ => kept fuel⟩

/-- `A = A >> 'a' | 'a'`. -/
def leftRecursion : Grammar UInt8 Unit where
  rules := [(ascii "A",
    { body := some (.alternation [
        .sequence [.rule 0, .terminal (.value 97)],
        .terminal (.value 97)]) })]

theorem left_recursion_in_range : InRange leftRecursion := by
  intro rule body assigned
  cases rule with
  | zero =>
      obtain rfl := Option.some.inj assigned
      simp [Expr.Every, Expr.EveryAll, MatcherInRange]
  | succ rule => cases assigned

theorem left_recursion_reaches_result :
    Settles (fun fuel => leftRecursion.parse fuel (ascii "A")) (Context.fresh (ascii "aa")) ∧
      ∀ fuel, ∀ moment ∈ (leftRecursion.parse fuel (ascii "A") (Context.fresh (ascii "aa"))).trace,
        Recognised moment := by
  have visited : Visited leftRecursion (ascii "aa") (Context.fresh (ascii "aa")) := .fresh
  refine (reaches_result_iff left_recursion_in_range visited (Nat.zero_le _) (ascii "A")).mpr ?_
  · have kept : ∀ moment ∈ (leftRecursion.parse 5 (ascii "A") (Context.fresh (ascii "aa"))).trace,
        RowKept moment := by decide
    have finished : (leftRecursion.parse 5 (ascii "A") (Context.fresh (ascii "aa"))).outcome ≠
        .exhausted := Outcome.finished_of_value (by decide)
    exact moments_of_finished (fun larger => parse_extends leftRecursion larger (ascii "A")) 5
      finished kept

/-- `A = &('x' >> (cut | 'y')) >> A`. -/
def evictedRecursion : Grammar UInt8 Unit where
  rules := [(ascii "A",
    { body := some (.sequence [
        .and (.sequence [
          .terminal (.value 120),
          .alternation [.cut, .terminal (.value 121)]]),
        .rule 0]) })]

/-- At the start of "x", with no row there. -/
def evicted (mem : Memo) (stack : List LRFrame) (arena : List ParseTreeNode) (lastCut : Nat) :
    Context UInt8 where
  input := ascii "x"
  lastCut := lastCut
  nodeArena := arena
  mem := fun pos rule => if pos < 1 then none else mem pos rule
  lrStack := stack

/-- The lookahead commits at position 1 and so erases the row at position 0. -/
theorem lookahead_evicts (apply : RuleId → Parser UInt8 ParseResult) (fuel : Nat) (mem : Memo)
    (stack : List LRFrame) (arena : List ParseTreeNode) (lastCut : Nat) :
    ∃ arena' log,
      Expr.parse apply fuel (.and (.sequence [
          .terminal (.value 120),
          .alternation [.cut, .terminal (.value 121)]]))
        { input := ascii "x", lastCut := lastCut, nodeArena := arena, mem := mem,
          lrStack := stack } =
      ⟨.returned ⟨true, none⟩, evicted mem stack arena' 1, log⟩ :=
  ⟨_, _, rfl⟩

/-- The rule is pushed again and again, whatever the budget. -/
theorem evicted_exhausts (fuel : Nat) (mem : Memo) (stack : List LRFrame)
    (arena : List ParseTreeNode) (lastCut : Nat) :
    (evictedRecursion.apply fuel 0 (evicted mem stack arena lastCut)).outcome = .exhausted := by
  induction fuel generalizing mem stack arena lastCut with
  | zero => rfl
  | succ fuel induction =>
      -- `parse` up to the body: the row is absent, the frame and the seed are set.
      refine exhausted_later rfl (exhausted_later rfl (exhausted_later rfl (exhausted_if rfl ?_)))
      refine exhausted_first (exhausted_later rfl (exhausted_first (exhausted_later rfl ?_)))
      refine exhausted_first ?_
      cases fuel with
      | zero => rfl
      | succ fuel =>
          refine exhausted_later rfl (exhausted_later rfl (exhausted_later rfl ?_))
          -- The sequence: its lookahead succeeds, its second child is the rule again.
          refine exhausted_first (exhausted_later rfl (exhausted_later rfl (exhausted_later rfl ?_)))
          obtain ⟨arena', log, run⟩ :=
            lookahead_evicts (evictedRecursion.apply (fuel + 1)) (fuel + 1) _ _ _ lastCut
          refine exhausted_first (exhausted_later rfl (exhausted_later run (exhausted_if rfl ?_)))
          refine exhausted_later rfl (exhausted_later rfl (exhausted_first ?_))
          exact induction _ _ _ _

theorem evicted_recursion_never_settles :
    ¬Settles (fun fuel => evictedRecursion.parse fuel (ascii "A")) (Context.fresh (ascii "x")) := by
  have start : Context.fresh (ascii "x") = evicted (fun _ _ => none) [] [] 0 := by
    unfold Context.fresh evicted
    simp only [ite_self]
  refine not_settles fun fuel => ?_
  rw [start]
  refine exhausted_later rfl (exhausted_catching (exhausted_first ?_))
  exact evicted_exhausts fuel _ _ _ _

end Claim

end Peglib.Termination
