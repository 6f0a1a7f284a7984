import Peglib.Evaluation

/-!
# What an evaluation goes through

The evaluations that the evaluation of an expression is made of, as a relation
between tasks at positions, and one rule for what a parse does on the way: a
condition that is handed down from a task to its parts, and a mark that a task
earns once all its parts have earned theirs. Marks are kept in the error record,
which no part of the engine ever winds back.
-/

namespace Peglib.Walks

open Peglib.TracedComputation Peglib.WeakestPrecondition Peglib.Preservation
open Peglib.ParseError Peglib.ParseContext Peglib.Expressions Peglib.Rules
open Peglib.ControlDiscipline Peglib.PegSemantics Peglib.Evaluation

set_option autoImplicit false

variable {CharT Env : Type}

/-- The parts of an evaluation. `sem` says how the parts before have ended. -/
inductive Step (sem : Option RuleId → Pending CharT → Nat → Option Nat → Prop) :
    Option RuleId → Pending CharT → Nat → Option RuleId → Pending CharT → Nat → Prop
  | sequence {mode children pos} :
      Step sem mode (.expr (.sequence children)) pos mode (.seq true children) pos
  | alternation {mode children pos} :
      Step sem mode (.expr (.alternation children)) pos mode (.alt children) pos
  | repetition {mode kind child pos} :
      Step sem mode (.expr (.repetition kind child)) pos mode (.loop kind child 0) pos
  | not {mode child pos} : Step sem mode (.expr (.not child)) pos mode (.expr child) pos
  | and {mode child pos} : Step sem mode (.expr (.and child)) pos mode (.expr child) pos
  | lexeme {mode child pos} : Step sem mode (.expr (.lexeme child)) pos none (.expr child) pos
  | seqSkip {mode first child rest pos} :
      Step sem mode (.seq first (child :: rest)) pos (if first then none else mode) .skip pos
  | seqHere {mode first child rest pos next} :
      sem (if first then none else mode) .skip pos (some next) →
      Step sem mode (.seq first (child :: rest)) pos mode (.expr child) next
  | seqLater {mode first child rest pos next middle} :
      sem (if first then none else mode) .skip pos (some next) →
      sem mode (.expr child) next (some middle) →
      Step sem mode (.seq first (child :: rest)) pos mode (.seq false rest) middle
  | altHere {mode child rest pos} :
      Step sem mode (.alt (child :: rest)) pos mode (.expr child) pos
  | altLater {mode child rest pos} : sem mode (.expr child) pos none →
      Step sem mode (.alt (child :: rest)) pos mode (.alt rest) pos
  | loopSkip {mode kind child count pos} :
      Step sem mode (.loop kind child count) pos (if count = 0 then none else mode) .skip pos
  | loopHere {mode kind child count pos next} :
      sem (if count = 0 then none else mode) .skip pos (some next) →
      Step sem mode (.loop kind child count) pos mode (.expr child) next
  | loopLater {mode kind child count pos next stop} :
      sem (if count = 0 then none else mode) .skip pos (some next) →
      sem mode (.expr child) next (some stop) →
      (boundReached kind.maxRep (count + 1) || decide (stop = next)) = false →
      Step sem mode (.loop kind child count) pos mode (.loop kind child (count + 1)) stop
  | skip {skipper pos} : Step sem (some skipper) .skip pos none (.expr (.rule skipper)) pos

/-- The item a failing element of the input is recorded under. -/
def leafItem [PegValue CharT] : Expr CharT → Option ExpectedItem
  | .terminal value => some (terminalExpected (ascii "<terminal>") value)
  | .terminalSeq values =>
      some ⟨.literal, escapeStringForExpected (values.flatMap PegValue.toDisplay)⟩
  | .token value => some (terminalExpected (ascii "<token>") value)
  | _ => none

def Leaf : Pending CharT → Prop
  | .expr (.terminal _) | .expr (.terminalSeq _) | .expr (.token _) | .expr (.matcher _)
  | .expr .empty | .expr .cut | .expr (.rule _) => True
  | _ => False

/-- What is followed along a parse. -/
structure Survey (CharT : Type) where
  due : Option RuleId → Pending CharT → Nat → Prop
  ready : Context CharT → Prop
  later : Errors → Errors → Prop
  done : Option RuleId → Pending CharT → Nat → Errors → Prop

def Functional (sem : Option RuleId → Pending CharT → Nat → Option Nat → Prop) : Prop :=
  ∀ mode task pos first second, sem mode task pos first → sem mode task pos second → first = second

structure Lawful [PegValue CharT] (sem : Option RuleId → Pending CharT → Nat → Option Nat → Prop)
    (survey : Survey CharT) : Prop where
  handed : ∀ mode task pos mode' task' pos', survey.due mode task pos →
    Step sem mode task pos mode' task' pos' → survey.due mode' task' pos'
  refl : ∀ errors, survey.later errors errors
  trans : ∀ first second third, survey.later first second → survey.later second third →
    survey.later first third
  lasts : ∀ mode task pos before after, survey.done mode task pos before →
    survey.later before after → survey.done mode task pos after
  moved : ∀ before after, survey.ready before →
    (∀ pos rule row, after.mem pos rule = some row → (rule, pos) ∉ active after →
      before.mem pos rule = some row) →
    active after = active before → survey.later before.errors after.errors → survey.ready after
  missed : ∀ mode expr pos item errors, survey.due mode (.expr expr) pos →
    sem mode (.expr expr) pos none → leafItem expr = some item →
    survey.later errors (errors.recordFailure pos item) ∧
      survey.done mode (.expr expr) pos (errors.recordFailure pos item)
  passed : ∀ mode expr pos outcome errors, Leaf (.expr expr) → (∀ id, expr ≠ .rule id) →
    sem mode (.expr expr) pos outcome → (outcome = none → leafItem expr = none) →
    survey.done mode (.expr expr) pos errors
  composed : ∀ mode task pos errors, ¬Leaf task →
    (Functional sem → ∀ mode' task' pos', Step sem mode task pos mode' task' pos' →
      survey.done mode' task' pos' errors) → survey.done mode task pos errors

theorem wp_with {Moment State Exn Value : Type} {contract side : Contract Moment State Exn}
    (same : side.assume = contract.assume) {body : Comp Moment State Exn Value}
    {known post : Value → State → Prop} {state : State} (facts : wp contract body known state)
    (holds : wp side body post state) :
    wp side body (fun value last => known value last ∧ post value last) state := by
  obtain ⟨assume, guarantee, onThrow⟩ := side
  obtain rfl : assume = contract.assume := same
  exact wp_mono (wp_and facts holds) (fun _ => id) (fun _ _ both => both.2) (fun _ _ both => both.2)
    fun _ _ => id

section Parts

variable {sem : Option RuleId → Pending CharT → Nat → Option Nat → Prop} {survey : Survey CharT}

/-- A parse goes through a task: it hands the condition down and earns the mark. -/
def Traverses (side : Contract (Moment CharT) (Context CharT) Exn) (inv : Context CharT → Prop)
    (survey : Survey CharT) {Value : Type} (parser : Parser CharT Value) (task : Pending CharT) :
    Prop :=
  ∀ context, inv context → survey.ready context →
    survey.due (mode context) task context.position →
    wp side parser (fun _ last => survey.ready last ∧ survey.later context.errors last.errors ∧
      survey.done (mode context) task context.position last.errors) context

variable [PegValue CharT]

theorem Lawful.kept (lawful : Lawful sem survey) {before after : Context CharT}
    (ready : survey.ready before) (mem : after.mem = before.mem)
    (lrStack : after.lrStack = before.lrStack) (errors : after.errors = before.errors) :
    survey.ready after := by
  refine lawful.moved before after ready (fun pos rule row held _ => ?_) ?_ ?_
  · rwa [mem] at held
  · rw [active, lrStack, active]
  · rw [errors]
    exact lawful.refl _

end Parts

section Composition

variable [PegValue CharT] {sem : Option RuleId → Pending CharT → Nat → Option Nat → Prop}
  {survey : Survey CharT} (lawful : Lawful sem survey) {mode : Option RuleId} {pos : Nat}
  {errors : Errors}

include lawful

theorem done_sequence {children : List (Expr CharT)}
    (done : survey.done mode (.seq true children) pos errors) :
    survey.done mode (.expr (.sequence children)) pos errors :=
  lawful.composed _ _ _ _ id fun _ _ _ _ step => by cases step; exact done

theorem done_alternation {children : List (Expr CharT)}
    (done : survey.done mode (.alt children) pos errors) :
    survey.done mode (.expr (.alternation children)) pos errors :=
  lawful.composed _ _ _ _ id fun _ _ _ _ step => by cases step; exact done

theorem done_repetition {kind : RepKind} {child : Expr CharT}
    (done : survey.done mode (.loop kind child 0) pos errors) :
    survey.done mode (.expr (.repetition kind child)) pos errors :=
  lawful.composed _ _ _ _ id fun _ _ _ _ step => by cases step; exact done

theorem done_predicate {child : Expr CharT} (done : survey.done mode (.expr child) pos errors) :
    survey.done mode (.expr (.not child)) pos errors ∧
      survey.done mode (.expr (.and child)) pos errors :=
  ⟨lawful.composed _ _ _ _ id fun _ _ _ _ step => by cases step; exact done,
    lawful.composed _ _ _ _ id fun _ _ _ _ step => by cases step; exact done⟩

theorem done_lexeme {child : Expr CharT} (done : survey.done none (.expr child) pos errors) :
    survey.done mode (.expr (.lexeme child)) pos errors :=
  lawful.composed _ _ _ _ id fun _ _ _ _ step => by cases step; exact done

theorem done_skip_off : survey.done none .skip pos errors :=
  lawful.composed _ _ _ _ id fun _ _ _ _ step => nomatch step

theorem done_skip {skipper : RuleId}
    (done : survey.done none (.expr (.rule skipper)) pos errors) :
    survey.done (some skipper) .skip pos errors :=
  lawful.composed _ _ _ _ id fun _ _ _ _ step => by cases step; exact done

theorem done_seq_nil {first : Bool} : survey.done mode (.seq first []) pos errors :=
  lawful.composed _ _ _ _ id fun _ _ _ _ step => nomatch step

theorem done_seq_fail {first : Bool} {child : Expr CharT} {rest : List (Expr CharT)} {next : Nat}
    (skip : sem (if first then none else mode) .skip pos (some next))
    (miss : sem mode (.expr child) next none)
    (skipped : survey.done (if first then none else mode) .skip pos errors)
    (here : survey.done mode (.expr child) next errors) :
    survey.done mode (.seq first (child :: rest)) pos errors := by
  refine lawful.composed _ _ _ _ id fun functional _ _ _ step => ?_
  cases step with
  | seqSkip => exact skipped
  | seqHere skip' =>
      obtain rfl := Option.some.inj (functional _ _ _ _ _ skip skip')
      exact here
  | seqLater skip' hit' =>
      obtain rfl := Option.some.inj (functional _ _ _ _ _ skip skip')
      cases functional _ _ _ _ _ miss hit'

theorem done_seq_step {first : Bool} {child : Expr CharT} {rest : List (Expr CharT)}
    {next middle : Nat} (skip : sem (if first then none else mode) .skip pos (some next))
    (hit : sem mode (.expr child) next (some middle))
    (skipped : survey.done (if first then none else mode) .skip pos errors)
    (here : survey.done mode (.expr child) next errors)
    (after : survey.done mode (.seq false rest) middle errors) :
    survey.done mode (.seq first (child :: rest)) pos errors := by
  refine lawful.composed _ _ _ _ id fun functional _ _ _ step => ?_
  cases step with
  | seqSkip => exact skipped
  | seqHere skip' =>
      obtain rfl := Option.some.inj (functional _ _ _ _ _ skip skip')
      exact here
  | seqLater skip' hit' =>
      obtain rfl := Option.some.inj (functional _ _ _ _ _ skip skip')
      obtain rfl := Option.some.inj (functional _ _ _ _ _ hit hit')
      exact after

theorem done_alt_nil : survey.done mode (.alt []) pos errors :=
  lawful.composed _ _ _ _ id fun _ _ _ _ step => nomatch step

theorem done_alt_hit {child : Expr CharT} {rest : List (Expr CharT)} {stop : Nat}
    (hit : sem mode (.expr child) pos (some stop))
    (here : survey.done mode (.expr child) pos errors) :
    survey.done mode (.alt (child :: rest)) pos errors := by
  refine lawful.composed _ _ _ _ id fun functional _ _ _ step => ?_
  cases step with
  | altHere => exact here
  | altLater miss => cases functional _ _ _ _ _ hit miss

theorem done_alt_miss {child : Expr CharT} {rest : List (Expr CharT)}
    (here : survey.done mode (.expr child) pos errors)
    (after : survey.done mode (.alt rest) pos errors) :
    survey.done mode (.alt (child :: rest)) pos errors := by
  refine lawful.composed _ _ _ _ id fun functional _ _ _ step => ?_
  cases step with
  | altHere => exact here
  | altLater _ => exact after

theorem done_loop_last {kind : RepKind} {child : Expr CharT} {count next : Nat}
    {outcome : Option Nat} (skip : sem (if count = 0 then none else mode) .skip pos (some next))
    (found : sem mode (.expr child) next outcome)
    (last : ∀ stop, outcome = some stop →
      (boundReached kind.maxRep (count + 1) || decide (stop = next)) = true)
    (skipped : survey.done (if count = 0 then none else mode) .skip pos errors)
    (here : survey.done mode (.expr child) next errors) :
    survey.done mode (.loop kind child count) pos errors := by
  refine lawful.composed _ _ _ _ id fun functional _ _ _ step => ?_
  cases step with
  | loopSkip => exact skipped
  | loopHere skip' =>
      obtain rfl := Option.some.inj (functional _ _ _ _ _ skip skip')
      exact here
  | loopLater skip' hit' more =>
      obtain rfl := Option.some.inj (functional _ _ _ _ _ skip skip')
      rw [last _ (functional _ _ _ _ _ found hit')] at more
      cases more

theorem done_loop_more {kind : RepKind} {child : Expr CharT} {count next stop : Nat}
    (skip : sem (if count = 0 then none else mode) .skip pos (some next))
    (hit : sem mode (.expr child) next (some stop))
    (skipped : survey.done (if count = 0 then none else mode) .skip pos errors)
    (here : survey.done mode (.expr child) next errors)
    (after : survey.done mode (.loop kind child (count + 1)) stop errors) :
    survey.done mode (.loop kind child count) pos errors := by
  refine lawful.composed _ _ _ _ id fun functional _ _ _ step => ?_
  cases step with
  | loopSkip => exact skipped
  | loopHere skip' =>
      obtain rfl := Option.some.inj (functional _ _ _ _ _ skip skip')
      exact here
  | loopLater skip' hit' _ =>
      obtain rfl := Option.some.inj (functional _ _ _ _ _ skip skip')
      obtain rfl := Option.some.inj (functional _ _ _ _ _ hit hit')
      exact after

end Composition

theorem next_same (context : Context CharT) : context.next.mem = context.mem ∧
    context.next.lrStack = context.lrStack ∧ context.next.errors = context.errors := by
  unfold Context.next
  split_ifs <;> exact ⟨rfl, rfl, rfl⟩

theorem match_values_unmoved [PegValue CharT]
    {side : Contract (Moment CharT) (Context CharT) Exn} (values : List CharT)
    (context : Context CharT) :
    wp side (TerminalSeqExpr.matchValues values) (fun _ last => last.mem = context.mem ∧
      last.lrStack = context.lrStack ∧ last.errors = context.errors) context := by
  induction values generalizing context with
  | nil => exact ⟨rfl, rfl, rfl⟩
  | cons value rest induction =>
      rw [TerminalSeqExpr.matchValues, wp_bind, wp_read, wp_ite]
      refine ⟨fun _ => ?_, fun _ => ⟨rfl, rfl, rfl⟩⟩
      rw [wp_bind, wp_modify]
      refine wp_post (induction context.next) ?_
      rintro found last ⟨mem, lrStack, errors⟩
      obtain ⟨mem', lrStack', errors'⟩ := next_same context
      exact ⟨mem.trans mem', lrStack.trans lrStack', errors.trans errors'⟩

section Leaves

variable [PegValue CharT] {side : Contract (Moment CharT) (Context CharT) Exn}
  {input : List CharT} {inv : Context CharT → Prop}
  {matched : (Context CharT → Span → Option Span) → Nat → Option Nat → Prop}
  {call : Env → Option RuleId → RuleId → Nat → Option Nat → Prop} {env : Env}
  {survey : Survey CharT} (lawful : Lawful (Peg input matched call env) survey)

include lawful

theorem leaf_passes (expr : Expr CharT) (leaf : Leaf (.expr expr)) (plain : ∀ id, expr ≠ .rule id)
    {context last : Context CharT} {outcome : Option Nat} (ready : survey.ready context)
    (peg : Peg input matched call env (mode context) (.expr expr) context.position outcome)
    (noted : outcome = none → leafItem expr = none) (mem : last.mem = context.mem)
    (lrStack : last.lrStack = context.lrStack) (errors : last.errors = context.errors) :
    survey.ready last ∧ survey.later context.errors last.errors ∧
      survey.done (mode context) (.expr expr) context.position last.errors := by
  refine ⟨lawful.kept ready mem lrStack errors, ?_, lawful.passed _ _ _ _ _ leaf plain peg noted⟩
  rw [errors]
  exact lawful.refl _

theorem leaf_misses {expr : Expr CharT} {item : ExpectedItem} (noted : leafItem expr = some item)
    {context last : Context CharT} (ready : survey.ready context)
    (due : survey.due (mode context) (.expr expr) context.position)
    (peg : Peg input matched call env (mode context) (.expr expr) context.position none)
    (mem : last.mem = context.mem) (lrStack : last.lrStack = context.lrStack)
    (errors : last.errors = context.errors.recordFailure context.position item) :
    survey.ready last ∧ survey.later context.errors last.errors ∧
      survey.done (mode context) (.expr expr) context.position last.errors := by
  obtain ⟨later, done⟩ := lawful.missed _ _ _ _ context.errors due peg noted
  rw [← errors] at later done
  refine ⟨lawful.moved context last ready (fun pos rule row held _ => ?_) ?_ later, later, done⟩
  · rwa [mem] at held
  · rw [active, lrStack, active]

theorem matcher_traverses (fn : Context CharT → Span → Option Span)
    (admitted : ∀ context, inv context → matched fn context.position
      ((fn context ⟨context.position, context.position⟩).map Span.stop)) :
    Traverses side inv survey (MatcherExpr.parse fn) (.expr (.matcher fn)) := by
  intro context holds ready due
  have found := admitted context holds
  rw [MatcherExpr.parse, wp_bind, wp_read]
  dsimp only [id]
  cases answer : fn context ⟨context.position, context.position⟩ with
  | some consumed =>
      rw [answer] at found
      dsimp only
      rw [wp_bind, wp_modify, wp_bind, wp_modifyGet, wp_bind, wp_modify, wp_pure]
      exact leaf_passes lawful (.matcher fn) trivial (by simp) ready (Peg.matcher found) (by simp) rfl rfl rfl
  | none =>
      rw [answer] at found
      exact leaf_passes lawful (.matcher fn) trivial (by simp) ready (Peg.matcher found) (fun _ => rfl) rfl rfl rfl

theorem empty_traverses : Traverses side inv survey EmptyExpr.parse (.expr .empty) :=
  fun _ _ ready _ => leaf_passes lawful .empty trivial nofun ready Peg.empty nofun rfl rfl rfl

theorem cut_traverses : Traverses side inv survey CutExpr.parse (.expr .cut) := by
  intro context holds ready due
  rw [CutExpr.parse, wp_bind, wp_modify, wp_pure]
  have unmoved : (context.setCut true).mem = context.mem ∧
      (context.setCut true).lrStack = context.lrStack ∧
      (context.setCut true).errors = context.errors := by
    unfold Context.setCut
    split <;> exact ⟨rfl, rfl, rfl⟩
  obtain ⟨mem, lrStack, errors⟩ := unmoved
  exact leaf_passes lawful .cut trivial (by simp) ready Peg.cut (by simp) mem lrStack errors

variable (invariant : Invariant side input inv)

include invariant

theorem terminal_traverses (value : TerminalValue CharT) :
    Traverses side inv survey (TerminalExpr.parse value) (.expr (.terminal value)) := by
  intro context holds ready due
  have peg := @Peg.terminal _ _ _ input matched call env (mode context) value context.position
  rw [← invariant.input context holds] at peg
  rw [TerminalExpr.parse, wp_bind, wp_read, wp_ite]
  constructor
  · intro accepted
    rw [wp_bind, wp_modify, wp_pure]
    rw [consume_next accepted, invariant.input context holds] at peg
    obtain ⟨mem, lrStack, errors⟩ := next_same context
    exact leaf_passes lawful (.terminal value) trivial (by simp) ready peg (by simp) mem lrStack errors
  · intro rejected
    rw [wp_bind, wp_modify, wp_pure]
    rw [consume_none rejected, invariant.input context holds] at peg
    exact leaf_misses lawful rfl ready due peg rfl rfl rfl

theorem token_traverses (value : TerminalValue CharT) :
    Traverses side inv survey (TokenExpr.parse value) (.expr (.token value)) := by
  intro context holds ready due
  have peg := @Peg.token _ _ _ input matched call env (mode context) value context.position
  rw [← invariant.input context holds] at peg
  rw [TokenExpr.parse, wp_bind, wp_read, wp_ite]
  constructor
  · intro accepted
    rw [wp_bind, wp_modify, wp_bind, wp_modifyGet, wp_bind, wp_modify, wp_pure]
    rw [consume_next accepted, invariant.input context holds] at peg
    obtain ⟨mem, lrStack, errors⟩ := next_same context
    exact leaf_passes lawful (.token value) trivial (by simp) ready peg (by simp) mem lrStack errors
  · intro rejected
    rw [wp_bind, wp_modify, wp_pure]
    rw [consume_none rejected, invariant.input context holds] at peg
    exact leaf_misses lawful rfl ready due peg rfl rfl rfl

theorem terminal_seq_traverses (values : List CharT) :
    Traverses side inv survey (TerminalSeqExpr.parse values) (.expr (.terminalSeq values)) := by
  intro context holds ready due
  have peg := @Peg.terminalSeq _ _ _ input matched call env (mode context) values context.position
  rw [TerminalSeqExpr.parse, wp_bind, wp_read, wp_bind]
  refine wp_post (wp_with rfl (match_values_evaluates invariant values context holds)
    (match_values_unmoved values context)) ?_
  rintro found last ⟨⟨-, -, consumed⟩, mem, lrStack, errors⟩
  rw [consumed] at peg
  rw [wp_ite]
  constructor
  · intro accepted
    rw [if_pos accepted] at peg
    exact leaf_passes lawful (.terminalSeq values) trivial (by simp) ready peg (by simp) mem lrStack errors
  · intro rejected
    rw [if_neg rejected] at peg
    rw [wp_bind, wp_modify, wp_bind, wp_modify, wp_pure]
    refine leaf_misses lawful rfl ready due peg mem lrStack ?_
    rw [← errors]
    rfl

end Leaves

theorem push_child_same (node : NodePtr) (tree : Option NodePtr) (context : Context CharT) :
    (pushChild node tree context).mem = context.mem ∧
      (pushChild node tree context).lrStack = context.lrStack ∧
      (pushChild node tree context).errors = context.errors ∧
      (pushChild node tree context).position = context.position ∧
      Framed context (pushChild node tree context) := by
  cases tree <;> exact ⟨rfl, rfl, rfl, rfl, ⟨rfl, rfl⟩⟩

theorem repeat_finish_same {side : Contract (Moment CharT) (Context CharT) Exn}
    {input : List CharT} {inv : Context CharT → Prop} (owed : Invariant side input inv) (maxRep : Int) (node : NodePtr)
    (ended : LoopExit) (context : Context CharT) (holds : inv context) :
    wp side (repeatFinish maxRep node ended) (fun _ last => last.mem = context.mem ∧
      last.lrStack = context.lrStack ∧ last.errors = context.errors) context := by
  have rest : ∀ here : Context CharT, inv here → here.mem = context.mem →
      here.lrStack = context.lrStack → here.errors = context.errors →
      wp side (do
        Comp.onlyIf (maxRep < 0 ∧ ended.exitedViaFailure = true) raiseIfCommitted
        Comp.modify (markEnd node)
        pure (⟨true, some node⟩ : ParseResult)) (fun _ last => last.mem = context.mem ∧
          last.lrStack = context.lrStack ∧ last.errors = context.errors) here := by
    intro here kept mem lrStack errors
    rw [wp_bind, wp_onlyIf]
    refine ⟨fun _ => wp_post (raise_evaluates owed here kept) ?_, fun _ => ⟨mem, lrStack, errors⟩⟩
    rintro ⟨⟩ last rfl
    exact ⟨mem, lrStack, errors⟩
  rw [repeatFinish, wp_bind, wp_onlyIf]
  refine ⟨fun viaFailure => ?_, fun notFailure => rest context holds rfl rfl rfl⟩
  rw [wp_modify]
  exact rest _ (moved_inv owed holds rfl rfl rfl rfl rfl rfl (.refl _)) rfl rfl rfl

section Combinators

variable [PegValue CharT] {contract side : Contract (Moment CharT) (Context CharT) Exn}
  (same : side.assume = contract.assume) {input : List CharT} {inv : Context CharT → Prop}
  (invariant : Invariant contract input inv) (owed : Invariant side input inv)
  {matched : (Context CharT → Span → Option Span) → Nat → Option Nat → Prop}
  {call : Env → Option RuleId → RuleId → Nat → Option Nat → Prop} {env : Env}
  {survey : Survey CharT} (lawful : Lawful (Peg input matched call env) survey)
  {apply : RuleId → Parser CharT ParseResult}

include lawful

theorem cut_scope_traverses (owed : Invariant side input inv) {body : Parser CharT ParseResult}
    {task : Pending CharT} (traverses : Traverses side inv survey body task) :
    Traverses side inv survey (Comp.modify Context.initCut >>= fun _ =>
      Comp.guarded body Context.removeCut) task := by
  intro context holds ready due
  rw [wp_bind, wp_modify, wp_guarded]
  refine wp_mono (traverses context.initCut (owed.opened context holds)
    (lawful.kept ready rfl rfl rfl) due) (fun _ => id) (fun _ _ => id) owed.unwinds ?_
  rintro result last ⟨readyLast, later, done⟩
  have closed : (∀ pos rule row, last.removeCut.mem pos rule = some row →
      (rule, pos) ∉ active last.removeCut → last.mem pos rule = some row) ∧
      active last.removeCut = active last ∧ last.removeCut.errors = last.errors := by
    unfold Context.removeCut
    split
    · exact ⟨fun _ _ _ held _ => held, rfl, rfl⟩
    · split_ifs
      · refine ⟨fun pos rule row held _ => ?_, rfl, rfl⟩
        dsimp only at held
        split_ifs at held
        exact held
      · exact ⟨fun _ _ _ held _ => held, rfl, rfl⟩
  obtain ⟨rows, frames, errors⟩ := closed
  rw [errors]
  exact ⟨lawful.moved last _ readyLast rows frames (errors ▸ lawful.refl _), later, done⟩

theorem onlyIf_traverses {skip : Parser CharT Unit} {condition : Prop} [Decidable condition]
    (skips : Traverses side inv survey skip .skip) (context : Context CharT) (holds : inv context)
    (ready : survey.ready context)
    (due : survey.due (if condition then mode context else none) .skip context.position) :
    wp side (Comp.onlyIf condition skip) (fun _ last => survey.ready last ∧
      survey.later context.errors last.errors ∧
      survey.done (if condition then mode context else none) .skip context.position last.errors)
      context := by
  rw [wp_onlyIf]
  constructor
  · intro active
    rw [if_pos active] at due ⊢
    exact skips context holds ready due
  · intro inactive
    rw [if_neg inactive]
    exact ⟨ready, lawful.refl _, done_skip_off lawful⟩

include same invariant

theorem parse_seq_traverses {skip : Parser CharT Unit} {fuel : Nat}
    (skips : Skips contract inv skip fun mode pos outcome =>
      Peg input matched call env mode .skip pos outcome)
    (skipping : Traverses side inv survey skip .skip) (node : NodePtr)
    (children : List (Expr CharT))
    (evaluates : ∀ child ∈ children, Evaluates contract inv (child.parse apply fuel)
      fun mode pos outcome => Peg input matched call env mode (.expr child) pos outcome)
    (each : ∀ child ∈ children, Traverses side inv survey (child.parse apply fuel) (.expr child))
    (index : Nat) :
    Traverses side inv survey
      (SequenceExpr.parseSeq skip node index (Expr.parseAll apply fuel children))
      (.seq (decide (index = 0)) children) := by
  induction children generalizing index with
  | nil =>
      intro context holds ready due
      exact ⟨ready, lawful.refl _, done_seq_nil lawful⟩
  | cons child rest induction =>
      intro context holds ready due
      have first : (if 0 < index then mode context else none) =
          if decide (index = 0) = true then none else mode context := by
        rcases Nat.eq_zero_or_pos index with rfl | positive
        · rfl
        · rw [if_pos positive, if_neg (by simpa using Nat.ne_of_gt positive)]
      have dueSkip := lawful.handed _ _ _ _ _ _ due Step.seqSkip
      rw [← first] at dueSkip
      rw [Expr.parseAll, SequenceExpr.parseSeq, wp_bind]
      refine wp_post (wp_with same (onlyIf_skips skips context holds)
        (onlyIf_traverses lawful skipping context holds ready dueSkip)) ?_
      rintro ⟨⟩ skipped ⟨⟨keptSkip, framedSkip, skip⟩, readySkip, laterSkip, doneSkip⟩
      rw [first] at skip doneSkip
      have dueChild := lawful.handed _ _ _ _ _ _ due (Step.seqHere skip)
      rw [wp_bind]
      refine wp_post (wp_with same (evaluates child (by simp) skipped keptSkip)
        (each child (by simp) skipped keptSkip readySkip (framedSkip.mode_eq ▸ dueChild))) ?_
      rintro result here ⟨⟨keptHere, framedHere, answers⟩, readyHere, laterHere, doneHere⟩
      rw [framedSkip.mode_eq] at answers doneHere
      have later := lawful.trans _ _ _ laterSkip laterHere
      rw [wp_ite]
      constructor
      · intro success
        have hit := answers.of_success success
        rw [wp_bind, wp_modify]
        obtain ⟨mem, lrStack, errors, position, pushed⟩ := push_child_same node result.tree here
        have framed := (framedSkip.trans framedHere).trans pushed
        have dueRest := lawful.handed _ _ _ _ _ _ due (Step.seqLater skip hit)
        refine wp_post (induction (fun other member => evaluates other (by simp [member]))
          (fun other member => each other (by simp [member])) (index + 1) _
          (push_child_inv invariant keptHere node result.tree)
          (lawful.kept readyHere mem lrStack errors) (by rwa [framed.mode_eq, position])) ?_
        rintro found last ⟨readyLast, laterLast, doneRest⟩
        rw [framed.mode_eq, position] at doneRest
        rw [errors] at laterLast
        refine ⟨readyLast, lawful.trans _ _ _ later laterLast, ?_⟩
        exact done_seq_step lawful skip hit
          (lawful.lasts _ _ _ _ _ doneSkip (lawful.trans _ _ _ laterHere laterLast))
          (lawful.lasts _ _ _ _ _ doneHere laterLast) doneRest
      · intro failure
        exact ⟨readyHere, later, done_seq_fail lawful skip (answers.of_failure failure).2
          (lawful.lasts _ _ _ _ _ doneSkip laterHere) doneHere⟩

theorem sequence_traverses {skip : Parser CharT Unit} {fuel : Nat}
    (skips : Skips contract inv skip fun mode pos outcome =>
      Peg input matched call env mode .skip pos outcome)
    (skipping : Traverses side inv survey skip .skip) (children : List (Expr CharT))
    (evaluates : ∀ child ∈ children, Evaluates contract inv (child.parse apply fuel)
      fun mode pos outcome => Peg input matched call env mode (.expr child) pos outcome)
    (each : ∀ child ∈ children, Traverses side inv survey (child.parse apply fuel) (.expr child)) :
    Traverses side inv survey (SequenceExpr.parse skip (Expr.parseAll apply fuel children))
      (.expr (.sequence children)) := by
  intro context holds ready due
  have dueAll := lawful.handed _ _ _ _ _ _ due Step.sequence
  rw [SequenceExpr.parse, wp_bind, wp_read, wp_bind, wp_modifyGet, wp_bind, wp_modify, wp_bind]
  refine wp_post (parse_seq_traverses same invariant lawful skips skipping context.makeNode.1
    children evaluates each 0 (markStart context.makeNode.1 context.makeNode.2)
    (moved_inv invariant holds rfl rfl rfl rfl rfl rfl (.refl _)) (lawful.kept ready rfl rfl rfl) dueAll) ?_
  rintro found last ⟨readyLast, later, done⟩
  have whole := done_sequence lawful done
  rw [wp_ite]
  constructor
  · intro success
    rw [wp_bind, wp_modify, wp_pure]
    exact ⟨lawful.kept readyLast rfl rfl rfl, later, whole⟩
  · intro failure
    rw [wp_bind, wp_modify, wp_pure]
    exact ⟨lawful.kept readyLast rfl rfl rfl, later, whole⟩

omit invariant in
theorem parse_alt_traverses (owed : Invariant side input inv) {fuel : Nat}
    (children : List (Expr CharT))
    (evaluates : ∀ child ∈ children, Evaluates contract inv (child.parse apply fuel)
      fun mode pos outcome => Peg input matched call env mode (.expr child) pos outcome)
    (each : ∀ child ∈ children, Traverses side inv survey (child.parse apply fuel) (.expr child))
    (index : Nat) :
    Traverses side inv survey
      (AlternationExpr.parseAlt index (Expr.parseAll apply fuel children)) (.alt children) := by
  induction children generalizing index with
  | nil => exact fun context _ ready _ => ⟨ready, lawful.refl _, done_alt_nil lawful⟩
  | cons child rest induction =>
      intro context holds ready due
      have dueChild := lawful.handed _ _ _ _ _ _ due Step.altHere
      rw [Expr.parseAll, AlternationExpr.parseAlt, wp_bind]
      refine wp_post (wp_with same (evaluates child (by simp) context holds)
        (each child (by simp) context holds ready dueChild)) ?_
      rintro result here ⟨⟨kept, framed, answers⟩, readyHere, laterHere, doneHere⟩
      rw [wp_ite]
      constructor
      · intro success
        rw [wp_bind, wp_modify, wp_pure]
        have stamped : (stampWinner result.tree index here).mem = here.mem ∧
            (stampWinner result.tree index here).lrStack = here.lrStack ∧
            (stampWinner result.tree index here).errors = here.errors := by
          cases result.tree <;> exact ⟨rfl, rfl, rfl⟩
        obtain ⟨mem, lrStack, errors⟩ := stamped
        rw [errors]
        exact ⟨lawful.kept readyHere mem lrStack errors, laterHere,
          done_alt_hit lawful (answers.of_success success) doneHere⟩
      · intro failure
        obtain ⟨stayed, missed⟩ := answers.of_failure failure
        have dueRest := lawful.handed _ _ _ _ _ _ due (Step.altLater missed)
        rw [wp_bind]
        refine wp_post (raise_evaluates owed here kept) ?_
        rintro ⟨⟩ last rfl
        refine wp_post (induction (fun other member => evaluates other (by simp [member]))
          (fun other member => each other (by simp [member])) (index + 1) last kept readyHere
          (by rwa [framed.mode_eq, stayed])) ?_
        rintro result' last' ⟨readyLast, laterLast, doneRest⟩
        rw [framed.mode_eq, stayed] at doneRest
        exact ⟨readyLast, lawful.trans _ _ _ laterHere laterLast,
          done_alt_miss lawful (lawful.lasts _ _ _ _ _ doneHere laterLast) doneRest⟩

theorem repeat_loop_traverses {skip : Parser CharT Unit} {fuel : Nat}
    (skips : Skips contract inv skip fun mode pos outcome =>
      Peg input matched call env mode .skip pos outcome)
    (skipping : Traverses side inv survey skip .skip) (kind : RepKind) (child : Expr CharT)
    (evaluates : Evaluates contract inv (child.parse apply fuel)
      fun mode pos outcome => Peg input matched call env mode (.expr child) pos outcome)
    (traverses : Traverses side inv survey (child.parse apply fuel) (.expr child))
    (node : NodePtr) (budget loopCount lastSuccessState : Nat) :
    Traverses side inv survey (repeatLoop skip (child.parse apply fuel) kind.maxRep node budget
      loopCount lastSuccessState) (.loop kind child loopCount) := by
  induction budget generalizing loopCount lastSuccessState with
  | zero => exact fun _ _ _ _ => trivial
  | succ budget induction =>
      intro context holds ready due
      have first : (if 0 < loopCount then mode context else none) =
          if loopCount = 0 then none else mode context := by
        rcases Nat.eq_zero_or_pos loopCount with rfl | positive
        · rfl
        · rw [if_pos positive, if_neg (Nat.ne_of_gt positive)]
      have dueSkip := lawful.handed _ _ _ _ _ _ due Step.loopSkip
      rw [← first] at dueSkip
      rw [repeatLoop, wp_bind]
      refine wp_post (wp_with same (onlyIf_skips skips context holds)
        (onlyIf_traverses lawful skipping context holds ready dueSkip)) ?_
      rintro ⟨⟩ skipped ⟨⟨keptSkip, framedSkip, skip⟩, readySkip, laterSkip, doneSkip⟩
      rw [first] at skip doneSkip
      have dueChild := lawful.handed _ _ _ _ _ _ due (Step.loopHere skip)
      rw [wp_bind, wp_read, wp_bind, wp_modify, wp_bind]
      have uncut : Framed skipped (skipped.setCut false) ∧
          (skipped.setCut false).position = skipped.position ∧
          (skipped.setCut false).mem = skipped.mem ∧
          (skipped.setCut false).lrStack = skipped.lrStack ∧
          (skipped.setCut false).errors = skipped.errors := by
        unfold Context.setCut
        split <;> exact ⟨⟨rfl, rfl⟩, rfl, rfl, rfl, rfl⟩
      obtain ⟨framedCut, position, mem, lrStack, errors⟩ := uncut
      have framedStart := framedSkip.trans framedCut
      have cleared := invariant.cleared skipped keptSkip
      refine wp_post (wp_with same (evaluates _ cleared) (traverses _ cleared
        (lawful.kept readySkip mem lrStack errors) (by rwa [framedStart.mode_eq, position]))) ?_
      rintro result here ⟨⟨keptHere, framedHere, answers⟩, readyHere, laterHere, doneHere⟩
      rw [framedStart.mode_eq, position] at answers doneHere
      rw [errors] at laterHere
      have later := lawful.trans _ _ _ laterSkip laterHere
      have doneSkipHere := lawful.lasts _ _ _ _ _ doneSkip laterHere
      rw [wp_ite]
      constructor
      · intro success
        have hit := answers.of_success success
        rw [wp_bind, wp_read, wp_bind, wp_modify, wp_ite]
        obtain ⟨memPush, stackPush, errorsPush, positionPush, framedPush⟩ :=
          push_child_same node result.tree here
        have framed := (framedStart.trans framedHere).trans framedPush
        have readyPush := lawful.kept readyHere memPush stackPush errorsPush
        constructor
        · intro last
          rw [wp_pure, errorsPush]
          refine ⟨readyPush, later, done_loop_last lawful skip hit ?_ doneSkipHere doneHere⟩
          rintro stop ended
          obtain rfl := Option.some.inj ended
          exact last
        · intro more
          have again := lawful.handed _ _ _ _ _ _ due
            (Step.loopLater skip hit (by simpa using more))
          refine wp_post (induction (loopCount + 1) here.position _
            (push_child_inv invariant keptHere node result.tree) readyPush
            (by rwa [framed.mode_eq, positionPush])) ?_
          rintro ended last ⟨readyLast, laterLast, doneRest⟩
          rw [framed.mode_eq, positionPush] at doneRest
          rw [errorsPush] at laterLast
          exact ⟨readyLast, lawful.trans _ _ _ later laterLast,
            done_loop_more lawful skip hit (lawful.lasts _ _ _ _ _ doneSkipHere laterLast)
              (lawful.lasts _ _ _ _ _ doneHere laterLast) doneRest⟩
      · intro failure
        rw [wp_pure]
        exact ⟨readyHere, later, done_loop_last lawful skip (answers.of_failure failure).2 (by simp)
          doneSkipHere doneHere⟩

theorem repeat_traverses (owed : Invariant side input inv) {skip : Parser CharT Unit} {fuel : Nat}
    (skips : Skips contract inv skip fun mode pos outcome =>
      Peg input matched call env mode .skip pos outcome)
    (skipping : Traverses side inv survey skip .skip) (kind : RepKind) (child : Expr CharT)
    (evaluates : Evaluates contract inv (child.parse apply fuel)
      fun mode pos outcome => Peg input matched call env mode (.expr child) pos outcome)
    (traverses : Traverses side inv survey (child.parse apply fuel) (.expr child))
    (budget : Nat) :
    Traverses side inv survey
      (repeatParseImpl budget skip (child.parse apply fuel) kind.minRep kind.maxRep)
      (.expr (.repetition kind child)) := by
  refine cut_scope_traverses lawful owed fun context holds ready due => ?_
  have dueLoop := lawful.handed _ _ _ _ _ _ due Step.repetition
  rw [wp_bind, wp_read, wp_bind, wp_modifyGet, wp_bind, wp_modify, wp_bind]
  have begun : inv (markStart context.makeNode.1 context.makeNode.2) :=
    moved_inv invariant holds rfl rfl rfl rfl rfl rfl (.refl _)
  refine wp_post (wp_with same
    (repeat_loop_evaluates invariant skips kind child evaluates context.makeNode.1 budget 0 _ begun)
    (repeat_loop_traverses same invariant lawful skips skipping kind child evaluates traverses
      context.makeNode.1 budget 0 _ _ begun (lawful.kept ready rfl rfl rfl) dueLoop)) ?_
  rintro ended last ⟨⟨kept, -⟩, readyLast, later, done⟩
  have whole := done_repetition lawful done
  rw [wp_ite]
  constructor
  · intro few
    rw [wp_bind, wp_modify, wp_pure]
    exact ⟨lawful.kept readyLast rfl rfl rfl, later, whole⟩
  · intro enough
    refine wp_post (repeat_finish_same owed kind.maxRep context.makeNode.1 ended last kept) ?_
    rintro result finished ⟨mem, lrStack, errors⟩
    rw [errors]
    exact ⟨lawful.kept readyLast mem lrStack errors, later, whole⟩

omit same invariant in
theorem predicate_traverses {parseChild : Parser CharT ParseResult} {child : Expr CharT}
    (traverses : Traverses side inv survey parseChild (.expr child)) :
    Traverses side inv survey (predicateParseImpl parseChild true) (.expr (.not child)) ∧
      Traverses side inv survey (predicateParseImpl parseChild false) (.expr (.and child)) := by
  constructor
  all_goals
    intro context holds ready due
    rw [predicateParseImpl, wp_bind, wp_read, wp_bind]
  · refine wp_post (traverses context holds ready (lawful.handed _ _ _ _ _ _ due Step.not)) ?_
    rintro result last ⟨readyLast, later, done⟩
    rw [wp_bind, wp_modify, wp_pure]
    exact ⟨lawful.kept readyLast rfl rfl rfl, later, (done_predicate lawful done).1⟩
  · refine wp_post (traverses context holds ready (lawful.handed _ _ _ _ _ _ due Step.and)) ?_
    rintro result last ⟨readyLast, later, done⟩
    rw [wp_bind, wp_modify, wp_pure]
    exact ⟨lawful.kept readyLast rfl rfl rfl, later, (done_predicate lawful done).2⟩

omit same invariant in
theorem lexeme_traverses (owed : Invariant side input inv) {parseChild : Parser CharT ParseResult}
    {child : Expr CharT} (traverses : Traverses side inv survey parseChild (.expr child)) :
    Traverses side inv survey (LexemeExpr.parse parseChild) (.expr (.lexeme child)) := by
  intro context holds ready due
  rw [LexemeExpr.parse, wp_bind, wp_read, wp_bind, wp_modify, wp_guarded]
  refine wp_mono (traverses { context with skipEnabled := false }
    (moved_inv owed holds rfl rfl rfl rfl rfl rfl (.refl _)) (lawful.kept ready rfl rfl rfl)
    (lawful.handed _ _ _ _ _ _ due Step.lexeme)) (fun _ => id) (fun _ _ => id)
    (fun exn last => owed.relabels exn last _) ?_
  rintro result last ⟨readyLast, later, done⟩
  exact ⟨lawful.kept readyLast rfl rfl rfl, later, done_lexeme lawful done⟩

omit same invariant in
theorem skipper_traverses (owed : Invariant side input inv) {applicable : RuleId → Prop}
    (configured : ∀ context, inv context → ∀ rule, context.skipper = some rule → applicable rule)
    (rules : ∀ rule, applicable rule →
      Traverses side inv survey (apply rule) (.expr (.rule rule))) :
    Traverses side inv survey (runSkipper apply) .skip := by
  intro context holds ready due
  rw [runSkipper, wp_bind, wp_read]
  dsimp only [id]
  split
  · next skipper enabled set =>
      have active : mode context = some skipper := by rw [mode, if_pos enabled, set]
      rw [active] at due ⊢
      rw [wp_bind, wp_modify, wp_bind]
      refine wp_post (rules skipper (configured context holds skipper set)
        { context with skipEnabled := false }
        (moved_inv owed holds rfl rfl rfl rfl rfl rfl (.refl _)) (lawful.kept ready rfl rfl rfl)
        (lawful.handed _ _ _ _ _ _ due Step.skip)) ?_
      rintro result last ⟨readyLast, later, done⟩
      rw [wp_modify]
      exact ⟨lawful.kept readyLast rfl rfl rfl, later, done_skip lawful done⟩
  · next inactive =>
      have off : mode context = none := by
        unfold mode
        cases enabled : context.skipEnabled with
        | false => rfl
        | true =>
            cases set : context.skipper with
            | none => rfl
            | some skipper => exact absurd set (inactive skipper enabled)
      rw [off]
      exact ⟨ready, lawful.refl _, done_skip_off lawful⟩

/-- The parse of an expression goes through all its parts, if the rules do. -/
theorem expr_traverses (owed : Invariant side input inv) {applicable : RuleId → Prop}
    (applies : ∀ rule, applicable rule → Evaluates contract inv (apply rule) fun mode pos outcome =>
      call env mode rule pos outcome)
    (configured : ∀ context, inv context → ∀ rule, context.skipper = some rule → applicable rule)
    (rules : ∀ rule, applicable rule →
      Traverses side inv survey (apply rule) (.expr (.rule rule))) (fuel : Nat)
    {expr : Expr CharT} (admitted : expr.Every (Admits applicable matched inv)) :
    Traverses side inv survey (expr.parse apply fuel) (.expr expr) := by
  have skips : Skips contract inv (runSkipper apply) fun mode pos outcome =>
      Peg input matched call env mode .skip pos outcome := skipper_skips invariant applies configured
  have skipping := skipper_traverses lawful owed configured rules
  have evaluates : ∀ part : Expr CharT, part.Every (Admits applicable matched inv) →
      Evaluates contract inv (part.parse apply fuel) fun mode pos outcome =>
        Peg input matched call env mode (.expr part) pos outcome :=
    fun part => expr_evaluates invariant applies configured fuel
  induction expr using Expr.induct with
  | terminal value => exact terminal_traverses lawful owed value
  | terminalSeq values => exact terminal_seq_traverses lawful owed values
  | token value => exact token_traverses lawful owed value
  | matcher fn => exact matcher_traverses lawful fn admitted.here
  | empty => exact empty_traverses lawful
  | cut => exact cut_traverses lawful
  | sequence children induction =>
      unfold Expr.Every at admitted
      have parts := Expr.every_all_iff.mp admitted.2
      exact sequence_traverses same invariant lawful skips skipping children
        (fun child member => evaluates child (parts child member))
        fun child member => induction child member (parts child member)
  | alternation children induction =>
      unfold Expr.Every at admitted
      have parts := Expr.every_all_iff.mp admitted.2
      have branches := cut_scope_traverses lawful owed (parse_alt_traverses same lawful owed children
        (fun child member => evaluates child (parts child member))
        (fun child member => induction child member (parts child member)) 0)
      intro context holds ready due
      refine wp_post (branches context holds ready
        (lawful.handed _ _ _ _ _ _ due Step.alternation)) ?_
      rintro result last ⟨readyLast, later, done⟩
      exact ⟨readyLast, later, done_alternation lawful done⟩
  | repetition kind child induction =>
      unfold Expr.Every at admitted
      exact repeat_traverses same invariant lawful owed skips skipping kind child
        (evaluates child admitted.2) (induction admitted.2) fuel
  | not child induction =>
      unfold Expr.Every at admitted
      exact (predicate_traverses lawful (induction admitted.2)).1
  | and child induction =>
      unfold Expr.Every at admitted
      exact (predicate_traverses lawful (induction admitted.2)).2
  | lexeme child induction =>
      unfold Expr.Every at admitted
      exact lexeme_traverses lawful owed (induction admitted.2)
  | rule id => exact rules id admitted.here

end Combinators

theorem set_frame_active (pos : Nat) (context : Context CharT) :
    active (NonTerminal.setFrameLastPos pos context) = active context := by
  unfold NonTerminal.setFrameLastPos active
  cases context.lrStack <;> rfl

theorem update_row_same (context : Context CharT) (rule : RuleId) (pos : Nat) (entry : RuleState) :
    active (context.updateRuleState rule pos entry).2 = active context ∧
      (context.updateRuleState rule pos entry).2.errors = context.errors ∧
      mode (context.updateRuleState rule pos entry).2 = mode context ∧
      ∀ pos' rule' row, (context.updateRuleState rule pos entry).2.mem pos' rule' = some row →
        ¬(pos' = pos ∧ rule' = rule) → context.mem pos' rule' = some row := by
  unfold Context.updateRuleState
  split
  · refine ⟨rfl, rfl, rfl, fun pos' rule' row held other => ?_⟩
    rcases Memo.write_eq_some held with ⟨rfl, rfl, -⟩ | ⟨-, before⟩
    · exact absurd ⟨rfl, rfl⟩ other
    · exact before
  · exact ⟨rfl, rfl, rfl, fun _ _ _ held _ => held⟩

section Growth

variable [PegValue CharT] {contract side : Contract (Moment CharT) (Context CharT) Exn}
  (same : side.assume = contract.assume) {inv : Context CharT → Prop}
  {sem : Option RuleId → Pending CharT → Nat → Option Nat → Prop}
  {survey : Survey CharT} (lawful : Lawful sem survey)

include same lawful

omit same in
theorem ready_stored {context : Context CharT} (ready : survey.ready context) {rule : RuleId}
    {pos : Nat} (inProgress : (rule, pos) ∈ active context) (entry : RuleState) :
    survey.ready (context.updateRuleState rule pos entry).2 := by
  obtain ⟨frames, errors, -, rows⟩ := update_row_same context rule pos entry
  refine lawful.moved context _ ready (fun pos' rule' row held outside => ?_) frames ?_
  · refine rows pos' rule' row held ?_
    rintro ⟨rfl, rfl⟩
    rw [frames] at outside
    exact outside inProgress
  · rw [errors]
    exact lawful.refl _

/-- A growth goes through the body of its rule, at least once. -/
theorem grow_loop_traverses {rule : RuleId} {body : Expr CharT}
    {parseBody : Parser CharT ParseResult} {startPos : Nat} {skipping : Option RuleId}
    {answer : Option RuleId → Nat → Option Nat → Prop}
    (evaluates : Evaluates contract inv parseBody answer)
    (traverses : Traverses side inv survey parseBody (.expr body))
    (stable : StableParser parseBody)
    (reset : ∀ context, inv context → inv (context.reset startPos))
    (cleared : ∀ context, inv context → inv (context.clearSiblingsAt startPos rule))
    (stored : ∀ context result, inv context → result.success = true →
      answer skipping startPos (some context.position) →
      inv ((NonTerminal.setFrameLastPos context.position context).updateRuleState rule startPos
        ⟨context.position, result⟩).2)
    (allowed : ∀ moment : Moment CharT, moment.event = .store rule startPos →
      side.guarantee moment)
    (fuel : Nat) (best : ParseResult) (ruleState : RuleState) (context : Context CharT)
    (holds : inv context) (ready : survey.ready context) (inMode : mode context = skipping)
    (keyed : ∃ keys, active context = (rule, startPos) :: keys)
    (due : survey.due skipping (.expr body) startPos) :
    wp side (NonTerminal.growLoop rule startPos parseBody fuel best ruleState)
      (fun _ last => survey.ready last ∧ survey.later context.errors last.errors ∧
        survey.done skipping (.expr body) startPos last.errors) context := by
  induction fuel generalizing best ruleState context with
  | zero => exact trivial
  | succ fuel induction =>
      obtain ⟨keys, keyed⟩ := keyed
      rw [NonTerminal.growLoop, wp_bind, wp_modify, wp_bind, wp_read, wp_bind]
      have started : wp side
          (Comp.onlyIf ((NonTerminal.frame (context.reset startPos)).isHead = true ∧
              best.success = true)
            (Comp.modify fun context => context.clearSiblingsAt startPos rule))
          (fun _ here => inv here ∧ survey.ready here ∧ mode here = skipping ∧
            here.position = startPos ∧ active here = active context ∧
            here.errors = context.errors) (context.reset startPos) := by
        have begun := reset context holds
        have readyReset : survey.ready (context.reset startPos) := lawful.kept ready rfl rfl rfl
        rw [wp_onlyIf, wp_modify]
        refine ⟨fun _ => ⟨cleared _ begun, ?_, inMode, rfl, rfl, rfl⟩,
          fun _ => ⟨begun, readyReset, inMode, rfl, rfl, rfl⟩⟩
        refine lawful.moved _ _ readyReset (fun pos rule' row held _ => ?_) rfl (lawful.refl _)
        simp only [Context.clearSiblingsAt] at held
        split_ifs at held
        exact held
      refine wp_post started ?_
      rintro ⟨⟩ here ⟨holdsHere, readyHere, modeHere, at_start, framesHere, errorsHere⟩
      rw [wp_bind]
      have walked := wp_with same (evaluates here holdsHere)
        (traverses here holdsHere readyHere (by rwa [modeHere, at_start]))
      refine wp_post (wp_preserves walked stable) ?_
      rintro result after ⟨⟨⟨holdsAfter, framed, answers⟩, readyAfter, later, done⟩, step⟩
      rw [modeHere, at_start] at done answers
      rw [errorsHere] at later
      have frames : active after = (rule, startPos) :: keys :=
        (active_of_frames step.frames).trans (framesHere.trans keyed)
      have modeAfter : mode after = skipping := framed.mode_eq.trans modeHere
      have inProgress : (rule, startPos) ∈ active after := by
        rw [frames]
        exact List.mem_cons_self
      rw [wp_bind, wp_read, wp_ite]
      dsimp only [id]
      constructor
      · intro success
        rw [wp_ite]
        constructor
        · intro ahead
          have moved := set_frame_active after.position after
          have readyMoved : survey.ready (NonTerminal.setFrameLastPos after.position after) :=
            lawful.moved after _ readyAfter (fun _ _ _ held _ => held) moved (lawful.refl _)
          have readyNext := ready_stored lawful readyMoved (moved ▸ inProgress)
            ⟨after.position, result⟩
          obtain ⟨framesNext, errorsNext, modeNext, -⟩ := update_row_same
            (NonTerminal.setFrameLastPos after.position after) rule startPos
            ⟨after.position, result⟩
          have next := stored after result holdsAfter success (answers.of_success success)
          rw [wp_bind, wp_modify, wp_bind, NonTerminal.store, wp_bind, wp_modifyGet, wp_bind,
            announce, wp_announce]
          refine fun _ => ⟨allowed _ rfl, ?_⟩
          rw [wp_pure, wp_ite]
          constructor
          · intro _
            refine wp_post (induction result ⟨after.position, result⟩ _ next readyNext
              (modeNext.trans modeAfter) ⟨keys, framesNext.trans (moved.trans frames)⟩) ?_
            rintro grown last ⟨readyLast, laterLast, doneLast⟩
            rw [errorsNext] at laterLast
            exact ⟨readyLast, lawful.trans _ _ _ later laterLast, doneLast⟩
          · intro _
            rw [wp_pure, errorsNext]
            exact ⟨readyNext, later, done⟩
        · intro stuck
          have readyLast := ready_stored lawful readyAfter inProgress
            ⟨(NonTerminal.frame after).lastPos, if best.success then best else result⟩
          obtain ⟨-, errorsLast, -, -⟩ := update_row_same after rule startPos
            ⟨(NonTerminal.frame after).lastPos, if best.success then best else result⟩
          rw [wp_bind, NonTerminal.store, wp_bind, wp_modifyGet, wp_bind, announce, wp_announce]
          refine fun _ => ⟨allowed _ rfl, ?_⟩
          rw [wp_pure, wp_pure, errorsLast]
          exact ⟨readyLast, later, done⟩
      · intro failure
        exact ⟨readyAfter, later, done⟩

/-- A first-time application goes through the body before it pops its frame. -/
theorem invoke_traverses {rule : RuleId} {body : Expr CharT}
    {parseBody : Parser CharT ParseResult} {startPos : Nat} {skipping : Option RuleId}
    {answer : Option RuleId → Nat → Option Nat → Prop}
    (evaluates : Evaluates contract inv parseBody answer)
    (traverses : Traverses side inv survey parseBody (.expr body))
    (stable : StableParser parseBody)
    (reset : ∀ context, inv context → inv (context.reset startPos))
    (cleared : ∀ context, inv context → inv (context.clearSiblingsAt startPos rule))
    (stored : ∀ context result, inv context → result.success = true →
      answer skipping startPos (some context.position) →
      inv ((NonTerminal.setFrameLastPos context.position context).updateRuleState rule startPos
        ⟨context.position, result⟩).2)
    (allowed : ∀ moment : Moment CharT, moment.event = .store rule startPos →
      side.guarantee moment)
    (fuel : Nat) (context : Context CharT) (inMode : mode context = skipping)
    (planted : inv ((context.lrPush ⟨rule, startPos, startPos, false⟩).updateRuleState rule
      startPos ⟨startPos, {}⟩).2)
    (ready : survey.ready (context.lrPush ⟨rule, startPos, startPos, false⟩))
    (due : survey.due skipping (.expr body) startPos) :
    wp side (NonTerminal.invoke rule startPos (some parseBody) fuel)
      (fun _ last => ∃ there, survey.ready there ∧ survey.later context.errors there.errors ∧
        survey.done skipping (.expr body) startPos there.errors ∧
        last = NonTerminal.leave startPos (there.reset (NonTerminal.frame there).lastPos))
      context := by
  have inProgress : (rule, startPos) ∈ active (context.lrPush ⟨rule, startPos, startPos, false⟩) :=
    List.mem_cons_self
  have readySeed := ready_stored lawful ready inProgress ⟨startPos, {}⟩
  obtain ⟨frames, errors, modeSeed, -⟩ := update_row_same
    (context.lrPush ⟨rule, startPos, startPos, false⟩) rule startPos ⟨startPos, {}⟩
  rw [NonTerminal.invoke, wp_bind, wp_modify, wp_bind, NonTerminal.parseImpl, wp_bind,
    NonTerminal.store, wp_bind, wp_modifyGet, wp_bind, announce, wp_announce]
  refine fun _ => ⟨allowed _ rfl, ?_⟩
  rw [wp_pure, wp_bind]
  refine wp_post (grow_loop_traverses same lawful evaluates traverses stable reset cleared stored
    allowed fuel {} ⟨startPos, {}⟩ _ planted readySeed (modeSeed.trans inMode) ⟨_, frames⟩ due) ?_
  rintro grown there ⟨readyThere, later, done⟩
  rw [errors] at later
  rw [wp_bind, wp_modify, wp_pure, wp_bind, wp_modify, wp_pure]
  exact ⟨there, readyThere, later, done, rfl⟩

end Growth

section Finish

variable {side : Contract (Moment CharT) (Context CharT) Exn} {NodeType : Type}

theorem build_node_same (nonTerminal : NonTerminal CharT NodeType) (rule : RuleId)
    (startPos : Nat) (inner : Option NodePtr) (context : Context CharT) :
    wp side (NonTerminal.buildNode nonTerminal rule startPos inner) (fun _ last =>
      last.mem = context.mem ∧ last.lrStack = context.lrStack ∧ last.errors = context.errors)
      context := by
  unfold NonTerminal.buildNode
  split
  · rw [wp_bind, wp_modifyGet, wp_bind, wp_modify, wp_bind, wp_modify, wp_pure]
    cases inner <;> exact ⟨rfl, rfl, rfl⟩
  · rw [wp_bind]
    cases inner <;> exact ⟨rfl, rfl, rfl⟩

theorem store_allowed {rule : RuleId} {pos : Nat} {entry : RuleState} {context : Context CharT}
    {post : Bool → Context CharT → Prop}
    (allowed : ∀ moment : Moment CharT, moment.event = .store rule pos → side.guarantee moment)
    (later : post (context.updateRuleState rule pos entry).1
      (context.updateRuleState rule pos entry).2) :
    wp side (NonTerminal.store rule pos entry) post context := by
  rw [NonTerminal.store, wp_bind, wp_modifyGet, wp_bind, announce, wp_announce]
  exact fun _ => ⟨allowed _ rfl, later⟩

theorem replay_same (rule : RuleId) (startPos : Nat) (row : RuleState) (context : Context CharT) :
    wp side (NonTerminal.replay rule startPos row) (fun _ last =>
      last.mem = context.mem ∧ active last = active context ∧ last.errors = context.errors)
      context := by
  have marked : (context.markHead rule startPos).mem = context.mem ∧
      (context.markHead rule startPos).errors = context.errors := by
    unfold Context.markHead
    split
    · split_ifs <;> exact ⟨rfl, rfl⟩
    · exact ⟨rfl, rfl⟩
  rw [NonTerminal.replay, wp_bind, wp_read]
  dsimp only [id]
  rw [wp_ite]
  refine ⟨fun _ => ?_, fun _ => ?_⟩
  · rw [wp_bind, wp_modify, wp_bind, wp_modify, wp_pure]
    exact ⟨marked.1, active_of_frames (mark_head_stable rule startPos context).frames, marked.2⟩
  · split
    · rw [wp_ite]
      exact ⟨fun _ => ⟨rfl, rfl, rfl⟩, fun _ => ⟨rfl, rfl, rfl⟩⟩
    · exact ⟨rfl, rfl, rfl⟩

end Finish

end Peglib.Walks
