import Peglib.FurthestFailure
import Peglib.LeftRecursion

/-!
# Error reports without a memo

The failures that the memo-free evaluation of a rule goes through, those inside
predicates and skipped by memo hits included, and what a parse has on record of
them in the end. A row is written once all failures under it are on record, and
an error record only ever loses items that are behind the furthest failure, so
a memo hit has nothing to add.
-/

namespace Peglib.MemoFreeReports

open Peglib.TracedComputation Peglib.WeakestPrecondition
open Peglib.ParseError Peglib.ParseError.Errors Peglib.ParseContext Peglib.Expressions Peglib.Rules
open Peglib.ControlDiscipline Peglib.PegSemantics Peglib.Evaluation Peglib.SuccessfulAnswers
open Peglib.Termination Peglib.GrowthSemantics Peglib.PlantedSeeds Peglib.Packrat Peglib.MemoAnswers Peglib.Walks
open Peglib.FurthestFailure (mem_insert)
open Peglib.LeftRecursion

set_option autoImplicit false

variable {CharT NodeType : Type}

section Records

/-- A failure on record, or behind one that is. -/
def Noted (errors : Errors) (pos : Nat) (item : ExpectedItem) : Prop :=
  errors.hasError = true ∧
    (pos < errors.furthestFailurePos ∨ pos = errors.furthestFailurePos ∧ item ∈ errors.expected)

/-- All that is on record has happened. -/
def Justified (missed : Nat → ExpectedItem → Prop) (errors : Errors) : Prop :=
  errors.hasError = true →
    errors.expected ≠ [] ∧ ∀ item ∈ errors.expected, missed errors.furthestFailurePos item

theorem noted_recorded (errors : Errors) (pos : Nat) (item : ExpectedItem) :
    Noted (errors.recordFailure pos item) pos item := by
  refine ⟨record_failure_has_error errors pos item, ?_⟩
  unfold recordFailure
  split_ifs with furthest tied
  · exact Or.inr ⟨rfl, List.mem_singleton.mpr rfl⟩
  · exact Or.inr ⟨tied, mem_insert.mpr (Or.inl rfl)⟩
  · rw [Bool.or_eq_true, decide_eq_true_eq, not_or] at furthest
    exact Or.inl (Nat.lt_of_le_of_ne (Nat.not_lt.mp furthest.2) tied)

theorem Noted.recorded {errors : Errors} {pos : Nat} {item : ExpectedItem} (noted : Noted errors pos item)
    (pos' : Nat) (item' : ExpectedItem) : Noted (errors.recordFailure pos' item') pos item := by
  refine ⟨record_failure_has_error errors pos' item', ?_⟩
  obtain ⟨recorded, place⟩ := noted
  unfold recordFailure
  split_ifs with furthest tied
  · rw [recorded, Bool.not_true, Bool.false_or, decide_eq_true_eq] at furthest
    rcases place with behind | ⟨rfl, -⟩
    · exact Or.inl (behind.trans furthest)
    · exact Or.inl furthest
  · rcases place with behind | ⟨here, member⟩
    · exact Or.inl behind
    · exact Or.inr ⟨here, mem_insert.mpr (Or.inr member)⟩
  · exact place

theorem Justified.recorded {missed : Nat → ExpectedItem → Prop} {errors : Errors}
    (justified : Justified missed errors) {pos : Nat} {item : ExpectedItem}
    (happened : missed pos item) : Justified missed (errors.recordFailure pos item) := by
  unfold recordFailure
  split_ifs with furthest tied
  · intro _
    refine ⟨List.cons_ne_nil _ _, fun other member => ?_⟩
    obtain rfl := List.mem_singleton.mp member
    exact happened
  · intro recorded
    refine ⟨insert_ne_nil item _, fun other member => ?_⟩
    rcases mem_insert.mp member with rfl | before
    · exact tied ▸ happened
    · exact (justified recorded).2 other before
  · exact justified

/-- The record of the furthest among all failures, with the items of all failures
at its position. -/
structure FurthestOf (missed : Nat → ExpectedItem → Prop) (errors : Errors) : Prop where
  present : errors.hasError = true ↔ ∃ pos item, missed pos item
  reached : errors.hasError = true → ∃ item, missed errors.furthestFailurePos item
  furthest : errors.hasError = true → ∀ pos item, missed pos item → pos ≤ errors.furthestFailurePos
  expected : errors.hasError = true →
    ∀ item, item ∈ errors.expected ↔ missed errors.furthestFailurePos item

theorem record_exact {missed : Nat → ExpectedItem → Prop} {errors : Errors}
    (justified : Justified missed errors)
    (complete : ∀ pos item, missed pos item → Noted errors pos item) : FurthestOf missed errors := by
  have inhabited : errors.hasError = true → ∃ item, missed errors.furthestFailurePos item := by
    intro recorded
    obtain ⟨some', happened⟩ := justified recorded
    obtain ⟨item, member⟩ := List.exists_mem_of_ne_nil _ some'
    exact ⟨item, happened item member⟩
  refine ⟨⟨fun recorded => ⟨_, inhabited recorded⟩, ?_⟩, inhabited, ?_, ?_⟩
  · rintro ⟨pos, item, happened⟩
    exact (complete pos item happened).1
  · intro recorded pos item happened
    rcases (complete pos item happened).2 with behind | ⟨here, -⟩
    · exact Nat.le_of_lt behind
    · exact Nat.le_of_eq here
  · intro recorded item
    refine ⟨(justified recorded).2 item, fun happened => ?_⟩
    rcases (complete _ item happened).2 with behind | ⟨-, member⟩
    · exact absurd behind (Nat.lt_irrefl _)
    · exact member

end Records

/-- The item that a failed application of a rule is recorded under. -/
def ruleItem (nonTerminal : NonTerminal CharT NodeType) : Option ExpectedItem :=
  if nonTerminal.label ≠ [] then some ⟨.ruleLabel, nonTerminal.label⟩
  else if nonTerminal.name ≠ [] then some ⟨.ruleName, nonTerminal.name⟩
  else none

theorem record_rule_failure_eq (nonTerminal : NonTerminal CharT NodeType) (startPos : Nat)
    (context : Context CharT) :
    NonTerminal.recordRuleFailure nonTerminal startPos context =
      match ruleItem nonTerminal with
      | some item => context.recordFailure startPos item
      | none => context := by
  unfold NonTerminal.recordRuleFailure ruleItem
  split_ifs <;> rfl

section Evaluations

variable [PegValue CharT] (grammar : Grammar CharT NodeType) (input : List CharT)

def Plain (mode : Option RuleId) (task : Pending CharT) (pos : Nat) (outcome : Option Nat) : Prop :=
  Peg input (reading input) (PegAnswer grammar input (reading input)) () mode task pos outcome

/-- The failures at terminals, tokens, terminal sequences and named rules that the
memo-free evaluation of a task goes through. -/
inductive Misses : Option RuleId → Pending CharT → Nat → Nat → ExpectedItem → Prop
  | leaf {mode expr pos item} : leafItem expr = some item → Plain grammar input mode (.expr expr) pos none →
      Misses mode (.expr expr) pos pos item
  | part {mode task pos mode' task' pos' place item} :
      Step (Plain grammar input) mode task pos mode' task' pos' → Misses mode' task' pos' place item →
      Misses mode task pos place item
  | body {mode id body pos place item} : grammar.body id = some body →
      Misses mode (.expr body) pos place item → Misses mode (.expr (.rule id)) pos place item
  | named {mode id pos item} : ruleItem (grammar.nonTerminal id) = some item →
      PegAnswer grammar input (reading input) () mode id pos none →
      Misses mode (.expr (.rule id)) pos pos item

variable {grammar input}

theorem plain_functional : Functional (Plain grammar input) := fun _ _ _ _ _ left right =>
  peg_unique id (reading_functional input)
    (fun _ _ _ _ _ _ found other => peg_answer_unique (reading_functional input) found other) left right

theorem leaf_missed {mode : Option RuleId} {expr : Expr CharT} {pos place : Nat} {item : ExpectedItem}
    (leaf : Leaf (.expr expr)) (plain : ∀ id, expr ≠ .rule id)
    (misses : Misses grammar input mode (.expr expr) pos place item) :
    place = pos ∧ leafItem expr = some item ∧ Plain grammar input mode (.expr expr) pos none := by
  cases misses with
  | leaf noted failed => exact ⟨rfl, noted, failed⟩
  | part step _ => cases step <;> exact leaf.elim
  | body _ _ | named _ _ => exact absurd rfl (plain _)

/-- The failures of a task that is no leaf are those of its parts. -/
theorem composed_missed {mode : Option RuleId} {task : Pending CharT} {pos place : Nat}
    {item : ExpectedItem} (composed : ¬Leaf task) (misses : Misses grammar input mode task pos place item) :
    ∃ mode' task' pos', Step (Plain grammar input) mode task pos mode' task' pos' ∧
      Misses grammar input mode' task' pos' place item := by
  cases misses with
  | leaf noted _ =>
      refine absurd ?_ composed
      unfold leafItem at noted
      split at noted <;> first | exact trivial | cases noted
  | part step rest => exact ⟨_, _, _, step, rest⟩
  | body _ _ | named _ _ => exact absurd trivial composed

/-- The failures of a rule application are those of its body and its own. -/
theorem rule_missed {mode : Option RuleId} {id : RuleId} {body : Expr CharT} {pos place : Nat}
    {item : ExpectedItem} (assigned : grammar.body id = some body)
    (misses : Misses grammar input mode (.expr (.rule id)) pos place item) :
    Misses grammar input mode (.expr body) pos place item ∨
      place = pos ∧ ruleItem (grammar.nonTerminal id) = some item ∧
        PegAnswer grammar input (reading input) () mode id pos none := by
  cases misses with
  | leaf noted _ => cases noted
  | part step _ => cases step
  | body assigned' rest =>
      obtain rfl := Option.some.inj (assigned.symm.trans assigned')
      exact Or.inl rest
  | named noted failed => exact Or.inr ⟨rfl, noted, failed⟩

end Evaluations

section Surveys

variable [PegValue CharT] (grammar : Grammar CharT NodeType) (input : List CharT)
  (missed : Nat → ExpectedItem → Prop)

/-- What is on record of the failures of a task. -/
def OnRecord (mode : Option RuleId) (task : Pending CharT) (pos : Nat) (errors : Errors) : Prop :=
  ∀ place item, Misses grammar input mode task pos place item → Noted errors place item

/-- The failures of one parse, followed along it: those under the rows of rules
that are not in progress are on record. -/
def failures (keys : List (RuleId × Nat)) : Survey CharT where
  due mode task pos := mode = none ∧
    ∀ place item, Misses grammar input mode task pos place item → missed place item
  ready context := active context = keys ∧
    ∀ pos rule row, context.mem pos rule = some row → (rule, pos) ∉ keys →
      OnRecord grammar input none (.expr (.rule rule)) pos context.errors
  later before after := (∀ pos item, Noted before pos item → Noted after pos item) ∧
    (Justified missed before → Justified missed after)
  done := OnRecord grammar input

variable {grammar input missed}

theorem failures_lawful (keys : List (RuleId × Nat)) :
    Lawful (Plain grammar input) (failures grammar input missed keys) where
  handed mode task pos mode' task' pos' due step := by
    refine ⟨?_, fun place item misses => due.2 place item (.part step misses)⟩
    have off := due.1
    cases step with
    | seqSkip | loopSkip => rw [off, ite_self]
    | lexeme => rfl
    | skip => rfl
    | _ => exact off
  refl _ := ⟨fun _ _ => id, id⟩
  trans _ _ _ left right := ⟨fun pos item noted => right.1 pos item (left.1 pos item noted),
    fun justified => right.2 (left.2 justified)⟩
  lasts _ _ _ _ _ done later place item misses := later.1 place item (done place item misses)
  moved before after ready rows same later := by
    refine ⟨same.trans ready.1, fun pos rule row held outside place item misses => ?_⟩
    have inactive : (rule, pos) ∉ active after := by rwa [same, ready.1]
    have before' := rows pos rule row held inactive
    exact later.1 place item (ready.2 pos rule row before' outside place item misses)
  missed mode expr pos item errors due failed noted := by
    refine ⟨⟨fun _ _ found => found.recorded pos item, fun justified => justified.recorded ?_⟩, ?_⟩
    · exact due.2 pos item (.leaf noted failed)
    · intro place item' misses
      have leaf : Leaf (.expr expr) ∧ ∀ id, expr ≠ .rule id := by
        unfold leafItem at noted
        split at noted <;> first | exact ⟨trivial, nofun⟩ | cases noted
      obtain ⟨rfl, noted', -⟩ := leaf_missed leaf.1 leaf.2 misses
      obtain rfl := Option.some.inj (noted.symm.trans noted')
      exact noted_recorded errors _ _
  passed mode expr pos outcome errors leaf plain answer silent place item misses := by
    obtain ⟨rfl, noted, failed⟩ := leaf_missed leaf plain misses
    rw [silent (plain_functional _ _ _ _ _ answer failed)] at noted
    cases noted
  composed mode task pos errors composed parts place item misses := by
    obtain ⟨mode', task', pos', step, rest⟩ := composed_missed composed misses
    exact parts plain_functional mode' task' pos' step place item rest

end Surveys

section Applications

variable [PegValue CharT] {grammar : Grammar CharT NodeType} {input : List CharT}
  {missed : Nat → ExpectedItem → Prop}

/-- Runs without a skipper in which no rule comes upon itself. -/
abbrev calm : Contract (Moment CharT) (Context CharT) Exn := orderly (fun _ _ => none) false

abbrev Settled (grammar : Grammar CharT NodeType) (input : List CharT) (held : List Seed)
    (context : Context CharT) : Prop :=
  Upright grammar input none (reading input) (fun _ _ => none) false held context

theorem pure_admits (pure : Pure grammar) {rule : RuleId} {body : Expr CharT}
    (assigned : grammar.body rule = some body) (held : List Seed) :
    body.Every (Admits (fun id => (grammar.body id).isSome = true) (reading input)
      (Settled grammar input held)) := by
  have uncut := pure.cutFree.bodies rule body assigned
  have known := @matcher_faithful _ input body (pure.matchers rule body assigned)
  refine (Expr.Every.and uncut known).mono fun part holds => ?_
  cases part with
  | cut => exact holds.1.elim
  | rule id => exact holds.1
  | matcher fn => exact fun context upright => holds.2 context upright.source
  | _ => trivial

theorem rule_plain (pure : Pure grammar) (fuel : Nat) (rule : RuleId)
    (assigned : (grammar.body rule).isSome = true) (held : List Seed) :
    Evaluates calm (Settled grammar input held) (grammar.apply fuel rule) fun mode pos outcome =>
      PegAnswer grammar input (reading input) () mode rule pos outcome := by
  intro context upright
  refine wp_post (pure_consults pure (Or.inl rfl) fuel rule assigned held context upright) ?_
  rintro result last ⟨kept, framed, answers⟩
  exact ⟨kept, framed, answers.mono fun _ => peg_of_answer (reading_forward input)⟩

theorem settled_off {held : List Seed} {context : Context CharT}
    (settled : Settled grammar input held context) (rule : RuleId)
    (set : context.skipper = some rule) : (grammar.body rule).isSome = true := by
  rw [settled.skipper] at set
  cases set

theorem expr_plain (pure : Pure grammar) (fuel : Nat) {rule : RuleId} {body : Expr CharT}
    (assigned : grammar.body rule = some body) (held : List Seed) :
    Evaluates calm (Settled grammar input held) (body.parse (grammar.apply fuel) fuel)
      fun mode pos outcome => Plain grammar input mode (.expr body) pos outcome :=
  expr_evaluates (planted_invariant held) (fun id present => rule_plain pure fuel id present held)
    (fun _ settled id => settled_off settled id) fuel (pure_admits pure assigned held)

omit [PegValue CharT] in
theorem calm_stores {rule : RuleId} {pos : Nat} (moment : Moment CharT)
    (stores : moment.event = .store rule pos) : (@calm CharT).guarantee moment := by
  obtain ⟨event, context⟩ := moment
  obtain rfl : event = .store rule pos := stores
  exact trivial

/-- The state of a growth: some seed is planted. -/
def Planted (grammar : Grammar CharT NodeType) (input : List CharT) (held : List Seed)
    (rule : RuleId) (pos : Nat) (context : Context CharT) : Prop :=
  ∃ outcome, Settled grammar input (⟨rule, pos, outcome⟩ :: held) context

theorem planted_stored {held : List Seed} {rule : RuleId} {pos : Nat} {context : Context CharT}
    {result : ParseResult} (planted : Planted grammar input held rule pos context)
    (success : result.success = true) :
    Planted grammar input held rule pos
      ((NonTerminal.setFrameLastPos context.position context).updateRuleState rule pos
        ⟨context.position, result⟩).2 := by
  obtain ⟨outcome, settled⟩ := planted
  exact ⟨_, ((settled.marked context.position).reseeded (shows_success success)).2⟩

theorem finish_reports {rule : RuleId} {body : Expr CharT} (assigned : grammar.body rule = some body)
    (plain : (grammar.nonTerminal rule).recover.isSyncToken = none) {grown : ParseResult × RuleState}
    {keys : List (RuleId × Nat)} {startPos : Nat} {final : Option Nat} {context : Context CharT}
    (frames : active context = keys)
    (rows : ∀ pos rule' row, context.mem pos rule' = some row → (rule', pos) ∉ (rule, startPos) :: keys →
      OnRecord grammar input none (.expr (.rule rule')) pos context.errors)
    (done : OnRecord grammar input none (.expr body) startPos context.errors)
    (due : ∀ place item, Misses grammar input none (.expr (.rule rule)) startPos place item →
      missed place item)
    (shown : Shows ⟨grown.2.lastPos, grown.1⟩ startPos final)
    (answer : PegAnswer grammar input (reading input) () none rule startPos final) :
    wp calm
      (if grown.1.success then
        NonTerminal.finishSuccess (grammar.nonTerminal rule) rule startPos grown.1 grown.2
      else NonTerminal.finishFailure (grammar.nonTerminal rule) rule startPos grown.2)
      (fun _ last => (failures grammar input missed keys).ready last ∧
        (failures grammar input missed keys).later context.errors last.errors ∧
        OnRecord grammar input none (.expr (.rule rule)) startPos last.errors) context := by
  have stored : ∀ (entry : RuleState) (result : ParseResult) (here : Context CharT),
      active here = active context → here.mem = context.mem →
      (failures grammar input missed keys).later context.errors here.errors →
      OnRecord grammar input none (.expr (.rule rule)) startPos here.errors →
      wp calm (NonTerminal.store rule startPos entry >>= fun _ =>
          (Pure.pure result : Parser CharT ParseResult))
        (fun _ last => (failures grammar input missed keys).ready last ∧
          (failures grammar input missed keys).later context.errors last.errors ∧
          OnRecord grammar input none (.expr (.rule rule)) startPos last.errors) here := by
    intro entry result here same mem later own
    obtain ⟨framesLast, errorsLast, -, rowsLast⟩ := update_row_same here rule startPos entry
    rw [wp_bind]
    refine store_allowed calm_stores ?_
    rw [wp_pure, errorsLast]
    refine ⟨⟨framesLast.trans (same.trans frames), fun pos rule' row held outside => ?_⟩, later, own⟩
    rw [errorsLast]
    by_cases here' : pos = startPos ∧ rule' = rule
    · rw [here'.1, here'.2]
      exact own
    · have before := rowsLast pos rule' row held here'
      rw [mem] at before
      refine (failures_lawful keys).lasts none _ _ _ _ (rows pos rule' row before ?_) later
      rw [List.mem_cons, not_or, Prod.mk.injEq]
      exact ⟨fun same' => here' ⟨same'.2, same'.1⟩, outside⟩
  rw [wp_ite]
  constructor
  · intro success
    rw [NonTerminal.finishSuccess, wp_bind]
    refine wp_post (build_node_same (grammar.nonTerminal rule) rule startPos grown.1.tree context) ?_
    rintro node built ⟨mem, lrStack, errors⟩
    refine stored _ _ built (by rw [active, lrStack, active]) mem ?_ ?_
    · rw [errors]
      exact (failures_lawful keys).refl _
    · rw [errors]
      intro place item misses
      rcases rule_missed assigned misses with inner | ⟨-, -, failed⟩
      · exact done place item inner
      · obtain rfl := peg_answer_unique (reading_functional input) answer failed
        rw [shown.1] at success
        cases success
  · intro failure
    obtain rfl : final = none := by
      have same := shown.1
      cases final with
      | none => rfl
      | some stop => exact absurd same failure
    have recorded := record_rule_failure_eq (grammar.nonTerminal rule) startPos context
    rw [NonTerminal.finishFailure, wp_bind, wp_modify, recorded, wp_bind, wp_read, plain]
    dsimp only [id]
    cases noted : ruleItem (grammar.nonTerminal rule) with
    | none =>
        refine stored _ _ context rfl rfl ((failures_lawful keys).refl _) fun place item misses => ?_
        rcases rule_missed assigned misses with inner | ⟨-, named, -⟩
        · exact done place item inner
        · rw [noted] at named
          cases named
    | some item =>
        refine stored _ _ _ rfl rfl ⟨fun _ _ found => found.recorded startPos item,
          fun justified => justified.recorded (due _ _ (.named noted answer))⟩ fun place item' misses => ?_
        rcases rule_missed assigned misses with inner | ⟨rfl, named, -⟩
        · exact (done place item' inner).recorded startPos item
        · rw [noted] at named
          obtain rfl := Option.some.inj named
          exact noted_recorded context.errors _ _

/-- Once a rule has been applied, all failures of its memo-free evaluation are on
record, and what is on record has happened. -/
theorem apply_reports (pure : Pure grammar) (fuel : Nat) (held : List Seed) (rule : RuleId)
    (assigned : (grammar.body rule).isSome = true) :
    Traverses calm (Settled grammar input held)
      (failures grammar input missed (held.map Seed.key)) (grammar.apply fuel rule)
      (.expr (.rule rule)) := by
  induction fuel generalizing held rule with
  | zero => exact fun _ _ _ _ => trivial
  | succ fuel induction =>
      intro context settled ready due
      obtain ⟨body, given⟩ := Option.isSome_iff_exists.mp assigned
      rw [Grammar.apply, given, Option.map_some, NonTerminal.parse, wp_bind, announce, wp_announce]
      rintro ⟨inMode, direct⟩
      dsimp only at inMode direct
      refine ⟨fun inProgress => settled.present inProgress, ?_⟩
      rw [inMode] at due ⊢
      rw [wp_bind, wp_read, wp_bind, wp_modifyGet, wp_ite]
      unfold Context.ruleState
      cases held' : context.mem context.position rule with
      | some row =>
          refine ⟨fun present => absurd present Bool.false_ne_true, fun _ => wp_post (replay_same rule context.position row context) ?_⟩
          rintro result last ⟨mem, frames, errors⟩
          have outside : (rule, context.position) ∉ held.map Seed.key := by
            intro member
            cases (direct (settled.in_progress.mpr member)).1
          refine ⟨⟨frames.trans ready.1, ?_⟩, ?_, ?_⟩
          · rw [mem, errors]
            exact ready.2
          · rw [errors]
            exact (failures_lawful _).refl _
          · rw [errors]
            exact ready.2 _ _ row held' outside
      | none =>
          refine ⟨fun _ => ?_, fun absent => absurd rfl absent⟩
          have dueBody : (failures grammar input missed
              ((rule, context.position) :: held.map Seed.key)).due none (.expr body)
                context.position :=
            ⟨rfl, fun place item misses => due.2 place item (.body given misses)⟩
          have evaluates : Evaluates calm (Planted grammar input held rule context.position)
              (body.parse (grammar.apply fuel) fuel)
              fun mode pos outcome => Plain grammar input mode (.expr body) pos outcome := by
            rintro here ⟨outcome, planted⟩
            refine wp_post (expr_plain pure fuel given (⟨rule, context.position, outcome⟩ :: held) here
              planted) ?_
            exact fun result last met => ⟨⟨outcome, met.1⟩, met.2⟩
          have walks : Traverses calm (Planted grammar input held rule context.position)
              (failures grammar input missed ((rule, context.position) :: held.map Seed.key))
              (body.parse (grammar.apply fuel) fuel) (.expr body) := by
            rintro here ⟨outcome, planted⟩
            have same : (@calm CharT).assume = (@calm CharT).assume := rfl
            exact expr_traverses same (planted_invariant _) (failures_lawful _) (planted_invariant _)
              (fun id present => rule_plain pure fuel id present _)
              (fun _ settled id => settled_off settled id)
              (fun id present => induction (⟨rule, context.position, outcome⟩ :: held) id present) fuel
              (pure_admits pure given _) here planted
          have stable := expr_stable (apply_stable grammar fuel) fuel body
          have grows : ∀ outcome, Evaluates calm
              (Settled grammar input (⟨rule, context.position, outcome⟩ :: held))
              (body.parse (grammar.apply fuel) fuel) fun mode pos result =>
                Peg input (reading input) (Answer grammar input (reading input) false)
                  (some ⟨rule, context.position, outcome⟩) mode (.expr body) pos result :=
            fun outcome => expr_evaluates (planted_invariant _)
              (fun id present => pure_consults pure (Or.inl rfl) fuel id present _)
              (fun _ settled id => settled_off settled id) fuel (pure_admits pure given _)
          rw [wp_bind]
          refine wp_post (wp_with rfl (invoke_grows grows stable fuel settled held'
            fun final grown row shown => ⟨final, shown, grown_answered (fun _ _ => none) given inMode grown⟩)
            (invoke_traverses rfl (failures_lawful _) evaluates walks stable ?_ ?_ ?_
              calm_stores fuel { context with mem := context.mem.write context.position rule {} } inMode
              ⟨none, settled.entered held'⟩ ?_ dueBody)) ?_
          · rintro here ⟨outcome, planted⟩
            exact ⟨outcome, planted.reset _⟩
          · rintro here ⟨outcome, planted⟩
            exact ⟨outcome, planted.siblings_cleared _ _⟩
          · exact fun here result planted success _ => planted_stored planted success
          · refine ⟨congrArg (List.cons _) ready.1, fun pos rule' row found outside => ?_⟩
            rcases Memo.write_eq_some found with ⟨rfl, rfl, -⟩ | ⟨-, before⟩
            · exact absurd List.mem_cons_self outside
            · exact ready.2 pos rule' row before fun inner => outside (List.mem_cons_of_mem _ inner)
          rintro grown last ⟨⟨final, kept, -, -, shown, climbed⟩, there, readyThere, later, done, rfl⟩
          have answer := grown_answered (fun _ _ => none) given inMode climbed
          obtain ⟨-, -, mem, -, -⟩ :=
            leave_kept context.position (there.reset (NonTerminal.frame there).lastPos)
          have errors : (NonTerminal.leave context.position
              (there.reset (NonTerminal.frame there).lastPos)).errors = there.errors := by
            unfold NonTerminal.leave
            split_ifs <;> rfl
          refine wp_post (finish_reports given (pure.cutFree.recovers rule) kept.active
            (fun pos rule' row found outside => ?_) ?_ due.2 shown
            (peg_of_answer (reading_forward input) answer)) ?_
          · rw [mem] at found
            rw [errors]
            exact readyThere.2 pos rule' row found outside
          · rw [errors]
            exact done
          · rintro result last ⟨readyLast, laterLast, doneLast⟩
            rw [errors] at laterLast
            exact ⟨readyLast, (failures_lawful _).trans _ _ _ later laterLast, doneLast⟩

theorem parse_without_skipper (off : grammar.skipper = none) {name : Str} {rule : RuleId}
    (found : grammar.find name = some rule) (fuel : Nat) :
    (grammar.parse fuel name (Context.fresh input)).trace =
        (grammar.apply fuel rule (Context.fresh input)).trace ∧
      ∀ result, (grammar.apply fuel rule (Context.fresh input)).outcome = .returned result →
        (grammar.parse fuel name (Context.fresh input)).outcome = .returned result.success ∧
        (grammar.parse fuel name (Context.fresh input)).state =
          (grammar.apply fuel rule (Context.fresh input)).state := by
  have skipped : grammar.leadingSkip fuel (Context.fresh input) =
      ⟨.returned (), Context.fresh input, []⟩ := by
    unfold Grammar.leadingSkip
    rw [off]
    rfl
  unfold Grammar.parse
  rw [found]
  dsimp only
  rw [Comp.bind_returned skipped]
  unfold Comp.catching
  rcases run : grammar.apply fuel rule (Context.fresh input) with ⟨outcome, last, log⟩
  cases outcome with
  | returned result =>
      rw [Comp.bind_returned run]
      refine ⟨List.append_nil log, fun found' same => ?_⟩
      obtain rfl := Outcome.returned.inj same
      exact ⟨rfl, rfl⟩
  | thrown exn =>
      rw [Comp.bind_thrown run]
      refine ⟨?_, fun _ ended => by cases ended⟩
      cases exn <;> rfl
  | exhausted =>
      rw [Comp.bind_exhausted run]
      exact ⟨rfl, fun _ ended => by cases ended⟩

/-- A parse in which no rule is entered while it is active at the position ends, and has on record
exactly the furthest failures of the memo-free evaluation. -/
theorem reports_as_without_memo (pure : Pure grammar) (off : grammar.skipper = none) {name : Str}
    {rule : RuleId} (found : grammar.find name = some rule)
    (assigned : (grammar.body rule).isSome = true)
    (free : ∀ fuel, ∀ moment ∈ (grammar.parse fuel name (Context.fresh input)).trace,
      NotReentered moment) :
    ∃ enough, ∀ fuel, enough ≤ fuel →
      (grammar.parse fuel name (Context.fresh input)).outcome.value?.isSome = true ∧
      FurthestOf (Misses grammar input none (.expr (.rule rule)) 0)
        (grammar.parse fuel name (Context.fresh input)).state.errors := by
  have calmly : ∀ fuel, ∀ moment ∈ (grammar.apply fuel rule (Context.fresh input)).trace,
      Orderly false (fun _ _ => none) moment := by
    intro fuel moment member
    refine not_reentered_orderly (free fuel moment ?_)
      (off_in_mode pure.in_range .fresh rfl fuel rule moment member)
    rw [(parse_without_skipper off found fuel).1]
    exact member
  obtain ⟨result, last, log, ⟨enough, delivered⟩, -, -⟩ :=
    application_delivers pure (fun _ => id) .fresh (Nat.zero_le _) assigned calmly
  refine ⟨enough, fun fuel larger => ?_⟩
  have run := delivered fuel larger
  obtain ⟨returned, state⟩ := (parse_without_skipper off found fuel).2 result (by rw [run])
  have reports := wp_returned (@apply_reports _ _ _ grammar input
    (Misses grammar input none (.expr (.rule rule)) 0) pure fuel [] rule assigned (Context.fresh input) fresh_upright
      ⟨rfl, fun _ _ _ held _ => nomatch held⟩ ⟨rfl, fun _ _ => id⟩) (calmly fuel) (by rw [run])
  obtain ⟨-, later, done⟩ := reports
  rw [state, returned]
  exact ⟨rfl, record_exact (later.2 nofun) done⟩

end Applications

/-- `S = T >> 'x' | T >> 'y'`, `T = 'b'`; the second branch finds the row of `T`. -/
def twoBranches : Grammar UInt8 Unit where
  rules := [
    (ascii "S", { name := ascii "S", body := some (.alternation [
      .sequence [.rule 1, .terminal (.value 120)], .sequence [.rule 1, .terminal (.value 121)]]) }),
    (ascii "T", { name := ascii "T", body := some (.terminal (.value 98)) })]

theorem two_branches_pure : Pure twoBranches where
  cutFree :=
    { bodies := fun rule body assigned => by
        match rule with
        | 0 =>
            obtain rfl := Option.some.inj assigned
            simp only [Expr.Every, Expr.EveryAll, Uncut, true_and, and_true]
            exact ⟨rfl, rfl⟩
        | 1 =>
            obtain rfl := Option.some.inj assigned
            exact trivial
        | _ + 2 => cases assigned
      recovers := fun rule => match rule with
        | 0 | 1 | _ + 2 => rfl
      skipper := nofun }
  matchers rule body assigned := by
    match rule with
    | 0 =>
        obtain rfl := Option.some.inj assigned
        simp only [Expr.Every, Expr.EveryAll, MatcherPure, and_true]
    | 1 =>
        obtain rfl := Option.some.inj assigned
        exact trivial
    | _ + 2 => cases assigned

theorem two_branches_free : LeftRecursionFree twoBranches := by
  refine @free_of_rank _ _ twoBranches (fun rule => 1 - rule) fun rule body assigned => ?_
  match rule with
  | 0 =>
      obtain rfl := Option.some.inj assigned
      simp [Expr.Every, Expr.EveryAll, Falls]
  | 1 =>
      obtain rfl := Option.some.inj assigned
      exact trivial
  | _ + 2 => cases assigned

theorem two_branches_report :
    ∃ enough, ∀ fuel, enough ≤ fuel →
      (twoBranches.parse fuel (ascii "S") (Context.fresh (ascii "bz"))).outcome.value?.isSome = true ∧
      FurthestOf (Misses twoBranches (ascii "bz") none (.expr (.rule 0)) 0)
        (twoBranches.parse fuel (ascii "S") (Context.fresh (ascii "bz"))).state.errors := by
  have found : twoBranches.find (ascii "S") = some 0 := by decide
  refine reports_as_without_memo two_branches_pure rfl found rfl fun fuel moment member => ?_
  rw [(parse_without_skipper rfl found fuel).1] at member
  exact never_reentered two_branches_free two_branches_pure.in_range .fresh rfl rfl (Nat.zero_le _) fuel 0
    moment member

/-- Both branches are on record, at position 1. -/
example : (twoBranches.parse 8 (ascii "S") (Context.fresh (ascii "bz"))).state.errors.expected =
    [⟨.literal, ascii "'x'"⟩, ⟨.literal, ascii "'y'"⟩] := by
  decide +kernel

end Peglib.MemoFreeReports
