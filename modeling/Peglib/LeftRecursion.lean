import Mathlib.Logic.Relation
import Peglib.MemoAnswers
import Peglib.Walks

/-!
# Grammars without left recursion

Which expressions may succeed without consuming anything, and which rules an
expression may apply before it has consumed anything, read off the grammar. In
a grammar where no rule comes back to itself in this way, and without a skipper,
no parse ever applies a rule that is in progress at the position.
-/

namespace Peglib.LeftRecursion

open Peglib.TracedComputation Peglib.WeakestPrecondition
open Peglib.ParseError Peglib.ParseContext Peglib.Expressions Peglib.Rules
open Peglib.ControlDiscipline Peglib.PegSemantics Peglib.Evaluation Peglib.SuccessfulAnswers
open Peglib.Termination Peglib.PlantedSeeds Peglib.Packrat Peglib.MemoAnswers Peglib.Walks

set_option autoImplicit false

variable {CharT NodeType : Type}

section Analysis

/-- A matcher that succeeds somewhere without consuming anything. -/
def MatchesEmpty (fn : Context CharT → Span → Option Span) : Prop :=
  ∃ (context : Context CharT) (consumed : Span), context.position ≤ context.inputSize ∧
    fn context ⟨context.position, context.position⟩ = some consumed ∧
    consumed.stop = context.position

variable (grammar : Grammar CharT NodeType)

/-- An expression that may succeed where it starts. -/
inductive Nullable : Expr CharT → Prop
  | terminalSeq : Nullable (.terminalSeq [])
  | matcher {fn} : MatchesEmpty fn → Nullable (.matcher fn)
  | empty : Nullable .empty
  | cut : Nullable .cut
  | sequence {children} : (∀ child ∈ children, Nullable child) → Nullable (.sequence children)
  | alternation {children child} : child ∈ children → Nullable child →
      Nullable (.alternation children)
  | skipped {kind child} : kind.minRep = 0 → Nullable (.repetition kind child)
  | repetition {kind child} : Nullable child → Nullable (.repetition kind child)
  | not {child} : Nullable (.not child)
  | and {child} : Nullable (.and child)
  | lexeme {child} : Nullable child → Nullable (.lexeme child)
  | rule {id body} : grammar.body id = some body → Nullable body → Nullable (.rule id)
  | recovered {id isSyncToken} : (grammar.nonTerminal id).recover.isSyncToken = some isSyncToken →
      Nullable (.rule id)

/-- The rules that an expression may apply where it starts. -/
inductive LeftCalls : Expr CharT → RuleId → Prop
  | rule {id} : LeftCalls (.rule id) id
  | sequence {before child after id} : (∀ part ∈ before, Nullable grammar part) →
      LeftCalls child id → LeftCalls (.sequence (before ++ child :: after)) id
  | alternation {children child id} : child ∈ children → LeftCalls child id →
      LeftCalls (.alternation children) id
  | repetition {kind child id} : LeftCalls child id → LeftCalls (.repetition kind child) id
  | not {child id} : LeftCalls child id → LeftCalls (.not child) id
  | and {child id} : LeftCalls child id → LeftCalls (.and child) id
  | lexeme {child id} : LeftCalls child id → LeftCalls (.lexeme child) id

def LeftStep (rule callee : RuleId) : Prop :=
  ∃ body, grammar.body rule = some body ∧ LeftCalls grammar body callee

/-- No rule may apply itself before it has consumed anything. -/
def LeftRecursionFree : Prop :=
  ∀ rule, ¬Relation.TransGen (LeftStep grammar) rule rule

variable {grammar}

theorem LeftCalls.part {holds : Expr CharT → Prop} {expr : Expr CharT} {id : RuleId}
    (calls : LeftCalls grammar expr id) (every : expr.Every holds) : holds (.rule id) := by
  induction calls with
  | rule => exact every.here
  | sequence _ _ induction =>
      unfold Expr.Every at every
      exact induction (Expr.every_all_iff.mp every.2 _ (by simp))
  | alternation member _ induction =>
      unfold Expr.Every at every
      exact induction (Expr.every_all_iff.mp every.2 _ member)
  | repetition _ induction | not _ induction | and _ induction | lexeme _ induction =>
      unfold Expr.Every at every
      exact induction every.2

/-- A reference to a rule of a smaller rank. -/
def Falls (rank : RuleId → Nat) (bound : Nat) : Expr CharT → Prop
  | .rule id => rank id < bound
  | _ => True

/-- A rank that falls along references rules out left recursion. -/
theorem free_of_rank {rank : RuleId → Nat}
    (falls : ∀ rule body, grammar.body rule = some body → body.Every (Falls rank (rank rule))) :
    LeftRecursionFree grammar := by
  have below : ∀ rule callee, LeftStep grammar rule callee → rank callee < rank rule := by
    rintro rule callee ⟨body, assigned, calls⟩
    exact calls.part (falls rule body assigned)
  have far : ∀ rule callee, Relation.TransGen (LeftStep grammar) rule callee →
      rank callee < rank rule := by
    intro rule callee steps
    induction steps with
    | single step => exact below _ _ step
    | tail _ step earlier => exact (below _ _ step).trans earlier
  exact fun rule steps => Nat.lt_irrefl _ (far rule rule steps)

variable (grammar)

/-- What is left to match may succeed where it starts. -/
def MayStay : Pending CharT → Prop
  | .expr expr => Nullable grammar expr
  | .seq _ children => ∀ child ∈ children, Nullable grammar child
  | .alt children => ∃ child ∈ children, Nullable grammar child
  | .loop kind child count => kind.minRep ≤ count ∨ Nullable grammar child
  | .skip => True

/-- The rules that what is left to match may apply where it starts. -/
def MayCall : Pending CharT → RuleId → Prop
  | .expr expr, id => LeftCalls grammar expr id
  | .seq _ children, id => ∃ before child after, children = before ++ child :: after ∧
      (∀ part ∈ before, Nullable grammar part) ∧ LeftCalls grammar child id
  | .alt children, id => ∃ child ∈ children, LeftCalls grammar child id
  | .loop _ child _, id => LeftCalls grammar child id
  | .skip, _ => False

end Analysis

section Widths

/-- What is known of a matcher in range: where it stops, and whether it may stay. -/
def paced (input : List CharT) (fn : Context CharT → Span → Option Span) (pos : Nat)
    (outcome : Option Nat) : Prop :=
  spanned input fn pos outcome ∧ (pos ≤ input.length → outcome = some pos → MatchesEmpty fn)

theorem paced_admits {input : List CharT} {expr : Expr CharT} (inRange : expr.Every MatcherInRange) :
    expr.Every (Admits (fun _ => True) (paced input) fun context => context.input = input) := by
  refine (Expr.Every.and (@in_range_admits _ input _ inRange) inRange).mono fun part known => ?_
  cases part with
  | matcher fn =>
      intro context source
      refine ⟨known.1 context source, fun inside ended => ?_⟩
      obtain ⟨consumed, found, stayed⟩ := Option.map_eq_some_iff.mp ended
      exact ⟨context, consumed, by rw [Context.inputSize, source]; exact inside, found, stayed⟩
  | _ => exact known.1

variable [PegValue CharT] (grammar : Grammar CharT NodeType) (input : List CharT)

/-- What successful answers have in common: they stay inside the input, and only
a nullable rule ends where it starts. -/
def Measured (rule : RuleId) (pos stop : Nat) : Prop :=
  InBounds input rule pos stop ∧ (stop = pos → Nullable grammar (.rule rule))

variable {grammar input}

theorem measured_bounds {mode : Option RuleId} {task : Pending CharT} {pos : Nat}
    {outcome : Option Nat}
    (peg : Peg input (paced input) (Held input (Measured grammar input)) () mode task pos outcome) :
    Peg input (spanned input) (Held input (InBounds input)) () mode task pos outcome :=
  peg_mono id (fun _ _ _ => And.left)
    (fun _ _ _ _ _ held stop ended bounded => (held stop ended bounded).1) peg

theorem measured_within {mode : Option RuleId} {task : Pending CharT} {pos stop : Nat}
    (peg : Peg input (paced input) (Held input (Measured grammar input)) () mode task pos
      (some stop)) : Within input pos stop :=
  spanned_within (measured_bounds peg)

/-- Only what may stay ends where it starts. -/
theorem stays {mode : Option RuleId} {task : Pending CharT} {pos : Nat} {outcome : Option Nat}
    (peg : Peg input (paced input) (Held input (Measured grammar input)) () mode task pos outcome)
    (bounded : pos ≤ input.length) (ended : outcome = some pos) : MayStay grammar task := by
  induction peg with
  | terminal | token =>
      have moved := (consume_bounds ended).1
      omega
  | @terminalSeq mode values pos =>
      have moved := (consume_all_bounds ended).1
      cases values with
      | nil => exact .terminalSeq
      | cons value rest =>
          rw [List.length_cons] at moved
          omega
  | matcher held => exact .matcher (held.2 bounded ended)
  | empty => exact .empty
  | cut => exact .cut
  | sequence _ induction => exact .sequence (induction bounded ended)
  | alternation _ induction =>
      obtain ⟨child, member, nullable⟩ := induction bounded ended
      exact .alternation member nullable
  | repetition _ induction =>
      rcases induction bounded ended with skipped | nullable
      · exact .skipped (Nat.le_zero.mp skipped)
      · exact .repetition nullable
  | not _ _ => exact .not
  | and _ _ => exact .and
  | lexeme _ induction => exact .lexeme (induction bounded ended)
  | rule held => exact (held _ ended bounded).2 rfl
  | seqNil => exact nofun
  | seqFail _ _ _ _ | altNil => cases ended
  | seqStep skip hit later _ here rest =>
      subst ended
      have skipped := measured_within skip bounded
      have found := measured_within hit skipped.2
      have last := measured_within later found.2
      obtain rfl := Nat.le_antisymm skipped.1 (found.1.trans last.1)
      obtain rfl := Nat.le_antisymm found.1 last.1
      exact List.forall_mem_cons.mpr ⟨here bounded rfl, rest bounded rfl⟩
  | altHit _ here => exact ⟨_, List.mem_cons_self, here bounded ended⟩
  | altMiss _ _ _ rest =>
      obtain ⟨child, member, nullable⟩ := rest bounded ended
      exact ⟨child, List.mem_cons_of_mem _ member, nullable⟩
  | loopFail _ _ _ _ =>
      unfold repeated at ended
      split_ifs at ended with less
      exact Or.inl (Nat.not_lt.mp less)
  | loopLast skip hit _ _ here =>
      unfold repeated at ended
      split_ifs at ended
      obtain rfl := Option.some.inj ended
      have skipped := measured_within skip bounded
      have found := measured_within hit skipped.2
      obtain rfl := Nat.le_antisymm skipped.1 found.1
      exact Or.inr (here bounded rfl)
  | loopMore skip hit _ later _ here _ =>
      subst ended
      have skipped := measured_within skip bounded
      have found := measured_within hit skipped.2
      have last := measured_within later found.2
      obtain rfl := Nat.le_antisymm skipped.1 (found.1.trans last.1)
      obtain rfl := Nat.le_antisymm found.1 last.1
      exact Or.inr (here bounded rfl)
  | skipOff | skipHit _ | skipMiss _ => exact trivial

theorem measured_reading (inRange : InRange grammar) {skipper : Option RuleId} :
    Reading grammar input skipper (paced input) (Measured grammar input) where
  forward _ _ _ measured := measured.1.1
  matchers rule body assigned := paced_admits (inRange rule body assigned)
  bodies _ _ _ _ _ assigned _ peg bounded := by
    refine ⟨measured_within peg bounded, ?_⟩
    rintro rfl
    exact .rule assigned (stays peg bounded rfl)
  recovers _ _ configured _ _ forward bounded := ⟨⟨forward, bounded⟩, fun _ => .recovered configured⟩

end Widths

section Positions

variable [PegValue CharT] (grammar : Grammar CharT NodeType) (input : List CharT)

/-- A rule in progress at the position leads to every rule that may be applied
here. -/
structure Bound (keys : List (RuleId × Nat)) (mode : Option RuleId) (task : Pending CharT)
    (pos : Nat) : Prop where
  off : mode = none
  inside : pos ≤ input.length
  behind : ∀ key ∈ keys, key.2 ≤ pos
  leads : ∀ key ∈ keys, key.2 = pos → ∀ id, MayCall grammar task id →
    Relation.TransGen (LeftStep grammar) key.1 id

def progress (keys : List (RuleId × Nat)) : Survey CharT where
  due := Bound grammar input keys
  ready context := active context = keys
  later _ _ := True
  done _ _ _ _ := True

variable {grammar input}

omit [PegValue CharT] in
theorem Bound.same {keys : List (RuleId × Nat)} {mode : Option RuleId} {task part : Pending CharT}
    {pos : Nat} (bound : Bound grammar input keys mode task pos)
    (calls : ∀ id, MayCall grammar part id → MayCall grammar task id) :
    Bound grammar input keys none part pos :=
  ⟨rfl, bound.inside, bound.behind,
    fun key member here id called => bound.leads key member here id (calls id called)⟩

omit [PegValue CharT] in
theorem Bound.further {keys : List (RuleId × Nat)} {mode : Option RuleId} {task part : Pending CharT}
    {pos next : Nat} (bound : Bound grammar input keys mode task pos) (ahead : pos < next)
    (inside : next ≤ input.length) : Bound grammar input keys none part next := by
  refine ⟨rfl, inside, fun key member => ?_, fun key member here => ?_⟩
  · exact (bound.behind key member).trans (Nat.le_of_lt ahead)
  · have behind := bound.behind key member
    omega

theorem skip_off_stays {call : Unit → Option RuleId → RuleId → Nat → Option Nat → Prop}
    {matched : (Context CharT → Span → Option Span) → Nat → Option Nat → Prop} {off : Prop}
    [Decidable off] {mode : Option RuleId} {pos next : Nat} (off' : mode = none)
    (skip : Peg input matched call () (if off then none else mode) .skip pos (some next)) :
    next = pos := by
  rw [off', ite_self] at skip
  cases skip
  rfl

theorem progress_handed {keys : List (RuleId × Nat)} {mode mode' : Option RuleId}
    {task task' : Pending CharT} {pos pos' : Nat} (bound : Bound grammar input keys mode task pos)
    (step : Step (Peg input (paced input) (Held input (Measured grammar input)) ()) mode task pos
      mode' task' pos') : Bound grammar input keys mode' task' pos' := by
  obtain rfl := bound.off
  cases step with
  | sequence =>
      refine bound.same fun id => ?_
      rintro ⟨before, child, after, rfl, nullable, calls⟩
      exact .sequence nullable calls
  | alternation =>
      refine bound.same fun id => ?_
      rintro ⟨child, member, calls⟩
      exact .alternation member calls
  | repetition => exact bound.same fun id => .repetition
  | not => exact bound.same fun id => .not
  | and => exact bound.same fun id => .and
  | lexeme => exact bound.same fun id => .lexeme
  | seqSkip =>
      rw [ite_self]
      exact bound.same fun id => False.elim
  | seqHere skip =>
      obtain rfl := skip_off_stays rfl skip
      exact bound.same fun id calls => ⟨[], _, _, rfl, nofun, calls⟩
  | seqLater skip hit =>
      obtain rfl := skip_off_stays rfl skip
      have moved := measured_within hit bound.inside
      rcases Nat.lt_or_eq_of_le moved.1 with ahead | rfl
      · exact bound.further ahead moved.2
      · refine bound.same fun id => ?_
        rintro ⟨before, child, after, rfl, nullable, calls⟩
        refine ⟨_ :: before, child, after, rfl, ?_, calls⟩
        exact List.forall_mem_cons.mpr ⟨stays hit bound.inside rfl, nullable⟩
  | altHere => exact bound.same fun id calls => ⟨_, List.mem_cons_self, calls⟩
  | altLater _ =>
      refine bound.same fun id => ?_
      rintro ⟨child, member, calls⟩
      exact ⟨child, List.mem_cons_of_mem _ member, calls⟩
  | loopSkip =>
      rw [ite_self]
      exact bound.same fun id => False.elim
  | loopHere skip =>
      obtain rfl := skip_off_stays rfl skip
      exact bound.same fun _ => id
  | loopLater skip hit more =>
      -- Only an iteration that moved is followed by another one.
      obtain rfl := skip_off_stays rfl skip
      have moved := measured_within hit bound.inside
      rw [Bool.or_eq_false_iff, decide_eq_false_iff_not] at more
      exact bound.further (Nat.lt_of_le_of_ne moved.1 (Ne.symm more.2)) moved.2

theorem progress_lawful (keys : List (RuleId × Nat)) :
    Lawful (Peg input (paced input) (Held input (Measured grammar input)) ())
      (progress grammar input keys) where
  handed _ _ _ _ _ _ due step := progress_handed due step
  refl _ := trivial
  trans _ _ _ _ _ := trivial
  lasts _ _ _ _ _ _ _ := trivial
  moved _ _ ready _ same _ := same.trans ready
  missed _ _ _ _ _ _ _ _ := ⟨trivial, trivial⟩
  passed _ _ _ _ _ _ _ _ _ := trivial
  composed _ _ _ _ _ _ := trivial

def entering : Contract (Moment CharT) (Context CharT) Exn :=
  ⟨fun _ => True, NotReentered, fun _ _ => True⟩

omit [PegValue CharT] in
theorem entering_stores {rule : RuleId} {pos : Nat} (moment : Moment CharT)
    (stores : moment.event = .store rule pos) : (@entering CharT).guarantee moment := by
  obtain ⟨event, context⟩ := moment
  obtain rfl : event = .store rule pos := stores
  exact trivial

omit [PegValue CharT] in
theorem entering_invariant {skipper : Option RuleId} {Good : RuleId → Nat → Nat → Prop} :
    Invariant entering input (Sound input skipper Good) where
  input _ sound := sound.source
  moved _ _ := sound_invariant.moved _ _
  opened _ := sound_invariant.opened _
  cleared _ := sound_invariant.cleared _
  closed _ := sound_invariant.closed _
  failure _ _ := trivial
  throws _ _ _ _ _ := trivial
  unwinds _ _ _ := trivial
  relabels _ _ _ _ := trivial

omit [PegValue CharT] in
theorem finish_active (nonTerminal : NonTerminal CharT NodeType) (rule : RuleId) (startPos : Nat)
    (grown : ParseResult × RuleState) (context : Context CharT) :
    wp entering
      (if grown.1.success then
        NonTerminal.finishSuccess nonTerminal rule startPos grown.1 grown.2
      else NonTerminal.finishFailure nonTerminal rule startPos grown.2)
      (fun _ last => active last = active context) context := by
  have stored : ∀ (entry : RuleState) (result : ParseResult) (here : Context CharT),
      active here = active context →
      wp entering (NonTerminal.store rule startPos entry >>= fun _ =>
        (pure result : Parser CharT ParseResult)) (fun _ last => active last = active context)
        here := by
    intro entry result here same
    rw [wp_bind]
    refine store_allowed entering_stores ?_
    · rw [wp_pure]
      exact (update_row_same here rule startPos entry).1.trans same
  rw [wp_ite]
  constructor
  · intro _
    rw [NonTerminal.finishSuccess, wp_bind]
    refine wp_post (build_node_same nonTerminal rule startPos grown.1.tree context) ?_
    rintro node built ⟨-, lrStack, -⟩
    refine stored _ _ built ?_
    rw [active, lrStack, active]
  · intro _
    obtain ⟨errors, recorded⟩ := NonTerminal.record_rule_failure_frame nonTerminal startPos context
    rw [NonTerminal.finishFailure, wp_bind, wp_modify, recorded, wp_bind, wp_read]
    dsimp only [id]
    split
    · rw [wp_bind, wp_modify]
      exact stored _ _ _ rfl
    · exact stored _ _ _ rfl

/-- Without left recursion the application of a rule leads to no rule that is in
progress where it is applied. -/
theorem apply_progress (free : LeftRecursionFree grammar) (inRange : InRange grammar) (fuel : Nat)
    (keys : List (RuleId × Nat)) (rule : RuleId) :
    Traverses entering (Sound input none (Measured grammar input)) (progress grammar input keys)
      (grammar.apply fuel rule) (.expr (.rule rule)) := by
  induction fuel generalizing keys rule with
  | zero => exact fun _ _ _ _ => trivial
  | succ fuel induction =>
      intro context sound ready due
      have idle : (rule, context.position) ∉ active context := by
        intro member
        rw [show active context = keys from ready] at member
        exact free rule (due.leads _ member rfl rule .rule)
      rw [Grammar.apply, NonTerminal.parse, wp_bind, announce, wp_announce]
      refine fun _ => ⟨Bool.eq_false_iff.mpr fun inProgress => idle (in_progress_iff.mp inProgress), ?_⟩
      rw [wp_bind, wp_read, wp_bind, wp_modifyGet, wp_ite]
      unfold Context.ruleState
      cases held : context.mem context.position rule with
      | some row =>
          refine ⟨fun present => absurd present Bool.false_ne_true, fun _ => wp_post (replay_same rule context.position row context) ?_⟩
          exact fun result last same => ⟨same.2.1.trans ready, trivial, trivial⟩
      | none =>
          refine ⟨fun _ => ?_, fun absent => absurd rfl absent⟩
          rw [wp_bind]
          cases assigned : grammar.body rule with
          | none => exact trivial
          | some body =>
              rw [Option.map_some]
              have dueBody : Bound grammar input ((rule, context.position) :: keys) none (.expr body)
                  context.position := by
                refine ⟨rfl, due.inside, List.forall_mem_cons.mpr ⟨Nat.le_refl _, due.behind⟩, ?_⟩
                refine List.forall_mem_cons.mpr ⟨fun _ id calls => ?_, fun key member here id calls => ?_⟩
                · exact .single ⟨body, assigned, calls⟩
                · exact (due.leads key member here rule .rule).tail ⟨body, assigned, calls⟩
              have reading := @measured_reading _ _ _ _ input inRange none
              have applies := apply_sound reading fuel
              have admitted : body.Every (Admits (fun _ => True) (paced input)
                  (Sound input none (Measured grammar input))) :=
                admits_sound (reading.matchers rule body assigned)
              have evaluates := expr_evaluates sound_invariant (fun id _ => applies id)
                (fun _ _ _ _ => trivial) fuel admitted
              have same : (@entering CharT).assume =
                  (upholding input none (Measured grammar input)).assume := rfl
              have walks : Traverses entering (Sound input none (Measured grammar input))
                  (progress grammar input ((rule, context.position) :: keys))
                  (body.parse (grammar.apply fuel) fuel) (.expr body) :=
                expr_traverses same sound_invariant (progress_lawful _) entering_invariant
                  (fun id _ => applies id) (fun _ _ _ _ => trivial)
                  (fun id _ => induction ((rule, context.position) :: keys) id) fuel admitted
              refine wp_post (invoke_traverses same (progress_lawful _) evaluates walks
                (expr_stable (apply_stable grammar fuel) fuel body)
                (fun _ sound => ⟨sound.source, sound.skipper, sound.rows⟩)
                (fun _ sound => clear_siblings_sound sound _ _) ?_ entering_stores fuel _ ?_ ?_ ?_
                dueBody) ?_
              · intro here result kept success answers
                refine update_sound kept.source kept.skipper (fun _ _ _ _ held => kept.rows _ _ _ held) ?_
                exact ⟨fun _ => reading.bodies rule body none _ _ assigned (Or.inl rfl) answers,
                  fun failure => absurd success failure⟩
              · exact due.off
              · refine update_sound sound.source sound.skipper (fun pos' rule' row other held => ?_)
                  failure_row
                rcases Memo.write_eq_some held with ⟨rfl, rfl, -⟩ | ⟨-, before⟩
                · exact absurd ⟨rfl, rfl⟩ other
                · exact sound.rows _ _ _ before
              · exact congrArg (List.cons _) ready
              · rintro grown last ⟨there, readyThere, -, -, rfl⟩
                refine wp_post (finish_active (grammar.nonTerminal rule) rule context.position grown _) ?_
                rintro result last same'
                have frames : active (there.reset (NonTerminal.frame there).lastPos) =
                    (rule, context.position) :: keys := readyThere
                exact ⟨same'.trans (leave_active frames _), trivial, trivial⟩

/-- No run of a rule from outside comes upon a rule in progress. -/
theorem never_reentered (free : LeftRecursionFree grammar) (inRange : InRange grammar)
    {context : Context CharT} (visited : Visited grammar input context) (off : context.skipper = none)
    (outside : context.lrStack = []) (inside : context.position ≤ input.length) (fuel : Nat)
    (rule : RuleId) : ∀ moment ∈ (grammar.apply fuel rule context).trace, NotReentered moment := by
  have sound := (visited_sound (fun _ _ => measured_reading inRange) visited).2
  rw [off] at sound
  have quiet : mode context = none := by
    unfold mode
    rw [off, ite_self]
  have idle : active context = [] := by
    unfold active
    rw [outside]
    rfl
  have runs := apply_progress free inRange fuel [] rule context sound idle
    ⟨quiet, inside, nofun, nofun⟩
  exact (wp_elim runs fun _ _ => trivial).1

end Positions

end Peglib.LeftRecursion
