import Peglib.EntryPoints
import Peglib.LeftRecursion

/-!
# Left recursion through the skipper

A skip between two parts of a sequence applies the skipper before anything is
consumed, so a rule can come back to itself through it. Which rules, under a
skipper that is active or not, an expression may apply where it starts, read off
the grammar. Where no rule comes back to itself, no parse applies a rule that is
in progress at the position.
-/

namespace Peglib.SkippingRecursion

open Peglib.TracedComputation Peglib.WeakestPrecondition
open Peglib.ParseError Peglib.ParseContext Peglib.Expressions Peglib.Rules
open Peglib.ControlDiscipline Peglib.PegSemantics Peglib.Evaluation Peglib.SuccessfulAnswers
open Peglib.Termination Peglib.PlantedSeeds Peglib.Packrat Peglib.MemoAnswers Peglib.Walks Peglib.LeftRecursion
open Peglib.EntryPoints (boundary)

set_option autoImplicit false

variable {CharT NodeType : Type}

section Analysis

variable (grammar : Grammar CharT NodeType)

/-- What an active skip applies: the skipper, without skipping. -/
def Skipped (on : Bool) (callee : RuleId × Bool) : Prop :=
  on = true ∧ ∃ skipper, grammar.skipper = some skipper ∧ callee = (skipper, false)

/-- The rules that an expression may apply where it starts, each with auto-skip on or off. -/
inductive Starts : Bool → Expr CharT → RuleId × Bool → Prop
  | rule {on id} : Starts on (.rule id) (id, on)
  | sequence {on before child after callee} : (∀ part ∈ before, Nullable grammar part) →
      Starts on child callee → Starts on (.sequence (before ++ child :: after)) callee
  | between {on before child after callee} : before ≠ [] → (∀ part ∈ before, Nullable grammar part) →
      Skipped grammar on callee → Starts on (.sequence (before ++ child :: after)) callee
  | alternation {on children child callee} : child ∈ children → Starts on child callee →
      Starts on (.alternation children) callee
  | repetition {on kind child callee} : Starts on child callee → Starts on (.repetition kind child) callee
  | not {on child callee} : Starts on child callee → Starts on (.not child) callee
  | and {on child callee} : Starts on child callee → Starts on (.and child) callee
  | lexeme {on child callee} : Starts false child callee → Starts on (.lexeme child) callee

def StartStep (caller callee : RuleId × Bool) : Prop :=
  ∃ body, grammar.body caller.1 = some body ∧ Starts grammar caller.2 body callee

/-- No rule comes back to itself before anything is consumed, skips included. -/
def ReentryFree : Prop :=
  ∀ rule on on', ¬Relation.TransGen (StartStep grammar) (rule, on) (rule, on')

variable {grammar}

/-- Without a skipper these are the rules that left calls lead to. -/
theorem Starts.left {on : Bool} {expr : Expr CharT} {callee : RuleId × Bool}
    (off : grammar.skipper = none) (starts : Starts grammar on expr callee) :
    LeftCalls grammar expr callee.1 := by
  induction starts with
  | rule => exact .rule
  | sequence nullable _ induction => exact .sequence nullable induction
  | between _ _ skipped =>
      obtain ⟨-, skipper, configured, -⟩ := skipped
      rw [off] at configured
      cases configured
  | alternation member _ induction => exact .alternation member induction
  | repetition _ induction => exact .repetition induction
  | not _ induction => exact .not induction
  | and _ induction => exact .and induction
  | lexeme _ induction => exact .lexeme induction

theorem reentry_free_of_left (free : LeftRecursionFree grammar) (off : grammar.skipper = none) :
    ReentryFree grammar := by
  have far : ∀ caller callee, Relation.TransGen (StartStep grammar) caller callee →
      Relation.TransGen (LeftStep grammar) caller.1 callee.1 := by
    intro caller callee steps
    induction steps with
    | single step =>
        obtain ⟨body, assigned, starts⟩ := step
        exact .single ⟨body, assigned, starts.left off⟩
    | tail _ step earlier =>
        obtain ⟨body, assigned, starts⟩ := step
        exact earlier.tail ⟨body, assigned, starts.left off⟩
  exact fun rule on on' steps => free rule (far (rule, on) (rule, on') steps)

theorem Starts.part {holds : Expr CharT → Prop} {on : Bool} {expr : Expr CharT}
    {callee : RuleId × Bool} (starts : Starts grammar on expr callee) (every : expr.Every holds)
    (skips : ∀ skipper, grammar.skipper = some skipper → holds (.rule skipper)) :
    holds (.rule callee.1) := by
  induction starts with
  | rule => exact every.here
  | sequence _ _ induction =>
      unfold Expr.Every at every
      exact induction (Expr.every_all_iff.mp every.2 _ (by simp))
  | between _ _ skipped =>
      obtain ⟨-, skipper, configured, rfl⟩ := skipped
      exact skips skipper configured
  | alternation member _ induction =>
      unfold Expr.Every at every
      exact induction (Expr.every_all_iff.mp every.2 _ member)
  | repetition _ induction | not _ induction | and _ induction | lexeme _ induction =>
      unfold Expr.Every at every
      exact induction every.2

/-- A sequence whose first part consumes starts with that part only. -/
theorem Starts.solid {on : Bool} {first : Expr CharT} {rest : List (Expr CharT)}
    {callee : RuleId × Bool} (starts : Starts grammar on (.sequence (first :: rest)) callee)
    (consumes : ¬Nullable grammar first) : Starts grammar on first callee := by
  generalize whole : Expr.sequence (first :: rest) = expr at starts
  cases starts with
  | @sequence _ before _ _ _ nullable starts =>
      cases before with
      | nil =>
          obtain ⟨rfl, -⟩ := List.cons.inj (Expr.sequence.inj whole)
          exact starts
      | cons part before =>
          obtain ⟨rfl, -⟩ := List.cons.inj (Expr.sequence.inj whole)
          exact absurd (nullable first (by simp)) consumes
  | @between _ before _ _ _ led nullable _ =>
      cases before with
      | nil => exact absurd rfl led
      | cons part before =>
          obtain ⟨rfl, -⟩ := List.cons.inj (Expr.sequence.inj whole)
          exact absurd (nullable first (by simp)) consumes
  | rule | alternation _ _ | repetition _ | not _ | and _ | lexeme _ => cases whole

theorem reentry_free_of_rank {rank : RuleId → Nat}
    (falls : ∀ caller callee, StartStep grammar caller callee → rank callee.1 < rank caller.1) :
    ReentryFree grammar := by
  have far : ∀ caller callee, Relation.TransGen (StartStep grammar) caller callee →
      rank callee.1 < rank caller.1 := by
    intro caller callee steps
    induction steps with
    | single step => exact falls _ _ step
    | tail _ step earlier => exact (falls _ _ step).trans earlier
  exact fun rule on on' steps => Nat.lt_irrefl _ (far (rule, on) (rule, on') steps)

variable (grammar)

/-- The rules that what is left to match may apply where it starts. -/
def MayStart (on : Bool) : Pending CharT → RuleId × Bool → Prop
  | .expr expr, callee => Starts grammar on expr callee
  | .seq first children, callee => ∃ before child after, children = before ++ child :: after ∧
      (∀ part ∈ before, Nullable grammar part) ∧
      (Starts grammar on child callee ∨ (first = false ∨ before ≠ []) ∧ Skipped grammar on callee)
  | .alt children, callee => ∃ child ∈ children, Starts grammar on child callee
  | .loop _ child count, callee => Starts grammar on child callee ∨ count ≠ 0 ∧ Skipped grammar on callee
  | .skip, callee => Skipped grammar on callee

end Analysis

/-- A rule in progress, its skip mode and its position. -/
abbrev Frame : Type := (RuleId × Bool) × Nat

/-- What the rules in progress allow to be applied, for the sake of what is `safe`. Where none is in
progress anything is allowed, and what a rule starts is allowed where the rule was. -/
structure Guide (grammar : Grammar CharT NodeType) (allowed : List Frame → Nat → RuleId × Bool → Prop)
    (safe : Moment CharT → Prop) : Prop where
  idle : ∀ keys pos callee, (∀ key ∈ keys, key.2 ≠ pos) → allowed keys pos callee
  entered : ∀ keys pos caller callee, allowed keys pos caller → StartStep grammar caller callee →
    allowed ((caller, pos) :: keys) pos callee
  applied : ∀ keys rule on (context : Context CharT),
    active context = keys.map (fun key => (key.1.1, key.2)) → allowed keys context.position (rule, on) →
    safe ⟨.apply rule, context⟩
  stored : ∀ rule pos (context : Context CharT), safe ⟨.store rule pos, context⟩
  failed : ∀ context : Context CharT, safe ⟨.failure, context⟩

section Positions

variable [PegValue CharT] (grammar : Grammar CharT NodeType) (input : List CharT)
  (allowed : List Frame → Nat → RuleId × Bool → Prop)

/-- The rules in progress allow whatever may be applied here. -/
structure Bound (keys : List Frame) (mode : Option RuleId) (task : Pending CharT) (pos : Nat) :
    Prop where
  modes : mode = none ∨ mode = grammar.skipper
  inside : pos ≤ input.length
  behind : ∀ key ∈ keys, key.2 ≤ pos
  allows : ∀ callee, MayStart grammar mode.isSome task callee → allowed keys pos callee

def progress (keys : List Frame) : Survey CharT where
  due := Bound grammar input allowed keys
  ready context := active context = keys.map fun key => (key.1.1, key.2)
  later _ _ := True
  done _ _ _ _ := True

variable {grammar input allowed} {safe : Moment CharT → Prop} {keys : List Frame}
  {mode mode' : Option RuleId} {task part : Pending CharT} {pos next : Nat}

omit [PegValue CharT] in
theorem Bound.same (bound : Bound grammar input allowed keys mode task pos)
    (modes : mode' = none ∨ mode' = mode)
    (calls : ∀ callee, MayStart grammar mode'.isSome part callee →
      MayStart grammar mode.isSome task callee) : Bound grammar input allowed keys mode' part pos := by
  refine ⟨?_, bound.inside, bound.behind, fun callee called => bound.allows callee (calls callee called)⟩
  rcases modes with off | kept
  · exact Or.inl off
  · rw [kept]
    exact bound.modes

variable (guide : Guide grammar allowed safe)

include guide

omit [PegValue CharT] in
theorem Bound.further (bound : Bound grammar input allowed keys mode task pos)
    (ahead : pos < next) (inside : next ≤ input.length) :
    Bound grammar input allowed keys mode part next := by
  refine ⟨bound.modes, inside, fun key member => ?_, fun callee _ => ?_⟩
  · exact (bound.behind key member).trans (Nat.le_of_lt ahead)
  · refine guide.idle keys next callee fun key member here => ?_
    have behind := bound.behind key member
    omega

theorem Bound.after {before : Option RuleId} {earlier : Pending CharT}
    (bound : Bound grammar input allowed keys mode task pos)
    (peg : Peg input (paced input) (Held input (Measured grammar input)) () before earlier pos
      (some next)) (calls : next = pos → ∀ callee, MayStart grammar mode.isSome part callee →
        MayStart grammar mode.isSome task callee) :
    Bound grammar input allowed keys mode part next := by
  have moved := measured_within peg bound.inside
  rcases Nat.lt_or_eq_of_le moved.1 with ahead | rfl
  · exact bound.further guide ahead moved.2
  · exact bound.same (Or.inr rfl) (calls rfl)

omit guide in
theorem skip_modes {off : Prop} [Decidable off] :
    (if off then none else mode) = none ∨ (if off then none else mode) = mode := by
  by_cases holds : off <;> simp [holds]

theorem progress_handed {task' : Pending CharT} {pos' : Nat}
    (bound : Bound grammar input allowed keys mode task pos)
    (step : Step (Peg input (paced input) (Held input (Measured grammar input)) ()) mode task pos
      mode' task' pos') : Bound grammar input allowed keys mode' task' pos' := by
  cases step with
  | sequence =>
      refine bound.same (Or.inr rfl) fun callee => ?_
      rintro ⟨before, child, after, rfl, nullable, starts | ⟨led, skipped⟩⟩
      · exact .sequence nullable starts
      · exact .between (by simpa using led) nullable skipped
  | alternation =>
      refine bound.same (Or.inr rfl) fun callee => ?_
      rintro ⟨child, member, starts⟩
      exact .alternation member starts
  | repetition =>
      refine bound.same (Or.inr rfl) fun callee => ?_
      rintro (starts | ⟨more, -⟩)
      · exact .repetition starts
      · exact absurd rfl more
  | not => exact bound.same (Or.inr rfl) fun callee => .not
  | and => exact bound.same (Or.inr rfl) fun callee => .and
  | lexeme => exact bound.same (Or.inl rfl) fun callee => .lexeme
  | @seqSkip _ first child rest =>
      refine bound.same skip_modes fun callee skipped => ?_
      cases first with
      | true => exact absurd skipped.1 (by simp)
      | false => exact ⟨[], child, rest, rfl, by simp, Or.inr ⟨Or.inl rfl, skipped⟩⟩
  | @seqHere _ first child rest _ _ skip =>
      refine bound.after guide skip fun _ callee starts => ?_
      exact ⟨[], child, rest, rfl, by simp, Or.inl starts⟩
  | @seqLater _ first child rest _ _ _ skip hit =>
      have skipped := measured_within skip bound.inside
      have found := measured_within hit skipped.2
      rcases Nat.lt_or_eq_of_le (skipped.1.trans found.1) with ahead | rfl
      · exact bound.further guide ahead found.2
      · obtain rfl := Nat.le_antisymm skipped.1 found.1
        refine bound.same (Or.inr rfl) fun callee => ?_
        rintro ⟨before, later, after, rfl, nullable, starts⟩
        have stayed : Nullable grammar child := stays hit bound.inside rfl
        have both := List.forall_mem_cons.mpr ⟨stayed, nullable⟩
        refine ⟨child :: before, later, after, rfl, both, starts.imp_right fun gap => ?_⟩
        exact ⟨Or.inr (by simp), gap.2⟩
  | altHere => exact bound.same (Or.inr rfl) fun callee starts => ⟨_, List.mem_cons_self, starts⟩
  | altLater _ =>
      refine bound.same (Or.inr rfl) fun callee => ?_
      rintro ⟨child, member, starts⟩
      exact ⟨child, List.mem_cons_of_mem _ member, starts⟩
  | @loopSkip _ kind child count =>
      refine bound.same skip_modes fun callee skipped => ?_
      by_cases none : count = 0
      · rw [if_pos none] at skipped
        exact absurd skipped.1 (by simp)
      · rw [if_neg none] at skipped
        exact Or.inr ⟨none, skipped⟩
  | loopHere skip => exact bound.after guide skip fun _ callee starts => Or.inl starts
  | loopLater skip hit more =>
      -- Only an iteration that moved is followed by another one.
      have skipped := measured_within skip bound.inside
      have moved := measured_within hit skipped.2
      rw [Bool.or_eq_false_iff, decide_eq_false_iff_not] at more
      have onward := Nat.lt_of_le_of_ne moved.1 (Ne.symm more.2)
      exact bound.further guide (Nat.lt_of_le_of_lt skipped.1 onward) moved.2
  | @skip skipper =>
      have configured : some skipper = grammar.skipper := bound.modes.resolve_left (by simp)
      refine bound.same (Or.inl rfl) fun callee starts => ?_
      cases starts
      exact ⟨rfl, skipper, configured.symm, rfl⟩

theorem progress_lawful (keys : List ((RuleId × Bool) × Nat)) :
    Lawful (Peg input (paced input) (Held input (Measured grammar input)) ())
      (progress grammar input allowed keys) where
  handed _ _ _ _ _ _ due step := progress_handed guide due step
  refl _ := trivial
  trans _ _ _ _ _ := trivial
  lasts _ _ _ _ _ _ _ := trivial
  moved _ _ ready _ same _ := same.trans ready
  missed _ _ _ _ _ _ _ _ := ⟨trivial, trivial⟩
  passed _ _ _ _ _ _ _ _ _ := trivial
  composed _ _ _ _ _ _ := trivial

/-- The contract that every moment is safe. -/
def watching (safe : Moment CharT → Prop) : Contract (Moment CharT) (Context CharT) Exn :=
  ⟨fun _ => True, safe, fun _ _ => True⟩

omit [PegValue CharT] in
theorem watching_stores {rule : RuleId} {pos : Nat} (moment : Moment CharT)
    (stores : moment.event = .store rule pos) : (watching safe).guarantee moment := by
  obtain ⟨event, context⟩ := moment
  obtain rfl : event = .store rule pos := stores
  exact guide.stored rule pos context

omit [PegValue CharT] in
theorem watching_invariant {skipper : Option RuleId} {Good : RuleId → Nat → Nat → Prop} :
    Invariant (watching safe) input (Sound input skipper Good) where
  input _ sound := sound.source
  moved _ _ := sound_invariant.moved _ _
  opened _ := sound_invariant.opened _
  cleared _ := sound_invariant.cleared _
  closed _ := sound_invariant.closed _
  failure _ _ := guide.failed _
  throws _ _ _ _ _ := trivial
  unwinds _ _ _ := trivial
  relabels _ _ _ _ := trivial

omit [PegValue CharT] in
theorem finish_keeps_active (nonTerminal : NonTerminal CharT NodeType) (rule : RuleId) (startPos : Nat)
    (grown : ParseResult × RuleState) (context : Context CharT) :
    wp (watching safe)
      (if grown.1.success then
        NonTerminal.finishSuccess nonTerminal rule startPos grown.1 grown.2
      else NonTerminal.finishFailure nonTerminal rule startPos grown.2)
      (fun _ last => active last = active context) context := by
  have stored : ∀ (entry : RuleState) (result : ParseResult) (here : Context CharT),
      active here = active context →
      wp (watching safe) (NonTerminal.store rule startPos entry >>= fun _ =>
        (pure result : Parser CharT ParseResult)) (fun _ last => active last = active context) here := by
    intro entry result here same
    rw [wp_bind]
    refine store_allowed (watching_stores guide) ?_
    rw [wp_pure]
    exact (update_row_same here rule startPos entry).1.trans same
  rw [wp_ite]
  constructor
  · intro _
    rw [NonTerminal.finishSuccess, wp_bind]
    refine wp_post (build_node_same nonTerminal rule startPos grown.1.tree context) ?_
    rintro node built ⟨-, lrStack, -⟩
    refine stored _ _ built ?_
    rw [active, lrStack, active]
  · intro _
    obtain ⟨errors, recorded⟩ := NonTerminal.record_rule_failure_frame nonTerminal startPos context
    rw [NonTerminal.finishFailure, wp_bind, wp_modify, recorded, wp_bind, wp_read]
    dsimp only [id]
    split
    · rw [wp_bind, wp_modify]
      exact stored _ _ _ rfl
    · exact stored _ _ _ rfl

/-- The application of an allowed rule comes upon safe moments only. -/
theorem apply_progress (inRange : InRange grammar) (fuel : Nat) (keys : List Frame) (rule : RuleId) :
    Traverses (watching safe) (Sound input grammar.skipper (Measured grammar input))
      (progress grammar input allowed keys) (grammar.apply fuel rule) (.expr (.rule rule)) := by
  induction fuel generalizing keys rule with
  | zero => exact fun _ _ _ _ => trivial
  | succ fuel induction =>
      intro context sound ready due
      let on := (Evaluation.mode context).isSome
      have here := due.allows (rule, on) .rule
      rw [Grammar.apply, NonTerminal.parse, wp_bind, announce, wp_announce]
      refine fun _ => ⟨guide.applied keys rule on context ready here, ?_⟩
      rw [wp_bind, wp_read, wp_bind, wp_modifyGet, wp_ite]
      unfold Context.ruleState
      cases held : context.mem context.position rule with
      | some row =>
          refine ⟨fun present => absurd present Bool.false_ne_true, fun _ => ?_⟩
          refine wp_post (replay_same rule context.position row context) ?_
          exact fun result last same => ⟨same.2.1.trans ready, trivial, trivial⟩
      | none =>
          refine ⟨fun _ => ?_, fun absent => absurd rfl absent⟩
          rw [wp_bind]
          cases assigned : grammar.body rule with
          | none => exact trivial
          | some body =>
              rw [Option.map_some]
              have dueBody : Bound grammar input allowed (((rule, on), context.position) :: keys)
                  (Evaluation.mode context) (.expr body) context.position := by
                refine ⟨due.modes, due.inside, List.forall_mem_cons.mpr ⟨Nat.le_refl _, due.behind⟩, ?_⟩
                exact fun callee starts =>
                  guide.entered keys context.position (rule, on) callee here ⟨body, assigned, starts⟩
              have reading := @measured_reading _ _ _ _ input inRange grammar.skipper
              have applies := apply_sound reading fuel
              have admitted : body.Every (Admits (fun _ => True) (paced input)
                  (Sound input grammar.skipper (Measured grammar input))) :=
                admits_sound (reading.matchers rule body assigned)
              have evaluates := expr_evaluates sound_invariant (fun id _ => applies id)
                (fun _ _ _ _ => trivial) fuel admitted
              have same : (watching safe).assume =
                  (upholding input grammar.skipper (Measured grammar input)).assume := rfl
              have walks : Traverses (watching safe) (Sound input grammar.skipper (Measured grammar input))
                  (progress grammar input allowed (((rule, on), context.position) :: keys))
                  (body.parse (grammar.apply fuel) fuel) (.expr body) :=
                expr_traverses same sound_invariant (progress_lawful guide _) (watching_invariant guide)
                  (fun id _ => applies id) (fun _ _ _ _ => trivial)
                  (fun id _ => induction (((rule, on), context.position) :: keys) id) fuel admitted
              refine wp_post (invoke_traverses same (progress_lawful guide _) evaluates walks
                (expr_stable (apply_stable grammar fuel) fuel body)
                (fun _ sound => ⟨sound.source, sound.skipper, sound.rows⟩)
                (fun _ sound => clear_siblings_sound sound _ _) ?_ (watching_stores guide) fuel _ rfl ?_ ?_
                dueBody) ?_
              · intro here result kept success answers
                refine update_sound kept.source kept.skipper (fun _ _ _ _ held => kept.rows _ _ _ held) ?_
                exact ⟨fun _ => reading.bodies rule body _ _ _ assigned sound.mode_cases answers,
                  fun failure => absurd success failure⟩
              · refine update_sound sound.source sound.skipper (fun pos' rule' row other held => ?_)
                  failure_row
                rcases Memo.write_eq_some held with ⟨rfl, rfl, -⟩ | ⟨-, before⟩
                · exact absurd ⟨rfl, rfl⟩ other
                · exact sound.rows _ _ _ before
              · exact congrArg (List.cons _) ready
              · rintro grown last ⟨there, readyThere, -, -, rfl⟩
                refine wp_post (finish_keeps_active guide (grammar.nonTerminal rule) rule context.position
                  grown _) ?_
                rintro result last same'
                have frames : active (there.reset (NonTerminal.frame there).lastPos) =
                    (rule, context.position) :: keys.map fun key => (key.1.1, key.2) := readyThere
                exact ⟨same'.trans (leave_active frames _), trivial, trivial⟩

omit [PegValue CharT] in
theorem bound_nowhere {context : Context CharT} {task : Pending CharT}
    (inside : context.position ≤ input.length)
    (sound : Sound input grammar.skipper (Measured grammar input) context) :
    Bound grammar input allowed [] (Evaluation.mode context) task context.position :=
  ⟨sound.mode_cases, inside, by simp, fun callee _ => guide.idle [] context.position callee (by simp)⟩

/-- A call on a new input comes upon safe moments only, its leading skip included. -/
theorem boundary_guided (inRange : InRange grammar) (input : List CharT) (fuel : Nat) (start : RuleId)
    {Value : Type} (view : ParseResult → Value) (fallback : Value) :
    ∀ moment ∈ (boundary grammar fuel start view fallback (Context.fresh input)).trace, safe moment := by
  have sound : Sound input grammar.skipper (Measured grammar input)
      { Context.fresh input with skipper := grammar.skipper } := by
    refine ⟨rfl, rfl, ?_⟩
    intro pos rule row held
    cases held
  have applies := fun rule => @apply_progress _ _ _ grammar input allowed safe guide inRange fuel [] rule
  have evaluates := apply_sound (@measured_reading _ _ _ _ input inRange grammar.skipper) fuel
  have same : (watching safe).assume =
      (upholding input grammar.skipper (Measured grammar input)).assume := rfl
  have skips : Skips (upholding input grammar.skipper (Measured grammar input))
      (Sound input grammar.skipper (Measured grammar input)) (runSkipper (grammar.apply fuel))
      fun mode pos outcome => Peg input (paced input) (Held input (Measured grammar input)) () mode
        .skip pos outcome :=
    skipper_skips sound_invariant (fun rule _ => evaluates rule) fun _ _ _ _ => trivial
  have skipping : Traverses (watching safe) (Sound input grammar.skipper (Measured grammar input))
      (progress grammar input allowed []) (runSkipper (grammar.apply fuel)) .skip :=
    skipper_traverses (progress_lawful guide []) (watching_invariant guide) (fun _ _ _ _ => trivial)
      fun rule _ => applies rule
  have whole : wp (watching safe) (boundary grammar fuel start view fallback) (fun _ _ => True)
      (Context.fresh input) := by
    unfold boundary
    rw [wp_bind, Grammar.leadingSkip, wp_bind, wp_modify]
    refine wp_post (wp_with same (skips _ sound)
      (skipping _ sound rfl (bound_nowhere guide (Nat.zero_le _) sound))) ?_
    rintro _ here ⟨⟨sound, -, peg⟩, ready, -, -⟩
    have inside := (measured_within peg (Nat.zero_le _)).2
    rw [wp_catching, wp_bind]
    refine wp_mono (applies start here sound ready (bound_nowhere guide inside sound)) (fun _ => id)
      (fun _ _ => id) (fun exn last _ => ?_) fun result last _ => trivial
    cases exn <;> exact trivial
  exact (wp_elim whole fun _ _ => trivial).1

/-- A rule applied from outside, after any parses, comes upon safe moments only. -/
theorem application_guided (inRange : InRange grammar) {context : Context CharT}
    (visited : Visited grammar input context) (set : context.skipper = grammar.skipper)
    (outside : active context = []) (inside : context.position ≤ input.length) (fuel : Nat)
    (rule : RuleId) : ∀ moment ∈ (grammar.apply fuel rule context).trace, safe moment := by
  have sound := (visited_sound (fun _ _ => measured_reading inRange) visited).2
  rw [set] at sound
  have runs := apply_progress guide inRange fuel [] rule context sound outside
    (bound_nowhere guide inside sound)
  exact (wp_elim runs fun _ _ => trivial).1

omit guide

omit [PegValue CharT] in
theorem frame_in_progress {context : Context CharT} {rule : RuleId}
    (ready : active context = keys.map fun key => (key.1.1, key.2))
    (inProgress : context.lrInProgress rule pos = true) : ∃ on, ((rule, on), pos) ∈ keys := by
  have member := in_progress_iff.mp inProgress
  rw [ready, List.mem_map] at member
  obtain ⟨⟨⟨other, on⟩, here⟩, member, same⟩ := member
  obtain ⟨rfl, rfl⟩ := Prod.mk.inj same
  exact ⟨on, member⟩

omit [PegValue CharT] in
theorem free_guide (free : ReentryFree grammar) :
    Guide grammar (fun keys pos callee => ∀ key ∈ keys, key.2 = pos →
      Relation.TransGen (StartStep grammar) key.1 callee) NotReentered where
  idle _ _ _ elsewhere key member here := absurd here (elsewhere key member)
  entered keys pos caller callee leads step := by
    refine List.forall_mem_cons.mpr ⟨fun _ => .single step, fun key member here => ?_⟩
    exact (leads key member here).tail step
  applied keys rule on context ready leads := by
    refine Bool.eq_false_iff.mpr fun inProgress => ?_
    obtain ⟨before, member⟩ := frame_in_progress ready inProgress
    exact free rule before on (leads _ member rfl)
  stored _ _ _ := trivial
  failed _ := trivial

theorem boundary_never_reentered (free : ReentryFree grammar) (inRange : InRange grammar)
    (input : List CharT) (fuel : Nat) (start : RuleId) {Value : Type} (view : ParseResult → Value)
    (fallback : Value) :
    ∀ moment ∈ (boundary grammar fuel start view fallback (Context.fresh input)).trace,
      NotReentered moment :=
  boundary_guided (free_guide free) inRange input fuel start view fallback

/-- A grammar in which no rule comes back to itself, through skips neither, is parsed without
ever coming upon a rule in progress: no seed is planted for anything but a plain evaluation. -/
theorem parse_never_reenters (free : ReentryFree grammar) (inRange : InRange grammar) (name : Str)
    (input : List CharT) (fuel : Nat) :
    ∀ moment ∈ (grammar.parse fuel name (Context.fresh input)).trace, NotReentered moment := by
  unfold Grammar.parse
  cases found : grammar.find name with
  | none => simp [Comp.throw]
  | some start =>
      exact boundary_never_reentered free inRange input fuel start ParseResult.success false

omit [PegValue CharT]

/-- `S = -'n' >> N` with `N = 'n' >> 'n'`, and spaces skipped. -/
def optionalLead : Grammar UInt8 Unit where
  rules := [
    (ascii "N", { body := some (.sequence [.terminal (.value 110), .terminal (.value 110)]) }),
    (ascii "S", { body := some (.sequence [.repetition .optional (.terminal (.value 110)), .rule 0]) }),
    (ascii "space", { body := some (.repetition .zeroOrMore (.terminal (.value 32))) })]
  skipper := some 2

theorem optional_lead_bodies {holds : RuleId → Expr UInt8 → Prop} {rule : RuleId} {body : Expr UInt8}
    (assigned : optionalLead.body rule = some body)
    (pair : holds 0 (.sequence [.terminal (.value 110), .terminal (.value 110)]))
    (whole : holds 1 (.sequence [.repetition .optional (.terminal (.value 110)), .rule 0]))
    (space : holds 2 (.repetition .zeroOrMore (.terminal (.value 32)))) : holds rule body := by
  match rule with
  | 0 | 1 | 2 =>
      obtain rfl := Option.some.inj assigned
      assumption
  | _ + 3 => cases assigned

theorem optional_lead_free : ReentryFree optionalLead := by
  have solid : ∀ on letter callee, ¬Starts optionalLead on (.terminal (.value letter)) callee := by
    intro on letter callee starts
    cases starts
  refine @reentry_free_of_rank _ _ _ (fun rule => if rule = 1 then 1 else 0) ?_
  rintro ⟨rule, on⟩ callee ⟨body, assigned, starts⟩
  revert starts
  refine @optional_lead_bodies (fun rule body => Starts optionalLead on body callee →
    (if callee.1 = 1 then 1 else 0) < (if rule = 1 then 1 else 0)) rule body assigned ?_ ?_ ?_
  · intro starts
    have first := starts.solid fun nullable => by cases nullable
    exact absurd first (solid on 110 callee)
  · intro starts
    have other : callee.1 ≠ 1 := by
      refine @Starts.part _ _ _ (fun part => ∀ id, part = .rule id → id ≠ 1) _ _ _ starts ?_ ?_ _ rfl
      · simp [Expr.Every, Expr.EveryAll]
      · simp [optionalLead]
    simp [other]
  · intro starts
    cases starts with
    | repetition starts => exact absurd starts (solid on 32 callee)

theorem optional_lead_never_reenters :
    (optionalLead.parse 8 (ascii "S") (Context.fresh (ascii " n n n"))).outcome.value? = some true ∧
      ∀ moment ∈ (optionalLead.parse 8 (ascii "S") (Context.fresh (ascii " n n n"))).trace,
        NotReentered moment := by
  refine ⟨by decide +kernel, ?_⟩
  refine parse_never_reenters optional_lead_free (fun rule body assigned => ?_) (ascii "S")
    (ascii " n n n") 8
  refine @optional_lead_bodies (fun _ body => body.Every MatcherInRange) rule body assigned ?_ ?_ ?_
  · simp [Expr.Every, Expr.EveryAll, MatcherInRange]
  · simp [Expr.Every, Expr.EveryAll, MatcherInRange]
  · simp [Expr.Every, MatcherInRange]

end Positions

end Peglib.SkippingRecursion
