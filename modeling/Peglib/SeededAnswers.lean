import Peglib.MemoAnswers

/-!
# Answers against all seeds

Rules that call each other at one position: every rule in progress there answers
with its seed, and any other rule grows its own. A memo row answers like that as
long as it holds what its rule answers against the seeds of the rules that are in
progress when it is consulted. Then a run answers so too, whatever the other rows
hold.
-/

namespace Peglib.SeededAnswers

open Peglib.TracedComputation Peglib.WeakestPrecondition Peglib.Preservation Peglib.Halting
open Peglib.ParseError Peglib.ParseContext Peglib.Expressions Peglib.Rules
open Peglib.ControlDiscipline Peglib.PegSemantics Peglib.Evaluation Peglib.SuccessfulAnswers
open Peglib.Termination Peglib.GrowthSemantics Peglib.PlantedSeeds Peglib.Packrat Peglib.MemoAnswers

set_option autoImplicit false

variable {CharT NodeType : Type}

section Semantics

/-- The seed of a rule in progress at the position. -/
def seedAt (seeds : List Seed) (rule : RuleId) (pos : Nat) : Option Seed :=
  seeds.find? fun seed => decide (seed.key = (rule, pos))

variable [PegValue CharT] (grammar : Grammar CharT NodeType) (input : List CharT)
  (matched : (Context CharT → Span → Option Span) → Nat → Option Nat → Prop)

/-- The answers within a depth of nested applications. -/
def seededWithin : Nat → List Seed → Option RuleId → RuleId → Nat → Option Nat → Prop
  | 0, _, _, _, _, _ => False
  | depth + 1, seeds, mode, rule, pos, outcome =>
      (∃ seed, seedAt seeds rule pos = some seed ∧ seed.outcome = outcome) ∨
      seedAt seeds rule pos = none ∧ ∃ body, grammar.body rule = some body ∧
        Grows (fun best result => Peg input matched (seededWithin depth) (⟨rule, pos, best⟩ :: seeds)
          mode (.expr body) pos result) pos none outcome

/-- The answer of a rule against the seeds of the rules in progress. -/
def Seeded (seeds : List Seed) (mode : Option RuleId) (rule : RuleId) (pos : Nat)
    (outcome : Option Nat) : Prop :=
  ∃ depth, seededWithin grammar input matched depth seeds mode rule pos outcome

variable {grammar input matched}

theorem seeded_deeper {depth deeper : Nat} (larger : depth ≤ deeper) (seeds : List Seed)
    (mode : Option RuleId) (rule : RuleId) (pos : Nat) (outcome : Option Nat)
    (answer : seededWithin grammar input matched depth seeds mode rule pos outcome) :
    seededWithin grammar input matched deeper seeds mode rule pos outcome := by
  induction depth generalizing deeper seeds mode rule pos outcome with
  | zero => exact answer.elim
  | succ depth induction =>
      obtain ⟨more, rfl⟩ : ∃ more, deeper = more + 1 := ⟨deeper - 1, by omega⟩
      refine answer.imp id fun ⟨idle, body, assigned, grows⟩ => ⟨idle, body, assigned, ?_⟩
      exact grows.mono fun best result peg =>
        peg_mono id (fun _ _ _ => id) (induction (by omega)) peg

theorem seeded_of_seed {seeds : List Seed} {mode : Option RuleId} {rule : RuleId} {pos : Nat}
    {seed : Seed} (found : seedAt seeds rule pos = some seed) :
    Seeded grammar input matched seeds mode rule pos seed.outcome :=
  ⟨1, Or.inl ⟨seed, found, rfl⟩⟩

theorem seeded_of_grown {seeds : List Seed} {mode : Option RuleId} {rule : RuleId} {pos : Nat}
    {outcome : Option Nat} (idle : seedAt seeds rule pos = none) {body : Expr CharT}
    (assigned : grammar.body rule = some body)
    (grows : Grows (fun best result => Peg input matched (Seeded grammar input matched)
      (⟨rule, pos, best⟩ :: seeds) mode (.expr body) pos result) pos none outcome) :
    Seeded grammar input matched seeds mode rule pos outcome := by
  have staged := grows.mono fun best result peg => peg_directed seeded_deeper peg
  have rises : ∀ {depth deeper : Nat}, depth ≤ deeper → ∀ best result,
      Peg input matched (seededWithin grammar input matched depth) (⟨rule, pos, best⟩ :: seeds) mode
        (.expr body) pos result →
      Peg input matched (seededWithin grammar input matched deeper) (⟨rule, pos, best⟩ :: seeds) mode
        (.expr body) pos result :=
    fun larger _ _ peg => peg_mono id (fun _ _ _ => id) (seeded_deeper larger) peg
  obtain ⟨depth, grown⟩ := grows_directed rises staged
  exact ⟨depth + 1, Or.inr ⟨idle, body, assigned, grown⟩⟩

theorem seeded_unique
    (functional : ∀ fn pos first second, matched fn pos first → matched fn pos second →
      first = second)
    {seeds : List Seed} {mode : Option RuleId} {rule : RuleId} {pos : Nat} {first second : Option Nat}
    (left : Seeded grammar input matched seeds mode rule pos first)
    (right : Seeded grammar input matched seeds mode rule pos second) : first = second := by
  obtain ⟨depth, left⟩ := left
  obtain ⟨depth', right⟩ := right
  induction depth generalizing depth' seeds mode rule pos first second with
  | zero => exact left.elim
  | succ depth induction =>
      cases depth' with
      | zero => exact right.elim
      | succ depth' =>
          rcases left with ⟨seed, found, rfl⟩ | ⟨idle, body, assigned, grows⟩
          · rcases right with ⟨seed', found', rfl⟩ | ⟨idle', -⟩
            · rw [Option.some.inj (found.symm.trans found')]
            · rw [found] at idle'
              cases idle'
          · rcases right with ⟨seed', found', -⟩ | ⟨-, body', assigned', grows'⟩
            · rw [idle] at found'
              cases found'
            · obtain rfl := Option.some.inj (assigned.symm.trans assigned')
              refine grows.unique (fun best result result' peg peg' => ?_) grows'
              exact peg_unique id functional
                (fun _ _ _ _ _ _ found found' => induction found _ found') peg peg'

end Semantics

section Rows

def rowOutcome (row : RuleState) : Option Nat :=
  if row.cachedResult.success then some row.lastPos else none

theorem row_outcome_of_shows {row : RuleState} {pos : Nat} {outcome : Option Nat}
    (shown : Shows row pos outcome) : rowOutcome row = outcome := by
  obtain ⟨success, last⟩ := shown
  unfold rowOutcome
  cases outcome with
  | none => rw [if_neg (by simp [success])]
  | some stop => rw [if_pos (by simp [success]), last, Option.getD_some]

/-- The rules in progress with their seeds, which are their rows. -/
def currentSeeds (context : Context CharT) : List Seed :=
  (active context).map fun key => ⟨key.1, key.2, rowOutcome (context.memoGet key.1 key.2)⟩

variable [PegValue CharT] (grammar : Grammar CharT NodeType) (input : List CharT)
  (matched : (Context CharT → Span → Option Span) → Nat → Option Nat → Prop)

/-- A row that answers for a rule not in progress holds what the rule answers against
the seeds of the rules in progress. -/
def Current (moment : Moment CharT) : Prop :=
  match moment.event with
  | .apply rule => moment.context.lrInProgress rule moment.context.position = false →
      ∀ row, moment.context.mem moment.context.position rule = some row →
        ∃ outcome, Shows row moment.context.position outcome ∧
          Seeded grammar input matched (currentSeeds moment.context) (mode moment.context) rule
            moment.context.position outcome
  | _ => True

/-- The contract of runs that consult current rows. -/
abbrev current : Contract (Moment CharT) (Context CharT) Exn :=
  keeping (Current grammar input matched)

/-- Nothing is asked of the rows of rules that are not in progress. -/
abbrev Sown (input : List CharT) (skipper : Option RuleId) : List Seed → Context CharT → Prop :=
  Planted input skipper fun _ _ _ => True

end Rows

section Runs

variable [PegValue CharT] {grammar : Grammar CharT NodeType} {input : List CharT}
  {matched : (Context CharT → Span → Option Span) → Nat → Option Nat → Prop}
  {skipper : Option RuleId} {held : List Seed} {context : Context CharT} {rule : RuleId}

omit [PegValue CharT] in
theorem sown_current (sown : Sown input skipper held context) : currentSeeds context = held := by
  have each : ∀ seed ∈ held, rowOutcome (context.memoGet seed.rule seed.pos) = seed.outcome := by
    intro seed member
    obtain ⟨row, present, shown⟩ := sown.seeds seed member
    rw [Context.memoGet, present, Option.getD_some, row_outcome_of_shows shown]
  rw [currentSeeds, sown.active, List.map_map]
  refine (List.map_congr_left fun seed member => ?_).trans (List.map_id held)
  simp only [Function.comp_apply, Seed.key, each seed member, id]

theorem seed_at_none {pos : Nat} : seedAt held rule pos = none ↔ (rule, pos) ∉ held.map Seed.key := by
  simp only [seedAt, List.find?_eq_none, decide_eq_true_eq, List.mem_map, not_exists, not_and]

/-- A row that is present answers for its rule: a seed, or a current row. -/
theorem sown_hit {row : RuleState} (sown : Sown input skipper held context)
    (met : Current grammar input matched ⟨.apply rule, context⟩)
    (present : context.mem context.position rule = some row) :
    ∃ outcome, Shows row context.position outcome ∧
      Seeded grammar input matched held (mode context) rule context.position outcome := by
  by_cases inProgress : context.lrInProgress rule context.position = true
  · have member := sown.in_progress.mp inProgress
    cases found : seedAt held rule context.position with
    | none => exact absurd member (seed_at_none.mp found)
    | some seed =>
        have key : seed.key = (rule, context.position) := by simpa using List.find?_some found
        obtain ⟨row', present', shown⟩ := sown.seeds seed (List.mem_of_find?_eq_some found)
        obtain ⟨rfl, at_pos⟩ := Prod.mk.inj key
        rw [at_pos, present] at present'
        obtain rfl := Option.some.inj present'
        exact ⟨seed.outcome, at_pos ▸ shown, seeded_of_seed found⟩
  · have answered := met (by simpa using inProgress) row present
    rwa [sown_current sown] at answered

theorem apply_seeded (cutFree : CutFree grammar)
    (faithful : ∀ rule body, grammar.body rule = some body → body.Every (Faithful input matched))
    (set : skipper = none ∨ skipper = grammar.skipper) (fuel : Nat) (rule : RuleId)
    (assigned : (grammar.body rule).isSome = true) (held : List Seed) :
    Evaluates (current grammar input matched) (Sown input skipper held) (grammar.apply fuel rule)
      fun mode pos outcome => Seeded grammar input matched held mode rule pos outcome := by
  induction fuel generalizing rule held with
  | zero => exact fun _ _ => trivial
  | succ fuel induction =>
      obtain ⟨body, given⟩ := Option.isSome_iff_exists.mp assigned
      rw [Grammar.apply, given, Option.map_some]
      have evaluates : ∀ held, Evaluates (current grammar input matched) (Sown input skipper held)
          (body.parse (grammar.apply fuel) fuel) fun mode pos result =>
            Peg input matched (Seeded grammar input matched) held mode (.expr body) pos result := by
        intro held
        refine expr_evaluates (planted_invariant held) (fun id present => induction id present held)
          ?_ fuel ?_
        · intro context sown id configured
          rw [sown.skipper] at configured
          rcases set with rfl | rfl
          · cases configured
          · exact cutFree.skipper id configured
        · refine (Expr.Every.and (cutFree.bodies rule body given) (faithful rule body given)).mono
            fun part holds => ?_
          cases part with
          | cut => exact holds.1.elim
          | rule id => exact holds.1
          | matcher fn => exact fun context sown => holds.2 context sown.source
          | _ => trivial
      refine parse_evaluates (cutFree.recovers rule)
        (fun pos outcome => evaluates (⟨rule, pos, outcome⟩ :: held))
        (expr_stable (apply_stable grammar fuel) fuel body) fuel
        (fun context row sown met present => sown_hit sown met present) ?_
      intro context final _ _ outside grows
      exact ⟨seeded_of_grown (seed_at_none.mpr outside) given grows, fun _ _ => trivial⟩

end Runs

section Histories

variable [PegValue CharT] {grammar : Grammar CharT NodeType} {input : List CharT}
  {meets : Moment CharT → Prop} {context : Context CharT}

/-- Between two parses no rule is in progress and no scope is open. -/
theorem history_sown (history : History grammar input meets context) :
    Sown input context.skipper [] context := by
  have idle : context.input = input ∧ context.lrStack = [] ∧ context.cutStack = [] := by
    induction history with
    | fresh => exact ⟨rfl, rfl, rfl⟩
    | adjusted _ source _ lrStack cutStack _ earlier =>
        exact ⟨source.trans earlier.1, lrStack.trans earlier.2.1, cutStack.trans earlier.2.2⟩
    | @applied before fuel rule _ _ _ ended earlier =>
        obtain ⟨result, returned⟩ := ended
        have step := (apply_stable grammar fuel rule).returned returned
        refine ⟨step.input.trans earlier.1, ?_, ?_⟩
        · exact List.length_eq_zero_iff.mp (step.lr_length.trans (by simp [earlier.2.1]))
        · exact List.length_eq_zero_iff.mp (step.depth.trans (by simp [earlier.2.2]))
  obtain ⟨source, frames, scopes⟩ := idle
  exact ⟨source, rfl, by simp [scopes], by simp [active, frames], List.nodup_nil, by simp, by simp⟩

/-- Where the memo is consulted only for current rows, a rule delivers its own answer. -/
theorem current_delivers (pure : Pure grammar) (history : History grammar input meets context)
    (set : context.skipper = none ∨ context.skipper = grammar.skipper)
    (inside : context.position ≤ input.length) {rule : RuleId}
    (assigned : (grammar.body rule).isSome = true)
    (met : ∀ fuel, ∀ moment ∈ (grammar.apply fuel rule context).trace,
      Current grammar input (reading input) moment) :
    Delivers grammar rule context
      (Seeded grammar input (reading input) [] (mode context) rule context.position) := by
  have faithful : ∀ id body, grammar.body id = some body →
      body.Every (Faithful input (reading input)) := fun id body given =>
    matcher_faithful (pure.matchers id body given)
  have runs := fun fuel => apply_seeded pure.cutFree faithful set fuel rule assigned [] context
    (history_sown history)
  exact delivers_of_answers pure.in_range (history_visited history) inside
    (fun fuel => wp_post (runs fuel) fun _ _ met => met.2.2) met (fun _ => id) (fun _ _ => id)
    fun _ _ => seeded_unique (reading_functional input)

end Histories

end Peglib.SeededAnswers
