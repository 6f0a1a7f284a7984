import Peglib.PegSemantics
import Peglib.Rules

/-!
# The meaning of rules

Two readings of rule applications. The plain one evaluates the body of the rule
at the position. The other one grows a seed: while the body of a rule is
evaluated, the same rule at the same position answers with the seed, and the
body is evaluated again as long as it ends further on. Answers are stratified by
the depth of nested applications; a position where the nesting never ends has
none. Where no rule comes back to itself the two readings agree.
-/

namespace Peglib.GrowthSemantics

open Peglib.ParseError Peglib.ParseContext Peglib.Expressions Peglib.Rules Peglib.PegSemantics

set_option autoImplicit false

section Growth

/-- The growth of a seed from `best` on, where `evaluates` relates a seed to
what the body makes of it. -/
inductive Grows (evaluates : Option Nat → Option Nat → Prop) (start : Nat) :
    Option Nat → Option Nat → Prop
  | failed {best} : evaluates best none → Grows evaluates start best best
  | stuck {best stop} : evaluates best (some stop) → stop ≤ best.getD start →
      Grows evaluates start best (some (best.getD start))
  | more {best stop outcome} : evaluates best (some stop) → best.getD start < stop →
      Grows evaluates start (some stop) outcome → Grows evaluates start best outcome

variable {evaluates evaluates' : Option Nat → Option Nat → Prop} {start : Nat}

theorem Grows.mono (weaker : ∀ best result, evaluates best result → evaluates' best result)
    {best outcome : Option Nat} (grows : Grows evaluates start best outcome) :
    Grows evaluates' start best outcome := by
  induction grows with
  | failed found => exact .failed (weaker _ _ found)
  | stuck found behind => exact .stuck (weaker _ _ found) behind
  | more found ahead _ induction => exact .more (weaker _ _ found) ahead induction

theorem Grows.unique
    (functional : ∀ best first second, evaluates best first → evaluates' best second →
      first = second)
    {best first : Option Nat} (left : Grows evaluates start best first) :
    ∀ {second : Option Nat}, Grows evaluates' start best second → first = second := by
  induction left with
  | failed found =>
      intro second right
      cases right with
      | failed _ => rfl
      | stuck other _ | more other _ _ => cases functional _ _ _ found other
  | stuck found behind =>
      intro second right
      cases right with
      | failed other => cases functional _ _ _ found other
      | stuck _ _ => rfl
      | more other ahead _ =>
          obtain rfl := Option.some.inj (functional _ _ _ found other)
          omega
  | more found ahead _ induction =>
      intro second right
      cases right with
      | failed other => cases functional _ _ _ found other
      | stuck other behind =>
          obtain rfl := Option.some.inj (functional _ _ _ found other)
          omega
      | more other _ rest =>
          obtain rfl := Option.some.inj (functional _ _ _ found other)
          exact induction rest

theorem grows_directed {chain : Nat → Option Nat → Option Nat → Prop}
    (increasing : ∀ {depth deeper}, depth ≤ deeper → ∀ best result,
      chain depth best result → chain deeper best result)
    {best outcome : Option Nat}
    (grows : Grows (fun best result => ∃ depth, chain depth best result) start best outcome) :
    ∃ depth, Grows (chain depth) start best outcome := by
  induction grows with
  | failed found => exact found.imp fun _ => .failed
  | stuck found behind => exact found.imp fun _ evaluated => .stuck evaluated behind
  | more found ahead _ induction =>
      obtain ⟨depth, evaluated⟩ := found
      obtain ⟨depth', rest⟩ := induction
      refine ⟨max depth depth', .more (increasing (Nat.le_max_left _ _) _ _ evaluated) ahead ?_⟩
      exact rest.mono (increasing (Nat.le_max_right _ _))

/-- A body that takes no notice of the seed needs no growth. -/
theorem grows_settled {evaluates : Option Nat → Prop}
    (forward : ∀ stop, evaluates (some stop) → start ≤ stop) {best outcome : Option Nat}
    (grows : Grows (fun _ => evaluates) start best outcome)
    (seeded : best = none ∨ evaluates best) : evaluates outcome := by
  induction grows with
  | failed found =>
      rcases seeded with rfl | held
      · exact found
      · exact held
  | @stuck best stop found behind =>
      cases best with
      | none =>
          have ahead := forward _ found
          obtain rfl : stop = start := by
            rw [Option.getD_none] at behind
            omega
          exact found
      | some seed => exact seeded.elim nofun id
  | more found _ _ induction => exact induction (Or.inr found)

end Growth

variable {CharT NodeType : Type}

/-- The rule innermost in progress, its position and its seed. -/
structure Seed where
  rule : RuleId
  pos : Nat
  outcome : Option Nat

def Seed.key (seed : Seed) : RuleId × Nat := (seed.rule, seed.pos)

section Answers

variable [PegValue CharT] (grammar : Grammar CharT NodeType) (input : List CharT)
  (matched : (Context CharT → Span → Option Span) → Nat → Option Nat → Prop) (reentry : Bool)

/-- The answers of a rule within a depth of nested applications; `reentry` says
whether a rule in progress answers at all. -/
def answersWithin : Nat → Option Seed → Option RuleId → RuleId → Nat → Option Nat → Prop
  | 0, _, _, _, _, _ => False
  | depth + 1, env, mode, rule, pos, outcome =>
      if env.map Seed.key = some (rule, pos) then reentry = true ∧ env.bind Seed.outcome = outcome
      else ∃ body, grammar.body rule = some body ∧
        Grows (fun best result => Peg input matched (answersWithin depth) (some ⟨rule, pos, best⟩)
          mode (.expr body) pos result) pos none outcome

def Answer (env : Option Seed) (mode : Option RuleId) (rule : RuleId) (pos : Nat)
    (outcome : Option Nat) : Prop :=
  ∃ depth, answersWithin grammar input matched reentry depth env mode rule pos outcome

omit reentry in
/-- The plain reading, with no growth. -/
def plainWithin : Nat → Unit → Option RuleId → RuleId → Nat → Option Nat → Prop
  | 0, _, _, _, _, _ => False
  | depth + 1, _, mode, rule, pos, outcome => ∃ body, grammar.body rule = some body ∧
      Peg input matched (plainWithin depth) () mode (.expr body) pos outcome

def PegAnswer (env : Unit) (mode : Option RuleId) (rule : RuleId) (pos : Nat)
    (outcome : Option Nat) : Prop :=
  ∃ depth, plainWithin grammar input matched depth env mode rule pos outcome

variable {grammar input matched reentry}

theorem answers_deeper {depth deeper : Nat} (larger : depth ≤ deeper) (env : Option Seed)
    (mode : Option RuleId) (rule : RuleId) (pos : Nat) (outcome : Option Nat)
    (answer : answersWithin grammar input matched reentry depth env mode rule pos outcome) :
    answersWithin grammar input matched reentry deeper env mode rule pos outcome := by
  induction depth generalizing deeper env mode rule pos outcome with
  | zero => exact answer.elim
  | succ depth induction =>
      obtain ⟨more, rfl⟩ : ∃ more, deeper = more + 1 := ⟨deeper - 1, by omega⟩
      unfold answersWithin at answer ⊢
      split_ifs at answer ⊢
      · exact answer
      · obtain ⟨body, assigned, grows⟩ := answer
        refine ⟨body, assigned, grows.mono fun best result peg => ?_⟩
        exact peg_mono id (fun _ _ _ => id) (induction (by omega)) peg

theorem plain_deeper {depth deeper : Nat} (larger : depth ≤ deeper) (env : Unit)
    (mode : Option RuleId) (rule : RuleId) (pos : Nat) (outcome : Option Nat)
    (answer : plainWithin grammar input matched depth env mode rule pos outcome) :
    plainWithin grammar input matched deeper env mode rule pos outcome := by
  induction depth generalizing deeper env mode rule pos outcome with
  | zero => exact answer.elim
  | succ depth induction =>
      obtain ⟨more, rfl⟩ : ∃ more, deeper = more + 1 := ⟨deeper - 1, by omega⟩
      obtain ⟨body, assigned, peg⟩ := answer
      exact ⟨body, assigned, peg_mono id (fun _ _ _ => id) (induction (by omega)) peg⟩

theorem peg_deeper {depth deeper : Nat} (larger : depth ≤ deeper) {env : Option Seed}
    {mode : Option RuleId} {task : Pending CharT} {pos : Nat} {outcome : Option Nat}
    (peg : Peg input matched (answersWithin grammar input matched reentry depth) env mode task pos outcome) :
    Peg input matched (answersWithin grammar input matched reentry deeper) env mode task pos outcome :=
  peg_mono id (fun _ _ _ => id) (answers_deeper larger) peg

theorem answer_seed (allowed : reentry = true) {seed : Seed} {mode : Option RuleId} :
    Answer grammar input matched reentry (some seed) mode seed.rule seed.pos seed.outcome :=
  ⟨1, (if_pos rfl).mpr ⟨allowed, rfl⟩⟩

/-- Any other rule answers with its own growth, whatever is in progress. -/
theorem answer_grown {env : Option Seed} {mode : Option RuleId} {rule : RuleId} {pos : Nat}
    {outcome : Option Nat} (other : env.map Seed.key ≠ some (rule, pos)) :
    Answer grammar input matched reentry env mode rule pos outcome ↔
      ∃ body, grammar.body rule = some body ∧
        Grows (fun best result => Peg input matched (Answer grammar input matched reentry)
          (some ⟨rule, pos, best⟩) mode (.expr body) pos result) pos none outcome := by
  constructor
  · rintro ⟨depth, answer⟩
    cases depth with
    | zero => exact answer.elim
    | succ depth =>
        unfold answersWithin at answer
        rw [if_neg other] at answer
        obtain ⟨body, assigned, grows⟩ := answer
        refine ⟨body, assigned, grows.mono fun best result peg => ?_⟩
        exact peg_mono id (fun _ _ _ => id) (fun _ _ _ _ _ found => ⟨depth, found⟩) peg
  · rintro ⟨body, assigned, grows⟩
    have staged := grows.mono fun best result peg => peg_directed answers_deeper peg
    have rises : ∀ {depth deeper : Nat}, depth ≤ deeper → ∀ best result,
        Peg input matched (answersWithin grammar input matched reentry depth) (some ⟨rule, pos, best⟩) mode
          (.expr body) pos result →
        Peg input matched (answersWithin grammar input matched reentry deeper) (some ⟨rule, pos, best⟩) mode
          (.expr body) pos result := fun larger _ _ => peg_deeper larger
    obtain ⟨depth, grown⟩ := grows_directed rises staged
    refine ⟨depth + 1, ?_⟩
    unfold answersWithin
    rw [if_neg other]
    exact ⟨body, assigned, grown⟩

theorem answer_free {env : Option Seed} {mode : Option RuleId} {rule : RuleId} {pos : Nat}
    {outcome : Option Nat} (other : env.map Seed.key ≠ some (rule, pos)) :
    Answer grammar input matched reentry env mode rule pos outcome ↔
      Answer grammar input matched reentry none mode rule pos outcome := by
  rw [answer_grown other, answer_grown (by simp)]

theorem peg_answer_iff {env : Unit} {mode : Option RuleId} {rule : RuleId} {pos : Nat}
    {outcome : Option Nat} :
    PegAnswer grammar input matched env mode rule pos outcome ↔
      ∃ body, grammar.body rule = some body ∧
        Peg input matched (PegAnswer grammar input matched) () mode (.expr body) pos outcome := by
  constructor
  · rintro ⟨depth, answer⟩
    cases depth with
    | zero => exact answer.elim
    | succ depth =>
        obtain ⟨body, assigned, peg⟩ := answer
        exact ⟨body, assigned,
          peg_mono id (fun _ _ _ => id) (fun _ _ _ _ _ found => ⟨depth, found⟩) peg⟩
  · rintro ⟨body, assigned, peg⟩
    obtain ⟨depth, staged⟩ := peg_directed plain_deeper peg
    exact ⟨depth + 1, body, assigned, staged⟩

variable (functional : ∀ fn pos first second, matched fn pos first → matched fn pos second →
  first = second)

include functional

theorem answer_unique {env : Option Seed} {mode : Option RuleId} {rule : RuleId} {pos : Nat}
    {first second : Option Nat} (left : Answer grammar input matched reentry env mode rule pos first)
    (right : Answer grammar input matched reentry env mode rule pos second) : first = second := by
  obtain ⟨depth, left⟩ := left
  obtain ⟨depth', right⟩ := right
  induction depth generalizing depth' env mode rule pos first second with
  | zero => exact left.elim
  | succ depth induction =>
      cases depth' with
      | zero => exact right.elim
      | succ depth' =>
          unfold answersWithin at left right
          split_ifs at left right
          · exact left.2.symm.trans right.2
          · obtain ⟨body, assigned, grows⟩ := left
            obtain ⟨body', assigned', grows'⟩ := right
            obtain rfl := Option.some.inj (assigned.symm.trans assigned')
            refine grows.unique (fun best result result' peg peg' => ?_) grows'
            exact peg_unique id functional
              (fun _ _ _ _ _ _ found found' => induction found _ found') peg peg'

theorem peg_answer_unique {env : Unit} {mode : Option RuleId} {rule : RuleId} {pos : Nat}
    {first second : Option Nat} (left : PegAnswer grammar input matched env mode rule pos first)
    (right : PegAnswer grammar input matched env mode rule pos second) : first = second := by
  obtain ⟨depth, left⟩ := left
  obtain ⟨depth', right⟩ := right
  induction depth generalizing depth' env mode rule pos first second with
  | zero => exact left.elim
  | succ depth induction =>
      cases depth' with
      | zero => exact right.elim
      | succ depth' =>
          obtain ⟨body, assigned, peg⟩ := left
          obtain ⟨body', assigned', peg'⟩ := right
          obtain rfl := Option.some.inj (assigned.symm.trans assigned')
          exact peg_unique id functional
            (fun _ _ _ _ _ _ found found' => induction found _ found') peg peg'

omit functional in
/-- Where no rule comes back to itself, growth changes nothing. -/
theorem peg_of_answer (forward : ∀ fn pos stop, matched fn pos (some stop) → pos ≤ stop)
    {env : Option Seed} {mode : Option RuleId} {rule : RuleId} {pos : Nat} {outcome : Option Nat}
    (answer : Answer grammar input matched false env mode rule pos outcome) :
    PegAnswer grammar input matched () mode rule pos outcome := by
  have ahead : ∀ (env : Unit) (mode : Option RuleId) (rule : RuleId) (pos stop : Nat),
      PegAnswer grammar input matched env mode rule pos (some stop) → pos ≤ stop := by
    rintro env mode rule pos stop ⟨depth, plain⟩
    induction depth generalizing env mode rule pos stop with
    | zero => exact plain.elim
    | succ depth induction =>
        obtain ⟨body, assigned, peg⟩ := plain
        exact peg_travels forward_travel forward induction peg rfl
  obtain ⟨depth, answer⟩ := answer
  induction depth generalizing env mode rule pos outcome with
  | zero => exact answer.elim
  | succ depth induction =>
      unfold answersWithin at answer
      split_ifs at answer
      · cases answer.1
      · obtain ⟨body, assigned, grows⟩ := answer
        have plain := grows.mono fun best result peg =>
          peg_mono (fun _ => ()) (fun _ _ _ => id) (fun _ _ _ _ _ => induction) peg
        refine peg_answer_iff.mpr ⟨body, assigned, grows_settled ?_ plain (Or.inl rfl)⟩
        exact fun stop peg => peg_travels forward_travel forward ahead peg rfl

end Answers

end Peglib.GrowthSemantics
