import Peglib.Operators
import Peglib.PointwiseSteps

/-!
# Operators that collapse

`*` and `+` leave a tree of their own class as it is. For the term's result that is
right if and only if the repetition, run again where it stopped, comes to rest.
Below other operators what follows also sees what the second run leaves, which has
to be nothing.
-/

namespace Peglib.CollapsingOperators

open Peglib.TracedComputation Peglib.WeakestPrecondition Peglib.Coupling Peglib.Halting
open Peglib.ParseError Peglib.ParseContext Peglib.Expressions Peglib.Rules
open Peglib.SuccessfulAnswers Peglib.Termination Peglib.Repetitions Peglib.ExactRepetition
open Peglib.PointwiseSteps Peglib.Lockstep Peglib.NodeBlindness Peglib.NestedRepetitions Peglib.Operators

set_option autoImplicit false

variable {CharT NodeType : Type}

section Verdicts

/-- What a run says about a match: nothing, an exception, or a flag. -/
def verdict (run : Run (Moment CharT) (Context CharT) Exn ParseResult) : Option (Option Bool) :=
  match run.outcome with
  | .returned result => some (some result.success)
  | .thrown _ => some none
  | .exhausted => none

variable {left right : Run (Moment CharT) (Context CharT) Exn ParseResult}

theorem same_result_iff : SameResult left right ↔ verdict left = verdict right ∧
    ∀ flag, verdict left = some (some flag) → left.state.position = right.state.position := by
  rcases left with ⟨outcome, state, log⟩
  rcases right with ⟨outcome', state', log'⟩
  cases outcome <;> cases outcome' <;> simp [SameResult, EndAlike, verdict, SameSuccess]

theorem same_result_trans {third : Run (Moment CharT) (Context CharT) Exn ParseResult}
    (first : SameResult left right) (second : SameResult right third) : SameResult left third :=
  EndAlike.trans first second (fun _ _ _ same same' => same.trans same')
    fun _ _ _ same same' => same.trans same'

theorem covers_of_same (same : SameResult left right) : Covers left right := by
  rcases left with ⟨outcome, state, log⟩
  rcases right with ⟨outcome', state', log'⟩
  cases outcome <;> cases outcome' <;>
    first
      | exact same.elim
      | trivial
      | exact ⟨same.1, Nat.le_of_eq same.2⟩

variable {middle : Run (Moment CharT) (Context CharT) Exn ParseResult}

theorem covers_trans (first : Covers left middle) (second : Covers middle right) :
    Covers left right := by
  rcases left with ⟨outcome, state, log⟩
  rcases middle with ⟨outcome', state', log'⟩
  rcases right with ⟨outcome'', state'', log''⟩
  cases outcome <;> cases outcome' <;> cases outcome'' <;>
    first
      | exact first.elim
      | exact second.elim
      | trivial
      | exact ⟨first.1.trans second.1, first.2.trans second.2⟩

theorem same_between (first : Covers left middle) (second : Covers middle right)
    (same : SameResult left right) : SameResult left middle ∧ SameResult middle right := by
  rcases left with ⟨outcome, state, log⟩
  rcases middle with ⟨outcome', state', log'⟩
  rcases right with ⟨outcome'', state'', log''⟩
  cases outcome <;> cases outcome' <;> cases outcome'' <;>
    first
      | exact first.elim
      | exact second.elim
      | exact same.elim
      | exact ⟨trivial, trivial⟩
      | skip
  have ends : state.position = state''.position := same.2
  have upper : state'.position ≤ state''.position := second.2
  have met : state.position = state'.position := Nat.le_antisymm first.2 (ends ▸ upper)
  exact ⟨⟨first.1, met⟩, second.1, met.symm.trans ends⟩

end Verdicts

section Anywhere

variable [PegValue CharT] {built written : Grammar CharT NodeType} {fuel : Nat}

/-- Wherever the term as it is written comes to a repetition that the operators
leave out, the one inside settles. -/
def Settled (written : Grammar CharT NodeType) (fuel : Nat) : Term CharT → Context CharT → Prop
  | .operand _, _ => True
  | .shr left right, context =>
      Settled written fuel left (sequenceStart context) ∧
        ∀ result here log, written.eval fuel left.written (sequenceStart context) =
            ⟨.returned result, here, log⟩ → result.success = true →
          Settled written fuel right (pushChild context.makeNode.1 result.tree here)
  | .bar left right, context =>
      Settled written fuel left context.initCut ∧
        ∀ result here log, written.eval fuel left.written context.initCut =
            ⟨.returned result, here, log⟩ → result.success = false → here.cut = false →
          Settled written fuel right here
  | .rep kind child, context =>
      (Term.Collapses kind child → Settled written fuel child context ∧
        Settles (written.eval fuel child.written) context) ∧
      (¬Term.Collapses kind child → ∀ count last here, count < fuel →
        Matched (runSkipper (written.apply fuel)) (written.eval fuel child.written)
          context.initCut.makeNode.1 (entered context) count last here →
        (∀ earlier ≤ count, boundReached kind.maxRep earlier = false) →
        Settled written fuel child (here.setCut false))
  | .bang child, context => Settled written fuel child context
  | .amp child, context => Settled written fuel child context
  | .lexeme child, context => Settled written fuel child { context with skipEnabled := false }

theorem plain_settled {term : Term CharT} (plain : term.Plain) (context : Context CharT) :
    Settled written fuel term context := by
  induction term generalizing context with
  | operand expr => trivial
  | shr left right left_ih right_ih =>
      exact ⟨left_ih plain.1 _, fun _ _ _ _ _ => right_ih plain.2 _⟩
  | bar left right left_ih right_ih =>
      exact ⟨left_ih plain.1 _, fun _ _ _ _ _ _ => right_ih plain.2 _⟩
  | rep kind child induction =>
      refine ⟨fun own => ?_, fun _ _ _ _ _ _ _ => induction plain.1 _⟩
      obtain ⟨loop, part, tree⟩ := own
      exact absurd tree (plain.2 loop part)
  | bang child induction => exact induction plain.1 context
  | amp child induction => exact induction plain.1 context
  | lexeme child induction => exact induction plain _

omit [PegValue CharT] in
theorem compiled_repetition {kind : RepKind} {term : Term CharT} (compiles : term.Compiles)
    {part : Expr CharT} (tree : term.tree = .repetition kind part) :
    ∃ inner, term.written = .repetition kind inner := by
  cases term with
  | operand expr => exact ⟨part, tree⟩
  | rep kind' child =>
      rw [Term.tree] at tree
      rcases operator_of_cases kind' child.tree with node | ⟨same, other, own⟩
      · rw [node] at tree
        cases tree
        exact ⟨child.written, rfl⟩
      · rw [same, own] at tree
        cases tree
        exact ⟨child.written, rfl⟩
  | shr left right =>
      rw [Term.tree, operator_shr_eq] at tree
      cases tree
  | bar left right =>
      rw [Term.tree, operator_bar_eq] at tree
      cases tree
  | bang child =>
      rw [Term.tree, operator_not_other compiles.2] at tree
      cases tree
  | amp child =>
      rw [Term.tree, operator_and_other compiles.2] at tree
      cases tree
  | lexeme child => cases tree

theorem loop_bounds {kind : RepKind} (loop : Loop kind) : kind.maxRep < 0 ∧ kind.minRep ≤ 1 := by
  rcases loop with rfl | rfl <;> decide

omit [PegValue CharT] in
theorem same_beyond {scopes nearBase farBase : List CutRecord} {depth : Nat}
    {near mid far : Context CharT} (left : SameButNodes nearBase farBase depth near mid)
    (right : SameButNodes scopes scopes 0 mid far) : SameButNodes nearBase farBase depth near far where
  same := by
    have nearly := left.same
    rw [right.same] at nearly
    exact nearly
  skipper := right.skipper
  rows := fun pos rule => rows_agree_trans (left.rows pos rule) (right.rows pos rule)
  scopes := by
    obtain ⟨own, own', size, agree, nearly, midway⟩ := left.scopes
    obtain ⟨none, none', empty, both, midway', farly⟩ := right.scopes
    obtain rfl := List.eq_nil_of_length_eq_zero empty
    cases both
    exact ⟨own, own', size, agree, nearly, farly.trans (midway'.symm.trans midway)⟩

variable (spelt : Spelt built written) (blind : BlindRules written)

include spelt blind in
/-- The tree that the operators build is in step with the term wherever what they
leave out settles. -/
theorem settled_in_step {term : Term CharT} (compiles : term.Compiles)
    (every : term.written.Every NodeBlind) {far : Context CharT}
    (settled : Settled written fuel term far) :
    InStepAt (built.eval fuel term.tree) (written.eval fuel term.written) far := by
  have applies := apply_in_step (spelt.blind blind) fuel
  have idle : Idle (runSkipper (built.apply fuel)) := fun _ => skip_idle _
  have idle' : Idle (runSkipper (written.apply fuel)) := fun _ => skip_idle _
  induction term generalizing far with
  | operand expr =>
      have plain : (Term.operand expr).Plain := trivial
      exact InStep.here (spelt.evals blind fuel plain every) far
  | shr left right left_ih right_ih =>
      rw [Term.written] at every
      unfold Expr.Every at every
      obtain ⟨-, blind1, blind2, -⟩ := every
      have spliced := operator_shr_in_step applies fuel (tree_blind blind1) (tree_blind blind2)
      refine InStep.trans_at spliced ?_
      unfold Grammar.eval
      rw [Term.written, Expr.parse, Expr.parse]
      exact sequence_in_step_at idle idle' (left_ih compiles.1 blind1 settled.1)
        fun result here log run success =>
          right_ih compiles.2 blind2 (settled.2 result here log run success)
  | bar left right left_ih right_ih =>
      rw [Term.written] at every
      unfold Expr.Every at every
      obtain ⟨-, blind1, blind2, -⟩ := every
      have spliced := operator_bar_in_step applies fuel (tree_blind blind1) (tree_blind blind2)
      refine InStep.trans_at spliced ?_
      unfold Grammar.eval
      rw [Term.written, Expr.parse, Expr.parse]
      exact alternation_in_step_at (left_ih compiles.1 blind1 settled.1)
        fun result here log run failed uncommitted =>
          right_ih compiles.2 blind2 (settled.2 result here log run failed uncommitted)
  | rep kind child induction =>
      rw [Term.written] at every
      unfold Expr.Every at every
      by_cases own : Term.Collapses kind child
      · obtain ⟨below, settles⟩ := settled.1 own
        obtain ⟨loop, part, tree⟩ := own
        have inner : child.Compiles := compiles
        obtain ⟨body, shape⟩ := compiled_repetition inner tree
        have collapsed : (Term.rep kind child).tree = child.tree := by
          rw [Term.tree, tree, operator_of_own loop]
        obtain ⟨unbounded, few⟩ := loop_bounds loop
        have bodyEvery : (Expr.repetition kind body).Every NodeBlind := shape ▸ every.2
        unfold Expr.Every at bodyEvery
        rw [shape, eval_repetition] at settles
        intro nearBase farBase depth near aligned alike
        have first := induction inner every.2 below _ _ _ _ aligned alike
        have second := settling_alike idle' (eval_in_step blind fuel bodyEvery.2) unbounded few
          alike.skipper settles
        rw [← eval_repetition, ← eval_repetition, ← shape] at second
        rw [collapsed, Term.written]
        exact first.trans second (fun _ _ _ same same' => same.trans same') fun _ _ _ => same_beyond
      · have node : InStep (built.eval fuel (Term.rep kind child).tree)
            (built.eval fuel (.repetition kind child.tree)) := by
          rcases operator_of_cases kind child.tree with node | ⟨same, part, tree⟩
          · rw [Term.tree, node]
            exact expr_in_step applies fuel (repetition_blind kind (tree_blind every.2))
          · cases kind with
            | zeroOrMore => exact absurd ⟨Or.inl rfl, part, tree⟩ own
            | oneOrMore => exact absurd ⟨Or.inr rfl, part, tree⟩ own
            | nTimes count =>
                exact expr_in_step applies fuel (repetition_blind _ (tree_blind every.2))
            | optional => exact operator_minus_in_step applies fuel (tree_blind every.2)
        refine InStep.trans_at node ?_
        rw [Term.written, eval_repetition, eval_repetition]
        exact repetition_in_step_at idle idle' kind.minRep fun count last here bound matched below =>
          induction compiles every.2 (settled.2 own count last here bound matched below)
  | bang child induction =>
      rw [Term.written] at every
      unfold Expr.Every at every
      rw [Term.tree, operator_not_other compiles.2, Term.written]
      unfold Grammar.eval
      rw [Expr.parse, Expr.parse]
      exact predicate_in_step_at (induction compiles.1 every.2 settled) true
  | amp child induction =>
      rw [Term.written] at every
      unfold Expr.Every at every
      rw [Term.tree, operator_and_other compiles.2, Term.written]
      unfold Grammar.eval
      rw [Expr.parse, Expr.parse]
      exact predicate_in_step_at (induction compiles.1 every.2 settled) false
  | lexeme child induction =>
      rw [Term.written] at every
      unfold Expr.Every at every
      rw [Term.tree, Term.written]
      unfold Grammar.eval
      rw [Expr.parse, Expr.parse]
      exact lexeme_in_step_at (induction compiles every.2 settled)

end Anywhere

section Outermost

/-- Any number of one repetition operator over a plain term. -/
def Loops (kind : RepKind) : Term CharT → Prop
  | .rep kind' child => (kind' = kind ∧ Loops kind child) ∨ (Term.rep kind' child).Plain
  | term => term.Plain

/-- The operators that collapse do so at the top of the term only. -/
def AtTop (term : Term CharT) : Prop := ∃ kind, Loop kind ∧ Loops kind term

variable [PegValue CharT] {built written : Grammar CharT NodeType} {fuel : Nat}
  {context : Context CharT} {input : List CharT} {pending : List (RuleId × Nat)}

/-- When what the operators at the top of a term hand out stands for the term. -/
def Kept (written : Grammar CharT NodeType) (fuel : Nat) (context : Context CharT) :
    Term CharT → Prop
  | .rep kind child => Term.Collapses kind child →
      Kept written fuel context child ∧ Rests (written.eval fuel child.written) context
  | _ => True

theorem plain_kept {term : Term CharT} (plain : term.Plain) : Kept written fuel context term := by
  cases term with
  | rep kind child => exact fun own => absurd own.2.choose_spec (plain.2 own.1 _)
  | operand _ | shr _ _ | bar _ _ | bang _ | amp _ | lexeme _ => trivial

omit [PegValue CharT] in
theorem same_of_in_step {first second : Parser CharT ParseResult} (steps : InStep first second)
    (off : context.skipper = none) : SameResult (first context) (second context) := by
  have alike : SameButNodes [] [] context.cutStack.length context context :=
    same_refl off (List.append_nil _).symm
  exact EndAlike.weaken (steps [] [] _ (Or.inr ⟨rfl, rfl⟩) context context alike)
    (fun _ _ same => same) fun _ _ alike => alike.position

variable (fuel) in
theorem plain_same (spelt : Spelt built written) (blind : BlindRules written) {term : Term CharT}
    (plain : term.Plain) (every : term.written.Every NodeBlind) (off : context.skipper = none) :
    SameResult (built.eval fuel term.tree context) (written.eval fuel term.written context) :=
  same_of_in_step (spelt.evals blind fuel plain every) off

variable (spelt : Spelt built written) (blind : BlindRules written)

omit [PegValue CharT] in
theorem loops_compile {kind : RepKind} {term : Term CharT} (loops : Loops kind term) :
    term.Compiles := by
  induction term with
  | rep kind' child induction =>
      rcases loops with ⟨-, inner⟩ | plain
      · exact induction inner
      · exact plain.compiles
  | operand _ | shr _ _ | bar _ _ | bang _ | amp _ | lexeme _ => exact Term.Plain.compiles loops

omit [PegValue CharT] in
theorem loops_plain {kind : RepKind} (loop : Loop kind) {child : Term CharT}
    (loops : Loops kind child) (other : ∀ part, child.tree ≠ .repetition kind part) :
    (Term.rep kind child).Plain := by
  have plain : child.Plain := by
    cases child with
    | rep kind' inner =>
        rcases loops with ⟨rfl, -⟩ | plain
        · rcases operator_of_cases kind' inner.tree with node | ⟨same, part, own⟩
          · exact absurd node (other _)
          · exact absurd (same.trans own) (other part)
        · exact plain
    | operand _ | shr _ _ | bar _ _ | bang _ | amp _ | lexeme _ => exact loops
  exact ⟨plain, fun _ => other⟩

include spelt blind in
/-- A tower of loops: each level has to come to rest where it stops. -/
theorem loops_same_iff (inRange : InRange written) {kind : RepKind} (loop : Loop kind)
    {term : Term CharT} (loops : Loops kind term) (every : term.written.Every NodeBlind)
    (range : term.written.Every MatcherInRange) (ready : Ready input none pending context) :
    (SameResult (built.eval fuel term.tree context) (written.eval fuel term.written context) ↔
      Kept written fuel context term) ∧
    Covers (built.eval fuel term.tree context) (written.eval fuel term.written context) := by
  have off := ready.sound.skipper
  have plainly : ∀ {term : Term CharT}, term.Plain → term.written.Every NodeBlind →
      (SameResult (built.eval fuel term.tree context) (written.eval fuel term.written context) ↔
        Kept written fuel context term) ∧
      Covers (built.eval fuel term.tree context) (written.eval fuel term.written context) := by
    intro term plain every
    have same := plain_same fuel spelt blind plain every off
    exact ⟨iff_of_true same (plain_kept plain), covers_of_same same⟩
  obtain ⟨unbounded, few⟩ := loop_bounds loop
  induction term with
  | rep kind' child induction =>
      rcases loops with ⟨rfl, inner⟩ | plain
      · by_cases own : ∃ part, child.tree = .repetition kind' part
        · obtain ⟨part, tree⟩ := own
          obtain ⟨body, shape⟩ := compiled_repetition (loops_compile inner) tree
          rw [Term.written] at every range
          unfold Expr.Every at every range
          obtain ⟨below, onward⟩ := induction inner every.2 range.2
          have collapsed : (Term.rep kind' child).tree = child.tree := by
            rw [Term.tree, tree, operator_of_own loop]
          have bodyEvery : (Expr.repetition kind' body).Every NodeBlind := shape ▸ every.2
          have bodyRange : (Expr.repetition kind' body).Every MatcherInRange := shape ▸ range.2
          unfold Expr.Every at bodyEvery bodyRange
          have covers := @nested_covers _ fuel _ _ _ _ _ _ _ inRange bodyRange.2 blind bodyEvery.2
            unbounded few _ ready
          rw [← shape] at covers
          refine ⟨?_, ?_⟩
          · rw [collapsed, Term.written, Kept]
            constructor
            · intro same _
              obtain ⟨same', rests⟩ := same_between onward covers same
              rw [shape] at rests ⊢
              exact ⟨below.mp same', same_rests inRange bodyRange.2 blind bodyEvery.2 unbounded ready rests⟩
            · intro kept
              obtain ⟨kept', rests⟩ := kept ⟨loop, part, tree⟩
              refine same_result_trans (below.mpr kept') ?_
              rw [shape, eval_repetition] at rests ⊢
              rw [eval_repetition, eval_repetition]
              have idle : Idle (runSkipper (written.apply fuel)) := fun _ => skip_idle _
              exact resting_same idle (eval_in_step blind fuel bodyEvery.2) unbounded few off rests
          · rw [collapsed]
            exact covers_trans onward covers
        · exact plainly (loops_plain loop inner (not_exists.mp own)) every
      · exact plainly plain every
  | operand _ | shr _ _ | bar _ _ | bang _ | amp _ | lexeme _ => exact plainly loops every

end Outermost

section Meaning

variable [PegValue CharT] {built written : Grammar CharT NodeType} {context : Context CharT}
  {input : List CharT} {pending : List (RuleId × Nat)}

/-- The tree that the operators build comes to the flag and the end position of the
term as it is written if what they leave out settles wherever the term comes to it.
Where they leave out repetitions at the top only, it does if and only if each comes
to rest. -/
theorem operators_same_iff (spelt : Spelt built written) (blind : BlindRules written)
    (inRange : InRange written) (fuel : Nat) {term : Term CharT} (compiles : term.Compiles)
    (every : term.written.Every NodeBlind) (range : term.written.Every MatcherInRange)
    (ready : Ready input none pending context) :
    (Settled written fuel term context →
      SameResult (built.eval fuel term.tree context) (written.eval fuel term.written context)) ∧
    (AtTop term →
      (SameResult (built.eval fuel term.tree context) (written.eval fuel term.written context) ↔
        Kept written fuel context term)) := by
  have off := ready.sound.skipper
  constructor
  · intro settled
    have alike : SameButNodes [] [] context.cutStack.length context context :=
      same_refl off (List.append_nil _).symm
    have step := settled_in_step spelt blind compiles every settled [] [] _ context
      (Or.inr ⟨rfl, rfl⟩) alike
    exact step.weaken (fun _ _ => id) fun _ _ alike => alike.position
  · rintro ⟨kind, loop, loops⟩
    exact (loops_same_iff spelt blind inRange loop loops every range ready).1

/-- `*(*'a')`. -/
def starredTwice : Term UInt8 := .rep .zeroOrMore (.rep .zeroOrMore (.operand letter))

/-- `*(*'a') >> 'b'`. -/
def starredBelow : Term UInt8 := .shr starredTwice (.operand (.terminal (.value 98)))

theorem letters_settle : Settled ruleless 5 starredTwice (sequenceStart (Context.fresh (ascii "aab"))) := by
  have plain : (Term.rep .zeroOrMore (.operand letter)).Plain := ⟨trivial, fun _ _ => nofun⟩
  refine ⟨fun _ => ⟨plain_settled plain _, ?_⟩, fun other => ?_⟩
  · intro result after log run _
    obtain rfl : (ruleless.eval 5 (Term.rep .zeroOrMore (.operand letter)).written
        (sequenceStart (Context.fresh (ascii "aab")))).state = after := by rw [run]
    exact ⟨_, _, _, rfl, rfl, rfl, fun _ _ => rows_agree_refl _, [], [], rfl, .nil, rfl, rfl⟩
  · exact absurd ⟨Or.inl rfl, _, rfl⟩ other

theorem starred_twice_same_iff :
    SameResult (ruleless.eval 5 starredBelow.tree (Context.fresh (ascii "aab")))
        (ruleless.eval 5 starredBelow.written (Context.fresh (ascii "aab"))) ∧
      (SameResult (ruleless.eval 5 starredTwice.tree (Context.fresh (ascii "aab")))
          (ruleless.eval 5 starredTwice.written (Context.fresh (ascii "aab"))) ↔
        Kept ruleless 5 (Context.fresh (ascii "aab")) starredTwice) := by
  have ready : Ready (ascii "aab") none [] (Context.fresh (ascii "aab")) :=
    ⟨⟨rfl, rfl, nofun⟩, Nat.zero_le _, rfl⟩
  have spelt := spelt_refl ruleless
  have top : starredTwice.Compiles := trivial
  constructor
  · refine (operators_same_iff spelt (fun _ _ assigned => nomatch assigned)
      (fun _ _ assigned => nomatch assigned) 5 ?_ ?_ ?_ ready).1 ⟨letters_settle, fun _ _ _ _ _ => trivial⟩
    · exact ⟨trivial, trivial⟩
    · simp [starredBelow, starredTwice, Term.written, letter, Expr.Every, Expr.EveryAll, NodeBlind]
    · simp [starredBelow, starredTwice, Term.written, letter, Expr.Every, Expr.EveryAll, MatcherInRange]
  · refine (operators_same_iff spelt (fun _ _ assigned => nomatch assigned)
      (fun _ _ assigned => nomatch assigned) 5 top ?_ ?_ ready).2
      ⟨.zeroOrMore, Or.inl rfl, Or.inl ⟨rfl, Or.inl ⟨rfl, trivial⟩⟩⟩
    · simp [starredTwice, Term.written, letter, Expr.Every, NodeBlind]
    · simp [starredTwice, Term.written, letter, Expr.Every, MatcherInRange]

/-- `L = M | 'x'`, `M = L >> 'm'`, `D = D >> 'k' | 'x'`. -/
def staleRules : Grammar UInt8 Unit where
  rules := [
    (ascii "L", { body := some (.alternation [.rule 1, .terminal (.value 120)]) }),
    (ascii "M", { body := some (.sequence [.rule 0, .terminal (.value 109)]) }),
    (ascii "D", { body := some (.alternation [
      .sequence [.rule 2, .terminal (.value 107)], .terminal (.value 120)]) })]

/-- `*(*('z' | !M >> 'x' | D >> 'q' | L >> 'q'))`: where `L` has been parsed after `D`, the
row of `M` is another one than before. -/
def staleLoop : Term UInt8 :=
  .rep .zeroOrMore (.rep .zeroOrMore (.operand (.alternation [.terminal (.value 122),
    .sequence [.not (.rule 1), .terminal (.value 120)],
    .sequence [.rule 2, .terminal (.value 113)], .sequence [.rule 0, .terminal (.value 113)]])))

/-- On "zxmm" the built `*(*a)` ends behind the 'z', the term as it is written behind
the 'x'. -/
theorem operators_differ :
    ¬SameResult (staleRules.eval 8 staleLoop.tree (Context.fresh (ascii "zxmm")))
      (staleRules.eval 8 staleLoop.written (Context.fresh (ascii "zxmm"))) := by
  refine mt same_result_iff.mp fun both => ?_
  have matched : verdict (staleRules.eval 8 staleLoop.tree (Context.fresh (ascii "zxmm"))) =
      some (some true) := by decide +kernel
  have behindZ : (staleRules.eval 8 staleLoop.tree
      (Context.fresh (ascii "zxmm"))).state.position = 1 := by decide +kernel
  have behindX : (staleRules.eval 8 staleLoop.written
      (Context.fresh (ascii "zxmm"))).state.position = 2 := by decide +kernel
  have met := both.2 true matched
  rw [behindZ, behindX] at met
  cases met

end Meaning

end Peglib.CollapsingOperators
