import Mathlib.Tactic.NormNum
import Peglib.SuccessfulAnswers

/-!
# Left recursion derives only what the grammar does

The context-free reading of a grammar: choice is union and repetition is
iteration. Whatever the growth of seeds, the dropping of siblings and the
eviction by cuts do to the memo, every successful answer is a derivation.
-/

namespace Peglib.Derivations

open Peglib.TracedComputation Peglib.WeakestPrecondition
open Peglib.ParseError Peglib.ParseContext Peglib.Expressions Peglib.Rules
open Peglib.PegSemantics Peglib.Evaluation Peglib.SuccessfulAnswers

set_option autoImplicit false

variable {CharT NodeType : Type}

/-- The numbers of iterations of a repetition. The bound of `n*e` is an
`int64_t`, so a count from 2^63 on bounds the iterations from below only. -/
def iterates : RepKind → Nat → Prop
  | .zeroOrMore, _ => True
  | .oneOrMore, times => 1 ≤ times
  | .optional, times => times ≤ 1
  | .nTimes count, times => count ≤ times ∧ (count < 2 ^ 63 → times = count)

section Derives

variable [PegValue CharT] (grammar : Grammar CharT NodeType)

/-- The context-free language of an expression. -/
inductive Derives : Expr CharT → List CharT → Prop
  | terminal {value letter} : symbolConsumable letter value = true →
      Derives (.terminal value) [letter]
  | token {value letter} : symbolConsumable letter value = true → Derives (.token value) [letter]
  | terminalSeq {values word} :
      List.Forall₂ (fun letter value => symbolConsumable letter (.value value) = true) word values →
      Derives (.terminalSeq values) word
  | empty : Derives .empty []
  | cut : Derives .cut []
  | sequenceNil : Derives (.sequence []) []
  | sequenceCons {child rest left right} : Derives child left → Derives (.sequence rest) right →
      Derives (.sequence (child :: rest)) (left ++ right)
  | alternation {children child word} : child ∈ children → Derives child word →
      Derives (.alternation children) word
  | repetition {kind child} {words : List (List CharT)} :
      (∀ word ∈ words, Derives child word) → iterates kind words.length →
      Derives (.repetition kind child) words.flatten
  | rule {id body word} : grammar.body id = some body → Derives body word →
      Derives (.rule id) word

end Derives

def slice (input : List CharT) (pos stop : Nat) : List CharT := (input.drop pos).take (stop - pos)

theorem slice_self (input : List CharT) (pos : Nat) : slice input pos pos = [] := by
  rw [slice, Nat.sub_self, List.take_zero]

theorem slice_append {input : List CharT} {pos middle stop : Nat} (left : pos ≤ middle)
    (right : middle ≤ stop) : slice input pos middle ++ slice input middle stop =
      slice input pos stop := by
  obtain ⟨first, rfl⟩ := Nat.exists_eq_add_of_le left
  obtain ⟨second, rfl⟩ := Nat.exists_eq_add_of_le right
  have rest : pos + first + second - (pos + first) = second := by omega
  rw [slice, slice, slice, Nat.add_sub_cancel_left, rest, Nat.add_assoc, Nat.add_sub_cancel_left,
    List.take_add, List.drop_drop]

theorem slice_succ {input : List CharT} {pos : Nat} {letter : CharT}
    (found : input[pos]? = some letter) : slice input pos (pos + 1) = [letter] := by
  obtain ⟨inside, rfl⟩ := List.getElem?_eq_some_iff.mp found
  rw [slice, Nat.add_sub_cancel_left, List.take_one, List.head?_drop, List.getElem?_eq_getElem inside]
  rfl

def Fragment : Expr CharT → Prop
  | .repetition kind _ => kind ≠ .nTimes 0
  | .matcher _ | .not _ | .and _ | .lexeme _ => False
  | _ => True

/-- A skipper-free grammar of the fragment without recovery. -/
structure ContextFree (grammar : Grammar CharT NodeType) : Prop where
  bodies : ∀ rule body, grammar.body rule = some body → body.Every Fragment
  recovers : ∀ rule, (grammar.nonTerminal rule).recover.isSyncToken = none
  skipper : grammar.skipper = none

def Allowed (kind : RepKind) (count : Nat) : Prop :=
  kind.minRep ≤ count ∧ (0 < kind.maxRep → count ≤ kind.maxRep.toNat)

theorem bmod_small {count bound : Nat} (small : count < bound) :
    Int.bmod count (2 * bound) = count :=
  Int.bmod_eq_of_le_mul_two (by omega) (by omega)

theorem max_rep_times {count : Nat} (small : count < 2 ^ 63) :
    RepKind.maxRep (.nTimes count) = count := by
  unfold RepKind.maxRep
  have half : (2 : Nat) ^ 64 = 2 * 2 ^ 63 := by norm_num
  have cast := bmod_small small
  rw [← half] at cast
  exact cast

theorem allowed_iterates {kind : RepKind} {count : Nat} (bounded : kind ≠ .nTimes 0)
    (allowed : Allowed kind count) : iterates kind count := by
  cases kind with
  | zeroOrMore => trivial
  | oneOrMore => exact allowed.1
  | optional => exact allowed.2 (by decide)
  | nTimes times =>
      refine ⟨allowed.1, fun small => ?_⟩
      have cast := max_rep_times small
      have positive : times ≠ 0 := fun zero => bounded (zero ▸ rfl)
      have least : times ≤ count := allowed.1
      have most := allowed.2 (by rw [cast]; omega)
      rw [cast] at most
      omega

theorem bound_reached_iff {maxRep : Int} {count : Nat} :
    boundReached maxRep count = false ↔ (0 < maxRep → count < maxRep.toNat) := by
  rw [boundReached, Bool.and_eq_false_imp]
  simp

section Reading

variable [PegValue CharT] (grammar : Grammar CharT NodeType) (input : List CharT)

/-- The reading of a successful task over a stretch of the input. -/
def Reads : Pending CharT → Nat → Nat → Prop
  | .expr expr, pos, stop => Derives grammar expr (slice input pos stop)
  | .seq _ children, pos, stop => Derives grammar (.sequence children) (slice input pos stop)
  | .alt children, pos, stop => Derives grammar (.alternation children) (slice input pos stop)
  | .loop kind child count, pos, stop => boundReached kind.maxRep count = false →
      ∃ words : List (List CharT), (∀ word ∈ words, Derives grammar child word) ∧
        slice input pos stop = words.flatten ∧ Allowed kind (count + words.length)
  | .skip, pos, stop => stop = pos

omit [PegValue CharT] in
def InFragment : Pending CharT → Prop
  | .expr expr => expr.Every Fragment
  | .seq _ children | .alt children => ∀ child ∈ children, child.Every Fragment
  | .loop kind child _ => kind ≠ .nTimes 0 ∧ child.Every Fragment
  | .skip => True

/-- An answer of a rule that derives the slice it covers. -/
def Derived (rule : RuleId) (pos stop : Nat) : Prop :=
  pos ≤ stop ∧ stop ≤ input.length ∧ Derives grammar (.rule rule) (slice input pos stop)

variable {grammar input}

theorem consume_derives {value : TerminalValue CharT} {pos stop : Nat}
    (consumed : consume input value pos = some stop) :
    ∃ letter, symbolConsumable letter value = true ∧ slice input pos stop = [letter] := by
  unfold consume at consumed
  split_ifs at consumed with accepted
  obtain rfl := Option.some.inj consumed
  obtain ⟨letter, found, holds⟩ := (Option.any_eq_true _ _).mp accepted
  exact ⟨letter, holds, slice_succ found⟩

theorem consume_all_derives {values : List CharT} {pos stop : Nat}
    (consumed : consumeAll input values pos = some stop) :
    List.Forall₂ (fun letter value => symbolConsumable letter (.value value) = true)
      (slice input pos stop) values := by
  induction values generalizing pos with
  | nil =>
      obtain rfl := Option.some.inj consumed
      rw [slice_self]
      exact .nil
  | cons value rest induction =>
      rw [consumeAll, Option.bind_eq_some_iff] at consumed
      obtain ⟨middle, first, later⟩ := consumed
      obtain ⟨letter, accepted, here⟩ := consume_derives first
      have ordered := (consume_bounds first).1
      have further := (consume_all_bounds later).1
      rw [← slice_append (show pos ≤ middle by omega) (show middle ≤ stop by omega), here]
      exact .cons accepted (induction later)

theorem held_within {env : Unit} {mode : Option RuleId} {rule : RuleId} {pos stop : Nat}
    (held : Held input (Derived grammar input) env mode rule pos (some stop)) :
    Within input pos stop :=
  fun bounded => ⟨(held stop rfl bounded).1, (held stop rfl bounded).2.1⟩

theorem peg_reads {env : Unit} {mode : Option RuleId} {task : Pending CharT} {pos : Nat}
    {outcome : Option Nat}
    (peg : Peg input (fun _ _ _ => False) (Held input (Derived grammar input)) env mode task pos
      outcome) :
    mode = none → InFragment task → pos ≤ input.length →
      ∀ stop, outcome = some stop → Reads grammar input task pos stop := by
  have within : ∀ {env : Unit} {mode : Option RuleId} {task : Pending CharT} {pos stop : Nat},
      Peg input (fun _ _ _ => False) (Held input (Derived grammar input)) env mode task pos
        (some stop) → Within input pos stop :=
    peg_within (fun _ _ _ never => never.elim) fun _ _ _ _ _ held => held_within held
  induction peg with
  | terminal =>
      intro _ _ _ stop ended
      obtain ⟨letter, accepted, here⟩ := consume_derives ended
      rw [Reads, here]
      exact Derives.terminal accepted
  | token =>
      intro _ _ _ stop ended
      obtain ⟨letter, accepted, here⟩ := consume_derives ended
      rw [Reads, here]
      exact Derives.token accepted
  | terminalSeq => exact fun _ _ _ stop ended => Derives.terminalSeq (consume_all_derives ended)
  | matcher never => exact never.elim
  | empty =>
      intro _ _ _ stop ended
      obtain rfl := Option.some.inj ended
      rw [Reads, slice_self]
      exact Derives.empty
  | cut =>
      intro _ _ _ stop ended
      obtain rfl := Option.some.inj ended
      rw [Reads, slice_self]
      exact Derives.cut
  | sequence _ induction =>
      intro off inside bounded stop ended
      rw [InFragment, Expr.Every] at inside
      exact induction off (Expr.every_all_iff.mp inside.2) bounded stop ended
  | alternation _ induction =>
      intro off inside bounded stop ended
      rw [InFragment, Expr.Every] at inside
      exact induction off (Expr.every_all_iff.mp inside.2) bounded stop ended
  | repetition _ induction =>
      intro off inside bounded stop ended
      rw [InFragment, Expr.Every] at inside
      obtain ⟨words, derived, whole, allowed⟩ := induction off ⟨inside.1, inside.2⟩ bounded stop ended
        (bound_reached_iff.mpr fun positive => by omega)
      rw [Nat.zero_add] at allowed
      rw [Reads, whole]
      exact Derives.repetition derived (allowed_iterates inside.1 allowed)
  | not _ _ | and _ _ | lexeme _ _ =>
      intro _ inside
      rw [InFragment, Expr.Every] at inside
      exact inside.1.elim
  | rule held =>
      intro _ _ bounded stop ended
      exact (held stop ended bounded).2.2
  | seqNil =>
      intro _ _ _ stop ended
      obtain rfl := Option.some.inj ended
      rw [Reads, slice_self]
      exact Derives.sequenceNil
  | seqFail _ _ _ _ | altNil => exact fun _ _ _ _ ended => nomatch ended
  | seqStep _ hit rest skipped left right =>
      intro off inside bounded stop ended
      have here := skipped (by rw [off, ite_self]) trivial bounded _ rfl
      rw [Reads] at here
      subst here ended
      have middle := within hit bounded
      have last := within rest middle.2
      rw [Reads, ← slice_append middle.1 last.1]
      exact Derives.sequenceCons (left off (inside _ (by simp)) bounded _ rfl)
        (right off (fun child member => inside child (by simp [member])) middle.2 _ rfl)
  | altHit _ hit =>
      intro off inside bounded stop ended
      exact Derives.alternation (by simp) (hit off (inside _ (by simp)) bounded stop ended)
  | altMiss _ _ _ rest =>
      intro off inside bounded stop ended
      have later := rest off (fun child member => inside child (by simp [member])) bounded stop ended
      cases later with
      | alternation member derives =>
          exact Derives.alternation (List.mem_cons_of_mem _ member) derives
  | loopFail _ _ _ _ =>
      intro _ _ _ stop ended available
      unfold repeated at ended
      split_ifs at ended with few
      obtain rfl := Option.some.inj ended
      refine ⟨[], nofun, slice_self input _, Nat.not_lt.mp few, fun positive => ?_⟩
      have := bound_reached_iff.mp available positive
      rw [List.length_nil]
      omega
  | @loopLast _ _ _ _ _ next last _ _ _ skipped matched =>
      intro off inside bounded stop ended available
      have here := skipped (by rw [off, ite_self]) trivial bounded _ rfl
      rw [Reads] at here
      subst here
      unfold repeated at ended
      split_ifs at ended with few
      obtain rfl := Option.some.inj ended
      refine ⟨[slice input next last], ?_, by simp, Nat.not_lt.mp few, fun positive => ?_⟩
      · intro word member
        rw [List.mem_singleton.mp member]
        exact matched off inside.2 bounded _ rfl
      · have := bound_reached_iff.mp available positive
        simp only [List.length_singleton]
        omega
  | @loopMore _ _ _ _ _ next middle _ _ hit more rest skipped matched later =>
      intro off inside bounded stop ended available
      have here := skipped (by rw [off, ite_self]) trivial bounded _ rfl
      rw [Reads] at here
      subst here ended
      have first := within hit bounded
      have last := within rest first.2
      obtain ⟨words, derived, whole, allowed⟩ := later off inside first.2 _ rfl
        (Bool.or_eq_false_iff.mp more).1
      refine ⟨slice input next middle :: words, ?_, ?_, ?_⟩
      · intro word member
        rcases List.mem_cons.mp member with rfl | inRest
        · exact matched off inside.2 bounded _ rfl
        · exact derived word inRest
      · rw [List.flatten_cons, ← whole, slice_append first.1 last.1]
      · rw [List.length_cons]
        rwa [Nat.add_assoc, Nat.add_comm 1] at allowed
  | skipOff =>
      intro _ _ _ stop ended
      exact (Option.some.inj ended).symm
  | skipHit _ | skipMiss _ => exact fun off => nomatch off

theorem derived_reading (contextFree : ContextFree grammar) :
    Reading grammar input none (fun _ _ _ => False) (Derived grammar input) where
  forward _ _ _ derived := derived.1
  matchers rule body assigned := by
    refine (contextFree.bodies rule body assigned).mono fun part fragment => ?_
    cases part with
    | matcher fn => exact fragment.elim
    | cut =>
        intro context same
        unfold Context.setCut
        split <;> exact same
    | _ => trivial
  bodies rule body mode pos stop assigned modes peg bounded := by
    have within := peg_within (fun _ _ _ never => never.elim)
      (fun _ _ _ _ _ held => held_within held) peg bounded
    have derives := peg_reads peg (modes.elim id id) (contextFree.bodies rule body assigned)
      bounded stop rfl
    exact ⟨within.1, within.2, Derives.rule assigned derives⟩
  recovers rule isSyncToken configured := by
    rw [contextFree.recovers rule] at configured
    cases configured

end Reading

section Claim

variable [PegValue CharT] {grammar : Grammar CharT NodeType} {input : List CharT}

theorem visited_derived (contextFree : ContextFree grammar) {context : Context CharT}
    (visited : Visited grammar input context) :
    Sound input none (Derived grammar input) context := by
  have reading : ∀ skipper, skipper = none ∨ skipper = grammar.skipper →
      Reading grammar input skipper (fun _ _ _ => False) (Derived grammar input) := by
    intro skipper choice
    obtain rfl : skipper = none := choice.elim id fun set => set.trans contextFree.skipper
    exact derived_reading contextFree
  obtain ⟨choice, sound⟩ := visited_sound reading visited
  obtain off : context.skipper = none := choice.elim id fun set => set.trans contextFree.skipper
  rwa [off] at sound

/-- Every success of a rule, returned or held by the memo at any moment of the
parse, covers a derivation. -/
theorem successful_answers_derive (contextFree : ContextFree grammar) {context : Context CharT}
    (visited : Visited grammar input context) (fuel : Nat) (rule : RuleId) :
    (∀ result, (grammar.apply fuel rule context).outcome = .returned result →
      result.success = true → context.position ≤ input.length →
        Derived grammar input rule context.position
          (grammar.apply fuel rule context).state.position) ∧
      ∀ moment ∈ (grammar.apply fuel rule context).trace, ∀ pos id row,
        moment.context.mem pos id = some row → row.cachedResult.success = true →
          pos ≤ input.length → Derived grammar input id pos row.lastPos := by
  have sound := visited_derived contextFree visited
  have runs := apply_sound (derived_reading contextFree) fuel rule context sound
  constructor
  · intro result ended success bounded
    have answers := (wp_returned runs (fun _ _ => trivial) ended).2.2
    exact answers.of_success success _ rfl bounded
  · intro moment member pos id row held success bounded
    have kept := (wp_elim runs fun _ _ => trivial).1 moment member
    exact (kept.rows pos id row held).good success bounded

end Claim

/-- `A = A >> 'a' | 'a'`. -/
def leftRecursive : Grammar UInt8 Unit where
  rules := [(ascii "A",
    { body := some (.alternation [
        .sequence [.rule 0, .terminal (.value 97)],
        .terminal (.value 97)]) })]

theorem left_recursive_context_free : ContextFree leftRecursive where
  bodies rule body assigned := by
    cases rule with
    | zero =>
        obtain rfl := Option.some.inj assigned
        simp [Expr.Every, Expr.EveryAll, Fragment]
    | succ rule => cases assigned
  recovers rule := by cases rule <;> rfl
  skipper := rfl

theorem left_recursive_derives : Derived leftRecursive (ascii "aa") 0 0 2 :=
  (successful_answers_derive left_recursive_context_free .fresh 6 0).1 ⟨true, some 1⟩ rfl rfl
    (by decide)

end Peglib.Derivations
