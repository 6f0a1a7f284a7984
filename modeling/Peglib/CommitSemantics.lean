import Peglib.PegSemantics
import Peglib.Rules

/-!
# Parsing expressions that commit

The memo-free meaning of an expression with its cuts. An evaluation ends with an
outcome, having committed the scope around it or not, or it raises. A choice and a
repetition have a scope of their own; a rule, a predicate and a lexeme have none.
-/

namespace Peglib.CommitSemantics

open Peglib.ParseError Peglib.ParseContext Peglib.Expressions Peglib.Rules Peglib.PegSemantics

set_option autoImplicit false

variable {CharT NodeType : Type}

inductive Verdict where
  | ended (outcome : Option Nat) (committed : Bool)
  | raised

namespace Verdict

/-- With what was done before in the same scope. -/
def after (committed : Bool) : Verdict → Verdict
  | .ended outcome later => .ended outcome (committed || later)
  | .raised => .raised

/-- The predicate of an operand. -/
def looked (negate : Bool) (pos : Nat) : Verdict → Verdict
  | .ended outcome committed =>
      .ended (if outcome.isSome = negate then none else some pos) committed
  | .raised => .raised

/-- A skipper that fails has skipped nothing. -/
def skipped (pos : Nat) : Verdict → Verdict
  | .ended outcome committed => .ended (some (outcome.getD pos)) committed
  | .raised => .raised

/-- A repetition whose next iteration failed. The minimum is checked before the
commitment, which only an unbounded repetition looks at. -/
def exhausted (kind : RepKind) (count pos : Nat) (committed : Bool) : Verdict :=
  if count < kind.minRep then .ended none false
  else if kind.maxRep < 0 ∧ committed = true then .raised
  else .ended (some pos) false

end Verdict

section Semantics

variable [PegValue CharT] (grammar : Grammar CharT NodeType) (input : List CharT)
  (matched : (Context CharT → Span → Option Span) → Nat → Option Nat → Prop)

/-- `mode` is the skipper while auto-skip is on. -/
inductive Cutting : Option RuleId → Pending CharT → Nat → Verdict → Prop
  | terminal {mode value pos} :
      Cutting mode (.expr (.terminal value)) pos (.ended (consume input value pos) false)
  | terminalSeq {mode values pos} :
      Cutting mode (.expr (.terminalSeq values)) pos (.ended (consumeAll input values pos) false)
  | token {mode value pos} :
      Cutting mode (.expr (.token value)) pos (.ended (consume input value pos) false)
  | matcher {mode fn pos outcome} : matched fn pos outcome →
      Cutting mode (.expr (.matcher fn)) pos (.ended outcome false)
  | empty {mode pos} : Cutting mode (.expr .empty) pos (.ended (some pos) false)
  | cut {mode pos} : Cutting mode (.expr .cut) pos (.ended (some pos) true)
  | sequence {mode children pos verdict} : Cutting mode (.seq true children) pos verdict →
      Cutting mode (.expr (.sequence children)) pos verdict
  | alternation {mode children pos verdict} : Cutting mode (.alt children) pos verdict →
      Cutting mode (.expr (.alternation children)) pos verdict
  | repetition {mode kind child pos verdict} : Cutting mode (.loop kind child 0) pos verdict →
      Cutting mode (.expr (.repetition kind child)) pos verdict
  | not {mode child pos verdict} : Cutting mode (.expr child) pos verdict →
      Cutting mode (.expr (.not child)) pos (verdict.looked true pos)
  | and {mode child pos verdict} : Cutting mode (.expr child) pos verdict →
      Cutting mode (.expr (.and child)) pos (verdict.looked false pos)
  | lexeme {mode child pos verdict} : Cutting none (.expr child) pos verdict →
      Cutting mode (.expr (.lexeme child)) pos verdict
  | rule {mode id body pos verdict} : grammar.body id = some body →
      Cutting mode (.expr body) pos verdict → Cutting mode (.expr (.rule id)) pos verdict
  | seqNil {mode first pos} : Cutting mode (.seq first []) pos (.ended (some pos) false)
  | seqUnskipped {mode first child rest pos} :
      Cutting (if first then none else mode) .skip pos .raised →
      Cutting mode (.seq first (child :: rest)) pos .raised
  | seqRaised {mode first child rest pos next committed} :
      Cutting (if first then none else mode) .skip pos (.ended (some next) committed) →
      Cutting mode (.expr child) next .raised → Cutting mode (.seq first (child :: rest)) pos .raised
  | seqFail {mode first child rest pos next committed committed'} :
      Cutting (if first then none else mode) .skip pos (.ended (some next) committed) →
      Cutting mode (.expr child) next (.ended none committed') →
      Cutting mode (.seq first (child :: rest)) pos (.ended none (committed || committed'))
  | seqStep {mode first child rest pos next middle committed committed' verdict} :
      Cutting (if first then none else mode) .skip pos (.ended (some next) committed) →
      Cutting mode (.expr child) next (.ended (some middle) committed') →
      Cutting mode (.seq false rest) middle verdict →
      Cutting mode (.seq first (child :: rest)) pos (verdict.after (committed || committed'))
  | altNil {mode pos} : Cutting mode (.alt []) pos (.ended none false)
  | altRaised {mode child rest pos} : Cutting mode (.expr child) pos .raised →
      Cutting mode (.alt (child :: rest)) pos .raised
  | altCommitted {mode child rest pos} : Cutting mode (.expr child) pos (.ended none true) →
      Cutting mode (.alt (child :: rest)) pos .raised
  | altHit {mode child rest pos stop committed} :
      Cutting mode (.expr child) pos (.ended (some stop) committed) →
      Cutting mode (.alt (child :: rest)) pos (.ended (some stop) false)
  | altMiss {mode child rest pos verdict} : Cutting mode (.expr child) pos (.ended none false) →
      Cutting mode (.alt rest) pos verdict → Cutting mode (.alt (child :: rest)) pos verdict
  | loopUnskipped {mode kind child count pos} :
      Cutting (if count = 0 then none else mode) .skip pos .raised →
      Cutting mode (.loop kind child count) pos .raised
  | loopRaised {mode kind child count pos next committed} :
      Cutting (if count = 0 then none else mode) .skip pos (.ended (some next) committed) →
      Cutting mode (.expr child) next .raised → Cutting mode (.loop kind child count) pos .raised
  | loopFail {mode kind child count pos next committed committed'} :
      Cutting (if count = 0 then none else mode) .skip pos (.ended (some next) committed) →
      Cutting mode (.expr child) next (.ended none committed') →
      Cutting mode (.loop kind child count) pos (.exhausted kind count pos committed')
  | loopLast {mode kind child count pos next stop committed committed'} :
      Cutting (if count = 0 then none else mode) .skip pos (.ended (some next) committed) →
      Cutting mode (.expr child) next (.ended (some stop) committed') →
      (boundReached kind.maxRep (count + 1) || decide (stop = next)) = true →
      Cutting mode (.loop kind child count) pos (.ended (repeated kind (count + 1) stop) false)
  | loopMore {mode kind child count pos next stop committed committed' verdict} :
      Cutting (if count = 0 then none else mode) .skip pos (.ended (some next) committed) →
      Cutting mode (.expr child) next (.ended (some stop) committed') →
      (boundReached kind.maxRep (count + 1) || decide (stop = next)) = false →
      Cutting mode (.loop kind child (count + 1)) stop verdict →
      Cutting mode (.loop kind child count) pos verdict
  | skipOff {pos} : Cutting none .skip pos (.ended (some pos) false)
  | skipRun {skipper pos verdict} : Cutting none (.expr (.rule skipper)) pos verdict →
      Cutting (some skipper) .skip pos (verdict.skipped pos)

variable {grammar input matched}

theorem cutting_unique
    (matches' : ∀ fn pos first second, matched fn pos first → matched fn pos second →
      first = second)
    {mode : Option RuleId} {task : Pending CharT} {pos : Nat} {first : Verdict}
    (left : Cutting grammar input matched mode task pos first) :
    ∀ {second : Verdict}, Cutting grammar input matched mode task pos second → first = second := by
  induction left with
  | terminal | terminalSeq | token | empty | cut | seqNil | altNil | skipOff =>
      intro second right
      cases right
      rfl
  | matcher held =>
      intro second right
      cases right with
      | matcher other => rw [matches' _ _ _ _ held other]
  | sequence _ induction =>
      intro second right
      cases right with
      | sequence other => exact induction other
  | alternation _ induction =>
      intro second right
      cases right with
      | alternation other => exact induction other
  | repetition _ induction =>
      intro second right
      cases right with
      | repetition other => exact induction other
  | not _ induction =>
      intro second right
      cases right with
      | not other => rw [induction other]
  | and _ induction =>
      intro second right
      cases right with
      | and other => rw [induction other]
  | lexeme _ induction =>
      intro second right
      cases right with
      | lexeme other => exact induction other
  | rule assigned _ induction =>
      intro second right
      cases right with
      | rule other later =>
          obtain rfl := Option.some.inj (assigned.symm.trans other)
          exact induction later
  | seqUnskipped _ skipped =>
      intro second right
      cases right with
      | seqUnskipped _ | seqRaised _ _ => rfl
      | seqFail skip _ | seqStep skip _ _ => cases skipped skip
  | seqRaised _ _ skipped raised =>
      intro second right
      cases right with
      | seqUnskipped _ | seqRaised _ _ => rfl
      | seqFail skip hit | seqStep skip hit _ =>
          cases skipped skip
          cases raised hit
  | seqFail _ _ skipped failed =>
      intro second right
      cases right with
      | seqUnskipped skip => cases skipped skip
      | seqRaised skip hit | seqStep skip hit _ =>
          cases skipped skip
          cases failed hit
      | seqFail skip other =>
          cases skipped skip
          cases failed other
          rfl
  | seqStep _ _ _ skipped hit rest =>
      intro second right
      cases right with
      | seqUnskipped skip => cases skipped skip
      | seqRaised skip other | seqFail skip other =>
          cases skipped skip
          cases hit other
      | seqStep skip other later =>
          cases skipped skip
          cases hit other
          rw [rest later]
  | altRaised _ raised =>
      intro second right
      cases right with
      | altRaised _ | altCommitted _ => rfl
      | altHit other | altMiss other _ => cases raised other
  | altCommitted _ failed =>
      intro second right
      cases right with
      | altRaised _ | altCommitted _ => rfl
      | altHit other | altMiss other _ => cases failed other
  | altHit _ hit =>
      intro second right
      cases right with
      | altRaised other | altCommitted other | altMiss other _ => cases hit other
      | altHit other =>
          cases hit other
          rfl
  | altMiss _ _ missed rest =>
      intro second right
      cases right with
      | altRaised other | altCommitted other | altHit other => cases missed other
      | altMiss _ later => exact rest later
  | loopUnskipped _ skipped =>
      intro second right
      cases right with
      | loopUnskipped _ | loopRaised _ _ => rfl
      | loopFail skip _ | loopLast skip _ _ | loopMore skip _ _ _ => cases skipped skip
  | loopRaised _ _ skipped raised =>
      intro second right
      cases right with
      | loopUnskipped _ | loopRaised _ _ => rfl
      | loopFail skip hit | loopLast skip hit _ | loopMore skip hit _ _ =>
          cases skipped skip
          cases raised hit
  | loopFail _ _ skipped failed =>
      intro second right
      cases right with
      | loopUnskipped skip => cases skipped skip
      | loopRaised skip hit | loopLast skip hit _ | loopMore skip hit _ _ =>
          cases skipped skip
          cases failed hit
      | loopFail skip other =>
          cases skipped skip
          cases failed other
          rfl
  | loopLast _ _ last skipped hit =>
      intro second right
      cases right with
      | loopUnskipped skip => cases skipped skip
      | loopRaised skip other | loopFail skip other =>
          cases skipped skip
          cases hit other
      | loopLast skip other _ =>
          cases skipped skip
          cases hit other
          rfl
      | loopMore skip other more _ =>
          cases skipped skip
          cases hit other
          rw [last] at more
          cases more
  | loopMore _ _ more _ skipped hit rest =>
      intro second right
      cases right with
      | loopUnskipped skip => cases skipped skip
      | loopRaised skip other | loopFail skip other =>
          cases skipped skip
          cases hit other
      | loopLast skip other last =>
          cases skipped skip
          cases hit other
          rw [last] at more
          cases more
      | loopMore skip other _ later =>
          cases skipped skip
          cases hit other
          exact rest later
  | skipRun _ induction =>
      intro second right
      cases right with
      | skipRun other => rw [induction other]

omit [PegValue CharT] in
theorem after_ended {committed later : Bool} {verdict : Verdict} {outcome : Option Nat}
    (ended : verdict.after committed = .ended outcome later) :
    ∃ own, verdict = .ended outcome own ∧ later = (committed || own) := by
  cases verdict with
  | raised => cases ended
  | ended found own =>
      cases ended
      exact ⟨own, rfl, rfl⟩

omit [PegValue CharT] in
theorem exhausted_ended {kind : RepKind} {count pos stop : Nat} {committed later : Bool}
    (ended : Verdict.exhausted kind count pos committed = .ended (some stop) later) : stop = pos := by
  unfold Verdict.exhausted at ended
  split_ifs at ended <;> cases ended
  rfl

theorem cutting_forward (matches' : ∀ fn pos stop, matched fn pos (some stop) → pos ≤ stop)
    {mode : Option RuleId} {task : Pending CharT} {pos : Nat} {verdict : Verdict}
    (cutting : Cutting grammar input matched mode task pos verdict) :
    ∀ {stop : Nat} {committed : Bool}, verdict = .ended (some stop) committed → pos ≤ stop := by
  induction cutting with
  | terminal | token =>
      intro stop committed ended
      injection ended with consumed
      exact consume_travels forward_travel consumed
  | terminalSeq =>
      intro stop committed ended
      injection ended with consumed
      exact consume_all_travels forward_travel consumed
  | matcher held =>
      intro stop committed ended
      injection ended with found
      exact matches' _ _ _ (found ▸ held)
  | empty | cut | seqNil | skipOff =>
      intro stop committed ended
      cases ended
      exact Nat.le_refl _
  | sequence _ induction | alternation _ induction | repetition _ induction | lexeme _ induction
  | rule _ _ induction =>
      exact induction
  | @not _ _ _ verdict _ _ | @and _ _ _ verdict _ _ =>
      intro stop committed ended
      cases verdict with
      | raised => cases ended
      | ended outcome before =>
          injection ended with found
          split_ifs at found
          cases found
          exact Nat.le_refl _
  | seqUnskipped _ _ | seqRaised _ _ _ _ | seqFail _ _ _ _ | altNil | altRaised _ _
  | altCommitted _ _ | loopUnskipped _ _ | loopRaised _ _ _ _ =>
      intro stop committed ended
      cases ended
  | seqStep _ _ _ skipped hit rest =>
      intro stop committed ended
      obtain ⟨own, later, -⟩ := after_ended ended
      exact Nat.le_trans (skipped rfl) (Nat.le_trans (hit rfl) (rest later))
  | altHit _ hit =>
      intro stop committed ended
      cases ended
      exact hit rfl
  | altMiss _ _ _ rest => exact rest
  | loopFail _ _ _ _ =>
      intro stop committed ended
      exact Nat.le_of_eq (exhausted_ended ended).symm
  | loopLast _ _ _ skipped hit =>
      intro stop committed ended
      injection ended with found
      exact repeated_travels (Nat.le_trans (skipped rfl) (hit rfl)) found
  | loopMore _ _ _ _ skipped hit rest =>
      intro stop committed ended
      exact Nat.le_trans (skipped rfl) (Nat.le_trans (hit rfl) (rest ended))
  | @skipRun _ pos verdict _ induction =>
      intro stop committed ended
      cases verdict with
      | raised => cases ended
      | ended outcome before =>
          cases ended
          cases outcome with
          | none => exact Nat.le_refl _
          | some next => exact induction rfl

end Semantics

end Peglib.CommitSemantics
