import Peglib.Expressions

/-!
# Parsing expressions without a context

The memo-free meaning of an expression: at a position of the input, under a
skipper that is active or not, it fails or succeeds with an end position. The
answers of rule applications and of matchers are parameters, so one relation
serves every reading of the rules. A cut means what `empty` means.
-/

namespace Peglib.PegSemantics

open Peglib.ParseError Peglib.ParseContext Peglib.Expressions

set_option autoImplicit false

variable {CharT Env : Type}

/-- What is left to match: an expression, the rest of a sequence or of a choice,
a repetition with some iterations done, or a skip. -/
inductive Pending (CharT : Type) where
  | expr (expr : Expr CharT)
  | seq (first : Bool) (children : List (Expr CharT))
  | alt (children : List (Expr CharT))
  | loop (kind : RepKind) (child : Expr CharT) (count : Nat)
  | skip

section Leaves

variable [PegValue CharT]

/-- The end of one element that the value accepts. -/
def consume (input : List CharT) (value : TerminalValue CharT) (pos : Nat) : Option Nat :=
  if input[pos]?.any fun letter => symbolConsumable letter value then some (pos + 1) else none

def consumeAll (input : List CharT) : List CharT → Nat → Option Nat
  | [], pos => some pos
  | value :: rest, pos => (consume input (.value value) pos).bind (consumeAll input rest)

theorem consume_bounds {input : List CharT} {value : TerminalValue CharT} {pos stop : Nat}
    (consumed : consume input value pos = some stop) : stop = pos + 1 ∧ pos < input.length := by
  unfold consume at consumed
  split_ifs at consumed with accepted
  refine ⟨(Option.some.inj consumed).symm, ?_⟩
  by_contra beyond
  rw [List.getElem?_eq_none (by omega)] at accepted
  cases accepted

theorem consume_all_bounds {input : List CharT} {values : List CharT} {pos stop : Nat}
    (consumed : consumeAll input values pos = some stop) :
    stop = pos + values.length ∧ (pos ≤ input.length → stop ≤ input.length) := by
  induction values generalizing pos with
  | nil =>
      obtain rfl := Option.some.inj consumed
      exact ⟨rfl, id⟩
  | cons value rest induction =>
      rw [consumeAll, Option.bind_eq_some_iff] at consumed
      obtain ⟨middle, first, later⟩ := consumed
      obtain ⟨rfl, within⟩ := consume_bounds first
      obtain ⟨rfl, bounded⟩ := induction later
      exact ⟨by rw [List.length_cons]; omega, fun _ => bounded (by omega)⟩

end Leaves

/-- The result of a repetition that ends after `count` iterations. -/
def repeated (kind : RepKind) (count stop : Nat) : Option Nat :=
  if count < kind.minRep then none else some stop

section Semantics

variable [PegValue CharT] (input : List CharT)
  (matched : (Context CharT → Span → Option Span) → Nat → Option Nat → Prop)
  (call : Env → Option RuleId → RuleId → Nat → Option Nat → Prop)

/-- `mode` is the skipper while auto-skip is on. -/
inductive Peg : Env → Option RuleId → Pending CharT → Nat → Option Nat → Prop
  | terminal {env mode value pos} :
      Peg env mode (.expr (.terminal value)) pos (consume input value pos)
  | terminalSeq {env mode values pos} :
      Peg env mode (.expr (.terminalSeq values)) pos (consumeAll input values pos)
  | token {env mode value pos} :
      Peg env mode (.expr (.token value)) pos (consume input value pos)
  | matcher {env mode fn pos outcome} : matched fn pos outcome →
      Peg env mode (.expr (.matcher fn)) pos outcome
  | empty {env mode pos} : Peg env mode (.expr .empty) pos (some pos)
  | cut {env mode pos} : Peg env mode (.expr .cut) pos (some pos)
  | sequence {env mode children pos outcome} : Peg env mode (.seq true children) pos outcome →
      Peg env mode (.expr (.sequence children)) pos outcome
  | alternation {env mode children pos outcome} : Peg env mode (.alt children) pos outcome →
      Peg env mode (.expr (.alternation children)) pos outcome
  | repetition {env mode kind child pos outcome} : Peg env mode (.loop kind child 0) pos outcome →
      Peg env mode (.expr (.repetition kind child)) pos outcome
  | not {env mode child pos outcome} : Peg env mode (.expr child) pos outcome →
      Peg env mode (.expr (.not child)) pos (if outcome.isSome then none else some pos)
  | and {env mode child pos outcome} : Peg env mode (.expr child) pos outcome →
      Peg env mode (.expr (.and child)) pos (if outcome.isSome then some pos else none)
  | lexeme {env mode child pos outcome} : Peg env none (.expr child) pos outcome →
      Peg env mode (.expr (.lexeme child)) pos outcome
  | rule {env mode id pos outcome} : call env mode id pos outcome →
      Peg env mode (.expr (.rule id)) pos outcome
  | seqNil {env mode first pos} : Peg env mode (.seq first []) pos (some pos)
  | seqFail {env mode first child rest pos next} :
      Peg env (if first then none else mode) .skip pos (some next) →
      Peg env mode (.expr child) next none → Peg env mode (.seq first (child :: rest)) pos none
  | seqStep {env mode first child rest pos next middle outcome} :
      Peg env (if first then none else mode) .skip pos (some next) →
      Peg env mode (.expr child) next (some middle) → Peg env mode (.seq false rest) middle outcome →
      Peg env mode (.seq first (child :: rest)) pos outcome
  | altNil {env mode pos} : Peg env mode (.alt []) pos none
  | altHit {env mode child rest pos stop} : Peg env mode (.expr child) pos (some stop) →
      Peg env mode (.alt (child :: rest)) pos (some stop)
  | altMiss {env mode child rest pos outcome} : Peg env mode (.expr child) pos none →
      Peg env mode (.alt rest) pos outcome → Peg env mode (.alt (child :: rest)) pos outcome
  | loopFail {env mode kind child count pos next} :
      Peg env (if count = 0 then none else mode) .skip pos (some next) →
      Peg env mode (.expr child) next none →
      Peg env mode (.loop kind child count) pos (repeated kind count pos)
  | loopLast {env mode kind child count pos next stop} :
      Peg env (if count = 0 then none else mode) .skip pos (some next) →
      Peg env mode (.expr child) next (some stop) →
      (boundReached kind.maxRep (count + 1) || decide (stop = next)) = true →
      Peg env mode (.loop kind child count) pos (repeated kind (count + 1) stop)
  | loopMore {env mode kind child count pos next stop outcome} :
      Peg env (if count = 0 then none else mode) .skip pos (some next) →
      Peg env mode (.expr child) next (some stop) →
      (boundReached kind.maxRep (count + 1) || decide (stop = next)) = false →
      Peg env mode (.loop kind child (count + 1)) stop outcome →
      Peg env mode (.loop kind child count) pos outcome
  | skipOff {env pos} : Peg env none .skip pos (some pos)
  | skipHit {env skipper pos stop} : call env none skipper pos (some stop) →
      Peg env (some skipper) .skip pos (some stop)
  | skipMiss {env skipper pos} : call env none skipper pos none →
      Peg env (some skipper) .skip pos (some pos)

variable {input matched call}

theorem peg_mono {Env' : Type}
    {matched' : (Context CharT → Span → Option Span) → Nat → Option Nat → Prop}
    {call' : Env' → Option RuleId → RuleId → Nat → Option Nat → Prop} (rename : Env → Env')
    (matches' : ∀ fn pos outcome, matched fn pos outcome → matched' fn pos outcome)
    (calls : ∀ env mode rule pos outcome, call env mode rule pos outcome →
      call' (rename env) mode rule pos outcome)
    {env : Env} {mode : Option RuleId} {task : Pending CharT} {pos : Nat} {outcome : Option Nat}
    (peg : Peg input matched call env mode task pos outcome) :
    Peg input matched' call' (rename env) mode task pos outcome := by
  induction peg with
  | terminal => exact .terminal
  | terminalSeq => exact .terminalSeq
  | token => exact .token
  | matcher held => exact .matcher (matches' _ _ _ held)
  | empty => exact .empty
  | cut => exact .cut
  | sequence _ induction => exact .sequence induction
  | alternation _ induction => exact .alternation induction
  | repetition _ induction => exact .repetition induction
  | not _ induction => exact .not induction
  | and _ induction => exact .and induction
  | lexeme _ induction => exact .lexeme induction
  | rule held => exact .rule (calls _ _ _ _ _ held)
  | seqNil => exact .seqNil
  | seqFail _ _ skipped failed => exact .seqFail skipped failed
  | seqStep _ _ _ skipped matched rest => exact .seqStep skipped matched rest
  | altNil => exact .altNil
  | altHit _ hit => exact .altHit hit
  | altMiss _ _ missed rest => exact .altMiss missed rest
  | loopFail _ _ skipped failed => exact .loopFail skipped failed
  | loopLast _ _ last skipped matched => exact .loopLast skipped matched last
  | loopMore _ _ more _ skipped matched rest => exact .loopMore skipped matched more rest
  | skipOff => exact .skipOff
  | skipHit held => exact .skipHit (calls _ _ _ _ _ held)
  | skipMiss held => exact .skipMiss (calls _ _ _ _ _ held)

/-- Two readings of the rules that never disagree give answers that never
disagree. -/
theorem peg_unique {Env' : Type}
    {call' : Env' → Option RuleId → RuleId → Nat → Option Nat → Prop} (rename : Env → Env')
    (matches' : ∀ fn pos first second, matched fn pos first → matched fn pos second →
      first = second)
    (calls : ∀ env mode rule pos first second, call env mode rule pos first →
      call' (rename env) mode rule pos second → first = second)
    {env : Env} {mode : Option RuleId} {task : Pending CharT} {pos : Nat} {first : Option Nat}
    (left : Peg input matched call env mode task pos first) :
    ∀ {second : Option Nat}, Peg input matched call' (rename env) mode task pos second →
      first = second := by
  induction left with
  | terminal | terminalSeq | token | empty | cut | seqNil | altNil | skipOff =>
      intro second right
      cases right
      rfl
  | matcher held =>
      intro second right
      cases right with
      | matcher other => exact matches' _ _ _ _ held other
  | sequence _ induction =>
      intro second right
      cases right with
      | sequence other => exact induction other
  | alternation _ induction =>
      intro second right
      cases right with
      | alternation other => exact induction other
  | repetition _ induction =>
      intro second right
      cases right with
      | repetition other => exact induction other
  | not _ induction =>
      intro second right
      cases right with
      | not other => rw [induction other]
  | and _ induction =>
      intro second right
      cases right with
      | and other => rw [induction other]
  | lexeme _ induction =>
      intro second right
      cases right with
      | lexeme other => exact induction other
  | rule held =>
      intro second right
      cases right with
      | rule other => exact calls _ _ _ _ _ _ held other
  | seqFail _ _ skipped failed =>
      intro second right
      cases right with
      | seqFail _ _ => rfl
      | seqStep skip hit _ =>
          obtain rfl := Option.some.inj (skipped skip)
          cases failed hit
  | seqStep _ _ _ skipped hit rest =>
      intro second right
      cases right with
      | seqFail skip missed =>
          obtain rfl := Option.some.inj (skipped skip)
          cases hit missed
      | seqStep skip other later =>
          obtain rfl := Option.some.inj (skipped skip)
          obtain rfl := Option.some.inj (hit other)
          exact rest later
  | altHit _ hit =>
      intro second right
      cases right with
      | altHit other => exact hit other
      | altMiss missed _ => cases hit missed
  | altMiss _ _ missed rest =>
      intro second right
      cases right with
      | altHit other => cases missed other
      | altMiss _ later => exact rest later
  | loopFail _ _ skipped failed =>
      intro second right
      cases right with
      | loopFail _ _ => rfl
      | loopLast skip hit _ | loopMore skip hit _ _ =>
          obtain rfl := Option.some.inj (skipped skip)
          cases failed hit
  | loopLast _ _ last skipped hit =>
      intro second right
      cases right with
      | loopFail skip missed =>
          obtain rfl := Option.some.inj (skipped skip)
          cases hit missed
      | loopLast skip other _ =>
          obtain rfl := Option.some.inj (skipped skip)
          obtain rfl := Option.some.inj (hit other)
          rfl
      | loopMore skip other more _ =>
          obtain rfl := Option.some.inj (skipped skip)
          obtain rfl := Option.some.inj (hit other)
          rw [last] at more
          cases more
  | loopMore _ _ more _ skipped hit rest =>
      intro second right
      cases right with
      | loopFail skip missed =>
          obtain rfl := Option.some.inj (skipped skip)
          cases hit missed
      | loopLast skip other last =>
          obtain rfl := Option.some.inj (skipped skip)
          obtain rfl := Option.some.inj (hit other)
          rw [last] at more
          cases more
      | loopMore skip other _ later =>
          obtain rfl := Option.some.inj (skipped skip)
          obtain rfl := Option.some.inj (hit other)
          exact rest later
  | skipHit held =>
      intro second right
      cases right with
      | skipHit other => exact calls _ _ _ _ _ _ held other
      | skipMiss other => cases calls _ _ _ _ _ _ held other
  | skipMiss held =>
      intro second right
      cases right with
      | skipHit other => cases calls _ _ _ _ _ _ held other
      | skipMiss _ => rfl

def Within (input : List CharT) (pos stop : Nat) : Prop :=
  pos ≤ input.length → pos ≤ stop ∧ stop ≤ input.length

/-- A preorder on positions that contains the single steps of the input. -/
structure Travel (input : List CharT) (travels : Nat → Nat → Prop) : Prop where
  refl : ∀ pos, travels pos pos
  trans : ∀ first second third, travels first second → travels second third → travels first third
  step : ∀ pos, pos < input.length → travels pos (pos + 1)

omit [PegValue CharT] in
theorem within_travel : Travel input (Within input) where
  refl _ bounded := ⟨Nat.le_refl _, bounded⟩
  trans first second third left right bounded := by
    have := left bounded
    have := right this.2
    omega
  step pos inside _ := by omega

omit [PegValue CharT] in
theorem forward_travel : Travel input fun pos stop => pos ≤ stop where
  refl _ := Nat.le_refl _
  trans _ _ _ := Nat.le_trans
  step pos _ := Nat.le_succ pos

omit [PegValue CharT] in
theorem repeated_travels {travels : Nat → Nat → Prop} {kind : RepKind} {count pos stop : Nat}
    (travelled : travels pos stop) {found : Nat} (ended : repeated kind count stop = some found) :
    travels pos found := by
  unfold repeated at ended
  split_ifs at ended
  obtain rfl := Option.some.inj ended
  exact travelled

theorem consume_travels {travels : Nat → Nat → Prop} (travel : Travel input travels)
    {value : TerminalValue CharT} {pos stop : Nat} (consumed : consume input value pos = some stop) :
    travels pos stop := by
  obtain ⟨rfl, inside⟩ := consume_bounds consumed
  exact travel.step pos inside

theorem consume_all_travels {travels : Nat → Nat → Prop} (travel : Travel input travels)
    {values : List CharT} {pos stop : Nat} (consumed : consumeAll input values pos = some stop) :
    travels pos stop := by
  induction values generalizing pos with
  | nil =>
      obtain rfl := Option.some.inj consumed
      exact travel.refl pos
  | cons value rest induction =>
      rw [consumeAll, Option.bind_eq_some_iff] at consumed
      obtain ⟨middle, first, later⟩ := consumed
      exact travel.trans _ _ _ (consume_travels travel first) (induction later)

theorem peg_travels {travels : Nat → Nat → Prop} (travel : Travel input travels)
    (matches' : ∀ fn pos stop, matched fn pos (some stop) → travels pos stop)
    (calls : ∀ env mode rule pos stop, call env mode rule pos (some stop) → travels pos stop)
    {env : Env} {mode : Option RuleId} {task : Pending CharT} {pos : Nat} {outcome : Option Nat}
    (peg : Peg input matched call env mode task pos outcome) :
    ∀ {stop : Nat}, outcome = some stop → travels pos stop := by
  induction peg with
  | terminal | token => exact fun ended => consume_travels travel ended
  | terminalSeq => exact fun ended => consume_all_travels travel ended
  | matcher held =>
      rintro stop rfl
      exact matches' _ _ _ held
  | empty | cut | seqNil | skipOff | skipMiss _ =>
      intro stop ended
      obtain rfl := Option.some.inj ended
      exact travel.refl _
  | sequence _ induction | alternation _ induction | repetition _ induction | lexeme _ induction =>
      exact induction
  | not _ _ | and _ _ =>
      intro stop ended
      split_ifs at ended
      obtain rfl := Option.some.inj ended
      exact travel.refl _
  | rule held =>
      rintro stop rfl
      exact calls _ _ _ _ _ held
  | seqFail _ _ _ _ | altNil => exact fun ended => nomatch ended
  | seqStep _ _ _ skipped hit rest =>
      intro stop ended
      exact travel.trans _ _ _ (skipped rfl) (travel.trans _ _ _ (hit rfl) (rest ended))
  | altHit _ hit => exact hit
  | altMiss _ _ _ rest => exact rest
  | loopFail _ _ _ _ => exact fun ended => repeated_travels (travel.refl _) ended
  | loopLast _ _ _ skipped hit =>
      exact fun ended => repeated_travels (travel.trans _ _ _ (skipped rfl) (hit rfl)) ended
  | loopMore _ _ _ _ skipped hit rest =>
      intro stop ended
      exact travel.trans _ _ _ (skipped rfl) (travel.trans _ _ _ (hit rfl) (rest ended))
  | skipHit held =>
      intro stop ended
      obtain rfl := Option.some.inj ended
      exact calls _ _ _ _ _ held

/-- Matches move forward and stay inside the input. -/
theorem peg_within
    (matches' : ∀ fn pos stop, matched fn pos (some stop) → Within input pos stop)
    (calls : ∀ env mode rule pos stop, call env mode rule pos (some stop) → Within input pos stop)
    {env : Env} {mode : Option RuleId} {task : Pending CharT} {pos stop : Nat}
    (peg : Peg input matched call env mode task pos (some stop)) : Within input pos stop :=
  peg_travels within_travel matches' calls peg rfl

/-- A derivation over the union of a chain of readings is one over a member. -/
theorem peg_directed {call : Nat → Env → Option RuleId → RuleId → Nat → Option Nat → Prop}
    (chain : ∀ {depth deeper}, depth ≤ deeper → ∀ env mode rule pos outcome,
      call depth env mode rule pos outcome → call deeper env mode rule pos outcome)
    {env : Env} {mode : Option RuleId} {task : Pending CharT} {pos : Nat} {outcome : Option Nat}
    (peg : Peg input matched
      (fun env mode rule pos outcome => ∃ depth, call depth env mode rule pos outcome) env mode task
      pos outcome) :
    ∃ depth, Peg input matched (call depth) env mode task pos outcome := by
  have lift : ∀ {depth deeper : Nat}, depth ≤ deeper →
      ∀ {env : Env} {mode : Option RuleId} {task : Pending CharT} {pos : Nat} {outcome : Option Nat},
        Peg input matched (call depth) env mode task pos outcome →
        Peg input matched (call deeper) env mode task pos outcome :=
    fun larger _ _ _ _ _ peg => peg_mono id (fun _ _ _ => id) (chain larger) peg
  have both : ∀ {env env' : Env} {mode mode' : Option RuleId} {task task' : Pending CharT}
      {pos pos' : Nat} {outcome outcome' : Option Nat},
      (∃ depth, Peg input matched (call depth) env mode task pos outcome) →
      (∃ depth, Peg input matched (call depth) env' mode' task' pos' outcome') →
      ∃ depth, Peg input matched (call depth) env mode task pos outcome ∧
        Peg input matched (call depth) env' mode' task' pos' outcome' := by
    rintro _ _ _ _ _ _ _ _ _ _ ⟨left, first⟩ ⟨right, second⟩
    exact ⟨max left right, lift (Nat.le_max_left _ _) first, lift (Nat.le_max_right _ _) second⟩
  induction peg with
  | terminal => exact ⟨0, .terminal⟩
  | terminalSeq => exact ⟨0, .terminalSeq⟩
  | token => exact ⟨0, .token⟩
  | matcher held => exact ⟨0, .matcher held⟩
  | empty => exact ⟨0, .empty⟩
  | cut => exact ⟨0, .cut⟩
  | sequence _ induction => exact induction.imp fun _ => .sequence
  | alternation _ induction => exact induction.imp fun _ => .alternation
  | repetition _ induction => exact induction.imp fun _ => .repetition
  | not _ induction => exact induction.imp fun _ => .not
  | and _ induction => exact induction.imp fun _ => .and
  | lexeme _ induction => exact induction.imp fun _ => .lexeme
  | rule held => exact held.imp fun _ => .rule
  | seqNil => exact ⟨0, .seqNil⟩
  | seqFail _ _ skipped failed =>
      obtain ⟨depth, skip, fail⟩ := both skipped failed
      exact ⟨depth, .seqFail skip fail⟩
  | seqStep _ _ _ skipped hit rest =>
      obtain ⟨depth, skip, found⟩ := both skipped hit
      obtain ⟨depth', later⟩ := rest
      have left := Nat.le_max_left depth depth'
      exact ⟨max depth depth', .seqStep (lift left skip) (lift left found)
        (lift (Nat.le_max_right _ _) later)⟩
  | altNil => exact ⟨0, .altNil⟩
  | altHit _ hit => exact hit.imp fun _ => .altHit
  | altMiss _ _ missed rest =>
      obtain ⟨depth, miss, later⟩ := both missed rest
      exact ⟨depth, .altMiss miss later⟩
  | loopFail _ _ skipped failed =>
      obtain ⟨depth, skip, fail⟩ := both skipped failed
      exact ⟨depth, .loopFail skip fail⟩
  | loopLast _ _ last skipped hit =>
      obtain ⟨depth, skip, found⟩ := both skipped hit
      exact ⟨depth, .loopLast skip found last⟩
  | loopMore _ _ more _ skipped hit rest =>
      obtain ⟨depth, skip, found⟩ := both skipped hit
      obtain ⟨depth', later⟩ := rest
      have left := Nat.le_max_left depth depth'
      exact ⟨max depth depth', .loopMore (lift left skip) (lift left found) more
        (lift (Nat.le_max_right _ _) later)⟩
  | skipOff => exact ⟨0, .skipOff⟩
  | skipHit held => exact held.imp fun _ => .skipHit
  | skipMiss held => exact held.imp fun _ => .skipMiss

end Semantics

end Peglib.PegSemantics
