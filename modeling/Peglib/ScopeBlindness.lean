import Peglib.Coupling
import Peglib.ExpressionSteps

/-!
# Parsing does not see uncommitted scopes

As long as no cut is executed, the scopes that are open make no difference:
from two contexts that differ in uncommitted scopes only, an expression has one
outcome, and the contexts it returns in differ in uncommitted scopes only.
Matchers can see a scope through the commit flag alone.
-/

namespace Peglib.ScopeBlindness

open Peglib.TracedComputation Peglib.Coupling
open Peglib.ParseError Peglib.ParseContext Peglib.Expressions Peglib.Rules Peglib.ExpressionSteps

set_option autoImplicit false

variable {CharT NodeType : Type}

def Uncommitted (context : Context CharT) : Prop := ∀ scope ∈ context.cutStack, scope.cut = false

theorem Uncommitted.cut_eq {context : Context CharT} (uncommitted : Uncommitted context) :
    context.cut = false := by
  unfold Context.cut
  cases stack : context.cutStack with
  | nil => rfl
  | cons scope outer => exact uncommitted scope (by rw [stack]; exact List.mem_cons_self)

def withScopes (scopes : List CutRecord) (context : Context CharT) : Context CharT :=
  { context with cutStack := scopes }

/-- Two contexts under one skipper that differ in uncommitted scopes at most. -/
structure SameButScopes (skipper : Option RuleId) (near far : Context CharT) : Prop where
  same : near = withScopes near.cutStack far
  nearScopes : Uncommitted near
  farScopes : Uncommitted far
  skipper : far.skipper = skipper

theorem SameButScopes.position {skipper : Option RuleId} {near far : Context CharT}
    (alike : SameButScopes skipper near far) : near.position = far.position := by
  rw [alike.same]
  rfl

theorem SameButScopes.near_skipper {skipper : Option RuleId} {near far : Context CharT}
    (alike : SameButScopes skipper near far) : near.skipper = skipper := by
  rw [alike.same]
  exact alike.skipper

/-- A matcher sees of the scopes what `cut()` says. -/
def MatcherBlind : Expr CharT → Prop
  | .matcher fn => ∀ (context : Context CharT) scopes span,
      (withScopes scopes context).cut = context.cut → fn (withScopes scopes context) span = fn context span
  | _ => True

/-- The rules of the set refer to no others and contain no cut. -/
structure ScopeFree (grammar : Grammar CharT NodeType) (reach : RuleId → Prop) : Prop where
  skipper : ∀ rule, grammar.skipper = some rule → reach rule
  bodies : ∀ rule body, reach rule → grammar.body rule = some body →
    body.Every fun part => Sealed reach part ∧ MatcherBlind part

section Steps

variable {skipper : Option RuleId} {Value Other : Type}

/-- An update that carries the scopes along. -/
def Scopeless (update : Context CharT → Context CharT) : Prop :=
  ∀ context scopes, update (withScopes scopes context) = withScopes scopes (update context) ∧
    (update context).skipper = context.skipper

theorem Scopeless.keeps {update : Context CharT → Context CharT} (scopeless : Scopeless update)
    (context : Context CharT) : (update context).cutStack = context.cutStack := by
  have carried : update context = withScopes context.cutStack (update context) :=
    (scopeless context context.cutStack).1
  calc (update context).cutStack
      _ = (withScopes context.cutStack (update context)).cutStack := by rw [← carried]
      _ = context.cutStack := rfl

theorem Scopeless.alike {update : Context CharT → Context CharT} (scopeless : Scopeless update)
    {near far : Context CharT} (alike : SameButScopes skipper near far) :
    SameButScopes skipper (update near) (update far) where
  same := by
    rw [scopeless.keeps near]
    exact (congrArg update alike.same).trans (scopeless far near.cutStack).1
  nearScopes := by
    unfold Uncommitted
    rw [scopeless.keeps near]
    exact alike.nearScopes
  farScopes := by
    unfold Uncommitted
    rw [scopeless.keeps far]
    exact alike.farScopes
  skipper := (scopeless far []).2.trans alike.skipper

abbrev Blind (skipper : Option RuleId) (parser : Parser CharT Value) : Prop :=
  Twins (SameButScopes skipper) parser

theorem blind_modify {update : Context CharT → Context CharT} (scopeless : Scopeless update) :
    Blind skipper (Comp.modify update : Parser CharT Unit) :=
  twins_modify fun _ _ alike => scopeless.alike alike

theorem blind_modifyGet {update : Context CharT → Value × Context CharT}
    (value : ∀ context scopes, (update (withScopes scopes context)).1 = (update context).1)
    (scopeless : Scopeless fun context => (update context).2) :
    Blind skipper (Comp.modifyGet update : Parser CharT Value) := by
  refine twins_modifyGet fun near far alike => ⟨?_, scopeless.alike alike⟩
  rw [alike.same]
  exact value far near.cutStack

theorem blind_read {view : Context CharT → Value} {next : Value → Parser CharT Other}
    (same : ∀ context scopes, view (withScopes scopes context) = view context)
    (rest : ∀ value, Blind skipper (next value)) : Blind skipper (Comp.read view >>= next) := by
  refine twins_read (fun near far alike => ?_) rest
  rw [alike.same]
  exact same far near.cutStack

theorem blind_look {next : Context CharT → Parser CharT Other}
    (same : ∀ context scopes, (withScopes scopes context).cut = context.cut →
      next (withScopes scopes context) = next context)
    (rest : ∀ context, Blind skipper (next context)) : Blind skipper (Comp.read id >>= next) := by
  refine twins_look (fun near far alike => ?_) rest
  have flags : (withScopes near.cutStack far).cut = far.cut := by
    rw [← alike.same, alike.nearScopes.cut_eq, alike.farScopes.cut_eq]
  rw [alike.same]
  exact same far near.cutStack flags

theorem reset_scopeless (pos : Nat) : Scopeless fun context : Context CharT => context.reset pos :=
  fun _ _ => ⟨rfl, rfl⟩

theorem next_scopeless : Scopeless (@Context.next CharT) := by
  intro context scopes
  unfold Context.next withScopes Context.inputSize
  split_ifs <;> exact ⟨rfl, rfl⟩

theorem push_child_scopeless (node : NodePtr) (tree : Option NodePtr) :
    Scopeless (@pushChild CharT node tree) := by
  intro context scopes
  cases tree <;> exact ⟨rfl, rfl⟩

theorem stamp_winner_scopeless (tree : Option NodePtr) (index : Nat) :
    Scopeless (@stampWinner CharT tree index) := by
  intro context scopes
  cases tree <;> exact ⟨rfl, rfl⟩

theorem init_cut_alike {near far : Context CharT} (alike : SameButScopes skipper near far) :
    SameButScopes skipper near.initCut far.initCut := by
  obtain ⟨same, uncommitted, uncommitted', configured⟩ := alike
  have opened : ∀ context : Context CharT, Uncommitted context → Uncommitted context.initCut := by
    intro context inside scope member
    rcases List.mem_cons.mp member with rfl | member
    · rfl
    · exact inside scope member
  refine ⟨?_, opened near uncommitted, opened far uncommitted', configured⟩
  rw [same]
  rfl

theorem set_cut_scopes {context : Context CharT} (inside : Uncommitted context) :
    ∃ scopes, context.setCut false = withScopes scopes context ∧
      Uncommitted (withScopes scopes context) := by
  unfold Context.setCut
  split
  · exact ⟨context.cutStack, rfl, inside⟩
  · next outer stack =>
      refine ⟨⟨context.position, false⟩ :: outer, rfl, fun other member => ?_⟩
      rcases List.mem_cons.mp member with rfl | member
      · rfl
      · exact inside other (by rw [stack]; exact List.mem_cons_of_mem _ member)

theorem set_cut_near {near far : Context CharT} (alike : SameButScopes skipper near far) :
    SameButScopes skipper (near.setCut false) far := by
  obtain ⟨same, uncommitted, uncommitted', configured⟩ := alike
  obtain ⟨scopes, nearly, cleared⟩ := set_cut_scopes uncommitted
  rw [nearly]
  refine ⟨?_, cleared, uncommitted', configured⟩
  rw [same]
  rfl

theorem set_cut_alike {near far : Context CharT} (alike : SameButScopes skipper near far) :
    SameButScopes skipper (near.setCut false) (far.setCut false) := by
  obtain ⟨same, uncommitted, uncommitted', configured⟩ := set_cut_near alike
  obtain ⟨scopes, farly, cleared⟩ := set_cut_scopes uncommitted'
  rw [farly]
  refine ⟨?_, uncommitted, cleared, configured⟩
  rw [same]
  rfl

theorem remove_cut_alike {near far : Context CharT} (alike : SameButScopes skipper near far) :
    SameButScopes skipper near.removeCut far.removeCut := by
  obtain ⟨same, uncommitted, uncommitted', configured⟩ := alike
  have closed : ∀ context : Context CharT, Uncommitted context →
      context.removeCut = withScopes context.cutStack.tail context ∧
        Uncommitted (withScopes context.cutStack.tail context) := by
    intro context inside
    refine ⟨?_, fun scope member => inside scope (List.mem_of_mem_tail member)⟩
    unfold Context.removeCut
    split
    · next stack =>
        unfold withScopes
        rw [stack, List.tail_nil, ← stack]
    · next scope outer stack =>
        have flag : scope.cut = false := inside scope (by rw [stack]; exact List.mem_cons_self)
        rw [if_neg (by rw [flag]; exact Bool.false_ne_true)]
        unfold withScopes
        rw [stack, List.tail_cons]
  rw [(closed near uncommitted).1, (closed far uncommitted').1]
  refine ⟨?_, (closed near uncommitted).2, (closed far uncommitted').2, configured⟩
  rw [same]
  rfl

end Steps

section Leaves

variable {skipper : Option RuleId}

theorem matcher_blind {fn : Context CharT → Span → Option Span}
    (sees : MatcherBlind (.matcher fn)) : Blind skipper (MatcherExpr.parse fn) := by
  refine blind_look (fun context scopes flags => ?_) fun context => ?_
  · have seen := sees context scopes
      ⟨(withScopes scopes context).position, (withScopes scopes context).position⟩ flags
    rw [seen]
    rfl
  · split
    · refine twins_bind (blind_modify (reset_scopeless _)) fun _ => ?_
      refine twins_bind (blind_modifyGet (fun _ _ => rfl) fun _ _ => ⟨rfl, rfl⟩) fun node => ?_
      exact twins_bind (blind_modify fun _ _ => ⟨rfl, rfl⟩) fun _ => twins_pure _
    · exact twins_pure _

variable [PegValue CharT]

theorem terminal_blind (value : TerminalValue CharT) : Blind skipper (TerminalExpr.parse value) := by
  refine blind_read (fun _ _ => rfl) fun matched => twins_ite (fun _ => ?_) fun _ => ?_
  · exact twins_bind (blind_modify next_scopeless) fun _ => twins_pure _
  · exact twins_bind (blind_modify fun _ _ => ⟨rfl, rfl⟩) fun _ => twins_pure _

theorem match_values_blind (values : List CharT) :
    Blind skipper (TerminalSeqExpr.matchValues values) := by
  induction values with
  | nil => exact twins_pure true
  | cons value rest induction =>
      refine blind_read (fun _ _ => rfl) fun matched => twins_ite (fun _ => ?_) fun _ => ?_
      · exact twins_bind (blind_modify next_scopeless) fun _ => induction
      · exact twins_pure false

theorem terminal_seq_blind (values : List CharT) : Blind skipper (TerminalSeqExpr.parse values) := by
  refine blind_read (fun _ _ => rfl) fun initState => ?_
  refine twins_bind (match_values_blind values) fun matched =>
    twins_ite (fun _ => twins_pure _) fun _ => ?_
  refine twins_bind (blind_modify (reset_scopeless _)) fun _ => ?_
  exact twins_bind (blind_modify fun _ _ => ⟨rfl, rfl⟩) fun _ => twins_pure _

theorem token_blind (value : TerminalValue CharT) : Blind skipper (TokenExpr.parse value) := by
  refine blind_read (fun _ _ => rfl) fun matched => twins_ite (fun _ => ?_) fun _ => ?_
  · refine twins_bind (blind_modify next_scopeless) fun _ => ?_
    refine twins_bind (blind_modifyGet (fun _ _ => rfl) fun _ _ => ⟨rfl, rfl⟩) fun node => ?_
    exact twins_bind (blind_modify fun _ _ => ⟨rfl, rfl⟩) fun _ => twins_pure _
  · exact twins_bind (blind_modify fun _ _ => ⟨rfl, rfl⟩) fun _ => twins_pure _

end Leaves

section Combinators

variable {skipper : Option RuleId} {reach : RuleId → Prop}

theorem skipper_blind {apply : RuleId → Parser CharT ParseResult}
    (applies : ∀ rule, skipper = some rule → Blind skipper (apply rule)) :
    Blind skipper (runSkipper apply) := by
  intro near far alike
  have enabled : near.skipEnabled = far.skipEnabled := by
    rw [alike.same]
    rfl
  have configured : near.skipper = far.skipper := by
    rw [alike.same]
    rfl
  have looked : ∀ context : Context CharT, (Comp.read id context : Run (Moment CharT) _ Exn _) =
      ⟨.returned context, context, []⟩ := fun _ => rfl
  have idle : TwinRuns (SameButScopes skipper) ((pure () : Parser CharT Unit) near)
      ((pure () : Parser CharT Unit) far) :=
    twins_pure () near far alike
  rw [runSkipper, Comp.bind_returned (looked near), Comp.bind_returned (looked far), enabled, configured]
  cases far.skipEnabled with
  | false => exact idle
  | true =>
      cases set : far.skipper with
      | none => exact idle
      | some rule =>
          have active : Blind skipper (do
              Comp.modify fun context => { context with skipEnabled := false }
              let _ ← apply rule
              Comp.modify fun after => { after with skipEnabled := true } : Parser CharT Unit) := by
            refine twins_bind (blind_modify fun _ _ => ⟨rfl, rfl⟩) fun _ => ?_
            refine twins_bind (applies rule (alike.skipper.symm.trans set)) fun _ => ?_
            exact blind_modify fun _ _ => ⟨rfl, rfl⟩
          exact active near far alike

theorem parse_seq_blind {skip : Parser CharT Unit} (skips : Blind skipper skip) (node : NodePtr)
    (children : List (Parser CharT ParseResult)) (each : ∀ child ∈ children, Blind skipper child)
    (index : Nat) : Blind skipper (SequenceExpr.parseSeq skip node index children) := by
  induction children generalizing index with
  | nil => exact twins_pure true
  | cons child rest induction =>
      refine twins_bind (twins_onlyIf fun _ => skips) fun _ => ?_
      refine twins_bind (each child (by simp)) fun result => ?_
      refine twins_ite (fun _ => ?_) fun _ => twins_pure false
      refine twins_bind (blind_modify (push_child_scopeless node _)) fun _ => ?_
      exact induction (fun other member => each other (by simp [member])) (index + 1)

theorem sequence_blind {skip : Parser CharT Unit} (skips : Blind skipper skip)
    (children : List (Parser CharT ParseResult)) (each : ∀ child ∈ children, Blind skipper child) :
    Blind skipper (SequenceExpr.parse skip children) := by
  refine blind_read (fun _ _ => rfl) fun state => ?_
  refine twins_bind (blind_modifyGet (fun _ _ => rfl) fun _ _ => ⟨rfl, rfl⟩) fun node => ?_
  refine twins_bind (blind_modify fun _ _ => ⟨rfl, rfl⟩) fun _ => ?_
  refine twins_bind (parse_seq_blind skips node children each 0) fun matched => ?_
  refine twins_ite (fun _ => ?_) fun _ => ?_
  · exact twins_bind (blind_modify fun _ _ => ⟨rfl, rfl⟩) fun _ => twins_pure _
  · exact twins_bind (blind_modify (reset_scopeless _)) fun _ => twins_pure _

theorem raise_blind : Blind skipper (raiseIfCommitted : Parser CharT Unit) := by
  refine twins_bind (twins_announce _) fun _ => blind_look (fun context scopes flags => ?_) fun _ => ?_
  · rw [flags]
    rfl
  · exact twins_onlyIf fun _ => twins_throw _

theorem cut_scope_blind {body : Parser CharT ParseResult} (bodies : Blind skipper body) :
    Blind skipper
      (Comp.modify Context.initCut >>= fun _ => Comp.guarded body Context.removeCut) :=
  twins_bind (twins_modify fun _ _ => init_cut_alike) fun _ =>
    twins_guarded bodies fun _ _ => remove_cut_alike

theorem parse_alt_blind (children : List (Parser CharT ParseResult))
    (each : ∀ child ∈ children, Blind skipper child) (index : Nat) :
    Blind skipper (AlternationExpr.parseAlt index children) := by
  induction children generalizing index with
  | nil => exact twins_pure _
  | cons child rest induction =>
      refine twins_bind (each child (by simp)) fun result => twins_ite (fun _ => ?_) fun _ => ?_
      · exact twins_bind (blind_modify (stamp_winner_scopeless _ _)) fun _ => twins_pure _
      · refine twins_bind raise_blind fun _ => ?_
        exact induction (fun other member => each other (by simp [member])) (index + 1)

theorem repeat_loop_blind {skip : Parser CharT Unit} (skips : Blind skipper skip)
    {child : Parser CharT ParseResult} (childBlind : Blind skipper child) (maxRep : Int)
    (node : NodePtr) (fuel loopCount lastSuccessState : Nat) :
    Blind skipper (repeatLoop skip child maxRep node fuel loopCount lastSuccessState) := by
  induction fuel generalizing loopCount lastSuccessState with
  | zero => exact twins_exhaust
  | succ fuel induction =>
      refine twins_bind (twins_onlyIf fun _ => skips) fun _ => ?_
      refine blind_read (fun _ _ => rfl) fun startState => ?_
      refine twins_bind (twins_modify fun _ _ => set_cut_alike) fun _ => ?_
      refine twins_bind childBlind fun result => twins_ite (fun _ => ?_) fun _ => twins_pure _
      refine blind_read (fun _ _ => rfl) fun here => ?_
      refine twins_bind (blind_modify (push_child_scopeless node _)) fun _ => ?_
      exact twins_ite (fun _ => twins_pure _) fun _ => induction _ _

theorem repeat_finish_blind (maxRep : Int) (node : NodePtr) (ended : LoopExit) :
    Blind skipper (repeatFinish maxRep node ended : Parser CharT ParseResult) := by
  refine twins_bind (twins_onlyIf fun _ => blind_modify fun _ _ => ⟨rfl, rfl⟩) fun _ => ?_
  refine twins_bind (twins_onlyIf fun _ => raise_blind) fun _ => ?_
  exact twins_bind (blind_modify fun _ _ => ⟨rfl, rfl⟩) fun _ => twins_pure _

theorem repeat_blind (fuel : Nat) {skip : Parser CharT Unit} (skips : Blind skipper skip)
    {child : Parser CharT ParseResult} (childBlind : Blind skipper child) (minRep : Nat)
    (maxRep : Int) : Blind skipper (repeatParseImpl fuel skip child minRep maxRep) := by
  refine cut_scope_blind (blind_read (fun _ _ => rfl) fun initState => ?_)
  refine twins_bind (blind_modifyGet (fun _ _ => rfl) fun _ _ => ⟨rfl, rfl⟩) fun node => ?_
  refine twins_bind (blind_modify fun _ _ => ⟨rfl, rfl⟩) fun _ => ?_
  refine twins_bind (repeat_loop_blind skips childBlind maxRep node fuel 0 _) fun ended => ?_
  refine twins_ite (fun _ => ?_) fun _ => repeat_finish_blind maxRep node ended
  exact twins_bind (blind_modify (reset_scopeless _)) fun _ => twins_pure _

theorem predicate_blind {child : Parser CharT ParseResult} (childBlind : Blind skipper child)
    (negate : Bool) : Blind skipper (predicateParseImpl child negate) := by
  refine blind_read (fun _ _ => rfl) fun initState => twins_bind childBlind fun result => ?_
  exact twins_bind (blind_modify (reset_scopeless _)) fun _ => twins_pure _

theorem lexeme_blind {child : Parser CharT ParseResult} (childBlind : Blind skipper child) :
    Blind skipper (LexemeExpr.parse child) := by
  refine blind_read (fun _ _ => rfl) fun prev => ?_
  refine twins_bind (blind_modify fun _ _ => ⟨rfl, rfl⟩) fun _ => ?_
  have restores : Scopeless fun context : Context CharT => { context with skipEnabled := prev } :=
    fun _ _ => ⟨rfl, rfl⟩
  exact twins_guarded childBlind fun _ _ => restores.alike

variable [PegValue CharT]

theorem expr_blind {apply : RuleId → Parser CharT ParseResult}
    (applies : ∀ rule, reach rule → Blind skipper (apply rule))
    (configured : ∀ rule, skipper = some rule → reach rule) (fuel : Nat) {expr : Expr CharT}
    (free : expr.Every fun part => Sealed reach part ∧ MatcherBlind part) :
    Blind skipper (expr.parse apply fuel) := by
  have skips : Blind skipper (runSkipper apply) :=
    skipper_blind fun rule set => applies rule (configured rule set)
  have all : ∀ children : List (Expr CharT),
      (∀ child ∈ children, Blind skipper (child.parse apply fuel)) →
      ∀ parser ∈ Expr.parseAll apply fuel children, Blind skipper parser := by
    intro children each parser member
    rw [Expr.parse_all_eq_map] at member
    obtain ⟨child, inChildren, rfl⟩ := List.mem_map.mp member
    exact each child inChildren
  induction expr using Expr.induct with
  | terminal value => exact terminal_blind value
  | terminalSeq values => exact terminal_seq_blind values
  | token value => exact token_blind value
  | matcher fn => exact matcher_blind free.here.2
  | empty => exact twins_pure _
  | cut => exact absurd free.here.1 id
  | sequence children induction =>
      unfold Expr.Every at free
      exact sequence_blind skips _ (all children fun child member =>
        induction child member (Expr.every_all_iff.mp free.2 child member))
  | alternation children induction =>
      unfold Expr.Every at free
      exact cut_scope_blind (parse_alt_blind _ (all children fun child member =>
        induction child member (Expr.every_all_iff.mp free.2 child member)) 0)
  | repetition kind child induction =>
      unfold Expr.Every at free
      exact repeat_blind fuel skips (induction free.2) kind.minRep kind.maxRep
  | not child induction =>
      unfold Expr.Every at free
      exact predicate_blind (induction free.2) true
  | and child induction =>
      unfold Expr.Every at free
      exact predicate_blind (induction free.2) false
  | lexeme child induction =>
      unfold Expr.Every at free
      exact lexeme_blind (induction free.2)
  | rule id => exact applies id free.here.1

end Combinators

section RuleApplication

variable {skipper : Option RuleId} {reach : RuleId → Prop}

theorem update_row_scopeless (rule : RuleId) (pos : Nat) (entry : RuleState) :
    (∀ (context : Context CharT) scopes,
      ((withScopes scopes context).updateRuleState rule pos entry).1 =
        (context.updateRuleState rule pos entry).1) ∧
      Scopeless fun context : Context CharT => (context.updateRuleState rule pos entry).2 := by
  constructor <;> intro context scopes <;> unfold Context.updateRuleState withScopes <;> dsimp only <;>
    cases context.mem pos rule
  · rfl
  · rfl
  · exact ⟨rfl, rfl⟩
  · exact ⟨rfl, rfl⟩

theorem rule_state_scopeless (rule : RuleId) (pos : Nat) :
    (∀ (context : Context CharT) scopes,
      ((withScopes scopes context).ruleState rule pos).1 = (context.ruleState rule pos).1) ∧
      Scopeless fun context : Context CharT => (context.ruleState rule pos).2 := by
  constructor <;> intro context scopes <;> unfold Context.ruleState withScopes <;> dsimp only <;>
    cases context.mem pos rule
  · rfl
  · rfl
  · exact ⟨rfl, rfl⟩
  · exact ⟨rfl, rfl⟩

theorem leave_scopeless (startPos : Nat) : Scopeless (@NonTerminal.leave CharT startPos) := by
  intro context scopes
  have frame : NonTerminal.frame (withScopes scopes context) = NonTerminal.frame context := rfl
  unfold NonTerminal.leave
  rw [frame]
  split_ifs <;> exact ⟨rfl, rfl⟩

theorem mark_head_scopeless (rule : RuleId) (pos : Nat) :
    Scopeless fun context : Context CharT => context.markHead rule pos := by
  intro context scopes
  have stack : (withScopes scopes context).lrStack = context.lrStack := rfl
  unfold Context.markHead
  dsimp only
  rw [stack]
  cases context.lrStack.find? (LRFrame.isOf rule pos) with
  | none => exact ⟨rfl, rfl⟩
  | some frame =>
      dsimp only
      split_ifs <;> exact ⟨rfl, rfl⟩

theorem record_rule_failure_scopeless (nonTerminal : NonTerminal CharT NodeType) (startPos : Nat) :
    Scopeless (NonTerminal.recordRuleFailure nonTerminal startPos) := by
  intro context scopes
  unfold NonTerminal.recordRuleFailure
  split_ifs <;> exact ⟨rfl, rfl⟩

theorem store_blind (rule : RuleId) (pos : Nat) (entry : RuleState) :
    Blind skipper (NonTerminal.store rule pos entry : Parser CharT Bool) := by
  have updates := @update_row_scopeless CharT rule pos entry
  refine twins_bind (blind_modifyGet updates.1 updates.2) fun _ => ?_
  exact twins_bind (twins_announce _) fun _ => twins_pure _

theorem grow_loop_blind (rule : RuleId) (startPos : Nat) {parseBody : Parser CharT ParseResult}
    (bodies : Blind skipper parseBody) (fuel : Nat) (best : ParseResult) (ruleState : RuleState) :
    Blind skipper (NonTerminal.growLoop rule startPos parseBody fuel best ruleState) := by
  induction fuel generalizing best ruleState with
  | zero => exact twins_exhaust
  | succ fuel induction =>
      refine twins_bind (blind_modify (reset_scopeless _)) fun _ => ?_
      refine blind_look (fun _ _ _ => rfl) fun before => ?_
      refine twins_bind (twins_onlyIf fun _ => blind_modify fun _ _ => ⟨rfl, rfl⟩) fun _ => ?_
      refine twins_bind bodies fun result => blind_look (fun _ _ _ => rfl) fun after => ?_
      refine twins_ite (fun _ => twins_ite (fun _ => ?_) fun _ => ?_) fun _ => twins_pure _
      · refine twins_bind (blind_modify fun _ _ => ⟨rfl, rfl⟩) fun _ => ?_
        refine twins_bind (store_blind _ _ _) fun present => ?_
        exact twins_ite (fun _ => induction _ _) fun _ => twins_pure _
      · exact twins_bind (store_blind _ _ _) fun _ => twins_pure _

theorem invoke_blind (rule : RuleId) (startPos : Nat) {body : Option (Parser CharT ParseResult)}
    (bodies : ∀ parser ∈ body, Blind skipper parser) (fuel : Nat) :
    Blind skipper (NonTerminal.invoke rule startPos body fuel) := by
  refine twins_bind (blind_modify fun _ _ => ⟨rfl, rfl⟩) fun _ => twins_bind ?_ fun grown => ?_
  · cases body with
    | none => exact twins_throw _
    | some parseBody =>
        refine twins_bind (store_blind _ _ _) fun _ => ?_
        refine twins_bind (grow_loop_blind rule startPos (bodies _ rfl) fuel _ _) fun grown => ?_
        exact twins_bind (blind_modify fun _ _ => ⟨rfl, rfl⟩) fun _ => twins_pure _
  · exact twins_bind (blind_modify (leave_scopeless startPos)) fun _ => twins_pure _

theorem build_node_blind (nonTerminal : NonTerminal CharT NodeType) (rule : RuleId) (startPos : Nat)
    (inner : Option NodePtr) :
    Blind skipper (NonTerminal.buildNode nonTerminal rule startPos inner) := by
  have makes : Blind skipper (Comp.modifyGet Context.makeNode : Parser CharT NodePtr) :=
    blind_modifyGet (fun _ _ => rfl) fun _ _ => ⟨rfl, rfl⟩
  unfold NonTerminal.buildNode
  split
  · refine twins_bind makes fun node => ?_
    refine twins_bind (blind_modify fun _ _ => ⟨rfl, rfl⟩) fun _ => ?_
    exact twins_bind (blind_modify (push_child_scopeless _ _)) fun _ => twins_pure _
  · refine twins_bind ?_ fun node => ?_
    · cases inner with
      | none => exact makes
      | some node => exact twins_pure node
    · exact twins_bind (blind_modify fun _ _ => ⟨rfl, rfl⟩) fun _ => twins_pure _

theorem finish_failure_blind (nonTerminal : NonTerminal CharT NodeType) (rule : RuleId)
    (startPos : Nat) (ruleState : RuleState) :
    Blind skipper (NonTerminal.finishFailure nonTerminal rule startPos ruleState) := by
  refine twins_bind (blind_modify (record_rule_failure_scopeless nonTerminal startPos)) fun _ => ?_
  refine blind_look (fun context scopes flags => ?_) fun context => ?_
  · rw [flags]
    rfl
  · split
    · refine twins_bind (blind_modify fun _ _ => ⟨rfl, rfl⟩) fun _ => ?_
      exact twins_bind (store_blind _ _ _) fun _ => twins_pure _
    · exact twins_bind (store_blind _ _ _) fun _ => twins_pure _

theorem replay_blind (rule : RuleId) (startPos : Nat) (ruleState : RuleState) :
    Blind skipper (NonTerminal.replay rule startPos ruleState : Parser CharT ParseResult) := by
  have jump : ∀ (target : Nat) (result : ParseResult),
      Blind skipper (Comp.modify (fun context => context.reset target) >>= fun _ =>
        (pure result : Parser CharT ParseResult)) := fun target result =>
    twins_bind (blind_modify (reset_scopeless target)) fun _ => twins_pure result
  refine blind_look (fun _ _ _ => rfl) fun context => twins_ite (fun _ => ?_) fun _ => ?_
  · refine twins_bind (blind_modify (mark_head_scopeless rule startPos)) fun _ => ?_
    exact twins_bind (blind_modify fun _ _ => ⟨rfl, rfl⟩) fun _ => twins_pure _
  · split
    · refine twins_ite (fun _ => ?_) fun _ => jump _ _
      exact twins_bind (blind_modify fun _ _ => ⟨rfl, rfl⟩) fun _ => twins_pure _
    · exact jump _ _

theorem parse_blind (nonTerminal : NonTerminal CharT NodeType) (rule : RuleId)
    {body : Option (Parser CharT ParseResult)} (bodies : ∀ parser ∈ body, Blind skipper parser)
    (fuel : Nat) : Blind skipper (NonTerminal.parse nonTerminal rule body fuel) := by
  refine twins_bind (twins_announce _) fun _ => blind_read (fun _ _ => rfl) fun startPos => ?_
  have rows := @rule_state_scopeless CharT rule startPos
  refine twins_bind (blind_modifyGet rows.1 rows.2) fun row => ?_
  refine twins_ite (fun _ => ?_) fun _ => replay_blind rule startPos _
  refine twins_bind (invoke_blind rule startPos bodies fuel) fun grown => ?_
  refine twins_ite (fun _ => ?_) fun _ => finish_failure_blind _ _ _ _
  refine twins_bind (build_node_blind _ _ _ _) fun node => ?_
  exact twins_bind (store_blind _ _ _) fun _ => twins_pure _

variable [PegValue CharT] {grammar : Grammar CharT NodeType}

theorem apply_blind (free : ScopeFree grammar reach) (fuel : Nat) (rule : RuleId)
    (inside : reach rule) : Blind grammar.skipper (grammar.apply fuel rule) := by
  induction fuel generalizing rule with
  | zero => exact twins_exhaust
  | succ fuel induction =>
      refine parse_blind _ rule (fun parser member => ?_) fuel
      obtain ⟨expr, assigned, rfl⟩ := Option.map_eq_some_iff.mp member
      exact expr_blind induction free.skipper fuel (free.bodies rule expr inside assigned)

/-- An expression without cuts takes no notice of uncommitted scopes. -/
theorem eval_blind (free : ScopeFree grammar reach) (fuel : Nat) {expr : Expr CharT}
    (sealed' : expr.Every fun part => Sealed reach part ∧ MatcherBlind part) :
    Blind grammar.skipper (grammar.eval fuel expr) :=
  expr_blind (fun rule inside => apply_blind free fuel rule inside) free.skipper fuel sealed'

end RuleApplication

end Peglib.ScopeBlindness
