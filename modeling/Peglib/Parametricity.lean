import Mathlib.Data.List.Forall2
import Peglib.Rules

/-!
# Parametricity of the engine

A relation between parsers that is closed under the few constructs the engine
is written with holds between a grammar's rule application at one budget and at
any larger one. Facts about whole runs that do not depend on what the steps do
to the context are proved once and for all from the closure rules.
-/

namespace Peglib.Parametricity

open Peglib.TracedComputation Peglib.ParseError Peglib.ParseContext Peglib.Expressions
open Peglib.Rules

set_option autoImplicit false

variable {CharT NodeType : Type}

/-- A step that returns and announces nothing. -/
def Silent {Value : Type} (step : Parser CharT Value) : Prop :=
  ∀ context, ∃ value last, step context = ⟨.returned value, last, []⟩

section Silent

variable {Value Other : Type}

theorem silent_pure (value : Value) : Silent (pure value : Parser CharT Value) :=
  fun context => ⟨value, context, rfl⟩

theorem silent_read (view : Context CharT → Value) : Silent (Comp.read view) :=
  fun context => ⟨view context, context, rfl⟩

theorem silent_modify (update : Context CharT → Context CharT) : Silent (Comp.modify update) :=
  fun context => ⟨(), update context, rfl⟩

theorem silent_modifyGet (update : Context CharT → Value × Context CharT) :
    Silent (Comp.modifyGet update) :=
  fun context => ⟨(update context).1, (update context).2, rfl⟩

theorem silent_bind {first : Parser CharT Value} {next : Value → Parser CharT Other}
    (firstSilent : Silent first) (later : ∀ value, Silent (next value)) :
    Silent (first >>= next) := by
  intro context
  obtain ⟨value, middle, run⟩ := firstSilent context
  obtain ⟨other, last, rest⟩ := later value middle
  refine ⟨other, last, ?_⟩
  rw [Comp.bind_returned run, rest]
  rfl

theorem silent_ite {condition : Prop} [Decidable condition] {first second : Parser CharT Value}
    (whenTrue : Silent first) (whenFalse : Silent second) :
    Silent (if condition then first else second) := by
  split_ifs
  · exact whenTrue
  · exact whenFalse

theorem matcher_silent (fn : Context CharT → Span → Option Span) :
    Silent (MatcherExpr.parse fn) := by
  refine silent_bind (silent_read _) fun context => ?_
  split
  · refine silent_bind (silent_modify _) fun _ => silent_bind (silent_modifyGet _) fun node => ?_
    exact silent_bind (silent_modify _) fun _ => silent_pure _
  · exact silent_pure _

variable [PegValue CharT]

theorem terminal_silent (value : TerminalValue CharT) : Silent (TerminalExpr.parse value) := by
  refine silent_bind (silent_read _) fun matched => silent_ite ?_ ?_
  · exact silent_bind (silent_modify _) fun _ => silent_pure _
  · exact silent_bind (silent_modify _) fun _ => silent_pure _

theorem match_values_silent (values : List CharT) :
    Silent (TerminalSeqExpr.matchValues values) := by
  induction values with
  | nil => exact silent_pure true
  | cons value rest induction =>
      refine silent_bind (silent_read _) fun matched => silent_ite ?_ (silent_pure false)
      exact silent_bind (silent_modify _) fun _ => induction

theorem terminal_seq_silent (values : List CharT) : Silent (TerminalSeqExpr.parse values) := by
  refine silent_bind (silent_read _) fun initState => ?_
  refine silent_bind (match_values_silent values) fun matched => silent_ite (silent_pure _) ?_
  exact silent_bind (silent_modify _) fun _ => silent_bind (silent_modify _) fun _ => silent_pure _

theorem token_silent (value : TerminalValue CharT) : Silent (TokenExpr.parse value) := by
  refine silent_bind (silent_read _) fun matched => silent_ite ?_ ?_
  · refine silent_bind (silent_modify _) fun _ => silent_bind (silent_modifyGet _) fun node => ?_
    exact silent_bind (silent_modify _) fun _ => silent_pure _
  · exact silent_bind (silent_modify _) fun _ => silent_pure _

end Silent

/-- The closure rules. Exhaustion is related to everything, so that a smaller
budget may give up earlier. -/
structure ParserRelation
    (related : (Value : Type) → Parser CharT Value → Parser CharT Value → Prop) : Prop where
  silent : ∀ {Value : Type} (step : Parser CharT Value), Silent step → related Value step step
  throw : ∀ {Value : Type} (exn : Exn),
    (∀ position expected, exn ≠ .parseError position expected) →
    related Value (Comp.throw exn) (Comp.throw exn)
  exhaust : ∀ {Value : Type} (parser : Parser CharT Value), related Value Comp.exhaust parser
  announce : ∀ event, event ≠ .failure → related Unit (announce event) (announce event)
  raise : related Unit raiseIfCommitted raiseIfCommitted
  bind : ∀ {Value Other : Type} {first first' : Parser CharT Value}
    {next next' : Value → Parser CharT Other}, related Value first first' →
    (∀ value, related Other (next value) (next' value)) →
    related Other (first >>= next) (first' >>= next')
  guarded : ∀ {Value : Type} {body body' : Parser CharT Value}
    (cleanup : Context CharT → Context CharT),
    (∀ context, (cleanup context).errors = context.errors) → related Value body body' →
    related Value (Comp.guarded body cleanup) (Comp.guarded body' cleanup)

theorem remove_cut_errors (context : Context CharT) : context.removeCut.errors = context.errors := by
  unfold Context.removeCut
  split
  · rfl
  · split_ifs <;> rfl

section Engine

variable {related : (Value : Type) → Parser CharT Value → Parser CharT Value → Prop}
  (rules : ParserRelation related)

include rules

theorem read_related {Value Other : Type} (view : Context CharT → Value)
    {next next' : Value → Parser CharT Other}
    (later : ∀ value, related Other (next value) (next' value)) :
    related Other (Comp.read view >>= next) (Comp.read view >>= next') :=
  rules.bind (rules.silent _ (silent_read view)) later

theorem modify_related {Other : Type} (update : Context CharT → Context CharT)
    {next next' : Unit → Parser CharT Other}
    (later : related Other (next ()) (next' ())) :
    related Other (Comp.modify update >>= next) (Comp.modify update >>= next') :=
  rules.bind (rules.silent _ (silent_modify update)) fun _ => later

theorem modifyGet_related {Value Other : Type} (update : Context CharT → Value × Context CharT)
    {next next' : Value → Parser CharT Other}
    (later : ∀ value, related Other (next value) (next' value)) :
    related Other (Comp.modifyGet update >>= next) (Comp.modifyGet update >>= next') :=
  rules.bind (rules.silent _ (silent_modifyGet update)) later

theorem pure_related {Value : Type} (value : Value) : related Value (pure value) (pure value) :=
  rules.silent _ (silent_pure value)

omit rules in
theorem ite_related {Value : Type} {condition : Prop} [Decidable condition]
    {first first' second second' : Parser CharT Value} (whenTrue : related Value first first')
    (whenFalse : related Value second second') :
    related Value (if condition then first else second)
      (if condition then first' else second') := by
  split_ifs
  · exact whenTrue
  · exact whenFalse

theorem onlyIf_related {condition : Prop} [Decidable condition] {body body' : Parser CharT Unit}
    (bodies : related Unit body body') :
    related Unit (Comp.onlyIf condition body) (Comp.onlyIf condition body') :=
  ite_related bodies (pure_related rules ())

theorem skipper_related {apply apply' : RuleId → Parser CharT ParseResult}
    (applies : ∀ rule, related ParseResult (apply rule) (apply' rule)) :
    related Unit (runSkipper apply) (runSkipper apply') := by
  refine read_related rules _ fun context => ?_
  split
  · refine modify_related rules _ (rules.bind (applies _) fun _ => ?_)
    exact rules.silent _ (silent_modify _)
  · exact pure_related rules _

theorem parse_seq_related {skip skip' : Parser CharT Unit} (skips : related Unit skip skip')
    (node : NodePtr) {children children' : List (Parser CharT ParseResult)}
    (each : List.Forall₂ (related ParseResult) children children') (index : Nat) :
    related Bool (SequenceExpr.parseSeq skip node index children)
      (SequenceExpr.parseSeq skip' node index children') := by
  induction each generalizing index with
  | nil => exact pure_related rules _
  | cons child rest induction =>
      refine rules.bind (onlyIf_related rules skips) fun _ => rules.bind child fun result => ?_
      refine ite_related (modify_related rules _ (induction _)) (pure_related rules _)

theorem sequence_related {skip skip' : Parser CharT Unit} (skips : related Unit skip skip')
    {children children' : List (Parser CharT ParseResult)}
    (each : List.Forall₂ (related ParseResult) children children') :
    related ParseResult (SequenceExpr.parse skip children) (SequenceExpr.parse skip' children') := by
  refine read_related rules _ fun state => modifyGet_related rules _ fun node => ?_
  refine modify_related rules _ (rules.bind (parse_seq_related rules skips node each 0) ?_)
  intro matched
  refine ite_related ?_ ?_
  · exact modify_related rules _ (pure_related rules _)
  · exact modify_related rules _ (pure_related rules _)

theorem parse_alt_related {children children' : List (Parser CharT ParseResult)}
    (each : List.Forall₂ (related ParseResult) children children') (index : Nat) :
    related ParseResult (AlternationExpr.parseAlt index children)
      (AlternationExpr.parseAlt index children') := by
  induction each generalizing index with
  | nil => exact pure_related rules _
  | cons child rest induction =>
      refine rules.bind child fun result => ite_related ?_ ?_
      · exact modify_related rules _ (pure_related rules _)
      · exact rules.bind rules.raise fun _ => induction _

theorem repeat_loop_related {skip skip' : Parser CharT Unit} (skips : related Unit skip skip')
    {parseChild parseChild' : Parser CharT ParseResult}
    (child : related ParseResult parseChild parseChild') (maxRep : Int) (node : NodePtr)
    {fuel fuel' : Nat} (larger : fuel ≤ fuel') (loopCount lastSuccessState : Nat) :
    related LoopExit (repeatLoop skip parseChild maxRep node fuel loopCount lastSuccessState)
      (repeatLoop skip' parseChild' maxRep node fuel' loopCount lastSuccessState) := by
  induction fuel generalizing fuel' loopCount lastSuccessState with
  | zero => exact rules.exhaust _
  | succ fuel induction =>
      obtain ⟨more, rfl⟩ : ∃ more, fuel' = more + 1 := ⟨fuel' - 1, by omega⟩
      refine rules.bind (onlyIf_related rules skips) fun _ => read_related rules _ fun start => ?_
      refine modify_related rules _ (rules.bind child fun result => ite_related ?_ ?_)
      · refine read_related rules _ fun here => modify_related rules _ (ite_related ?_ ?_)
        · exact pure_related rules _
        · exact induction (by omega) _ _
      · exact pure_related rules _

theorem repeat_finish_related (maxRep : Int) (node : NodePtr) (ended : LoopExit) :
    related ParseResult (repeatFinish maxRep node ended) (repeatFinish maxRep node ended) := by
  refine rules.bind (onlyIf_related rules (rules.silent _ (silent_modify _))) fun _ => ?_
  refine rules.bind (onlyIf_related rules rules.raise) fun _ => ?_
  exact modify_related rules _ (pure_related rules _)

theorem repeat_related {skip skip' : Parser CharT Unit} (skips : related Unit skip skip')
    {parseChild parseChild' : Parser CharT ParseResult}
    (child : related ParseResult parseChild parseChild') (minRep : Nat) (maxRep : Int)
    {fuel fuel' : Nat} (larger : fuel ≤ fuel') :
    related ParseResult (repeatParseImpl fuel skip parseChild minRep maxRep)
      (repeatParseImpl fuel' skip' parseChild' minRep maxRep) := by
  refine modify_related rules _ (rules.guarded _ remove_cut_errors
    (read_related rules _ fun initState => ?_))
  refine modifyGet_related rules _ fun node => modify_related rules _ ?_
  refine rules.bind (repeat_loop_related rules skips child maxRep node larger 0 initState) ?_
  intro ended
  refine ite_related ?_ (repeat_finish_related rules maxRep node ended)
  exact modify_related rules _ (pure_related rules _)

theorem predicate_related {parseChild parseChild' : Parser CharT ParseResult}
    (child : related ParseResult parseChild parseChild') (negate : Bool) :
    related ParseResult (predicateParseImpl parseChild negate)
      (predicateParseImpl parseChild' negate) := by
  refine read_related rules _ fun initState => rules.bind child fun result => ?_
  exact modify_related rules _ (pure_related rules _)

theorem lexeme_related {parseChild parseChild' : Parser CharT ParseResult}
    (child : related ParseResult parseChild parseChild') :
    related ParseResult (LexemeExpr.parse parseChild) (LexemeExpr.parse parseChild') :=
  read_related rules _ fun _ => modify_related rules _ (rules.guarded _ (fun _ => rfl) child)

theorem expr_related [PegValue CharT] {apply apply' : RuleId → Parser CharT ParseResult}
    (applies : ∀ rule, related ParseResult (apply rule) (apply' rule)) {fuel fuel' : Nat}
    (larger : fuel ≤ fuel') (expr : Expr CharT) :
    related ParseResult (expr.parse apply fuel) (expr.parse apply' fuel') := by
  have all : ∀ children : List (Expr CharT),
      (∀ child ∈ children,
        related ParseResult (child.parse apply fuel) (child.parse apply' fuel')) →
      List.Forall₂ (related ParseResult) (Expr.parseAll apply fuel children)
        (Expr.parseAll apply' fuel' children) := by
    intro children each
    rw [Expr.parse_all_eq_map, Expr.parse_all_eq_map, List.forall₂_map_left_iff,
      List.forall₂_map_right_iff, List.forall₂_same]
    exact each
  induction expr using Expr.induct with
  | terminal value => exact rules.silent _ (terminal_silent value)
  | terminalSeq values => exact rules.silent _ (terminal_seq_silent values)
  | token value => exact rules.silent _ (token_silent value)
  | matcher fn => exact rules.silent _ (matcher_silent fn)
  | empty => exact pure_related rules _
  | cut => exact modify_related rules _ (pure_related rules _)
  | sequence children induction =>
      exact sequence_related rules (skipper_related rules applies) (all children induction)
  | alternation children induction =>
      exact modify_related rules _
        (rules.guarded _ remove_cut_errors (parse_alt_related rules (all children induction) 0))
  | repetition kind child induction =>
      exact repeat_related rules (skipper_related rules applies) induction _ _ larger
  | not child induction => exact predicate_related rules induction true
  | and child induction => exact predicate_related rules induction false
  | lexeme child induction => exact lexeme_related rules induction
  | rule id => exact applies id

theorem store_related (rule : RuleId) (pos : Nat) (entry : RuleState) :
    related Bool (NonTerminal.store rule pos entry) (NonTerminal.store rule pos entry) := by
  refine modifyGet_related rules _ fun present => rules.bind (rules.announce _ (by simp)) ?_
  exact fun _ => pure_related rules _

theorem grow_loop_related (rule : RuleId) (startPos : Nat)
    {parseBody parseBody' : Parser CharT ParseResult}
    (bodies : related ParseResult parseBody parseBody') {fuel fuel' : Nat} (larger : fuel ≤ fuel')
    (best : ParseResult) (ruleState : RuleState) :
    related (ParseResult × RuleState)
      (NonTerminal.growLoop rule startPos parseBody fuel best ruleState)
      (NonTerminal.growLoop rule startPos parseBody' fuel' best ruleState) := by
  induction fuel generalizing fuel' best ruleState with
  | zero => exact rules.exhaust _
  | succ fuel induction =>
      obtain ⟨more, rfl⟩ : ∃ more, fuel' = more + 1 := ⟨fuel' - 1, by omega⟩
      refine modify_related rules _ (read_related rules _ fun before => ?_)
      refine rules.bind (onlyIf_related rules (rules.silent _ (silent_modify _))) fun _ => ?_
      refine rules.bind bodies fun result => read_related rules _ fun after => ?_
      refine ite_related (ite_related ?_ ?_) (pure_related rules _)
      · refine modify_related rules _ (rules.bind (store_related rules _ _ _) fun present => ?_)
        exact ite_related (induction (by omega) _ _) (pure_related rules _)
      · exact rules.bind (store_related rules _ _ _) fun _ => pure_related rules _

theorem invoke_related (rule : RuleId) (startPos : Nat)
    {body body' : Option (Parser CharT ParseResult)}
    (bodies : Option.Rel (related ParseResult) body body') {fuel fuel' : Nat}
    (larger : fuel ≤ fuel') :
    related (ParseResult × RuleState) (NonTerminal.invoke rule startPos body fuel)
      (NonTerminal.invoke rule startPos body' fuel') := by
  refine modify_related rules _ (rules.bind ?_ fun grown => ?_)
  · cases bodies with
    | none => exact rules.throw _ (by simp)
    | some bodies =>
        refine rules.bind (store_related rules _ _ _) fun _ => ?_
        refine rules.bind (grow_loop_related rules rule startPos bodies larger _ _) fun grown => ?_
        exact modify_related rules _ (pure_related rules _)
  · exact modify_related rules _ (pure_related rules _)

theorem build_node_related (nonTerminal : NonTerminal CharT NodeType) (rule : RuleId)
    (startPos : Nat) (inner : Option NodePtr) :
    related NodePtr (NonTerminal.buildNode nonTerminal rule startPos inner)
      (NonTerminal.buildNode nonTerminal rule startPos inner) := by
  unfold NonTerminal.buildNode
  split
  · refine modifyGet_related rules _ fun node => modify_related rules _ ?_
    exact modify_related rules _ (pure_related rules _)
  · refine rules.bind ?_ fun node => modify_related rules _ (pure_related rules _)
    cases inner with
    | none => exact rules.silent _ (silent_modifyGet _)
    | some node => exact pure_related rules node

theorem finish_failure_related (nonTerminal : NonTerminal CharT NodeType) (rule : RuleId)
    (startPos : Nat) (ruleState : RuleState) :
    related ParseResult (NonTerminal.finishFailure nonTerminal rule startPos ruleState)
      (NonTerminal.finishFailure nonTerminal rule startPos ruleState) := by
  refine modify_related rules _ (read_related rules _ fun context => ?_)
  split
  · refine modify_related rules _ (rules.bind (store_related rules _ _ _) fun _ => ?_)
    exact pure_related rules _
  · exact rules.bind (store_related rules _ _ _) fun _ => pure_related rules _

theorem replay_related (rule : RuleId) (startPos : Nat) (ruleState : RuleState) :
    related ParseResult (NonTerminal.replay rule startPos ruleState)
      (NonTerminal.replay rule startPos ruleState) := by
  refine read_related rules _ fun context => ite_related ?_ ?_
  · refine modify_related rules _ (modify_related rules _ (pure_related rules _))
  · split
    · exact ite_related (modify_related rules _ (pure_related rules _))
        (modify_related rules _ (pure_related rules _))
    · exact modify_related rules _ (pure_related rules _)

theorem parse_related (nonTerminal : NonTerminal CharT NodeType) (rule : RuleId)
    {body body' : Option (Parser CharT ParseResult)}
    (bodies : Option.Rel (related ParseResult) body body') {fuel fuel' : Nat}
    (larger : fuel ≤ fuel') :
    related ParseResult (NonTerminal.parse nonTerminal rule body fuel)
      (NonTerminal.parse nonTerminal rule body' fuel') := by
  refine rules.bind (rules.announce _ (by simp)) fun _ => read_related rules _ fun startPos => ?_
  refine modifyGet_related rules _ fun row => ite_related ?_ (replay_related rules _ _ _)
  refine rules.bind (invoke_related rules rule startPos bodies larger) fun grown => ite_related ?_ ?_
  · refine rules.bind (build_node_related rules nonTerminal rule startPos _) fun node => ?_
    exact rules.bind (store_related rules _ _ _) fun _ => pure_related rules _
  · exact finish_failure_related rules nonTerminal rule startPos _

variable [PegValue CharT]

theorem apply_related (grammar : Grammar CharT NodeType) {fuel fuel' : Nat}
    (larger : fuel ≤ fuel') (rule : RuleId) :
    related ParseResult (grammar.apply fuel rule) (grammar.apply fuel' rule) := by
  induction fuel generalizing fuel' rule with
  | zero => exact rules.exhaust _
  | succ fuel induction =>
      obtain ⟨more, rfl⟩ : ∃ more, fuel' = more + 1 := ⟨fuel' - 1, by omega⟩
      have within : fuel ≤ more := by omega
      refine parse_related rules _ rule ?_ within
      cases grammar.body rule with
      | none => exact Option.Rel.none
      | some expr => exact Option.Rel.some (expr_related rules (induction within) within expr)

theorem eval_related (grammar : Grammar CharT NodeType) {fuel fuel' : Nat}
    (larger : fuel ≤ fuel') (expr : Expr CharT) :
    related ParseResult (grammar.eval fuel expr) (grammar.eval fuel' expr) :=
  expr_related rules (apply_related rules grammar larger) larger expr

theorem leading_skip_related (grammar : Grammar CharT NodeType) {fuel fuel' : Nat}
    (larger : fuel ≤ fuel') :
    related Unit (grammar.leadingSkip fuel) (grammar.leadingSkip fuel') :=
  modify_related rules _ (skipper_related rules (apply_related rules grammar larger))

end Engine

end Peglib.Parametricity
