import Peglib.CommitSemantics
import Peglib.Evaluation

/-!
# Expressions come out as their verdict says

Over rule applications that come out as the memo-free semantics with cuts says,
the parse of an expression does so too: a result it returns is the outcome of the
verdict, the scope around is committed where the verdict is, and a `ParseError`
leaves it only where the verdict raises. The invariant of the context is a
parameter.
-/

namespace Peglib.CommitEvaluation

open Peglib.TracedComputation Peglib.WeakestPrecondition
open Peglib.ParseError Peglib.ParseError.Errors Peglib.ParseContext Peglib.Expressions Peglib.Rules
open Peglib.PegSemantics Peglib.CommitSemantics
open Peglib.Evaluation (Invariant Framed Unmoved Admits mode moved_inv next_inv push_child_inv
  stamp_winner_inv next_framed consume_next consume_none)

set_option autoImplicit false

variable {CharT NodeType : Type}

section Stacks

/-- The top scope is committed if it was or is now, and the others stay. -/
def Commits (committed : Bool) : List CutRecord → List CutRecord → Prop
  | [], [] => True
  | scope :: outer, scope' :: outer' => scope'.cut = (scope.cut || committed) ∧ outer' = outer
  | _, _ => False

theorem commits_refl (stack : List CutRecord) : Commits false stack stack := by
  cases stack with
  | nil => exact trivial
  | cons scope outer => exact ⟨(Bool.or_false _).symm, rfl⟩

theorem Commits.trans {first second : Bool} {before middle after : List CutRecord}
    (left : Commits first before middle) (right : Commits second middle after) :
    Commits (first || second) before after := by
  cases before with
  | nil =>
      cases middle with
      | nil =>
          cases after with
          | nil => exact trivial
          | cons _ _ => exact right.elim
      | cons _ _ => exact left.elim
  | cons scope outer =>
      cases middle with
      | nil => exact left.elim
      | cons scope' outer' =>
          cases after with
          | nil => exact right.elim
          | cons scope'' outer'' =>
              refine ⟨?_, right.2.trans left.2⟩
              rw [right.1, left.1, Bool.or_assoc]

theorem commits_set_cut (context : Context CharT) :
    Commits true context.cutStack (context.setCut true).cutStack := by
  unfold Context.setCut
  split
  · next closed =>
      rw [closed]
      exact trivial
  · next scope outer stack =>
      rw [stack]
      exact ⟨(Bool.or_true _).symm, rfl⟩

structure Inside (outer : List CutRecord) (context : Context CharT) : Prop where
  outer : context.cutStack.tail = outer
  scope : context.cutStack ≠ []

theorem inside_init (context : Context CharT) :
    Inside context.cutStack context.initCut ∧ context.initCut.cut = false :=
  ⟨⟨rfl, List.cons_ne_nil _ _⟩, rfl⟩

theorem Inside.commits {outer : List CutRecord} {before after : Context CharT}
    (inside : Inside outer before) {committed : Bool}
    (commits : Commits committed before.cutStack after.cutStack) :
    Inside outer after ∧ after.cut = (before.cut || committed) := by
  obtain ⟨outside, scope⟩ := inside
  unfold Context.cut
  cases stack : before.cutStack with
  | nil => exact absurd stack scope
  | cons top rest =>
      cases stack' : after.cutStack with
      | nil =>
          rw [stack, stack'] at commits
          exact commits.elim
      | cons top' rest' =>
          rw [stack, stack'] at commits
          rw [stack] at outside
          exact ⟨⟨by rw [stack', List.tail_cons, commits.2]; exact outside,
            by rw [stack']; exact List.cons_ne_nil _ _⟩, commits.1⟩

theorem Inside.cleared {outer : List CutRecord} {context : Context CharT}
    (inside : Inside outer context) :
    Inside outer (context.setCut false) ∧ (context.setCut false).cut = false := by
  obtain ⟨outside, scope⟩ := inside
  unfold Context.setCut Context.cut
  cases stack : context.cutStack with
  | nil => exact absurd stack scope
  | cons top rest =>
      rw [stack] at outside
      exact ⟨⟨outside, List.cons_ne_nil _ _⟩, rfl⟩

theorem Inside.left {outer : List CutRecord} {context : Context CharT}
    (inside : Inside outer context) : context.removeCut.cutStack = outer := by
  obtain ⟨outside, scope⟩ := inside
  unfold Context.removeCut
  cases stack : context.cutStack with
  | nil => exact absurd stack scope
  | cons top rest =>
      rw [stack] at outside
      dsimp only
      split_ifs <;> exact outside

end Stacks

/-- Under a contract, a `ParseError` leaves only where `permits` holds. -/
def raising (base : Contract (Moment CharT) (Context CharT) Exn) (permits : Prop) :
    Contract (Moment CharT) (Context CharT) Exn :=
  { base with onThrow := fun exn last => base.onThrow exn last ∧
      (∃ position expected, exn = .parseError position expected) ∧ permits }

/-- A result read as a verdict: a failure is back at its start. -/
def Comes (sem : Nat → Verdict → Prop) (start : Context CharT) (result : ParseResult)
    (last : Context CharT) : Prop :=
  ∃ committed, Commits committed start.cutStack last.cutStack ∧
    sem start.position (.ended (if result.success then some last.position else none) committed) ∧
    (result.success = false → last.position = start.position)

def Conforms (base : Contract (Moment CharT) (Context CharT) Exn) (inv : Context CharT → Prop)
    (parser : Parser CharT ParseResult) (sem : Option RuleId → Nat → Verdict → Prop) : Prop :=
  ∀ context, inv context → ∀ permits : Prop, (sem (mode context) context.position .raised → permits) →
    wp (raising base permits) parser (fun result last => inv last ∧ Framed context last ∧
      Comes (sem (mode context)) context result last) context

theorem comes_of_success {sem : Nat → Verdict → Prop} {start last : Context CharT}
    {result : ParseResult} (success : result.success = true)
    (same : last.cutStack = start.cutStack)
    (ended : sem start.position (.ended (some last.position) false)) : Comes sem start result last := by
  refine ⟨false, by rw [same]; exact commits_refl _, by rw [if_pos success]; exact ended, ?_⟩
  simp [success]

theorem comes_of_failure {sem : Nat → Verdict → Prop} {start last : Context CharT}
    {result : ParseResult} (failure : ¬result.success = true)
    (same : last.cutStack = start.cutStack) (back : last.position = start.position)
    (ended : sem start.position (.ended none false)) : Comes sem start result last :=
  ⟨false, by rw [same]; exact commits_refl _, by rw [if_neg failure]; exact ended, fun _ => back⟩

theorem next_stack (context : Context CharT) : context.next.cutStack = context.cutStack := by
  unfold Context.next
  split_ifs <;> rfl

section Leaves

variable [PegValue CharT] {base : Contract (Moment CharT) (Context CharT) Exn}
  {input : List CharT} {inv : Context CharT → Prop} (invariant : Invariant base input inv)
  {grammar : Grammar CharT NodeType}
  {matched : (Context CharT → Span → Option Span) → Nat → Option Nat → Prop}

include invariant

theorem terminal_conforms (value : TerminalValue CharT) :
    Conforms base inv (TerminalExpr.parse value) fun mode pos verdict =>
      Cutting grammar input matched mode (.expr (.terminal value)) pos verdict := by
  intro context holds permits _
  have cutting := @Cutting.terminal _ _ _ grammar input matched (mode context) value context.position
  rw [← invariant.input context holds] at cutting ⊢
  rw [TerminalExpr.parse, wp_bind, wp_read, wp_ite]
  constructor
  · intro accepted
    rw [wp_bind, wp_modify, wp_pure]
    rw [consume_next accepted] at cutting
    exact ⟨next_inv invariant holds, next_framed context,
      comes_of_success rfl (next_stack context) cutting⟩
  · intro rejected
    rw [wp_bind, wp_modify, wp_pure]
    rw [consume_none rejected] at cutting
    exact ⟨moved_inv invariant holds rfl rfl rfl rfl rfl rfl (record_failure_noticed _ _ _),
      ⟨rfl, rfl⟩, comes_of_failure Bool.false_ne_true rfl rfl cutting⟩

theorem token_conforms (value : TerminalValue CharT) :
    Conforms base inv (TokenExpr.parse value) fun mode pos verdict =>
      Cutting grammar input matched mode (.expr (.token value)) pos verdict := by
  intro context holds permits _
  have cutting := @Cutting.token _ _ _ grammar input matched (mode context) value context.position
  rw [← invariant.input context holds] at cutting ⊢
  rw [TokenExpr.parse, wp_bind, wp_read, wp_ite]
  constructor
  · intro accepted
    rw [wp_bind, wp_modify, wp_bind, wp_modifyGet, wp_bind, wp_modify, wp_pure]
    rw [consume_next accepted] at cutting
    have framed := next_framed context
    exact ⟨moved_inv invariant (next_inv invariant holds) rfl rfl rfl rfl rfl rfl (.refl _),
      ⟨framed.skipper, framed.skipEnabled⟩, comes_of_success rfl (next_stack context) cutting⟩
  · intro rejected
    rw [wp_bind, wp_modify, wp_pure]
    rw [consume_none rejected] at cutting
    exact ⟨moved_inv invariant holds rfl rfl rfl rfl rfl rfl (record_failure_noticed _ _ _),
      ⟨rfl, rfl⟩, comes_of_failure Bool.false_ne_true rfl rfl cutting⟩

theorem match_values_conforms {permits : Prop} (values : List CharT) (context : Context CharT)
    (holds : inv context) :
    wp (raising base permits) (TerminalSeqExpr.matchValues values) (fun matched last => inv last ∧
      Framed context last ∧ last.cutStack = context.cutStack ∧
      consumeAll input values context.position = if matched then some last.position else none)
      context := by
  induction values generalizing context with
  | nil => exact ⟨holds, Framed.refl context, rfl, rfl⟩
  | cons value rest induction =>
      rw [TerminalSeqExpr.matchValues, wp_bind, wp_read, wp_ite, consumeAll,
        ← invariant.input context holds]
      constructor
      · intro accepted
        rw [wp_bind, wp_modify, consume_next accepted, Option.bind_some]
        refine wp_post (induction context.next (next_inv invariant holds)) ?_
        rintro matched last ⟨kept, framed, same, found⟩
        rw [invariant.input context holds]
        exact ⟨kept, (next_framed context).trans framed, same.trans (next_stack context), found⟩
      · intro rejected
        rw [wp_pure, consume_none rejected]
        exact ⟨holds, Framed.refl context, rfl, rfl⟩

theorem terminal_seq_conforms (values : List CharT) :
    Conforms base inv (TerminalSeqExpr.parse values) fun mode pos verdict =>
      Cutting grammar input matched mode (.expr (.terminalSeq values)) pos verdict := by
  intro context holds permits _
  have cutting := @Cutting.terminalSeq _ _ _ grammar input matched (mode context) values
    context.position
  rw [TerminalSeqExpr.parse, wp_bind, wp_read, wp_bind]
  refine wp_post (match_values_conforms invariant values context holds) ?_
  rintro found last ⟨kept, framed, same, consumed⟩
  rw [consumed] at cutting
  rw [wp_ite]
  constructor
  · intro accepted
    rw [if_pos accepted] at cutting
    exact ⟨kept, framed, comes_of_success rfl same cutting⟩
  · intro rejected
    rw [if_neg rejected] at cutting
    rw [wp_bind, wp_modify, wp_bind, wp_modify, wp_pure]
    exact ⟨moved_inv invariant kept rfl rfl rfl rfl rfl rfl (record_failure_noticed _ _ _),
      ⟨framed.skipper, framed.skipEnabled⟩, comes_of_failure Bool.false_ne_true same rfl cutting⟩

theorem matcher_conforms (fn : Context CharT → Span → Option Span)
    (admitted : ∀ context, inv context → matched fn context.position
      ((fn context ⟨context.position, context.position⟩).map Span.stop)) :
    Conforms base inv (MatcherExpr.parse fn) fun mode pos verdict =>
      Cutting grammar input matched mode (.expr (.matcher fn)) pos verdict := by
  intro context holds permits _
  have found := admitted context holds
  rw [MatcherExpr.parse, wp_bind, wp_read]
  dsimp only [id]
  cases answer : fn context ⟨context.position, context.position⟩ with
  | some consumed =>
      rw [answer] at found
      dsimp only
      rw [wp_bind, wp_modify, wp_bind, wp_modifyGet, wp_bind, wp_modify, wp_pure]
      exact ⟨moved_inv invariant holds rfl rfl rfl rfl rfl rfl (.refl _), ⟨rfl, rfl⟩,
        comes_of_success rfl rfl (Cutting.matcher found)⟩
  | none =>
      rw [answer] at found
      exact ⟨holds, Framed.refl context, comes_of_failure Bool.false_ne_true rfl rfl (Cutting.matcher found)⟩

end Leaves

section Scopes

variable {base : Contract (Moment CharT) (Context CharT) Exn} {input : List CharT}
  {inv : Context CharT → Prop} (invariant : Invariant base input inv)

theorem remove_cut_framed (context : Context CharT) :
    Framed context context.removeCut ∧ context.removeCut.position = context.position := by
  unfold Context.removeCut
  split
  · exact ⟨Framed.refl context, rfl⟩
  · split_ifs <;> exact ⟨⟨rfl, rfl⟩, rfl⟩

include invariant

theorem raise_conforms {permits : Prop} (context : Context CharT) (holds : inv context)
    (raises : context.cut = true → permits) :
    wp (raising base permits) raiseIfCommitted
      (fun _ last => last = context ∧ context.cut = false) context := by
  rw [raiseIfCommitted, wp_bind, announce, wp_announce]
  intro assumed
  refine ⟨invariant.failure context holds, ?_⟩
  rw [wp_bind, wp_read, wp_onlyIf]
  refine ⟨fun committed => ?_, fun uncommitted => ⟨rfl, by simpa using uncommitted⟩⟩
  exact ⟨invariant.throws _ _ holds assumed committed, ⟨_, _, rfl⟩, raises committed⟩

theorem cut_scope_conforms {body : Parser CharT ParseResult}
    {sem : Option RuleId → Nat → Verdict → Prop}
    (conforms : ∀ outer context, inv context → Inside outer context → context.cut = false →
      ∀ permits : Prop, (sem (mode context) context.position .raised → permits) →
      wp (raising base permits) body (fun result last => inv last ∧ Framed context last ∧
        Inside outer last ∧ sem (mode context) context.position
          (.ended (if result.success then some last.position else none) false) ∧
        (result.success = false → last.position = context.position)) context) :
    Conforms base inv (Comp.modify Context.initCut >>= fun _ =>
      Comp.guarded body Context.removeCut) sem := by
  intro context holds permits raises
  obtain ⟨inside, uncommitted⟩ := inside_init context
  rw [wp_bind, wp_modify, wp_guarded]
  refine wp_mono (conforms context.cutStack context.initCut (invariant.opened context holds) inside
    uncommitted permits raises) (fun _ => id) (fun _ _ => id)
    (fun exn last met => ⟨invariant.unwinds exn last met.1, met.2⟩) ?_
  rintro result last ⟨kept, framed, closing, ended, back⟩
  obtain ⟨framedLast, stopped⟩ := remove_cut_framed last
  have whole : Framed context last := ⟨framed.skipper, framed.skipEnabled⟩
  refine ⟨invariant.closed last kept, whole.trans framedLast, false, ?_, ?_, ?_⟩
  · rw [closing.left]
    exact commits_refl _
  · rw [stopped]
    exact ended
  · rw [stopped]
    exact back

end Scopes

section Combinators

variable [PegValue CharT] {base : Contract (Moment CharT) (Context CharT) Exn}
  {input : List CharT} {inv : Context CharT → Prop} (invariant : Invariant base input inv)
  {grammar : Grammar CharT NodeType}
  {matched : (Context CharT → Span → Option Span) → Nat → Option Nat → Prop}
  {apply : RuleId → Parser CharT ParseResult}

def Skips (base : Contract (Moment CharT) (Context CharT) Exn) (inv : Context CharT → Prop)
    (skip : Parser CharT Unit) (sem : Option RuleId → Nat → Verdict → Prop) : Prop :=
  ∀ context, inv context → ∀ permits : Prop, (sem (mode context) context.position .raised → permits) →
    wp (raising base permits) skip (fun _ last => inv last ∧ Framed context last ∧
      ∃ committed, Commits committed context.cutStack last.cutStack ∧
        sem (mode context) context.position (.ended (some last.position) committed)) context

include invariant

theorem skipper_skips {applicable : RuleId → Prop}
    (applies : ∀ rule, applicable rule → Conforms base inv (apply rule) fun mode pos verdict =>
      Cutting grammar input matched mode (.expr (.rule rule)) pos verdict)
    (configured : ∀ context, inv context → ∀ rule, context.skipper = some rule → applicable rule) :
    Skips base inv (runSkipper apply) fun mode pos verdict =>
      Cutting grammar input matched mode .skip pos verdict := by
  intro context holds permits raises
  rw [runSkipper, wp_bind, wp_read]
  dsimp only [id]
  split
  · next skipper enabled set =>
      have active : mode context = some skipper := by rw [mode, if_pos enabled, set]
      rw [active] at raises ⊢
      rw [wp_bind, wp_modify, wp_bind]
      refine wp_post (applies skipper (configured context holds skipper set)
        { context with skipEnabled := false }
        (moved_inv invariant holds rfl rfl rfl rfl rfl rfl (.refl _)) permits fun raised =>
          raises (Cutting.skipRun raised)) ?_
      rintro result last ⟨kept, framed, committed, commits, ended, back⟩
      rw [wp_modify]
      refine ⟨moved_inv invariant kept rfl rfl rfl rfl rfl rfl (.refl _), ⟨framed.skipper, rfl⟩,
        committed, commits, ?_⟩
      have skip := Cutting.skipRun ended
      rw [Verdict.skipped] at skip
      cases success : result.success with
      | true =>
          rw [success] at skip
          exact skip
      | false =>
          rw [success] at skip
          rw [back success]
          exact skip
  · next inactive =>
      have off : mode context = none := by
        unfold mode
        cases enabled : context.skipEnabled with
        | false => rfl
        | true =>
            cases set : context.skipper with
            | none => rfl
            | some skipper => exact absurd set (inactive skipper enabled)
      rw [off]
      exact ⟨holds, Framed.refl context, false, commits_refl _, Cutting.skipOff⟩

omit invariant in
theorem onlyIf_skips {skip : Parser CharT Unit} {condition : Prop} [Decidable condition]
    (skips : Skips base inv skip fun mode pos verdict =>
      Cutting grammar input matched mode .skip pos verdict) {permits : Prop}
    (context : Context CharT) (holds : inv context)
    (raises : Cutting grammar input matched (if condition then mode context else none) .skip
      context.position .raised → permits) :
    wp (raising base permits) (Comp.onlyIf condition skip) (fun _ last => inv last ∧
      Framed context last ∧ ∃ committed, Commits committed context.cutStack last.cutStack ∧
        Cutting grammar input matched (if condition then mode context else none) .skip
          context.position (.ended (some last.position) committed)) context := by
  rw [wp_onlyIf]
  constructor
  · intro active
    rw [if_pos active] at raises ⊢
    exact skips context holds permits raises
  · intro inactive
    rw [if_neg inactive]
    exact ⟨holds, Framed.refl context, false, commits_refl _, Cutting.skipOff⟩

theorem parse_seq_conforms {skip : Parser CharT Unit} {fuel : Nat}
    (skips : Skips base inv skip fun mode pos verdict =>
      Cutting grammar input matched mode .skip pos verdict)
    (node : NodePtr) (children : List (Expr CharT))
    (each : ∀ child ∈ children, Conforms base inv (child.parse apply fuel)
      fun mode pos verdict => Cutting grammar input matched mode (.expr child) pos verdict)
    {permits : Prop} (index : Nat) (context : Context CharT) (holds : inv context)
    (raises : Cutting grammar input matched (mode context) (.seq (decide (index = 0)) children)
      context.position .raised → permits) :
    wp (raising base permits) (SequenceExpr.parseSeq skip node index
        (Expr.parseAll apply fuel children))
      (fun found last => inv last ∧ Framed context last ∧
        ∃ committed, Commits committed context.cutStack last.cutStack ∧
          Cutting grammar input matched (mode context) (.seq (decide (index = 0)) children)
            context.position (.ended (if found then some last.position else none) committed))
      context := by
  induction children generalizing index context with
  | nil =>
      exact ⟨holds, Framed.refl context, false, commits_refl _, Cutting.seqNil⟩
  | cons child rest induction =>
      have first : (if 0 < index then mode context else none) =
          if decide (index = 0) = true then none else mode context := by
        rcases Nat.eq_zero_or_pos index with rfl | positive
        · rfl
        · rw [if_pos positive, if_neg (by simpa using Nat.ne_of_gt positive)]
      rw [Expr.parseAll, SequenceExpr.parseSeq, wp_bind]
      refine wp_post (onlyIf_skips skips context holds fun raised =>
        raises (Cutting.seqUnskipped (first ▸ raised))) ?_
      rintro ⟨⟩ skipped ⟨keptSkip, framedSkip, before, commitsSkip, skip⟩
      rw [first] at skip
      rw [wp_bind]
      refine wp_post (each child (by simp) skipped keptSkip permits fun raised =>
        raises (Cutting.seqRaised skip (framedSkip.mode_eq ▸ raised))) ?_
      rintro result here ⟨keptHere, framedHere, own, commitsHere, ended, back⟩
      rw [framedSkip.mode_eq] at ended
      have commits := commitsSkip.trans commitsHere
      rw [wp_ite]
      constructor
      · intro success
        rw [if_pos success] at ended
        rw [wp_bind, wp_modify]
        have pushed : Framed here (pushChild node result.tree here) ∧
            (pushChild node result.tree here).position = here.position ∧
            (pushChild node result.tree here).cutStack = here.cutStack := by
          cases result.tree <;> exact ⟨⟨rfl, rfl⟩, rfl, rfl⟩
        have framed := (framedSkip.trans framedHere).trans pushed.1
        refine wp_post (induction (fun other member => each other (by simp [member])) (index + 1)
          _ (push_child_inv invariant keptHere node result.tree) fun raised => ?_) ?_
        · rw [framed.mode_eq, pushed.2.1] at raised
          exact raises (Cutting.seqStep skip ended raised)
        rintro found last ⟨kept, framedLast, later, commitsLast, verdict⟩
        rw [framed.mode_eq, pushed.2.1] at verdict
        rw [pushed.2.2] at commitsLast
        exact ⟨kept, framed.trans framedLast, _, commits.trans commitsLast,
          Cutting.seqStep skip ended verdict⟩
      · intro failure
        rw [if_neg failure] at ended
        exact ⟨keptHere, framedSkip.trans framedHere, _, commits, Cutting.seqFail skip ended⟩

theorem sequence_conforms {skip : Parser CharT Unit} {fuel : Nat}
    (skips : Skips base inv skip fun mode pos verdict =>
      Cutting grammar input matched mode .skip pos verdict)
    (children : List (Expr CharT))
    (each : ∀ child ∈ children, Conforms base inv (child.parse apply fuel)
      fun mode pos verdict => Cutting grammar input matched mode (.expr child) pos verdict) :
    Conforms base inv (SequenceExpr.parse skip (Expr.parseAll apply fuel children))
      fun mode pos verdict =>
        Cutting grammar input matched mode (.expr (.sequence children)) pos verdict := by
  intro context holds permits raises
  rw [SequenceExpr.parse, wp_bind, wp_read, wp_bind, wp_modifyGet, wp_bind, wp_modify, wp_bind]
  refine wp_post (parse_seq_conforms invariant skips _ children each 0 _
    (moved_inv invariant holds rfl rfl rfl rfl rfl rfl (.refl _)) fun raised =>
      raises (Cutting.sequence raised)) ?_
  rintro found last ⟨kept, framed, committed, commits, verdict⟩
  rw [wp_ite]
  constructor
  · intro success
    rw [if_pos success] at verdict
    rw [wp_bind, wp_modify, wp_pure]
    exact ⟨moved_inv invariant kept rfl rfl rfl rfl rfl rfl (.refl _),
      ⟨framed.skipper, framed.skipEnabled⟩, committed, commits, Cutting.sequence verdict, by simp⟩
  · intro failure
    rw [if_neg failure] at verdict
    rw [wp_bind, wp_modify, wp_pure]
    exact ⟨moved_inv invariant kept rfl rfl rfl rfl rfl rfl (.refl _),
      ⟨framed.skipper, framed.skipEnabled⟩, committed, commits, Cutting.sequence verdict, fun _ => rfl⟩

theorem parse_alt_conforms {fuel : Nat} (children : List (Expr CharT))
    (each : ∀ child ∈ children, Conforms base inv (child.parse apply fuel)
      fun mode pos verdict => Cutting grammar input matched mode (.expr child) pos verdict)
    {permits : Prop} (index : Nat) (outer : List CutRecord) (context : Context CharT)
    (holds : inv context) (inside : Inside outer context) (uncommitted : context.cut = false)
    (raises : Cutting grammar input matched (mode context) (.alt children) context.position .raised →
      permits) :
    wp (raising base permits) (AlternationExpr.parseAlt index (Expr.parseAll apply fuel children))
      (fun result last => inv last ∧ Framed context last ∧ Inside outer last ∧
        Cutting grammar input matched (mode context) (.alt children) context.position
          (.ended (if result.success then some last.position else none) false) ∧
        (result.success = false → last.position = context.position)) context := by
  induction children generalizing index context with
  | nil => exact ⟨holds, Framed.refl context, inside, Cutting.altNil, fun _ => rfl⟩
  | cons child rest induction =>
      rw [Expr.parseAll, AlternationExpr.parseAlt, wp_bind]
      refine wp_post (each child (by simp) context holds permits fun raised =>
        raises (Cutting.altRaised raised)) ?_
      rintro result here ⟨kept, framed, committed, commits, ended, back⟩
      obtain ⟨insideHere, flag⟩ := inside.commits commits
      rw [uncommitted, Bool.false_or] at flag
      rw [wp_ite]
      constructor
      · intro success
        rw [if_pos success] at ended
        rw [wp_bind, wp_modify, wp_pure]
        have stamped : Framed here (stampWinner result.tree index here) ∧
            (stampWinner result.tree index here).position = here.position ∧
            (stampWinner result.tree index here).cutStack = here.cutStack := by
          cases result.tree <;> exact ⟨⟨rfl, rfl⟩, rfl, rfl⟩
        refine ⟨stamp_winner_inv invariant kept _ _, framed.trans stamped.1, ?_, ?_, ?_⟩
        · exact ⟨stamped.2.2 ▸ insideHere.outer, stamped.2.2 ▸ insideHere.scope⟩
        · rw [if_pos success, stamped.2.1]
          exact Cutting.altHit ended
        · simp [success]
      · intro failure
        rw [if_neg failure] at ended
        have stayed := back (by simpa using failure)
        rw [wp_bind]
        refine wp_post (raise_conforms invariant here kept fun raised => ?_) ?_
        · rw [flag] at raised
          rw [raised] at ended
          exact raises (Cutting.altCommitted ended)
        rintro ⟨⟩ last ⟨rfl, clear⟩
        rw [← flag, clear] at ended
        refine wp_post (induction (fun other member => each other (by simp [member])) (index + 1)
          last kept insideHere clear fun raised => ?_) ?_
        · rw [framed.mode_eq, stayed] at raised
          exact raises (Cutting.altMiss ended raised)
        rintro result' last' ⟨kept', framed', inside', verdict, back'⟩
        rw [framed.mode_eq, stayed] at verdict
        exact ⟨kept', framed.trans framed', inside', Cutting.altMiss ended verdict,
          fun failed => (back' failed).trans stayed⟩

def loopVerdict (kind : RepKind) (ended : LoopExit) (committed : Bool) : Verdict :=
  if ended.exitedViaFailure then
    .exhausted kind ended.loopCount ended.lastSuccessState committed
  else .ended (repeated kind ended.loopCount ended.lastSuccessState) false

theorem repeat_loop_conforms {skip : Parser CharT Unit} {fuel : Nat}
    (skips : Skips base inv skip fun mode pos verdict =>
      Cutting grammar input matched mode .skip pos verdict)
    (kind : RepKind) (child : Expr CharT)
    (conforms : Conforms base inv (child.parse apply fuel)
      fun mode pos verdict => Cutting grammar input matched mode (.expr child) pos verdict)
    (node : NodePtr) {permits : Prop} (budget loopCount : Nat) (outer : List CutRecord)
    (context : Context CharT) (holds : inv context) (inside : Inside outer context)
    (raises : Cutting grammar input matched (mode context) (.loop kind child loopCount)
      context.position .raised → permits) :
    wp (raising base permits) (repeatLoop skip (child.parse apply fuel) kind.maxRep node budget
        loopCount context.position)
      (fun ended last => inv last ∧ Framed context last ∧ Inside outer last ∧
        (ended.exitedViaFailure = false → last.position = ended.lastSuccessState) ∧
        Cutting grammar input matched (mode context) (.loop kind child loopCount) context.position
          (loopVerdict kind ended last.cut)) context := by
  induction budget generalizing loopCount context with
  | zero => exact trivial
  | succ budget induction =>
      have first : (if 0 < loopCount then mode context else none) =
          if loopCount = 0 then none else mode context := by
        rcases Nat.eq_zero_or_pos loopCount with rfl | positive
        · rfl
        · rw [if_pos positive, if_neg (Nat.ne_of_gt positive)]
      rw [repeatLoop, wp_bind]
      refine wp_post (onlyIf_skips skips context holds fun raised =>
        raises (Cutting.loopUnskipped (first ▸ raised))) ?_
      rintro ⟨⟩ skipped ⟨keptSkip, framedSkip, before, commitsSkip, skip⟩
      rw [first] at skip
      rw [wp_bind, wp_read, wp_bind, wp_modify, wp_bind]
      obtain ⟨insideStart, clear⟩ := (inside.commits commitsSkip).1.cleared
      have cleared : Framed skipped (skipped.setCut false) ∧
          (skipped.setCut false).position = skipped.position := by
        unfold Context.setCut
        split <;> exact ⟨⟨rfl, rfl⟩, rfl⟩
      have framedStart := framedSkip.trans cleared.1
      refine wp_post (conforms _ (invariant.cleared skipped keptSkip) permits fun raised => ?_) ?_
      · rw [framedStart.mode_eq, cleared.2] at raised
        exact raises (Cutting.loopRaised skip raised)
      rintro result here ⟨keptHere, framedHere, own, commits, ended, back⟩
      obtain ⟨insideHere, flag⟩ := insideStart.commits commits
      rw [clear, Bool.false_or] at flag
      rw [framedStart.mode_eq, cleared.2] at ended
      rw [wp_ite]
      constructor
      · intro success
        rw [if_pos success] at ended
        rw [wp_bind, wp_read, wp_bind, wp_modify, wp_ite]
        have pushed : Framed here (pushChild node result.tree here) ∧
            (pushChild node result.tree here).position = here.position ∧
            (pushChild node result.tree here).cutStack = here.cutStack := by
          cases result.tree <;> exact ⟨⟨rfl, rfl⟩, rfl, rfl⟩
        have framed := (framedStart.trans framedHere).trans pushed.1
        have keptPushed := push_child_inv invariant keptHere node result.tree
        have insidePushed : Inside outer (pushChild node result.tree here) :=
          ⟨pushed.2.2 ▸ insideHere.outer, pushed.2.2 ▸ insideHere.scope⟩
        constructor
        · intro last
          exact ⟨keptPushed, framed, insidePushed, fun _ => pushed.2.1, Cutting.loopLast skip ended last⟩
        · intro more
          have going := Bool.eq_false_iff.mpr more
          have onward : Cutting grammar input matched (mode (pushChild node result.tree here))
              (.loop kind child (loopCount + 1)) (pushChild node result.tree here).position .raised →
              permits := by
            rw [framed.mode_eq, pushed.2.1]
            exact fun raised => raises (Cutting.loopMore skip ended going raised)
          refine wp_post (pushed.2.1 ▸ induction (loopCount + 1) _ keptPushed insidePushed onward) ?_
          rintro exit last ⟨kept, framedLast, insideLast, final, verdict⟩
          rw [framed.mode_eq] at verdict
          exact ⟨kept, framed.trans framedLast, insideLast, final,
            Cutting.loopMore skip ended going verdict⟩
      · intro failure
        rw [if_neg failure, ← flag] at ended
        exact ⟨keptHere, framedStart.trans framedHere, insideHere, by simp,
          Cutting.loopFail skip ended⟩

omit [PegValue CharT] in
theorem repeat_finish_conforms {kind : RepKind} {permits : Prop} (node : NodePtr)
    (ended : LoopExit) (outer : List CutRecord) (context : Context CharT) (holds : inv context)
    (inside : Inside outer context)
    (final : ended.exitedViaFailure = false → context.position = ended.lastSuccessState)
    (enough : ¬ended.loopCount < kind.minRep)
    (raises : loopVerdict kind ended context.cut = .raised → permits) :
    wp (raising base permits) (repeatFinish kind.maxRep node ended) (fun result last => inv last ∧
      Framed context last ∧ Inside outer last ∧ result.success = true ∧
      loopVerdict kind ended context.cut = .ended (some last.position) false) context := by
  rw [repeatFinish, wp_bind, wp_onlyIf]
  refine ⟨fun viaFailure => ?_, fun notFailure => ?_⟩
  · have exited : loopVerdict kind ended context.cut =
        if kind.maxRep < 0 ∧ context.cut = true then .raised
        else .ended (some ended.lastSuccessState) false := by
      rw [loopVerdict, if_pos viaFailure, Verdict.exhausted, if_neg enough]
    rw [exited] at raises ⊢
    have restored : inv ((context.reset ended.lastSuccessState).updateNode node
        (resizeChildren ended.loopCount)) :=
      moved_inv invariant holds rfl rfl rfl rfl rfl rfl (.refl _)
    rw [wp_modify, wp_bind, wp_onlyIf]
    constructor
    · intro unbounded
      refine wp_post (raise_conforms invariant _ restored fun committed =>
        raises (if_pos ⟨unbounded.1, committed⟩)) ?_
      rintro ⟨⟩ last ⟨rfl, clear⟩
      have uncommitted : context.cut = false := clear
      rw [wp_bind, wp_modify, wp_pure, uncommitted, if_neg (by simp)]
      exact ⟨moved_inv invariant restored rfl rfl rfl rfl rfl rfl (.refl _), ⟨rfl, rfl⟩,
        ⟨inside.outer, inside.scope⟩, rfl, rfl⟩
    · intro bounded
      have limited : ¬(kind.maxRep < 0 ∧ context.cut = true) :=
        fun both => bounded ⟨both.1, viaFailure⟩
      rw [wp_bind, wp_modify, wp_pure, if_neg limited]
      exact ⟨moved_inv invariant restored rfl rfl rfl rfl rfl rfl (.refl _), ⟨rfl, rfl⟩,
        ⟨inside.outer, inside.scope⟩, rfl, rfl⟩
  · have finished : loopVerdict kind ended context.cut =
        .ended (some ended.lastSuccessState) false := by
      rw [loopVerdict, if_neg notFailure, repeated, if_neg enough]
    have unfailing : ¬(kind.maxRep < 0 ∧ ended.exitedViaFailure = true) :=
      fun both => notFailure both.2
    rw [wp_bind, wp_onlyIf]
    refine ⟨fun both => absurd both unfailing, fun _ => ?_⟩
    rw [wp_bind, wp_modify, wp_pure, finished, ← final (by simpa using notFailure)]
    exact ⟨moved_inv invariant holds rfl rfl rfl rfl rfl rfl (.refl _), ⟨rfl, rfl⟩,
      ⟨inside.outer, inside.scope⟩, rfl, rfl⟩

omit invariant in
theorem loop_verdict_few {kind : RepKind} {ended : LoopExit} (few : ended.loopCount < kind.minRep)
    (committed : Bool) : loopVerdict kind ended committed = .ended none false := by
  simp [loopVerdict, Verdict.exhausted, repeated, few]

theorem repeat_conforms {skip : Parser CharT Unit} {fuel : Nat}
    (skips : Skips base inv skip fun mode pos verdict =>
      Cutting grammar input matched mode .skip pos verdict)
    (kind : RepKind) (child : Expr CharT)
    (conforms : Conforms base inv (child.parse apply fuel)
      fun mode pos verdict => Cutting grammar input matched mode (.expr child) pos verdict)
    (budget : Nat) :
    Conforms base inv
      (repeatParseImpl budget skip (child.parse apply fuel) kind.minRep kind.maxRep)
      fun mode pos verdict =>
        Cutting grammar input matched mode (.expr (.repetition kind child)) pos verdict := by
  refine cut_scope_conforms invariant fun outer context holds inside _ permits raises => ?_
  rw [wp_bind, wp_read, wp_bind, wp_modifyGet, wp_bind, wp_modify, wp_bind]
  have loop := repeat_loop_conforms invariant skips kind child conforms context.makeNode.1 budget 0
    outer (markStart context.makeNode.1 context.makeNode.2)
    (moved_inv invariant holds rfl rfl rfl rfl rfl rfl (.refl _)) ⟨inside.outer, inside.scope⟩
    fun raised => raises (Cutting.repetition raised)
  refine wp_post loop ?_
  rintro ended last ⟨kept, framed, insideLast, final, verdict⟩
  have framedLast : Framed context last := ⟨framed.skipper, framed.skipEnabled⟩
  have whole := Cutting.repetition verdict
  rw [wp_ite]
  constructor
  · intro few
    rw [wp_bind, wp_modify, wp_pure]
    rw [loop_verdict_few few] at whole
    exact ⟨moved_inv invariant kept rfl rfl rfl rfl rfl rfl (.refl _),
      ⟨framedLast.skipper, framedLast.skipEnabled⟩, ⟨insideLast.outer, insideLast.scope⟩, whole,
      fun _ => rfl⟩
  · intro enough
    refine wp_post (repeat_finish_conforms invariant context.makeNode.1 ended outer last kept
      insideLast final enough fun raised => ?_) ?_
    · rw [raised] at whole
      exact raises whole
    rintro result finished ⟨keptLast, framedFinish, insideFinish, success, same⟩
    rw [same] at whole
    refine ⟨keptLast, framedLast.trans framedFinish, insideFinish, ?_, ?_⟩
    · rw [if_pos success]
      exact whole
    · simp [success]

theorem predicate_conforms {parseChild : Parser CharT ParseResult} {child : Expr CharT}
    (conforms : Conforms base inv parseChild
      fun mode pos verdict => Cutting grammar input matched mode (.expr child) pos verdict)
    (negate : Bool) :
    Conforms base inv (predicateParseImpl parseChild negate) fun mode pos verdict =>
      ∃ found : Verdict, Cutting grammar input matched mode (.expr child) pos found ∧
        found.looked negate pos = verdict := by
  intro context holds permits raises
  rw [predicateParseImpl, wp_bind, wp_read, wp_bind]
  refine wp_post (conforms context holds permits fun raised => raises ⟨_, raised, rfl⟩) ?_
  rintro result last ⟨kept, framed, committed, commits, ended, back⟩
  rw [wp_bind, wp_modify, wp_pure]
  refine ⟨moved_inv invariant kept rfl rfl rfl rfl rfl rfl (.refl _),
    ⟨framed.skipper, framed.skipEnabled⟩, committed, commits, ⟨_, ended, ?_⟩, fun _ => rfl⟩
  cases success : result.success <;> cases negate <;> rfl

theorem lexeme_conforms {parseChild : Parser CharT ParseResult} {child : Expr CharT}
    (conforms : Conforms base inv parseChild
      fun mode pos verdict => Cutting grammar input matched mode (.expr child) pos verdict) :
    Conforms base inv (LexemeExpr.parse parseChild) fun mode pos verdict =>
      Cutting grammar input matched mode (.expr (.lexeme child)) pos verdict := by
  intro context holds permits raises
  rw [LexemeExpr.parse, wp_bind, wp_read, wp_bind, wp_modify, wp_guarded]
  refine wp_mono (conforms { context with skipEnabled := false }
    (moved_inv invariant holds rfl rfl rfl rfl rfl rfl (.refl _)) permits fun raised =>
      raises (Cutting.lexeme raised)) (fun _ => id) (fun _ _ => id)
    (fun exn last met => ⟨invariant.relabels exn last _ met.1, met.2⟩) ?_
  rintro result last ⟨kept, framed, committed, commits, ended, back⟩
  exact ⟨moved_inv invariant kept rfl rfl rfl rfl rfl rfl (.refl _), ⟨framed.skipper, rfl⟩,
    committed, commits, Cutting.lexeme ended, back⟩

theorem expr_conforms {applicable : RuleId → Prop}
    (applies : ∀ rule, applicable rule → Conforms base inv (apply rule) fun mode pos verdict =>
      Cutting grammar input matched mode (.expr (.rule rule)) pos verdict)
    (configured : ∀ context, inv context → ∀ rule, context.skipper = some rule → applicable rule)
    (fuel : Nat) {expr : Expr CharT} (admitted : expr.Every (Admits applicable matched inv)) :
    Conforms base inv (expr.parse apply fuel) fun mode pos verdict =>
      Cutting grammar input matched mode (.expr expr) pos verdict := by
  have skips : Skips base inv (runSkipper apply) fun mode pos verdict =>
      Cutting grammar input matched mode .skip pos verdict := skipper_skips invariant applies configured
  induction expr using Expr.induct with
  | terminal value => exact terminal_conforms invariant value
  | terminalSeq values => exact terminal_seq_conforms invariant values
  | token value => exact token_conforms invariant value
  | matcher fn => exact matcher_conforms invariant fn admitted.here
  | empty =>
      exact fun context holds _ _ =>
        ⟨holds, Framed.refl context, comes_of_success rfl rfl Cutting.empty⟩
  | cut =>
      intro context holds permits _
      have framed : Framed context (context.setCut true) ∧
          (context.setCut true).position = context.position := by
        unfold Context.setCut
        split <;> exact ⟨⟨rfl, rfl⟩, rfl⟩
      refine ⟨admitted.here context holds, framed.1, true, commits_set_cut context, ?_, by simp⟩
      rw [if_pos rfl]
      exact framed.2 ▸ Cutting.cut
  | sequence children induction =>
      unfold Expr.Every at admitted
      exact sequence_conforms invariant skips children fun child member =>
        induction child member (Expr.every_all_iff.mp admitted.2 child member)
  | alternation children induction =>
      unfold Expr.Every at admitted
      refine cut_scope_conforms invariant fun outer context holds inside clear permits raises => ?_
      refine wp_post (parse_alt_conforms invariant children (fun child member => induction child member
        (Expr.every_all_iff.mp admitted.2 child member)) 0 outer context holds inside clear
        fun raised => raises (Cutting.alternation raised)) ?_
      rintro result last ⟨kept, framed, insideLast, verdict, back⟩
      exact ⟨kept, framed, insideLast, Cutting.alternation verdict, back⟩
  | repetition kind child induction =>
      unfold Expr.Every at admitted
      exact repeat_conforms invariant skips kind child (induction admitted.2) fuel
  | not child induction =>
      unfold Expr.Every at admitted
      intro context holds permits raises
      refine wp_post (predicate_conforms invariant (induction admitted.2) true context holds permits
        ?_) ?_
      · rintro ⟨found, cutting, same⟩
        exact raises (same ▸ Cutting.not cutting)
      rintro result last ⟨kept, framed, committed, commits, ⟨found, cutting, same⟩, back⟩
      exact ⟨kept, framed, committed, commits, same ▸ Cutting.not cutting, back⟩
  | and child induction =>
      unfold Expr.Every at admitted
      intro context holds permits raises
      refine wp_post (predicate_conforms invariant (induction admitted.2) false context holds permits
        ?_) ?_
      · rintro ⟨found, cutting, same⟩
        exact raises (same ▸ Cutting.and cutting)
      rintro result last ⟨kept, framed, committed, commits, ⟨found, cutting, same⟩, back⟩
      exact ⟨kept, framed, committed, commits, same ▸ Cutting.and cutting, back⟩
  | lexeme child induction =>
      unfold Expr.Every at admitted
      exact lexeme_conforms invariant (induction admitted.2)
  | rule id => exact applies id admitted.here

end Combinators

end Peglib.CommitEvaluation
