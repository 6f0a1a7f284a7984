import Peglib.PagedParsing
import Peglib.Coupling

/-!
# Paged input is transparent

A parse over a paged source and a parse over the contents of its file run in
step: the other members of the two contexts stay the same, and every item the
first one reads through the source is the one the second one finds in its
input.
-/

namespace Peglib.PagedTransparency

open Peglib.TracedComputation Peglib.Coupling Peglib.ParseError Peglib.ParseContext
open Peglib.Expressions Peglib.Rules Peglib.PagedInput Peglib.PagedParsing

set_option autoImplicit false

variable {CharT NodeType Value Other : Type} {file : File CharT} {page : PageSize}

/-- A context without its input. -/
def hidden (context : Context CharT) : Context CharT := { context with input := [] }

structure Mirrors (file : File CharT) (near : PagedContext CharT) (far : Context CharT) :
    Prop where
  members : near.members = hidden far
  input : far.input = file.items
  inputSize : near.inputSize = file.count
  paged : Paged file near.source

def Transparent (file : File CharT) (left : PagedParser CharT Value) (right : Parser CharT Value) :
    Prop :=
  ∀ near far, Mirrors file near far →
    Alike (Mirrors file) left right (fun _ => Mirrors file) near far

/-- An update that neither reads nor changes the input. -/
def InputFree (change : Context CharT → Context CharT) : Prop :=
  ∀ context items, change { context with input := items } = { change context with input := items }

/-- The same for one that also reports a value. -/
def InputFreeGet (change : Context CharT → Value × Context CharT) : Prop :=
  ∀ context items, change { context with input := items } =
    ((change context).1, { (change context).2 with input := items })

section Rules

variable {left : PagedParser CharT Value} {right : Parser CharT Value}

theorem InputFree.input {change : Context CharT → Context CharT} (free : InputFree change)
    (context : Context CharT) : (change context).input = context.input := by
  have same := congrArg Context.input (free context context.input)
  exact same

theorem InputFreeGet.input {change : Context CharT → Value × Context CharT}
    (free : InputFreeGet change) (context : Context CharT) :
    (change context).2.input = context.input := by
  have same := congrArg (fun changed => changed.2.input) (free context context.input)
  exact same

theorem mirrors_update {near : PagedContext CharT} {far : Context CharT}
    (mirrors : Mirrors file near far) {change : Context CharT → Context CharT}
    (free : InputFree change) : Mirrors file (near.update change) (change far) := by
  refine ⟨?_, (free.input far).trans mirrors.input, mirrors.inputSize, mirrors.paged⟩
  rw [PagedContext.update, mirrors.members]
  exact free far []

theorem Mirrors.size {near : PagedContext CharT} {far : Context CharT}
    (mirrors : Mirrors file near far) : near.inputSize = far.inputSize := by
  rw [mirrors.inputSize, Context.inputSize, mirrors.input, File.items_length]

theorem Mirrors.position {near : PagedContext CharT} {far : Context CharT}
    (mirrors : Mirrors file near far) : near.position = far.position := by
  rw [PagedContext.position, mirrors.members]
  rfl

theorem mirrors_next {near : PagedContext CharT} {far : Context CharT}
    (mirrors : Mirrors file near far) : Mirrors file near.next far.next := by
  unfold PagedContext.next Context.next
  rw [mirrors.position, mirrors.size]
  split_ifs
  · exact mirrors_update mirrors fun _ _ => rfl
  · exact mirrors

theorem mirrors_reset {near : PagedContext CharT} {far : Context CharT}
    (mirrors : Mirrors file near far) (pos : Nat) :
    Mirrors file (near.reset pos) (far.reset pos) := by
  refine ⟨?_, mirrors.input, mirrors.inputSize, mirrors.paged⟩
  unfold PagedContext.reset PagedContext.update
  rw [mirrors.members, mirrors.size]
  rfl

theorem mirrors_removeCut {near : PagedContext CharT} {far : Context CharT}
    (mirrors : Mirrors file near far) : Mirrors file near.removeCut far.removeCut := by
  have free : @InputFree CharT Context.removeCut := by
    intro context items
    cases stack : context.cutStack with
    | nil => simp only [Context.removeCut, stack]
    | cons scope outer =>
        simp only [Context.removeCut, stack]
        split_ifs <;> rfl
  have updated := mirrors_update mirrors free
  unfold PagedContext.removeCut
  cases stack : near.members.cutStack with
  | nil =>
      have empty : far.cutStack = [] := by
        rw [mirrors.members] at stack
        exact stack
      have kept : far.removeCut = far := by rw [Context.removeCut, empty]
      rw [kept]
      exact mirrors
  | cons scope outer =>
      dsimp only
      split_ifs
      · exact ⟨updated.members, updated.input, updated.inputSize,
          release_paged mirrors.paged scope.pos⟩
      · exact updated

theorem transparent_pure (value : Value) :
    Transparent file (pure value : PagedParser CharT Value) (pure value) :=
  fun _ _ mirrors => alike_pure mirrors

theorem transparent_throw (exn : Exn) :
    Transparent file (Comp.throw exn : PagedParser CharT Value) (Comp.throw exn) :=
  fun _ _ mirrors => alike_throw mirrors exn

theorem transparent_exhaust :
    Transparent file (Comp.exhaust : PagedParser CharT Value) Comp.exhaust :=
  fun _ _ mirrors => alike_exhaust mirrors

theorem transparent_bind {next : Value → PagedParser CharT Other}
    {next' : Value → Parser CharT Other} (first : Transparent file left right)
    (rest : ∀ value, Transparent file (next value) (next' value)) :
    Transparent file (left >>= next) (right >>= next') :=
  fun near far mirrors => alike_bind _ (first near far mirrors) fun value => rest value

theorem transparent_modify {update : PagedContext CharT → PagedContext CharT}
    {update' : Context CharT → Context CharT}
    (mirrored : ∀ near far, Mirrors file near far → Mirrors file (update near) (update' far)) :
    Transparent file (Comp.modify update) (Comp.modify update') :=
  fun near far mirrors => ⟨rfl, rfl, mirrored near far mirrors⟩

theorem transparent_update {change : Context CharT → Context CharT} (free : InputFree change) :
    Transparent file (Comp.modify fun paged => paged.update change) (Comp.modify change) :=
  transparent_modify fun _ _ mirrors => mirrors_update mirrors free

theorem transparent_reset (pos : Nat) :
    Transparent file (Comp.modify fun paged => paged.reset pos)
      (Comp.modify fun context => context.reset pos) :=
  transparent_modify fun _ _ mirrors => mirrors_reset mirrors pos

theorem transparent_updateGet {change : Context CharT → Value × Context CharT}
    (free : InputFreeGet change) :
    Transparent file (Comp.modifyGet fun paged => paged.updateGet change)
      (Comp.modifyGet change) := by
  intro near far mirrors
  have changed : change near.members = ((change far).1, hidden (change far).2) := by
    rw [mirrors.members]
    exact free far []
  refine ⟨?_, rfl, ?_, (free.input far).trans mirrors.input, mirrors.inputSize, mirrors.paged⟩
  · exact congrArg (fun changed => Outcome.returned changed.1) changed
  · exact congrArg Prod.snd changed

theorem transparent_read {view : PagedContext CharT → Value} {view' : Context CharT → Value}
    (same : ∀ near far, Mirrors file near far → view near = view' far) :
    Transparent file (Comp.read view) (Comp.read view') :=
  fun near far mirrors => ⟨congrArg Outcome.returned (same near far mirrors), rfl, mirrors⟩

theorem transparent_position :
    Transparent file (Comp.read PagedContext.position) (Comp.read Context.position) :=
  transparent_read fun _ _ mirrors => mirrors.position

theorem transparent_look {next : Context CharT → PagedParser CharT Value}
    {next' : Context CharT → Parser CharT Value}
    (rest : ∀ context, Transparent file (next (hidden context)) (next' context)) :
    Transparent file (Comp.read PagedContext.members >>= next) (Comp.read id >>= next') := by
  intro near far mirrors
  have run := rest far near far mirrors
  rw [← mirrors.members] at run
  exact run

theorem transparent_announce (event : Event) :
    Transparent file (PagedParsing.announce file event) (Expressions.announce event) := by
  intro near far mirrors
  refine alike_announce ?_ mirrors
  rw [mirrors.members, ← mirrors.input]
  rfl

theorem transparent_ite {condition : Prop} [Decidable condition]
    {left' : PagedParser CharT Value} {right' : Parser CharT Value}
    (whenTrue : Transparent file left right) (whenFalse : Transparent file left' right') :
    Transparent file (if condition then left else left') (if condition then right else right') :=
  fun near far mirrors => alike_ite (fun _ => whenTrue near far mirrors)
    fun _ => whenFalse near far mirrors

theorem transparent_onlyIf {condition : Prop} [Decidable condition]
    {left : PagedParser CharT Unit} {right : Parser CharT Unit}
    (body : Transparent file left right) :
    Transparent file (Comp.onlyIf condition left) (Comp.onlyIf condition right) :=
  transparent_ite body (transparent_pure ())

theorem transparent_guarded {cleanup : PagedContext CharT → PagedContext CharT}
    {cleanup' : Context CharT → Context CharT} (body : Transparent file left right)
    (cleaned : ∀ near far, Mirrors file near far → Mirrors file (cleanup near) (cleanup' far)) :
    Transparent file (Comp.guarded left cleanup) (Comp.guarded right cleanup') := by
  intro near far mirrors
  refine alike_guarded ?_ cleaned
  exact alike_post (body near far mirrors) fun _ near' far' mirrored => cleaned near' far' mirrored

theorem transparent_catching {handler : Exn → Option Value} (body : Transparent file left right) :
    Transparent file (Comp.catching left handler) (Comp.catching right handler) :=
  fun near far mirrors => alike_catching (body near far mirrors) fun _ _ _ mirrored => mirrored

end Rules

section Leaves

theorem item_alike {post : CharT → PagedContext CharT → Context CharT → Prop} {pos : Nat}
    {letter : CharT} {near : PagedContext CharT} {far : Context CharT}
    (mirrors : Mirrors file near far) (found : far.input[pos]? = some letter)
    (met : ∀ near', Mirrors file near' far → post letter near' far) :
    Alike (Mirrors file) (PagedParsing.itemAt file page pos) (pure letter : Parser CharT CharT) post
      near far := by
  have inside : pos < file.count := by
    rw [mirrors.input] at found
    rw [← File.items_length]
    exact (List.getElem?_eq_some_iff.mp found).1
  have item : letter = file.item pos := by
    rw [mirrors.input, file.items_read inside] at found
    exact (Option.some.inj found).symm
  obtain ⟨paged, read⟩ := get_paged page mirrors.paged pos
  have step : PagedParsing.itemAt file page pos near =
      ⟨.returned letter, { near with source := (near.source.itemAt file page pos).2 }, []⟩ := by
    unfold PagedParsing.itemAt
    rw [Comp.bind_eq, Comp.bind, Comp.modifyGet]
    dsimp only
    rw [FileSource.itemAt, read inside, item]
    rfl
  refine ⟨congrArg Run.outcome step, congrArg Run.trace step, ?_⟩
  rw [step]
  exact met _ ⟨mirrors.members, mirrors.input, mirrors.inputSize, paged⟩

theorem alike_of_eq {post : Value → PagedContext CharT → Context CharT → Prop}
    {left : PagedParser CharT Value} (right : Parser CharT Value) {right' : Parser CharT Value}
    {near : PagedContext CharT} {far : Context CharT} (same : right far = right' far)
    (alike : Alike (Mirrors file) left right post near far) :
    Alike (Mirrors file) left right' post near far := by
  unfold Alike at alike ⊢
  rw [← same]
  exact alike

theorem alike_read_left {post : Other → PagedContext CharT → Context CharT → Prop}
    {view : PagedContext CharT → Value} {next : Value → PagedParser CharT Other}
    {right : Parser CharT Other} {near : PagedContext CharT} {far : Context CharT}
    (rest : Alike (Mirrors file) (next (view near)) right post near far) :
    Alike (Mirrors file) (Comp.read view >>= next) right post near far :=
  rest

theorem alike_read_right {post : Other → PagedContext CharT → Context CharT → Prop}
    {view : Context CharT → Value} {left : PagedParser CharT Other}
    {next : Value → Parser CharT Other} {near : PagedContext CharT} {far : Context CharT}
    (rest : Alike (Mirrors file) left (next (view far)) post near far) :
    Alike (Mirrors file) left (Comp.read view >>= next) post near far :=
  rest

variable [PegValue CharT]

theorem consumable_transparent (value : TerminalValue CharT) :
    Transparent file (PagedParsing.consumable file page value)
      (Comp.read (Expressions.consumable value)) := by
  intro near far mirrors
  have same : near.ended = far.ended := by
    rw [PagedContext.ended, mirrors.size, mirrors.position, Context.ended]
  refine alike_read_left ?_
  rw [same]
  cases ended : far.ended with
  | true =>
      refine alike_of_eq (pure false) ?_ (alike_pure mirrors)
      simp [Comp.pure_eq, Comp.pure, Comp.read, Expressions.consumable, ended]
  | false =>
      have inside : far.position < far.input.length :=
        Nat.lt_of_not_le (of_decide_eq_false ended)
      have found : far.input[far.position]? = some far.input[far.position] :=
        List.getElem?_eq_getElem inside
      refine alike_of_eq (pure far.input[far.position] >>= fun letter =>
        pure (symbolConsumable letter value)) ?_ ?_
      · simp [Comp.bind_eq, Comp.bind, Comp.pure_eq, Comp.pure, Comp.read,
          Expressions.consumable, ended, Context.current, found]
      · refine alike_bind (fun _ => Mirrors file) (alike_read_left ?_) fun letter => ?_
        · rw [mirrors.position]
          exact item_alike mirrors found fun near' mirrored => mirrored
        · exact fun near' far' mirrored => alike_pure mirrored

theorem terminal_transparent (value : TerminalValue CharT) :
    Transparent file (parseTerminal file page value) (TerminalExpr.parse value) := by
  refine transparent_bind (consumable_transparent value) fun found => transparent_ite ?_ ?_
  · exact transparent_bind (transparent_modify fun _ _ => mirrors_next) fun _ => transparent_pure _
  · exact transparent_bind (transparent_update fun _ _ => rfl) fun _ => transparent_pure _

theorem match_values_transparent (values : List CharT) :
    Transparent file (matchValues file page values) (TerminalSeqExpr.matchValues values) := by
  induction values with
  | nil => exact transparent_pure true
  | cons value rest induction =>
      refine transparent_bind (consumable_transparent _) fun found => transparent_ite ?_ ?_
      · exact transparent_bind (transparent_modify fun _ _ => mirrors_next) fun _ => induction
      · exact transparent_pure false

theorem terminalSeq_transparent (values : List CharT) :
    Transparent file (parseTerminalSeq file page values) (TerminalSeqExpr.parse values) := by
  refine transparent_bind transparent_position fun initState => ?_
  refine transparent_bind (match_values_transparent values) fun found => transparent_ite ?_ ?_
  · exact transparent_pure _
  · refine transparent_bind (transparent_reset initState) fun _ => ?_
    exact transparent_bind (transparent_update fun _ _ => rfl) fun _ => transparent_pure _

omit [PegValue CharT] in
theorem make_node_free : @InputFreeGet CharT NodePtr Context.makeNode := fun _ _ => rfl

theorem token_transparent (value : TerminalValue CharT) :
    Transparent file (parseToken file page value) (TokenExpr.parse value) := by
  refine transparent_bind (consumable_transparent value) fun found => transparent_ite ?_ ?_
  · refine transparent_bind (transparent_modify fun _ _ => mirrors_next) fun _ => ?_
    refine transparent_bind (transparent_updateGet make_node_free) fun node => ?_
    exact transparent_bind (transparent_update fun _ _ => rfl) fun _ => transparent_pure _
  · exact transparent_bind (transparent_update fun _ _ => rfl) fun _ => transparent_pure _

end Leaves

section Matchers

/-- A matcher is a function of what it asks the context for. -/
def Reads (reads : (Context CharT → Span → Option Span) → Matcher CharT)
    (fn : Context CharT → Span → Option Span) : Prop :=
  ∀ context span,
    (reads fn (hidden context) context.inputSize span).over context.input = some (fn context span)

theorem ask_alike {Answer : Type} {far : Context CharT} (reading : Reading CharT Answer) :
    ∀ {near : PagedContext CharT} {answer : Answer}, Mirrors file near far →
      reading.over far.input = some answer →
      Alike (Mirrors file) (ask file page reading) (pure answer : Parser CharT Answer)
        (fun _ => Mirrors file) near far := by
  induction reading with
  | answer value =>
      intro near answer mirrors read
      obtain rfl := Option.some.inj read
      exact alike_pure mirrors
  | itemAt pos next induction =>
      intro near answer mirrors read
      rw [Reading.over] at read
      obtain ⟨letter, found, rest⟩ := Option.bind_eq_some_iff.mp read
      refine alike_of_eq (pure letter >>= fun _ => pure answer) rfl ?_
      refine alike_bind (fun item near' far' => item = letter ∧ far' = far ∧
        Mirrors file near' far') (item_alike mirrors found fun _ mirrored => ⟨rfl, rfl, mirrored⟩)
        fun item near' far' met => ?_
      obtain ⟨rfl, rfl, mirrored⟩ := met
      exact induction item mirrored rest

def settle (start : Nat) : Option Span → Parser CharT ParseResult
  | some consumed => do
      Comp.modify fun context => context.reset consumed.stop
      let node ← Comp.modifyGet Context.makeNode
      Comp.modify fun after => after.updateNode node fun fields =>
        { fields with startOffset := start, endOffset := consumed.stop }
      pure ⟨true, some node⟩
  | none => pure ⟨false, none⟩

theorem matcher_transparent {reads : (Context CharT → Span → Option Span) → Matcher CharT}
    {fn : Context CharT → Span → Option Span} (faithful : Reads reads fn) :
    Transparent file (parseMatcher file page (reads fn)) (MatcherExpr.parse fn) := by
  intro near far mirrors
  have read := faithful far ⟨far.position, far.position⟩
  rw [← mirrors.members, ← mirrors.size] at read
  have settles : (pure (fn far ⟨far.position, far.position⟩) >>= settle far.position :
      Parser CharT ParseResult) far = MatcherExpr.parse fn far := by
    unfold MatcherExpr.parse
    rfl
  refine alike_of_eq (pure (fn far ⟨far.position, far.position⟩) >>= settle far.position) settles
    (alike_read_left ?_)
  dsimp only [id]
  rw [mirrors.position]
  refine alike_bind _ (ask_alike _ mirrors read) fun answer near' far' mirrored => ?_
  cases answer with
  | none => exact alike_pure mirrored
  | some consumed =>
      refine transparent_bind (transparent_reset consumed.stop) (fun _ => ?_) _ _ mirrored
      refine transparent_bind (transparent_updateGet make_node_free) fun node => ?_
      exact transparent_bind (transparent_update fun _ _ => rfl) fun _ => transparent_pure _

/-- Any matcher can be read: it may ask for everything before it answers. -/
def readAll (fn : Context CharT → Span → Option Span) (context : Context CharT) (size : Nat)
    (span : Span) : Reading CharT (Option Span) :=
  collect size []
where
  collect : Nat → List CharT → Reading CharT (Option Span)
    | 0, items => .answer (fn { context with input := items } span)
    | left + 1, items => .itemAt left fun item => collect left (item :: items)

theorem collect_over (fn : Context CharT → Span → Option Span) (context : Context CharT)
    (span : Span) (input : List CharT) (left : Nat) (inside : left ≤ input.length) :
    (readAll.collect fn context span left (input.drop left)).over input =
      some (fn { context with input := input } span) := by
  induction left with
  | zero => rw [readAll.collect, Reading.over, List.drop_zero]
  | succ left induction =>
      have below : left < input.length := inside
      rw [readAll.collect, Reading.over, List.getElem?_eq_getElem below, Option.bind_some,
        ← List.drop_eq_getElem_cons below]
      exact induction (Nat.le_of_lt below)

theorem read_all_reads (fn : Context CharT → Span → Option Span) : Reads readAll fn := by
  intro context span
  have collected := collect_over fn (hidden context) span context.input context.inputSize
    (Nat.le_refl _)
  rw [Context.inputSize, List.drop_length] at collected
  exact collected

end Matchers

section Combinators

variable {apply : RuleId → PagedParser CharT ParseResult} {apply' : RuleId → Parser CharT ParseResult}
  {skip : PagedParser CharT Unit} {skip' : Parser CharT Unit}
  {child : PagedParser CharT ParseResult} {child' : Parser CharT ParseResult}

theorem skipper_transparent (rules : ∀ rule, Transparent file (apply rule) (apply' rule)) :
    Transparent file (PagedParsing.runSkipper apply) (Expressions.runSkipper apply') := by
  refine transparent_look fun context => ?_
  dsimp only [hidden, id]
  cases context.skipEnabled <;> cases context.skipper
  case true.some skipper =>
    refine transparent_bind (transparent_update fun _ _ => rfl) fun _ => ?_
    refine transparent_bind (rules skipper) fun _ => ?_
    exact transparent_update fun _ _ => rfl
  all_goals exact transparent_pure ()

theorem push_child_free (node : NodePtr) (tree : Option NodePtr) :
    @InputFree CharT (pushChild node tree) := by
  intro context items
  cases tree <;> rfl

theorem stamp_winner_free (tree : Option NodePtr) (index : Nat) :
    @InputFree CharT (stampWinner tree index) := by
  intro context items
  cases tree <;> rfl

theorem set_cut_free (committed : Bool) :
    InputFree fun context : Context CharT => context.setCut committed := by
  intro context items
  cases stack : context.cutStack <;> simp only [Context.setCut, stack]

theorem seq_transparent (skips : Transparent file skip skip') (node : NodePtr)
    {children : List (PagedParser CharT ParseResult)} {children' : List (Parser CharT ParseResult)}
    (all : List.Forall₂ (Transparent file) children children') :
    ∀ index, Transparent file (parseSeq skip node index children)
      (SequenceExpr.parseSeq skip' node index children') := by
  induction all with
  | nil => exact fun _ => transparent_pure true
  | cons first _ induction =>
      intro index
      refine transparent_bind (transparent_onlyIf skips) fun _ => ?_
      refine transparent_bind first fun result => transparent_ite ?_ (transparent_pure false)
      refine transparent_bind (transparent_update (push_child_free node result.tree)) fun _ => ?_
      exact induction (index + 1)

theorem sequence_transparent (skips : Transparent file skip skip')
    {children : List (PagedParser CharT ParseResult)} {children' : List (Parser CharT ParseResult)}
    (all : List.Forall₂ (Transparent file) children children') :
    Transparent file (parseSequence skip children) (SequenceExpr.parse skip' children') := by
  refine transparent_bind transparent_position fun state => ?_
  refine transparent_bind (transparent_updateGet make_node_free) fun node => ?_
  refine transparent_bind (transparent_update fun _ _ => rfl) fun _ => ?_
  refine transparent_bind (seq_transparent skips node all 0) fun found => transparent_ite ?_ ?_
  · exact transparent_bind (transparent_update fun _ _ => rfl) fun _ => transparent_pure _
  · exact transparent_bind (transparent_reset state) fun _ => transparent_pure _

theorem raise_transparent :
    Transparent file (PagedParsing.raiseIfCommitted file)
      (Expressions.raiseIfCommitted : Parser CharT Unit) := by
  refine transparent_bind (transparent_announce .failure) fun _ => ?_
  refine transparent_look fun context => ?_
  exact transparent_onlyIf (transparent_throw _)

theorem alt_transparent {children : List (PagedParser CharT ParseResult)}
    {children' : List (Parser CharT ParseResult)}
    (all : List.Forall₂ (Transparent file) children children') :
    ∀ index, Transparent file (parseAlt file index children)
      (AlternationExpr.parseAlt index children') := by
  induction all with
  | nil => exact fun _ => transparent_pure _
  | cons first _ induction =>
      intro index
      refine transparent_bind first fun result => transparent_ite ?_ ?_
      · refine transparent_bind (transparent_update (stamp_winner_free _ index)) fun _ => ?_
        exact transparent_pure result
      · exact transparent_bind raise_transparent fun _ => induction (index + 1)

theorem alternation_transparent {children : List (PagedParser CharT ParseResult)}
    {children' : List (Parser CharT ParseResult)}
    (all : List.Forall₂ (Transparent file) children children') :
    Transparent file (parseAlternation file children) (AlternationExpr.parse children') := by
  refine transparent_bind (transparent_update fun _ _ => rfl) fun _ => ?_
  exact transparent_guarded (alt_transparent all 0) fun _ _ => mirrors_removeCut

theorem loop_transparent (skips : Transparent file skip skip')
    (body : Transparent file child child') (maxRep : Int) (node : NodePtr) (fuel : Nat) :
    ∀ loopCount lastSuccessState, Transparent file
      (PagedParsing.repeatLoop skip child maxRep node fuel loopCount lastSuccessState)
      (Expressions.repeatLoop skip' child' maxRep node fuel loopCount lastSuccessState) := by
  induction fuel with
  | zero => exact fun _ _ => transparent_exhaust
  | succ fuel induction =>
      intro loopCount lastSuccessState
      refine transparent_bind (transparent_onlyIf skips) fun _ => ?_
      refine transparent_bind transparent_position fun startState => ?_
      refine transparent_bind (transparent_update (set_cut_free false)) fun _ => ?_
      refine transparent_bind body fun result => transparent_ite ?_ (transparent_pure _)
      refine transparent_bind transparent_position fun here => ?_
      refine transparent_bind (transparent_update (push_child_free node result.tree)) fun _ => ?_
      exact transparent_ite (transparent_pure _) (induction (loopCount + 1) here)

theorem finish_transparent (maxRep : Int) (node : NodePtr) (ended : LoopExit) :
    Transparent file (PagedParsing.repeatFinish file maxRep node ended)
      (Expressions.repeatFinish maxRep node ended : Parser CharT ParseResult) := by
  refine transparent_bind (transparent_onlyIf ?_) fun _ => ?_
  · exact transparent_modify fun _ _ mirrors =>
      mirrors_update (mirrors_reset mirrors ended.lastSuccessState) fun _ _ => rfl
  · refine transparent_bind (transparent_onlyIf raise_transparent) fun _ => ?_
    exact transparent_bind (transparent_update fun _ _ => rfl) fun _ => transparent_pure _

theorem repeat_transparent (fuel : Nat) (skips : Transparent file skip skip')
    (body : Transparent file child child') (minRep : Nat) (maxRep : Int) :
    Transparent file (PagedParsing.repeatParseImpl file fuel skip child minRep maxRep)
      (Expressions.repeatParseImpl fuel skip' child' minRep maxRep) := by
  refine transparent_bind (transparent_update fun _ _ => rfl) fun _ => ?_
  refine transparent_guarded ?_ fun _ _ => mirrors_removeCut
  refine transparent_bind transparent_position fun initState => ?_
  refine transparent_bind (transparent_updateGet make_node_free) fun node => ?_
  refine transparent_bind (transparent_update fun _ _ => rfl) fun _ => ?_
  refine transparent_bind (loop_transparent skips body maxRep node fuel 0 initState) fun ended => ?_
  refine transparent_ite ?_ (finish_transparent maxRep node ended)
  exact transparent_bind (transparent_reset initState) fun _ => transparent_pure _

theorem predicate_transparent (body : Transparent file child child') (negate : Bool) :
    Transparent file (PagedParsing.predicateParseImpl child negate)
      (Expressions.predicateParseImpl child' negate) := by
  refine transparent_bind transparent_position fun initState => ?_
  refine transparent_bind body fun result => ?_
  exact transparent_bind (transparent_reset initState) fun _ => transparent_pure _

theorem lexeme_transparent (body : Transparent file child child') :
    Transparent file (parseLexeme child) (LexemeExpr.parse child') := by
  refine transparent_bind (transparent_read fun _ _ mirrors => ?_) fun prev => ?_
  · rw [mirrors.members]
    rfl
  · refine transparent_bind (transparent_update fun _ _ => rfl) fun _ => ?_
    exact transparent_guarded body fun _ _ mirrors => mirrors_update mirrors fun _ _ => rfl

variable [PegValue CharT]

theorem expr_transparent {reads : (Context CharT → Span → Option Span) → Matcher CharT}
    (fuel : Nat) (rules : ∀ rule, Transparent file (apply rule) (apply' rule))
    {expr : Expr CharT}
    (faithful : expr.Every fun part => ∀ fn, part = .matcher fn → Reads reads fn) :
    Transparent file (parseExpr file page reads apply fuel expr) (expr.parse apply' fuel) := by
  have all : ∀ children : List (Expr CharT),
      (∀ child ∈ children, Transparent file (parseExpr file page reads apply fuel child)
        (child.parse apply' fuel)) →
      List.Forall₂ (Transparent file) (parseAll file page reads apply fuel children)
        (Expr.parseAll apply' fuel children) := by
    intro children each
    induction children with
    | nil => exact .nil
    | cons child rest induction =>
        rw [List.forall_mem_cons] at each
        exact .cons each.1 (induction each.2)
  induction expr using Expr.induct with
  | terminal value => exact terminal_transparent value
  | terminalSeq values => exact terminalSeq_transparent values
  | token value => exact token_transparent value
  | matcher fn => exact matcher_transparent (faithful.here fn rfl)
  | empty => exact transparent_pure _
  | cut => exact transparent_bind (transparent_update (set_cut_free true)) fun _ => transparent_pure _
  | sequence children induction =>
      unfold Expr.Every at faithful
      rw [Expr.every_all_iff] at faithful
      exact sequence_transparent (skipper_transparent rules) (all children fun child member =>
        induction child member (faithful.2 child member))
  | alternation children induction =>
      unfold Expr.Every at faithful
      rw [Expr.every_all_iff] at faithful
      exact alternation_transparent (all children fun child member =>
        induction child member (faithful.2 child member))
  | repetition kind child induction =>
      unfold Expr.Every at faithful
      exact repeat_transparent fuel (skipper_transparent rules) (induction faithful.2) _ _
  | not child induction | and child induction =>
      unfold Expr.Every at faithful
      exact predicate_transparent (induction faithful.2) _
  | lexeme child induction =>
      unfold Expr.Every at faithful
      exact lexeme_transparent (induction faithful.2)
  | rule id => exact rules id

end Combinators

section Rules

variable {body : PagedParser CharT ParseResult} {body' : Parser CharT ParseResult}

theorem update_row_free (rule : RuleId) (pos : Nat) (entry : RuleState) :
    InputFreeGet fun context : Context CharT => context.updateRuleState rule pos entry := by
  intro context items
  cases present : context.mem pos rule <;> simp only [Context.updateRuleState, present]

theorem rule_state_free (rule : RuleId) (pos : Nat) :
    InputFreeGet fun context : Context CharT => context.ruleState rule pos := by
  intro context items
  cases present : context.mem pos rule <;> simp only [Context.ruleState, present]

theorem set_frame_free (pos : Nat) :
    @InputFree CharT (NonTerminal.setFrameLastPos pos) := fun _ _ => rfl

theorem leave_free (startPos : Nat) : @InputFree CharT (NonTerminal.leave startPos) := by
  intro context items
  unfold NonTerminal.leave
  change (if (NonTerminal.frame context).isHead = true then _ else _) = _
  split_ifs <;> rfl

theorem mark_head_free (rule : RuleId) (pos : Nat) :
    InputFree fun context : Context CharT => context.markHead rule pos := by
  intro context items
  cases found : context.lrStack.find? (LRFrame.isOf rule pos) with
  | none => simp only [Context.markHead, found]
  | some frame =>
      simp only [Context.markHead, found]
      split_ifs <;> rfl

theorem record_rule_failure_free (nonTerminal : NonTerminal CharT NodeType) (startPos : Nat) :
    InputFree (NonTerminal.recordRuleFailure nonTerminal startPos) := by
  intro context items
  unfold NonTerminal.recordRuleFailure
  split_ifs <;> rfl

theorem store_transparent (rule : RuleId) (pos : Nat) (entry : RuleState) :
    Transparent file (PagedParsing.store file rule pos entry)
      (NonTerminal.store rule pos entry : Parser CharT Bool) := by
  refine transparent_bind (transparent_updateGet (update_row_free rule pos entry)) fun present => ?_
  exact transparent_bind (transparent_announce _) fun _ => transparent_pure present

theorem grow_transparent (rule : RuleId) (startPos : Nat) (bodies : Transparent file body body')
    (fuel : Nat) : ∀ best ruleState, Transparent file
      (PagedParsing.growLoop file rule startPos body fuel best ruleState)
      (NonTerminal.growLoop rule startPos body' fuel best ruleState) := by
  induction fuel with
  | zero => exact fun _ _ => transparent_exhaust
  | succ fuel induction =>
      intro best ruleState
      refine transparent_bind (transparent_reset startPos) fun _ => ?_
      refine transparent_look fun before => ?_
      refine transparent_bind (transparent_onlyIf (transparent_update fun _ _ => rfl)) fun _ => ?_
      refine transparent_bind bodies fun result => ?_
      refine transparent_look fun after => ?_
      refine transparent_ite (transparent_ite ?_ ?_) (transparent_pure _)
      · refine transparent_bind (transparent_update (set_frame_free after.position)) fun _ => ?_
        refine transparent_bind (store_transparent rule startPos _) fun present => ?_
        exact transparent_ite (induction result ⟨after.position, result⟩) (transparent_pure _)
      · exact transparent_bind (store_transparent rule startPos _) fun _ => transparent_pure _

theorem parse_impl_transparent (rule : RuleId) (startPos : Nat)
    {bodies : Option (PagedParser CharT ParseResult)} {bodies' : Option (Parser CharT ParseResult)}
    (same : Option.Rel (Transparent file) bodies bodies') (fuel : Nat) :
    Transparent file (PagedParsing.parseImpl file rule startPos bodies fuel)
      (NonTerminal.parseImpl rule startPos bodies' fuel) := by
  cases same with
  | none => exact transparent_throw _
  | some same =>
      refine transparent_bind (store_transparent rule startPos _) fun _ => ?_
      refine transparent_bind (grow_transparent rule startPos same fuel _ _) fun grown => ?_
      refine transparent_bind (transparent_modify fun near far mirrors => ?_) fun _ =>
        transparent_pure grown
      have reset := mirrors_reset mirrors (NonTerminal.frame far).lastPos
      rwa [show NonTerminal.frame far = NonTerminal.frame near.members by
        rw [mirrors.members]; rfl] at reset ⊢

theorem invoke_transparent (rule : RuleId) (startPos : Nat)
    {bodies : Option (PagedParser CharT ParseResult)} {bodies' : Option (Parser CharT ParseResult)}
    (same : Option.Rel (Transparent file) bodies bodies') (fuel : Nat) :
    Transparent file (PagedParsing.invoke file rule startPos bodies fuel)
      (NonTerminal.invoke rule startPos bodies' fuel) := by
  refine transparent_bind (transparent_update fun _ _ => rfl) fun _ => ?_
  refine transparent_bind (parse_impl_transparent rule startPos same fuel) fun grown => ?_
  exact transparent_bind (transparent_update (leave_free startPos)) fun _ => transparent_pure grown

theorem build_transparent (nonTerminal : NonTerminal CharT NodeType) (rule : RuleId)
    (startPos : Nat) (inner : Option NodePtr) :
    Transparent file (PagedParsing.buildNode nonTerminal rule startPos inner)
      (NonTerminal.buildNode nonTerminal rule startPos inner) := by
  unfold PagedParsing.buildNode NonTerminal.buildNode
  cases nonTerminal.typedFold with
  | some action =>
      refine transparent_bind (transparent_updateGet make_node_free) fun node => ?_
      refine transparent_bind (transparent_update fun _ _ => rfl) fun _ => ?_
      refine transparent_bind (transparent_update (push_child_free node inner)) fun _ => ?_
      exact transparent_pure node
  | none =>
      have adopted : Transparent file
          (inner.elim (Comp.modifyGet fun paged => paged.updateGet Context.makeNode) pure)
          (inner.elim (Comp.modifyGet Context.makeNode) pure) := by
        cases inner with
        | none => exact transparent_updateGet make_node_free
        | some node => exact transparent_pure node
      refine transparent_bind adopted fun node => ?_
      exact transparent_bind (transparent_update fun _ _ => rfl) fun _ => transparent_pure node

theorem success_transparent (nonTerminal : NonTerminal CharT NodeType) (rule : RuleId)
    (startPos : Nat) (inner : ParseResult) (ruleState : RuleState) :
    Transparent file (PagedParsing.finishSuccess file nonTerminal rule startPos inner ruleState)
      (NonTerminal.finishSuccess nonTerminal rule startPos inner ruleState) := by
  refine transparent_bind (build_transparent nonTerminal rule startPos inner.tree) fun node => ?_
  exact transparent_bind (store_transparent rule startPos _) fun _ => transparent_pure _

/-- The scan for a sync token stops where the one over the whole input stops. -/
theorem scan_alike (page : PageSize) (isSyncToken : CharT → Bool) {far : Context CharT} (left : Nat) :
    ∀ {near : PagedContext CharT} {scan : Nat}, Mirrors file near far →
      left = far.inputSize - scan →
      Alike (Mirrors file) (PagedParsing.scanSync file page isSyncToken scan left)
        (pure (NonTerminal.scanSync isSyncToken far scan) : Parser CharT Nat)
        (fun _ near far' => far' = far ∧ Mirrors file near far) near far := by
  induction left with
  | zero =>
      intro near scan mirrors bound
      have past : far.input.drop scan = [] := List.drop_eq_nil_of_le (Nat.le_of_sub_eq_zero bound.symm)
      rw [NonTerminal.scanSync, past]
      exact alike_pure ⟨rfl, mirrors⟩
  | succ left induction =>
      intro near scan mirrors bound
      have inside : scan < far.input.length := by
        rw [Context.inputSize] at bound
        omega
      have found : far.input[scan]? = some far.input[scan] := List.getElem?_eq_getElem inside
      have next : NonTerminal.scanSync isSyncToken far scan =
          if isSyncToken far.input[scan] then scan
          else NonTerminal.scanSync isSyncToken far (scan + 1) := by
        unfold NonTerminal.scanSync
        rw [List.drop_eq_getElem_cons inside, List.takeWhile_cons]
        cases isSyncToken far.input[scan] with
        | true => rfl
        | false => simp only [Bool.not_false, if_true, List.length_cons, Bool.false_eq_true, if_false]; omega
      refine alike_of_eq (pure far.input[scan] >>= fun _ =>
        pure (NonTerminal.scanSync isSyncToken far scan)) rfl ?_
      refine alike_bind (fun item near' far' => item = far.input[scan] ∧ far' = far ∧
        Mirrors file near' far) (item_alike mirrors found fun _ mirrored => ⟨rfl, rfl, mirrored⟩)
        fun item near' far' met => ?_
      obtain ⟨rfl, rfl, mirrored⟩ := met
      rw [next]
      split_ifs
      · exact alike_pure ⟨rfl, mirrored⟩
      · exact induction mirrored (by omega)

theorem failure_transparent (nonTerminal : NonTerminal CharT NodeType) (rule : RuleId)
    (startPos : Nat) (ruleState : RuleState) :
    Transparent file (PagedParsing.finishFailure file page nonTerminal rule startPos ruleState)
      (NonTerminal.finishFailure nonTerminal rule startPos ruleState) := by
  refine transparent_bind (transparent_update (record_rule_failure_free nonTerminal startPos))
    fun _ near far mirrors => ?_
  have failed : ∀ lastPos, Transparent file
      (do let _ ← PagedParsing.store file rule startPos ⟨lastPos, ⟨false, none⟩⟩
          pure (⟨false, none⟩ : ParseResult))
      (do let _ ← NonTerminal.store rule startPos ⟨lastPos, ⟨false, none⟩⟩
          pure (⟨false, none⟩ : ParseResult)) := fun lastPos =>
    transparent_bind (store_transparent rule startPos _) fun _ => transparent_pure _
  let label :=
    if nonTerminal.recover.label = [] then nonTerminal.name else nonTerminal.recover.label
  let recoverAt (resumeAt : Nat) : Parser CharT ParseResult := do
    Comp.modify fun context =>
      (context.reset resumeAt).recordDiagnostic ⟨startPos, [⟨.ruleLabel, label⟩]⟩
    let _ ← NonTerminal.store rule startPos ⟨resumeAt, ⟨true, none⟩⟩
    pure ⟨true, none⟩
  have recovered : ∀ resumeAt, Transparent file
      (do Comp.modify fun paged => (paged.reset resumeAt).update fun context =>
            context.recordDiagnostic ⟨startPos, [⟨.ruleLabel, label⟩]⟩
          let _ ← PagedParsing.store file rule startPos ⟨resumeAt, ⟨true, none⟩⟩
          pure (⟨true, none⟩ : ParseResult))
      (recoverAt resumeAt) := by
    intro resumeAt
    refine transparent_bind (transparent_modify fun _ _ mirrors => ?_) fun _ => ?_
    · exact mirrors_update (mirrors_reset mirrors resumeAt) fun _ _ => rfl
    · exact transparent_bind (store_transparent rule startPos _) fun _ => transparent_pure _
  have same : near.members.cut = far.cut := by
    rw [mirrors.members]
    rfl
  refine alike_read_left (alike_read_right ?_)
  dsimp only [id]
  rw [same]
  cases nonTerminal.recover.isSyncToken with
  | none => exact failed _ near far mirrors
  | some isSyncToken =>
      cases far.cut with
      | true => exact failed _ near far mirrors
      | false =>
          have scanned := scan_alike page isSyncToken (near.inputSize - startPos) mirrors
            (by rw [mirrors.size])
          refine alike_of_eq (pure (NonTerminal.scanSync isSyncToken far startPos) >>=
            fun scan => recoverAt (if scan < near.inputSize then scan + 1 else near.inputSize))
            (by rw [mirrors.size]; rfl) ?_
          refine alike_bind _ scanned fun scan near' far' met => ?_
          exact recovered _ near' far' (met.1 ▸ met.2)

theorem live_reset_transparent (rule : RuleId) (startPos : Nat) :
    Transparent file
      (Comp.modify fun paged => paged.reset (paged.members.memoGet rule startPos).lastPos)
      (Comp.modify fun context => context.reset (context.memoGet rule startPos).lastPos) := by
  refine transparent_modify fun near far mirrors => ?_
  have row : near.members.memoGet rule startPos = far.memoGet rule startPos := by
    rw [mirrors.members]
    rfl
  rw [row]
  exact mirrors_reset mirrors _

theorem replay_transparent (rule : RuleId) (startPos : Nat) (ruleState : RuleState) :
    Transparent file (PagedParsing.replay rule startPos ruleState)
      (NonTerminal.replay rule startPos ruleState : Parser CharT ParseResult) := by
  have answer := transparent_bind (transparent_reset ruleState.lastPos : Transparent file _ _)
    fun _ => transparent_pure ruleState.cachedResult
  refine transparent_look fun context => ?_
  have live := transparent_bind (live_reset_transparent rule startPos : Transparent file _ _)
    fun _ => transparent_pure (context.memoGet rule startPos).cachedResult
  dsimp only [hidden, id]
  refine transparent_ite ?_ ?_
  · exact transparent_bind (transparent_update (mark_head_free rule startPos)) fun _ => live
  · cases context.growingHead startPos with
    | none => exact answer
    | some head => exact transparent_ite live answer

theorem rule_transparent (nonTerminal : NonTerminal CharT NodeType) (rule : RuleId)
    {bodies : Option (PagedParser CharT ParseResult)} {bodies' : Option (Parser CharT ParseResult)}
    (same : Option.Rel (Transparent file) bodies bodies') (fuel : Nat) :
    Transparent file (PagedParsing.parseRule file page nonTerminal rule bodies fuel)
      (NonTerminal.parse nonTerminal rule bodies' fuel) := by
  refine transparent_bind (transparent_announce _) fun _ => ?_
  refine transparent_bind transparent_position fun startPos => ?_
  refine transparent_bind (transparent_updateGet (rule_state_free rule startPos)) fun row => ?_
  refine transparent_ite ?_ (replay_transparent rule startPos row.2)
  refine transparent_bind (invoke_transparent rule startPos same fuel) fun grown => ?_
  exact transparent_ite (success_transparent nonTerminal rule startPos grown.1 grown.2)
    (failure_transparent nonTerminal rule startPos grown.2)

end Rules

section Entry

variable [PegValue CharT] {reads : (Context CharT → Span → Option Span) → Matcher CharT}
  {grammar : Grammar CharT NodeType}

/-- Every matcher of the grammar is read faithfully. -/
def ReadsMatchers (reads : (Context CharT → Span → Option Span) → Matcher CharT)
    (grammar : Grammar CharT NodeType) : Prop :=
  ∀ rule body, grammar.body rule = some body →
    body.Every fun part => ∀ fn, part = .matcher fn → Reads reads fn

theorem apply_transparent (faithful : ReadsMatchers reads grammar) (fuel : Nat) :
    ∀ rule, Transparent file (PagedParsing.apply file page reads grammar fuel rule)
      (grammar.apply fuel rule) := by
  induction fuel with
  | zero => exact fun _ => transparent_exhaust
  | succ fuel induction =>
      intro rule
      rw [PagedParsing.apply, Grammar.apply]
      refine rule_transparent _ rule ?_ fuel
      cases assigned : grammar.body rule with
      | none => exact .none
      | some body => exact .some (expr_transparent fuel induction (faithful rule body assigned))

theorem skip_transparent (faithful : ReadsMatchers reads grammar) (fuel : Nat) :
    Transparent file (PagedParsing.leadingSkip file page reads grammar fuel)
      (grammar.leadingSkip fuel) := by
  refine transparent_bind (transparent_update fun _ _ => rfl) fun _ => ?_
  exact skipper_transparent (apply_transparent faithful fuel)

theorem parse_transparent (faithful : ReadsMatchers reads grammar) (fuel : Nat) (name : Str) :
    Transparent file (PagedParsing.parse file page reads grammar fuel name)
      (grammar.parse fuel name) := by
  unfold PagedParsing.parse Grammar.parse
  cases grammar.find name with
  | none => exact transparent_throw _
  | some rule =>
      refine transparent_bind (skip_transparent faithful fuel) fun _ => transparent_catching ?_
      exact transparent_bind (apply_transparent faithful fuel rule) fun _ => transparent_pure _

theorem parse_tree_transparent (faithful : ReadsMatchers reads grammar) (fuel : Nat)
    (name : Str) : Transparent file (PagedParsing.parseTree file page reads grammar fuel name)
      (grammar.parseTree fuel name) := by
  unfold PagedParsing.parseTree Grammar.parseTree
  cases grammar.find name with
  | none => exact transparent_throw _
  | some rule =>
      refine transparent_bind (skip_transparent faithful fuel) fun _ => transparent_catching ?_
      exact transparent_bind (apply_transparent faithful fuel rule) fun _ => transparent_pure _

/-- What two runs over the paged and the contiguous source have in common: how
they end, the members of the context at the end, the nodes and the position
among them, and that the source can be read on. -/
structure SameRun (file : File CharT) (near : Run (Moment CharT) (PagedContext CharT) Exn Value)
    (far : Run (Moment CharT) (Context CharT) Exn Value) : Prop where
  outcome : near.outcome = far.outcome
  members : { near.state.members with input := file.items } = far.state
  paged : Paged file near.state.source

omit [PegValue CharT] in
theorem Transparent.same_run {left : PagedParser CharT Value} {right : Parser CharT Value}
    (transparent : Transparent file left right) {near : PagedContext CharT}
    {far : Context CharT} (mirrors : Mirrors file near far) :
    SameRun file (left near) (right far) := by
  obtain ⟨outcome, -, states⟩ := transparent near far mirrors
  have mirrored : Mirrors file (left near).state (right far).state := by
    cases ended : (right far).outcome with
    | returned value | thrown exn | exhausted => rw [ended] at states; exact states
  refine ⟨outcome, ?_, mirrored.paged⟩
  rw [mirrored.members, ← mirrored.input]
  rfl

/-- The contexts over a file and over its contents that the same parses lead
to. Before it is moved into its context, and between parses, the source may be
called in any way. -/
inductive Fed (file : File CharT) (page : PageSize) : PagedContext CharT → Context CharT → Prop where
  | fresh (calls : List Call) :
      Fed file page
        (PagedContext.fresh (calls.foldl (Call.perform file page) (FileSource.openFile file page)))
        (Context.fresh file.items)
  | called {near : PagedContext CharT} {far : Context CharT} (call : Call) :
      Fed file page near far →
      Fed file page { near with source := call.perform file page near.source } far
  | parsed {NodeType : Type} {near : PagedContext CharT} {far : Context CharT}
      (reads : (Context CharT → Span → Option Span) → Matcher CharT)
      (grammar : Grammar CharT NodeType) (fuel : Nat) (name : Str) :
      ReadsMatchers reads grammar → Fed file page near far →
      Fed file page (PagedParsing.parse file page reads grammar fuel name near).state
        (grammar.parse fuel name far).state
  | parsedTree {NodeType : Type} {near : PagedContext CharT} {far : Context CharT}
      (reads : (Context CharT → Span → Option Span) → Matcher CharT)
      (grammar : Grammar CharT NodeType) (fuel : Nat) (name : Str) :
      ReadsMatchers reads grammar → Fed file page near far →
      Fed file page (PagedParsing.parseTree file page reads grammar fuel name near).state
        (grammar.parseTree fuel name far).state

omit [PegValue CharT] in
theorem fresh_mirrors {source : FileSource CharT} (paged : Paged file source) :
    Mirrors file (PagedContext.fresh source) (Context.fresh file.items) :=
  ⟨rfl, rfl, paged.size, move_paged paged⟩

omit [PegValue CharT] in
theorem Transparent.mirrors {left : PagedParser CharT Value} {right : Parser CharT Value}
    (transparent : Transparent file left right) {near : PagedContext CharT}
    {far : Context CharT} (mirrors : Mirrors file near far) :
    Mirrors file (left near).state (right far).state := by
  have states := (transparent near far mirrors).states
  cases ended : (right far).outcome with
  | returned value | thrown exn | exhausted => rw [ended] at states; exact states

theorem Fed.mirrors {near : PagedContext CharT} {far : Context CharT} (fed : Fed file page near far) :
    Mirrors file near far := by
  induction fed with
  | fresh calls => exact fresh_mirrors (calls_paged calls open_paged)
  | called call _ mirrors =>
      exact ⟨mirrors.members, mirrors.input, mirrors.inputSize, perform_paged mirrors.paged call⟩
  | parsed reads grammar fuel name faithful _ mirrors =>
      exact (parse_transparent faithful fuel name).mirrors mirrors
  | parsedTree reads grammar fuel name faithful _ mirrors =>
      exact (parse_tree_transparent faithful fuel name).mirrors mirrors

/-- The source reads and slices as the file does. -/
structure ReadsFile (file : File CharT) (page : PageSize) (source : FileSource CharT) : Prop where
  size : source.size = file.count
  items : ∀ pos < source.size, (source.itemAt file page pos).1 = some (file.item pos)
  slices : ∀ offset count, offset + count ≤ source.size →
    (source.slice file page offset count).1 = some ((List.range' offset count).map file.item)

omit [PegValue CharT] in
theorem reads_file {source : FileSource CharT} (paged : Paged file source) :
    ReadsFile file page source := by
  have size : source.size = file.count := paged.size
  refine ⟨size, fun pos inside => ?_, fun offset count inside => ?_⟩
  · exact (get_paged page paged pos).2 (size ▸ inside)
  · exact (slice_paged count offset source paged).2 (size ▸ inside)

/-- A file source returns the items of its file after any calls to it, before
and after it has been moved into a context, and a parse over such a context ends
as the one over the contents of the file does. -/
theorem paged_input_transparent (NodeType : Type) (file : File CharT) (page : PageSize) :
    (∀ calls : List Call,
      ReadsFile file page (calls.foldl (Call.perform file page) (FileSource.openFile file page))) ∧
    ∀ near far, Fed file page near far →
      ReadsFile file page near.source ∧
      ∀ (reads : (Context CharT → Span → Option Span) → Matcher CharT)
        (grammar : Grammar CharT NodeType), ReadsMatchers reads grammar → ∀ fuel name,
        SameRun file (PagedParsing.parse file page reads grammar fuel name near)
            (grammar.parse fuel name far) ∧
          SameRun file (PagedParsing.parseTree file page reads grammar fuel name near)
            (grammar.parseTree fuel name far) := by
  refine ⟨fun calls => reads_file (calls_paged calls open_paged), fun near far fed => ?_⟩
  have mirrors := fed.mirrors
  refine ⟨reads_file mirrors.paged, fun reads grammar faithful fuel name => ⟨?_, ?_⟩⟩
  · exact (parse_transparent faithful fuel name).same_run mirrors
  · exact (parse_tree_transparent faithful fuel name).same_run mirrors

/-- "aab" in pages of two items. -/
def threeItems : File UInt8 where
  bytes := ascii "aab"
  sizeOf := 1
  decode bytes := bytes.headD 0
  sized := Nat.one_pos
  addressable := by decide

/-- `S = 'a' >> cut >> 'a' >> 'b' | 'c'`. -/
def cutBetweenPages : Grammar UInt8 Unit where
  rules := [(ascii "S", { body := some (.alternation [
    .sequence [.terminal (.value 97), .cut, .terminal (.value 97), .terminal (.value 98)],
    .terminal (.value 99)]) })]

theorem paged_parse_succeeds :
    (PagedParsing.parse threeItems ⟨2, Nat.two_pos⟩ readAll cutBetweenPages 6 (ascii "S")
      (PagedContext.fresh ([.itemAt 2, .releaseBefore 1, .itemAt 0].foldl
        (Call.perform threeItems ⟨2, Nat.two_pos⟩)
        (FileSource.openFile threeItems ⟨2, Nat.two_pos⟩)))).outcome = .returned true := by
  have matched : (cutBetweenPages.parse 6 (ascii "S") (Context.fresh threeItems.items)).outcome =
      .returned true := rfl
  have runs := (paged_input_transparent Unit threeItems ⟨2, Nat.two_pos⟩).2 _ _
    (.fresh [.itemAt 2, .releaseBefore 1, .itemAt 0])
  have faithful : ReadsMatchers readAll cutBetweenPages := by
    intro rule body _
    exact Expr.every_of_all (fun part fn _ => read_all_reads fn) body
  exact (runs.2 readAll cutBetweenPages faithful 6 (ascii "S")).1.outcome.trans matched

end Entry

end Peglib.PagedTransparency
