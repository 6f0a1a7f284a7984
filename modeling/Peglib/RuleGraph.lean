import Peglib.GraphSearch
import Peglib.Rules

/-!
# The reference graph of a grammar

Transcription of `collect_rule_refs` and of `Grammar::unreachable_rules`. The
search starts from the start rule only, while a parse also enters the skipper
and what that refers to.
-/

namespace Peglib.RuleGraph

open Peglib.ParseError Peglib.ParseContext Peglib.Expressions Peglib.Rules Peglib.GraphSearch

set_option autoImplicit false

/-- `insert` of a `std::set<std::string>`, which is ascending. -/
def insertName (name : Str) : List Str → List Str
  | [] => [name]
  | first :: rest =>
      if first < name then first :: insertName name rest
      else if first = name then first :: rest
      else name :: first :: rest

variable {CharT NodeType : Type}

mutual

/-- The `collect_rule_refs` of each expression class, given the names that rule
handles carry. -/
def collectRuleRefs (nameOf : RuleId → Option Str) : Expr CharT → List Str → List Str
  | .rule id, refs => (nameOf id).elim refs fun name => insertName name refs
  | .sequence children, refs => collectAll nameOf children refs
  | .alternation children, refs => collectAll nameOf children refs
  | .repetition _ child, refs => collectRuleRefs nameOf child refs
  | .not child, refs => collectRuleRefs nameOf child refs
  | .and child, refs => collectRuleRefs nameOf child refs
  | .lexeme child, refs => collectRuleRefs nameOf child refs
  | .terminal _, refs | .terminalSeq _, refs | .token _, refs | .matcher _, refs
  | .empty, refs | .cut, refs => refs

def collectAll (nameOf : RuleId → Option Str) : List (Expr CharT) → List Str → List Str
  | [], refs => refs
  | child :: rest, refs => collectAll nameOf rest (collectRuleRefs nameOf child refs)

end

/-- A rule is referred to somewhere in an expression. -/
inductive Mentions (id : RuleId) : Expr CharT → Prop
  | rule : Mentions id (.rule id)
  | sequence {children child} : child ∈ children → Mentions id child →
      Mentions id (.sequence children)
  | alternation {children child} : child ∈ children → Mentions id child →
      Mentions id (.alternation children)
  | repetition {kind child} : Mentions id child → Mentions id (.repetition kind child)
  | not {child} : Mentions id child → Mentions id (.not child)
  | and {child} : Mentions id child → Mentions id (.and child)
  | lexeme {child} : Mentions id child → Mentions id (.lexeme child)

section References

theorem mem_insert_name {name other : Str} {refs : List Str} :
    other ∈ insertName name refs ↔ other = name ∨ other ∈ refs := by
  induction refs with
  | nil => simp [insertName]
  | cons first rest induction =>
      unfold insertName
      split_ifs with less same
      · rw [List.mem_cons, induction, List.mem_cons]
        exact or_left_comm
      · rw [same]
        simp
      · simp

theorem insert_name_nodup {name : Str} {refs : List Str}
    (ascending : refs.Pairwise (· < ·)) : (insertName name refs).Pairwise (· < ·) := by
  induction refs with
  | nil => exact List.pairwise_singleton _ _
  | cons first rest induction =>
      have ⟨below, above⟩ := List.pairwise_cons.mp ascending
      unfold insertName
      split_ifs with less same
      · refine List.pairwise_cons.mpr ⟨fun other member => ?_, induction above⟩
        rcases mem_insert_name.mp member with rfl | held
        · exact less
        · exact below other held
      · exact ascending
      · have smaller : name < first := by
          rcases List.le_iff_lt_or_eq.mp (List.not_lt.mp less) with smaller | equal
          · exact smaller
          · exact absurd equal.symm same
        refine List.pairwise_cons.mpr ⟨fun other member => ?_, ascending⟩
        rcases List.mem_cons.mp member with rfl | held
        · exact smaller
        · exact List.lt_trans smaller (below other held)

variable (nameOf : RuleId → Option Str)

theorem mem_collect_all {children : List (Expr CharT)} {name : Str}
    (each : ∀ child ∈ children, ∀ refs, name ∈ collectRuleRefs nameOf child refs ↔
      name ∈ refs ∨ ∃ id, Mentions id child ∧ nameOf id = some name) (refs : List Str) :
    name ∈ collectAll nameOf children refs ↔
      name ∈ refs ∨ ∃ child ∈ children, ∃ id, Mentions id child ∧ nameOf id = some name := by
  induction children generalizing refs with
  | nil => simp [collectAll]
  | cons child rest induction =>
      have others := induction fun other member => each other (List.mem_cons_of_mem _ member)
      rw [collectAll, others, each child List.mem_cons_self]
      constructor
      · rintro ((held | here) | ⟨other, member, later⟩)
        · exact Or.inl held
        · exact Or.inr ⟨child, List.mem_cons_self, here⟩
        · exact Or.inr ⟨other, List.mem_cons_of_mem _ member, later⟩
      · rintro (held | ⟨other, member, found⟩)
        · exact Or.inl (Or.inl held)
        · rcases List.mem_cons.mp member with rfl | later
          · exact Or.inl (Or.inr found)
          · exact Or.inr ⟨other, later, found⟩

theorem mem_collect (expr : Expr CharT) (name : Str) (refs : List Str) :
    name ∈ collectRuleRefs nameOf expr refs ↔
      name ∈ refs ∨ ∃ id, Mentions id expr ∧ nameOf id = some name := by
  induction expr using Expr.induct generalizing refs with
  | sequence children induction =>
      rw [collectRuleRefs, mem_collect_all nameOf induction]
      refine or_congr Iff.rfl ⟨?_, ?_⟩
      · rintro ⟨child, member, id, mentions, named⟩
        exact ⟨id, .sequence member mentions, named⟩
      · rintro ⟨id, mentions, named⟩
        cases mentions with
        | sequence member mentions => exact ⟨_, member, id, mentions, named⟩
  | alternation children induction =>
      rw [collectRuleRefs, mem_collect_all nameOf induction]
      refine or_congr Iff.rfl ⟨?_, ?_⟩
      · rintro ⟨child, member, id, mentions, named⟩
        exact ⟨id, .alternation member mentions, named⟩
      · rintro ⟨id, mentions, named⟩
        cases mentions with
        | alternation member mentions => exact ⟨_, member, id, mentions, named⟩
  | repetition kind child induction =>
      rw [collectRuleRefs, induction]
      refine or_congr Iff.rfl (exists_congr fun id => and_congr_left fun _ => ⟨.repetition, ?_⟩)
      rintro (⟨⟩ | ⟨mentions⟩)
      assumption
  | not child induction =>
      rw [collectRuleRefs, induction]
      refine or_congr Iff.rfl (exists_congr fun id => and_congr_left fun _ => ⟨.not, ?_⟩)
      rintro (⟨⟩ | ⟨mentions⟩)
      assumption
  | and child induction =>
      rw [collectRuleRefs, induction]
      refine or_congr Iff.rfl (exists_congr fun id => and_congr_left fun _ => ⟨.and, ?_⟩)
      rintro (⟨⟩ | ⟨mentions⟩)
      assumption
  | lexeme child induction =>
      rw [collectRuleRefs, induction]
      refine or_congr Iff.rfl (exists_congr fun id => and_congr_left fun _ => ⟨.lexeme, ?_⟩)
      rintro (⟨⟩ | ⟨mentions⟩)
      assumption
  | rule id =>
      rw [collectRuleRefs]
      cases named : nameOf id with
      | none =>
          rw [Option.elim_none]
          refine ⟨Or.inl, ?_⟩
          rintro (held | ⟨other, mentions, found⟩)
          · exact held
          · cases mentions
            rw [named] at found
            cases found
      | some key =>
          rw [Option.elim_some, mem_insert_name]
          constructor
          · rintro (rfl | held)
            · exact Or.inr ⟨id, .rule, named⟩
            · exact Or.inl held
          · rintro (held | ⟨other, mentions, found⟩)
            · exact Or.inr held
            · cases mentions
              rw [named] at found
              exact Or.inl (Option.some.inj found).symm
  | terminal _ | terminalSeq _ | token _ | matcher _ | empty | cut =>
      rw [collectRuleRefs]
      refine ⟨Or.inl, ?_⟩
      rintro (held | ⟨id, mentions, -⟩)
      · exact held
      · cases mentions

theorem collect_ascending (expr : Expr CharT) {refs : List Str}
    (ascending : refs.Pairwise (· < ·)) : (collectRuleRefs nameOf expr refs).Pairwise (· < ·) := by
  have all : ∀ children : List (Expr CharT), (∀ child ∈ children, ∀ refs : List Str,
      refs.Pairwise (· < ·) → (collectRuleRefs nameOf child refs).Pairwise (· < ·)) →
      ∀ refs : List Str, refs.Pairwise (· < ·) →
        (collectAll nameOf children refs).Pairwise (· < ·) := by
    intro children
    induction children with
    | nil => exact fun _ _ ascending => ascending
    | cons child rest induction =>
        intro each refs ascending
        exact induction (fun other member => each other (List.mem_cons_of_mem _ member)) _
          (each child List.mem_cons_self refs ascending)
  induction expr using Expr.induct generalizing refs with
  | sequence children induction | alternation children induction =>
      rw [collectRuleRefs]
      exact all children (fun child member refs => induction child member) refs ascending
  | repetition _ child induction | not child induction | and child induction
  | lexeme child induction =>
      rw [collectRuleRefs]
      exact induction ascending
  | rule id =>
      rw [collectRuleRefs]
      cases nameOf id with
      | none => exact ascending
      | some name => exact insert_name_nodup ascending
  | terminal _ | terminalSeq _ | token _ | matcher _ | empty | cut =>
      rw [collectRuleRefs]
      exact ascending

end References

section Grammars

variable (grammar : Grammar CharT NodeType)

/-- The key of a rule, which its handles carry as a name. -/
def keyOf (rule : RuleId) : Option Str := grammar.rules[rule]?.map Prod.fst

/-- `NonTerminal::collect_rule_refs`, into an empty set. -/
def refsOf (rule : RuleId) : List Str :=
  (grammar.body rule).elim [] fun body => collectRuleRefs (keyOf grammar) body []

/-- The references of what is kept under a name. -/
def namedRefs (name : Str) : List Str := (grammar.find name).elim [] (refsOf grammar)

/-- The keys of the map are all different. -/
def DistinctKeys : Prop := (grammar.rules.map Prod.fst).Nodup

/-- One rule refers to another in its body. -/
def Refers (rule other : RuleId) : Prop :=
  ∃ body, grammar.body rule = some body ∧ Mentions other body

def Reaches : RuleId → RuleId → Prop := Relation.ReflTransGen (Refers grammar)

variable {grammar}

theorem find_iff (distinct : DistinctKeys grammar) {name : Str} {rule : RuleId} :
    grammar.find name = some rule ↔ keyOf grammar rule = some name := by
  unfold Grammar.find keyOf
  rw [List.findIdx?_eq_some_iff_getElem]
  constructor
  · rintro ⟨inside, here, -⟩
    rw [List.getElem?_eq_getElem inside, Option.map_some, eq_of_beq here]
  · intro keyed
    obtain ⟨entry, found, rfl⟩ := Option.map_eq_some_iff.mp keyed
    obtain ⟨inside, same⟩ := List.getElem?_eq_some_iff.mp found
    refine ⟨inside, by rw [same]; exact beq_self_eq_true _, fun earlier before => ?_⟩
    have apart := List.pairwise_iff_getElem.mp distinct earlier rule (by simp; omega)
      (by simpa using inside) before
    rw [List.getElem_map, List.getElem_map, same] at apart
    simpa using apart

theorem mem_refs_of {rule : RuleId} {name : Str} :
    name ∈ refsOf grammar rule ↔ ∃ other, Refers grammar rule other ∧ keyOf grammar other = some name := by
  unfold refsOf Refers
  cases grammar.body rule with
  | none => simp
  | some body =>
      rw [Option.elim_some, mem_collect]
      simp

theorem mem_named_refs (distinct : DistinctKeys grammar) {name target : Str} :
    target ∈ namedRefs grammar name ↔ ∃ rule other, keyOf grammar rule = some name ∧
      Refers grammar rule other ∧ keyOf grammar other = some target := by
  unfold namedRefs
  cases found : grammar.find name with
  | none =>
      rw [Option.elim_none]
      refine ⟨fun held => absurd held List.not_mem_nil, ?_⟩
      rintro ⟨rule, other, keyed, -⟩
      rw [(find_iff distinct).mpr keyed] at found
      cases found
  | some rule =>
      have keyed := (find_iff distinct).mp found
      rw [Option.elim_some, mem_refs_of]
      constructor
      · rintro ⟨other, refers, named⟩
        exact ⟨rule, other, keyed, refers, named⟩
      · rintro ⟨rule', other, keyed', refers, named⟩
        rw [(find_iff distinct).mpr keyed'] at found
        cases found
        exact ⟨other, refers, named⟩

theorem key_mem {rule : RuleId} {name : Str} (keyed : keyOf grammar rule = some name) :
    name ∈ grammar.rules.map Prod.fst := by
  obtain ⟨entry, found, rfl⟩ := Option.map_eq_some_iff.mp keyed
  exact List.mem_map_of_mem (List.mem_of_getElem? found)

theorem key_unique (distinct : DistinctKeys grammar) {rule rule' : RuleId} {name : Str}
    (keyed : keyOf grammar rule = some name) (keyed' : keyOf grammar rule' = some name) :
    rule = rule' := by
  rw [← find_iff distinct] at keyed keyed'
  exact Option.some.inj (keyed.symm.trans keyed')

theorem keyed_of_defined {rule : RuleId} (defined : (grammar.body rule).isSome = true) :
    ∃ name, keyOf grammar rule = some name := by
  unfold keyOf
  cases found : grammar.rules[rule]? with
  | some entry => exact ⟨entry.1, rfl⟩
  | none =>
      unfold Grammar.body Grammar.nonTerminal at defined
      rw [found] at defined
      cases defined

theorem Refers.defined {rule other : RuleId} (refers : Refers grammar rule other) :
    (grammar.body rule).isSome = true := by
  obtain ⟨body, assigned, -⟩ := refers
  exact Option.isSome_iff_exists.mpr ⟨body, assigned⟩

/-- Paths of names are paths of rules. -/
theorem names_reach_iff (distinct : DistinctKeys grammar) {rule other : RuleId} {name target : Str}
    (keyed : keyOf grammar rule = some name) (named : keyOf grammar other = some target) :
    Relation.ReflTransGen (Leads (namedRefs grammar)) name target ↔ Reaches grammar rule other := by
  constructor
  · intro path
    induction path generalizing other with
    | refl =>
        rw [key_unique distinct keyed named]
        exact .refl
    | tail _ edge induction =>
        obtain ⟨middle, last, here, refers, there⟩ := (mem_named_refs distinct).mp edge
        rw [key_unique distinct named there]
        exact (induction here).tail refers
  · intro path
    induction path generalizing target with
    | refl =>
        rw [Option.some.inj (keyed.symm.trans named)]
    | tail _ refers induction =>
        obtain ⟨middle, here⟩ := keyed_of_defined refers.defined
        exact (induction here).tail ((mem_named_refs distinct).mpr ⟨_, _, here, refers, named⟩)

variable (grammar)

/-- `Grammar::unreachable_rules`, the loop with a budget of pops. -/
def unreachableRules (fuel : Nat) : Option (List Str) :=
  if grammar.start = [] then some []
  else if (grammar.find grammar.start).isNone then some []
  else
    (search (namedRefs grammar) fuel [grammar.start] [grammar.start]).map fun reachable =>
      (grammar.rules.filter fun entry => entry.2.body.isSome && entry.1 ∉ reachable).map Prod.fst

/-- A rule that the start rule or the installed skipper leads to. -/
def Enterable (start rule : RuleId) : Prop :=
  Reaches grammar start rule ∨
    ∃ skipper, grammar.skipper = some skipper ∧ Reaches grammar skipper rule

variable {grammar}

/-- The keys that the search finds are those of the rules reached from the start rule. -/
theorem search_from_start (distinct : DistinctKeys grammar) {start : RuleId} {fuel : Nat}
    (found : grammar.find grammar.start = some start) (enough : grammar.rules.length ≤ fuel) :
    ∃ reachable,
      search (namedRefs grammar) fuel [grammar.start] [grammar.start] = some reachable ∧
      ∀ rule name, keyOf grammar rule = some name →
        (name ∈ reachable ↔ Reaches grammar start rule) := by
  have keyed := (find_iff distinct).mp found
  have measure : missing (grammar.rules.map Prod.fst) [grammar.start] + 1 =
      missing (grammar.rules.map Prod.fst) [] :=
    missing_found distinct (key_mem keyed) List.not_mem_nil
  have bound : missing (grammar.rules.map Prod.fst) [] ≤ grammar.rules.length := by
    have shorter := List.length_filter_le (fun vertex => decide (vertex ∉ ([] : List Str)))
      (grammar.rules.map Prod.fst)
    rwa [List.length_map] at shorter
  obtain ⟨reachable, ended, reached⟩ := search_reaches (namedRefs grammar) distinct
    (fun _ _ target edge => by
      obtain ⟨_, _, -, -, named⟩ := (mem_named_refs distinct).mp edge
      exact key_mem named)
    fuel [grammar.start] [grammar.start]
    (fun name member => by rw [List.mem_singleton.mp member]; exact key_mem keyed)
    (fun _ member => member) (fun _ held off => absurd held off)
    (by rw [List.length_singleton]; omega)
  refine ⟨reachable, ended, fun rule name named => (reached name).trans ?_⟩
  rw [← names_reach_iff distinct keyed named]
  constructor
  · rintro ⟨origin, member, path⟩
    rwa [List.mem_singleton.mp member] at path
  · exact fun path => ⟨_, List.mem_singleton_self _, path⟩

theorem mem_selected {keep : Str → Bool} {name : Str} :
    name ∈ (grammar.rules.filter fun entry => entry.2.body.isSome && keep entry.1).map Prod.fst ↔
      ∃ rule, keyOf grammar rule = some name ∧ (grammar.body rule).isSome = true ∧
        keep name = true := by
  rw [List.mem_map]
  constructor
  · rintro ⟨entry, member, rfl⟩
    obtain ⟨inside, selected⟩ := List.mem_filter.mp member
    obtain ⟨defined, kept⟩ := Bool.and_eq_true_iff.mp selected
    obtain ⟨rule, here⟩ := List.mem_iff_getElem?.mp inside
    refine ⟨rule, ?_, ?_, kept⟩
    · rw [keyOf, here, Option.map_some]
    · rw [Grammar.body, Grammar.nonTerminal, here]
      exact defined
  · rintro ⟨rule, keyed, defined, kept⟩
    obtain ⟨entry, here, rfl⟩ := Option.map_eq_some_iff.mp keyed
    rw [Grammar.body, Grammar.nonTerminal, here] at defined
    exact ⟨entry, List.mem_filter.mpr ⟨List.mem_of_getElem? here,
      Bool.and_eq_true_iff.mpr ⟨defined, kept⟩⟩, rfl⟩

/-- The search does not start from the skipper: the report is exact just for the
grammars whose skipper leads to nothing that the start rule does not lead to. -/
theorem unreachable_rules_iff (distinct : DistinctKeys grammar) {start : RuleId} {fuel : Nat}
    (set : grammar.start ≠ []) (found : grammar.find grammar.start = some start)
    (enough : grammar.rules.length ≤ fuel) :
    ∃ names, unreachableRules grammar fuel = some names ∧ names.Nodup ∧
      ((∀ name, name ∈ names ↔ ∃ rule, keyOf grammar rule = some name ∧
          (grammar.body rule).isSome = true ∧ ¬Enterable grammar start rule) ↔
        ∀ skipper, grammar.skipper = some skipper → ∀ rule, Reaches grammar skipper rule →
          (grammar.body rule).isSome = true → Reaches grammar start rule) := by
  obtain ⟨reachable, ended, reached⟩ := search_from_start distinct found enough
  refine ⟨(grammar.rules.filter fun entry =>
    entry.2.body.isSome && entry.1 ∉ reachable).map Prod.fst, ?_, ?_, ?_⟩
  · rw [unreachableRules, if_neg set, found, Option.isNone_some, if_neg Bool.false_ne_true, ended,
      Option.map_some]
  · exact List.Nodup.sublist (List.filter_sublist.map _) distinct
  · have reported : ∀ name, name ∈ (grammar.rules.filter fun entry =>
        entry.2.body.isSome && entry.1 ∉ reachable).map Prod.fst ↔
        ∃ rule, keyOf grammar rule = some name ∧ (grammar.body rule).isSome = true ∧
          ¬Reaches grammar start rule := by
      intro name
      have selected := @mem_selected _ _ grammar (fun key => decide (key ∉ reachable)) name
      refine selected.trans (exists_congr fun rule => and_congr_right fun keyed => ?_)
      rw [decide_eq_true_iff, reached rule name keyed]
    constructor
    · intro exact skipper installed rule path written
      obtain ⟨name, keyed⟩ := keyed_of_defined written
      by_contra off
      obtain ⟨rule', keyed', -, dead⟩ := (exact name).mp
        ((reported name).mpr ⟨rule, keyed, written, off⟩)
      rw [key_unique distinct keyed' keyed] at dead
      exact dead (Or.inr ⟨skipper, installed, path⟩)
    · intro covered name
      refine (reported name).trans (exists_congr fun rule => and_congr_right fun _ =>
        and_congr_right fun written => not_congr ⟨Or.inl, ?_⟩)
      rintro (path | ⟨skipper, installed, path⟩)
      · exact path
      · exact covered skipper installed rule path written

end Grammars

/-- A start rule and a skipper that no rule refers to. -/
def skippedGrammar : Grammar UInt8 Unit where
  rules := [(ascii "S", { body := some (.sequence [.terminal (.value 97), .terminal (.value 98)]) }),
    (ascii "ws", { body := some (.repetition .zeroOrMore (.terminal (.value 32))) })]
  start := ascii "S"
  skipper := some 1

/-- The skipper, which every parse from the start rule runs, is reported as dead. -/
theorem skipper_reported :
    unreachableRules skippedGrammar 2 = some [ascii "ws"] ∧
      keyOf skippedGrammar 1 = some (ascii "ws") ∧ Enterable skippedGrammar 0 1 :=
  ⟨by decide +kernel, by decide, Or.inr ⟨1, rfl, .refl⟩⟩

theorem skipped_grammar_report :
    ∃ names, unreachableRules skippedGrammar 2 = some names ∧ names.Nodup ∧
      ((∀ name, name ∈ names ↔ ∃ rule, keyOf skippedGrammar rule = some name ∧
          (skippedGrammar.body rule).isSome = true ∧ ¬Enterable skippedGrammar 0 rule) ↔
        ∀ skipper, skippedGrammar.skipper = some skipper →
          ∀ rule, Reaches skippedGrammar skipper rule →
            (skippedGrammar.body rule).isSome = true → Reaches skippedGrammar 0 rule) :=
  unreachable_rules_iff (by unfold DistinctKeys; decide) (by decide) (by decide) (by decide)

end Peglib.RuleGraph
