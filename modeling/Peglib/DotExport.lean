import Peglib.RuleGraph
import Peglib.StreamDecoding

/-!
# The DOT export of a grammar

Transcription of `Grammar::to_dot`. Its text is read back line by line: what a
quoted name stands for can be recovered from any line, and the lines are those
of the reference graph. A grammar without a start rule has an empty start name,
which marks a rule of that name.
-/

namespace Peglib.DotExport

open Peglib.ParseError Peglib.ParseContext Peglib.Expressions Peglib.Rules
open Peglib.GraphSearch Peglib.RuleGraph Peglib.StreamDecoding

set_option autoImplicit false

section Escapes

def dotEscapeByte (byte : UInt8) : Str :=
  if byte = 34 then ascii "\\\""
  else if byte = 92 then ascii "\\\\"
  else if byte = 10 then ascii "\\n"
  else [byte]

def dotEscape (name : Str) : Str := name.flatMap dotEscapeByte

/-- Reads one byte back from its escape; a quote ends the name. -/
def undotByte : Str → Option (UInt8 × Str)
  | [] => none
  | first :: rest =>
      if first = 34 then none
      else if first ≠ 92 then some (first, rest)
      else
        match rest with
        | [] => none
        | letter :: rest => some (if letter = 110 then 10 else letter, rest)

theorem undot_reads : Reads (fun _ => True) dotEscapeByte undotByte where
  nothing := rfl
  word byte rest _ := by
    unfold dotEscapeByte
    split_ifs with quote backslash newline
    · rw [quote]; rfl
    · rw [backslash]; rfl
    · rw [newline]; rfl
    · simp only [List.cons_append, List.nil_append, undotByte]
      rw [if_neg quote, if_pos backslash]

def quoted (name : Str) : Str := ascii "\"" ++ dotEscape name ++ ascii "\""

/-- The name that the front of a text quotes, and what follows the closing quote. -/
def readQuoted (text : Str) : Str × Str :=
  ((message undotByte text.length text.tail).1, (message undotByte text.length text.tail).2.tail)

theorem dot_escape_byte_length (byte : UInt8) : 1 ≤ (dotEscapeByte byte).length := by
  unfold dotEscapeByte
  split_ifs <;> exact Nat.le_add_left 1 _

theorem dot_escape_length (name : Str) : name.length ≤ (dotEscape name).length := by
  induction name with
  | nil => exact Nat.le_refl 0
  | cons byte rest induction =>
      have one := dot_escape_byte_length byte
      unfold dotEscape at induction ⊢
      rw [List.flatMap_cons, List.length_append, List.length_cons]
      omega

/-- The escape ends with its own closing quote, whatever follows. -/
theorem read_quoted (name rest : Str) : readQuoted (quoted name ++ rest) = (name, rest) := by
  have shape : quoted name ++ rest = 34 :: (name.flatMap dotEscapeByte ++ 34 :: rest) := by
    unfold quoted dotEscape
    rw [List.append_assoc, List.append_assoc]
    rfl
  have enough : name.length ≤ (quoted name ++ rest).length := by
    have longer := dot_escape_length name
    rw [shape, List.length_cons, List.length_append]
    unfold dotEscape at longer
    omega
  unfold readQuoted
  rw [shape] at enough ⊢
  rw [List.tail_cons, undot_reads.message_eq (fun _ _ => trivial) rfl enough]
  rfl

theorem quoted_cancel {left right leftRest rightRest : Str}
    (same : quoted left ++ leftRest = quoted right ++ rightRest) :
    left = right ∧ leftRest = rightRest := by
  have read := congrArg readQuoted same
  rw [read_quoted, read_quoted] at read
  exact Prod.mk.inj read

theorem newline_not_quoted (name : Str) : 10 ∉ quoted name := by
  intro member
  rcases List.mem_append.mp member with inner | quote
  · rcases List.mem_append.mp inner with quote | escaped
    · exact absurd quote (by decide)
    · obtain ⟨byte, -, held⟩ := List.mem_flatMap.mp escaped
      unfold dotEscapeByte at held
      split_ifs at held with quote backslash newline
      · exact absurd held (by decide)
      · exact absurd held (by decide)
      · exact absurd held (by decide)
      · exact newline (List.mem_singleton.mp held).symm
  · exact absurd quote (by decide)

end Escapes

section Lines

def nodeLine (name : Str) (marked : Bool) : Str :=
  ascii "  " ++ quoted name ++ (if marked then ascii " [peripheries=2]" else []) ++ ascii ";"

def edgeLine (name target : Str) : Str :=
  ascii "  " ++ quoted name ++ ascii " -> " ++ quoted target ++ ascii ";"

theorem node_line_injective {name name' : Str} {marked marked' : Bool}
    (same : nodeLine name marked = nodeLine name' marked') : name = name' ∧ marked = marked' := by
  unfold nodeLine at same
  simp only [List.append_assoc] at same
  obtain ⟨sameName, sameMark⟩ := quoted_cancel (List.append_cancel_left same)
  refine ⟨sameName, ?_⟩
  cases marked <;> cases marked' <;> first | rfl | exact absurd sameMark (by decide)

theorem edge_line_injective {name name' target target' : Str}
    (same : edgeLine name target = edgeLine name' target') : name = name' ∧ target = target' := by
  unfold edgeLine at same
  simp only [List.append_assoc] at same
  obtain ⟨sameName, after⟩ := quoted_cancel (List.append_cancel_left same)
  exact ⟨sameName, (quoted_cancel (List.append_cancel_left after)).1⟩

theorem node_not_edge {name name' target : Str} {marked : Bool} :
    nodeLine name marked ≠ edgeLine name' target := by
  intro same
  unfold nodeLine edgeLine at same
  simp only [List.append_assoc] at same
  have after := (quoted_cancel (List.append_cancel_left same)).2
  cases marked
  · exact absurd (congrArg List.head? after) (by simp [ascii])
  · have second := congrArg (fun text => text.tail.head?) after
    exact absurd second (by simp [ascii])

theorem newline_not_node (name : Str) (marked : Bool) : 10 ∉ nodeLine name marked := by
  intro member
  unfold nodeLine at member
  simp only [List.mem_append, or_assoc] at member
  rcases member with lead | name' | mark | semicolon
  · exact absurd lead (by decide)
  · exact newline_not_quoted name name'
  · cases marked <;> exact absurd mark (by decide)
  · exact absurd semicolon (by decide)

theorem newline_not_edge (name target : Str) : 10 ∉ edgeLine name target := by
  intro member
  unfold edgeLine at member
  simp only [List.mem_append, or_assoc] at member
  rcases member with lead | name' | arrow | target' | semicolon
  · exact absurd lead (by decide)
  · exact newline_not_quoted name name'
  · exact absurd arrow (by decide)
  · exact newline_not_quoted target target'
  · exact absurd semicolon (by decide)

theorem split_lines {lines : List Str} (whole : ∀ line ∈ lines, 10 ∉ line) :
    (lines.flatMap (· ++ [10])).splitOn 10 = lines ++ [[]] := by
  induction lines with
  | nil => rfl
  | cons line rest induction =>
      rw [List.flatMap_cons, List.append_assoc, List.singleton_append,
        List.splitOn_append_cons_self_of_not_mem (whole line List.mem_cons_self),
        induction fun other member => whole other (List.mem_cons_of_mem _ member),
        List.cons_append]

end Lines

variable {CharT NodeType : Type} (grammar : Grammar CharT NodeType)

/-- The keys of the rules that were assigned, in the order of the map. -/
def definedNames : List Str :=
  (grammar.rules.filter fun entry => entry.2.body.isSome).map Prod.fst

/-- The inner loop over the references of one rule: the text and the queue, whose
back is its head here. -/
def drawRefs (name : Str) : List Str → Str × List Str → Str × List Str
  | [], drawn => drawn
  | ref :: refs, (out, queue) =>
      drawRefs name refs
        (out ++ ascii "  \"" ++ dotEscape name ++ ascii "\" -> \"" ++ dotEscape ref ++ ascii "\";\n",
          if (grammar.find ref).isSome then ref :: queue else queue)

/-- The outer loop, with a budget of pops. -/
def drawEdges : Nat → List Str → List Str → Str → Option Str
  | _, [], _, out => some out
  | 0, _ :: _, _, _ => none
  | fuel + 1, name :: queue, visited, out =>
      if name ∈ visited then drawEdges fuel queue visited out
      else
        match grammar.find name with
        | none => drawEdges fuel queue (name :: visited) out
        | some rule =>
            let drawn := drawRefs grammar name (refsOf grammar rule) (out, queue)
            drawEdges fuel drawn.2 (name :: visited) drawn.1

def toDot (fuel : Nat) : Option Str :=
  let header :=
    ascii "digraph peglib_grammar \x7b\n" ++ ascii "  node [shape=box];\n" ++ ascii "  rankdir=LR;\n"
  let nodes := (definedNames grammar).flatMap fun name =>
    ascii "  \"" ++ dotEscape name ++ ascii "\"" ++
      (if name = grammar.start then ascii " [peripheries=2]" else []) ++ ascii ";\n"
  (drawEdges grammar fuel (definedNames grammar).reverse [] (header ++ nodes)).map
    (· ++ ascii "\x7d\n")

/-- What a pop pushes: the references that have an entry. -/
def pushedRefs (name : Str) : List Str :=
  (namedRefs grammar name).filter fun ref => (grammar.find ref).isSome

def edgesFrom (name : Str) : List Str := (namedRefs grammar name).map (edgeLine name)

section Drawing

theorem edge_text (name ref : Str) :
    ascii "  \"" ++ dotEscape name ++ ascii "\" -> \"" ++ dotEscape ref ++ ascii "\";\n" =
      edgeLine name ref ++ [10] := by
  have lead : ascii "  \"" = ascii "  " ++ ascii "\"" := by decide
  have arrow : ascii "\" -> \"" = ascii "\"" ++ (ascii " -> " ++ ascii "\"") := by decide
  have close : ascii "\";\n" = ascii "\"" ++ (ascii ";" ++ [10]) := by decide
  unfold edgeLine quoted
  rw [lead, arrow, close]
  simp only [List.append_assoc]

theorem node_text (name : Str) (marked : Prop) [Decidable marked] :
    ascii "  \"" ++ dotEscape name ++ ascii "\"" ++
        (if marked then ascii " [peripheries=2]" else []) ++ ascii ";\n" =
      nodeLine name (decide marked) ++ [10] := by
  have lead : ascii "  \"" = ascii "  " ++ ascii "\"" := by decide
  have close : ascii ";\n" = ascii ";" ++ [10] := by decide
  unfold nodeLine quoted
  rw [lead, close]
  simp only [List.append_assoc, decide_eq_true_eq]

theorem draw_refs_eq (name : Str) (refs : List Str) (out : Str) (queue : List Str) :
    drawRefs grammar name refs (out, queue) =
      (out ++ (refs.map (edgeLine name)).flatMap (· ++ [10]),
        (refs.filter fun ref => (grammar.find ref).isSome).reverse ++ queue) := by
  induction refs generalizing out queue with
  | nil => simp [drawRefs]
  | cons ref refs induction =>
      have line := edge_text name ref
      simp only [List.append_assoc] at line
      rw [drawRefs, induction]
      simp only [List.append_assoc, line]
      cases found : grammar.find ref <;> simp [found]

/-- The loop sweeps the reference graph and draws the edges of what it visits. -/
theorem draw_edges_eq (fuel : Nat) (queue visited : List Str) (out : Str) :
    drawEdges grammar fuel queue visited out =
      (sweep (pushedRefs grammar) fuel queue visited).map fun order =>
        out ++ (order.flatMap (edgesFrom grammar)).flatMap (· ++ [10]) := by
  induction fuel generalizing queue visited out with
  | zero => cases queue <;> simp [drawEdges, sweep]
  | succ fuel induction =>
      cases queue with
      | nil => simp [drawEdges, sweep]
      | cons name queue =>
          unfold drawEdges sweep
          split_ifs with old
          · exact induction queue visited out
          · cases found : grammar.find name with
            | none =>
                have silent : namedRefs grammar name = [] := by
                  rw [namedRefs, found, Option.elim_none]
                simp [induction, pushedRefs, edgesFrom, silent, Function.comp_def]
            | some rule =>
                have refs : refsOf grammar rule = namedRefs grammar name := by
                  rw [namedRefs, found, Option.elim_some]
                simp only [draw_refs_eq, induction, refs, Option.map_map]
                simp [pushedRefs, edgesFrom, Function.comp_def]

end Drawing

def header : List Str :=
  [ascii "digraph peglib_grammar \x7b", ascii "  node [shape=box];", ascii "  rankdir=LR;"]

def footer : List Str := [ascii "\x7d", []]

def nodeLines : List Str :=
  (definedNames grammar).map fun name => nodeLine name (decide (name = grammar.start))

/-- How often a name is popped at most. -/
def drawBudget : Nat :=
  (definedNames grammar).length +
    unswept (pushedRefs grammar) (grammar.rules.map Prod.fst) []

section Text

variable {grammar}

theorem mem_defined_names {name : Str} :
    name ∈ definedNames grammar ↔
      ∃ rule, keyOf grammar rule = some name ∧ (grammar.body rule).isSome = true := by
  have selected := @mem_selected _ _ grammar (fun _ => true) name
  simp only [Bool.and_true, and_true] at selected
  exact selected

theorem defined_names_nodup (distinct : DistinctKeys grammar) : (definedNames grammar).Nodup :=
  List.Nodup.sublist (List.filter_sublist.map _) distinct

theorem to_dot_lines (distinct : DistinctKeys grammar) {fuel : Nat}
    (enough : drawBudget grammar ≤ fuel) :
    ∃ (order : List Str) (text : Str), toDot grammar fuel = some text ∧ order.Nodup ∧
      (∀ name ∈ definedNames grammar, name ∈ order) ∧
      text.splitOn 10 =
        header ++ (nodeLines grammar ++ (order.flatMap (edgesFrom grammar) ++ footer)) := by
  obtain ⟨order, swept, nodup, -, visited⟩ := sweep_visits (pushedRefs grammar) distinct
    (fun _ _ target pushed => by
      obtain ⟨_, _, -, -, named⟩ := (mem_named_refs distinct).mp (List.mem_filter.mp pushed).1
      exact key_mem named)
    fuel (definedNames grammar).reverse []
    (fun name member => by
      obtain ⟨rule, keyed, -⟩ := mem_defined_names.mp (List.mem_reverse.mp member)
      exact key_mem keyed)
    (by rwa [List.length_reverse])
  have lines : ∀ line ∈ header ++ (nodeLines grammar ++ (order.flatMap (edgesFrom grammar) ++
      [ascii "\x7d"])), 10 ∉ line := by
    intro line member
    simp only [List.mem_append] at member
    rcases member with lead | node | edge | close
    · exact (by decide : ∀ line ∈ header, 10 ∉ line) line lead
    · obtain ⟨name, -, rfl⟩ := List.mem_map.mp node
      exact newline_not_node _ _
    · obtain ⟨name, -, held⟩ := List.mem_flatMap.mp edge
      obtain ⟨target, -, rfl⟩ := List.mem_map.mp held
      exact newline_not_edge _ _
    · rw [List.mem_singleton.mp close]
      decide
  have headed : ascii "digraph peglib_grammar \x7b\n" ++ ascii "  node [shape=box];\n" ++
      ascii "  rankdir=LR;\n" = header.flatMap (· ++ [10]) := by decide
  have closed : ascii "\x7d\n" = [ascii "\x7d"].flatMap (· ++ [10]) := by decide
  refine ⟨order, (header ++ (nodeLines grammar ++ (order.flatMap (edgesFrom grammar) ++
    [ascii "\x7d"]))).flatMap (· ++ [10]), ?_, nodup, fun name member => ?_, ?_⟩
  · unfold toDot
    simp only [draw_edges_eq, swept, Option.map_some, node_text]
    rw [headed, closed]
    simp only [nodeLines, List.flatMap_append, List.flatMap_map, List.append_assoc]
  · exact (visited name (List.mem_reverse.mpr member)).resolve_left List.not_mem_nil
  · rw [split_lines lines]
    simp only [footer, List.append_assoc, List.cons_append, List.nil_append]

theorem refs_nodup (name : Str) : (namedRefs grammar name).Nodup := by
  unfold namedRefs
  cases grammar.find name with
  | none => exact List.nodup_nil
  | some rule =>
      rw [Option.elim_some]
      unfold refsOf
      cases grammar.body rule with
      | none => exact List.nodup_nil
      | some body =>
          refine (collect_ascending _ body List.Pairwise.nil).imp ?_
          rintro first second less rfl
          exact List.lt_irrefl _ less

theorem edges_nodup {order : List Str} (nodup : order.Nodup) :
    (order.flatMap (edgesFrom grammar)).Nodup := by
  refine List.nodup_flatMap.mpr ⟨fun name _ => ?_, ?_⟩
  · exact (refs_nodup name).map fun target target' same => (edge_line_injective same).2
  · refine nodup.imp fun apart line held held' => ?_
    obtain ⟨target, -, rfl⟩ := List.mem_map.mp held
    obtain ⟨target', -, same⟩ := List.mem_map.mp held'
    exact apart (edge_line_injective same).1.symm

theorem node_lines_nodup (distinct : DistinctKeys grammar) : (nodeLines grammar).Nodup :=
  (defined_names_nodup distinct).map fun _ _ same => (node_line_injective same).1

theorem mem_node_lines {name : Str} {marked : Bool} :
    nodeLine name marked ∈ nodeLines grammar ↔
      name ∈ definedNames grammar ∧ marked = decide (name = grammar.start) := by
  unfold nodeLines
  rw [List.mem_map]
  constructor
  · rintro ⟨name', member, same⟩
    obtain ⟨rfl, rfl⟩ := node_line_injective same
    exact ⟨member, rfl⟩
  · rintro ⟨member, rfl⟩
    exact ⟨name, member, rfl⟩

/-- The names that are visited lead to all edges, since a rule without a body
refers to nothing. -/
theorem mem_edge_lines (distinct : DistinctKeys grammar) {order : List Str}
    (visited : ∀ name ∈ definedNames grammar, name ∈ order) {name target : Str} :
    edgeLine name target ∈ order.flatMap (edgesFrom grammar) ↔
      ∃ rule other, keyOf grammar rule = some name ∧ Refers grammar rule other ∧
        keyOf grammar other = some target := by
  rw [List.mem_flatMap, ← mem_named_refs distinct]
  constructor
  · rintro ⟨name', -, held⟩
    obtain ⟨target', member, same⟩ := List.mem_map.mp held
    obtain ⟨rfl, rfl⟩ := edge_line_injective same
    exact member
  · intro member
    obtain ⟨rule, other, keyed, refers, -⟩ := (mem_named_refs distinct).mp member
    exact ⟨name, visited name (mem_defined_names.mpr ⟨rule, keyed, refers.defined⟩),
      List.mem_map_of_mem member⟩

/-- What every line of a name begins with, and no other line does. -/
theorem node_line_lead (name : Str) (marked : Bool) :
    (nodeLine name marked).take 3 = ascii "  \"" := by
  unfold nodeLine quoted
  simp only [List.append_assoc]
  rfl

theorem edge_line_lead (name target : Str) : (edgeLine name target).take 3 = ascii "  \"" := by
  unfold edgeLine quoted
  simp only [List.append_assoc]
  rfl

theorem frame_lead : ∀ line ∈ header ++ footer, line.take 3 ≠ ascii "  \"" := by decide

theorem node_not_framed (name : Str) (marked : Bool) : nodeLine name marked ∉ header ++ footer :=
  fun member => frame_lead _ member (node_line_lead name marked)

theorem edge_not_framed (name target : Str) : edgeLine name target ∉ header ++ footer :=
  fun member => frame_lead _ member (edge_line_lead name target)

theorem node_not_drawn {order : List Str} (name : Str) (marked : Bool) :
    nodeLine name marked ∉ order.flatMap (edgesFrom grammar) := by
  intro member
  obtain ⟨other, -, held⟩ := List.mem_flatMap.mp member
  obtain ⟨target, -, same⟩ := List.mem_map.mp held
  exact node_not_edge same.symm

theorem edge_not_declared (name target : Str) : edgeLine name target ∉ nodeLines grammar := by
  intro member
  obtain ⟨other, -, same⟩ := List.mem_map.mp member
  exact node_not_edge same

theorem lines_nodup (distinct : DistinctKeys grammar) {order : List Str} (nodup : order.Nodup) :
    (header ++ (nodeLines grammar ++ (order.flatMap (edgesFrom grammar) ++ footer))).Nodup := by
  have framed : ∀ line ∈ header, line ∉ footer := by decide
  refine List.nodup_append.mpr ⟨by decide, List.nodup_append.mpr ⟨node_lines_nodup distinct,
    List.nodup_append.mpr ⟨edges_nodup nodup, by decide, ?_⟩, ?_⟩, ?_⟩
  · rintro line edge _ close rfl
    obtain ⟨name, -, held⟩ := List.mem_flatMap.mp edge
    obtain ⟨target, -, rfl⟩ := List.mem_map.mp held
    exact edge_not_framed _ _ (List.mem_append_right _ close)
  · rintro line node _ later rfl
    obtain ⟨name, -, rfl⟩ := List.mem_map.mp node
    rcases List.mem_append.mp later with edge | close
    · exact node_not_drawn _ _ edge
    · exact node_not_framed _ _ (List.mem_append_right _ close)
  · rintro line lead _ later rfl
    rcases List.mem_append.mp later with node | later
    · obtain ⟨name, -, rfl⟩ := List.mem_map.mp node
      exact node_not_framed _ _ (List.mem_append_left _ lead)
    · rcases List.mem_append.mp later with edge | close
      · obtain ⟨name, -, held⟩ := List.mem_flatMap.mp edge
        obtain ⟨target, -, rfl⟩ := List.mem_map.mp held
        exact edge_not_framed _ _ (List.mem_append_left _ lead)
      · exact framed line lead close

end Text

def StartRule (name : Str) : Prop := grammar.start ≠ [] ∧ name = grammar.start

/-- The lines are those of the reference graph, each there once. -/
structure Renders (lines : List Str) : Prop where
  nodes : ∀ name marked, nodeLine name marked ∈ lines ↔
    (∃ rule, keyOf grammar rule = some name ∧ (grammar.body rule).isSome = true) ∧
      (marked = true ↔ StartRule grammar name)
  edges : ∀ name target, edgeLine name target ∈ lines ↔
    ∃ rule other, keyOf grammar rule = some name ∧ Refers grammar rule other ∧
      keyOf grammar other = some target
  once : lines.Nodup
  others : ∀ line ∈ lines, (∃ name marked, line = nodeLine name marked) ∨
    (∃ name target, line = edgeLine name target) ∨ line ∈ header ++ footer

/-- The export is exact, names included, unless a rule with an empty name is
marked while no start rule is set. -/
theorem to_dot_renders_iff {grammar : Grammar CharT NodeType} (distinct : DistinctKeys grammar)
    {fuel : Nat} (enough : drawBudget grammar ≤ fuel) :
    ∃ text, toDot grammar fuel = some text ∧
      ((Renders grammar (text.splitOn 10) ∧
          ∀ name rest, readQuoted (quoted name ++ rest) = (name, rest)) ↔
        ¬(grammar.start = [] ∧
          ∃ rule, keyOf grammar rule = some [] ∧ (grammar.body rule).isSome = true)) := by
  obtain ⟨order, text, drawn, nodup, visited, lines⟩ := to_dot_lines distinct enough
  have nodes : ∀ name marked, nodeLine name marked ∈ text.splitOn 10 ↔
      name ∈ definedNames grammar ∧ marked = decide (name = grammar.start) := by
    intro name marked
    have outside := node_not_framed name marked
    rw [List.mem_append, not_or] at outside
    rw [lines, List.mem_append, List.mem_append, List.mem_append, ← mem_node_lines]
    simp only [outside.1, outside.2, node_not_drawn name marked, or_false, false_or]
  have edges : ∀ name target, edgeLine name target ∈ text.splitOn 10 ↔
      edgeLine name target ∈ order.flatMap (edgesFrom grammar) := by
    intro name target
    have outside := edge_not_framed name target
    rw [List.mem_append, not_or] at outside
    rw [lines, List.mem_append, List.mem_append, List.mem_append]
    simp only [outside.1, outside.2, edge_not_declared name target, or_false, false_or]
  refine ⟨text, drawn, ?_⟩
  constructor
  · rintro ⟨renders, -⟩ ⟨unset, rule, keyed, written⟩
    have declared := mem_defined_names.mpr ⟨rule, keyed, written⟩
    have member := (nodes [] true).mpr ⟨declared, (decide_eq_true unset.symm).symm⟩
    exact (((renders.nodes [] true).mp member).2.mp rfl).1 unset
  · intro named
    refine ⟨⟨fun name marked => ?_, fun name target => ?_, ?_, fun line member => ?_⟩, read_quoted⟩
    · rw [nodes, ← mem_defined_names]
      refine and_congr_right fun declared => ?_
      have meant : StartRule grammar name ↔ name = grammar.start := by
        refine and_iff_right_of_imp fun same unset => named ⟨unset, ?_⟩
        rw [same, unset] at declared
        exact mem_defined_names.mp declared
      rw [meant]
      by_cases start : name = grammar.start <;> simp [start]
    · exact (edges name target).trans (mem_edge_lines distinct visited)
    · rw [lines]
      exact lines_nodup distinct nodup
    · rw [lines, List.mem_append, List.mem_append, List.mem_append] at member
      rcases member with lead | node | edge | close
      · exact Or.inr (Or.inr (List.mem_append_left _ lead))
      · obtain ⟨name, -, rfl⟩ := List.mem_map.mp node
        exact Or.inl ⟨_, _, rfl⟩
      · obtain ⟨name, -, held⟩ := List.mem_flatMap.mp edge
        obtain ⟨target, -, rfl⟩ := List.mem_map.mp held
        exact Or.inr (Or.inl ⟨_, _, rfl⟩)
      · exact Or.inr (Or.inr (List.mem_append_right _ close))

/-- A rule with an empty name, and no start rule. -/
def namelessGrammar : Grammar UInt8 Unit where
  rules := [([], { body := some (.terminal (.value 97)) })]

/-- The rule is marked as the start rule, although `parse` has none to start from. -/
theorem nameless_marked :
    (toDot namelessGrammar 1).map (fun text => decide (nodeLine [] true ∈ text.splitOn 10)) =
        some true ∧
      ¬StartRule namelessGrammar [] :=
  ⟨by decide +kernel, fun start => start.1 rfl⟩

/-- Quotes and backslashes in a name, an undefined rule that is referred to, and a
start rule. -/
def quotedGrammar : Grammar UInt8 Unit where
  rules := [(ascii "\"", { body := some (.sequence [.rule 1, .rule 0]) }), (ascii "\\n", {})]
  start := ascii "\""

theorem quoted_grammar_rendered :
    ∃ text, toDot quotedGrammar 4 = some text ∧
      ((Renders quotedGrammar (text.splitOn 10) ∧
          ∀ name rest, readQuoted (quoted name ++ rest) = (name, rest)) ↔
        ¬(quotedGrammar.start = [] ∧
          ∃ rule, keyOf quotedGrammar rule = some [] ∧ (quotedGrammar.body rule).isSome = true)) :=
  to_dot_renders_iff (by unfold DistinctKeys; decide) (by decide +kernel)

end Peglib.DotExport
