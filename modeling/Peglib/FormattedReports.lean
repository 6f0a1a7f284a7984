import Peglib.Decimal
import Peglib.FailureReports
import Peglib.SourceMaps

/-!
# Printed reports

Transcription of `Diagnostic::format`. A reader who knows the file reads line,
column and message back, and the line and the column lead back to the position
of the diagnostic in the text that was parsed.
-/

namespace Peglib.FormattedReports

open Peglib.TracedComputation Peglib.ParseError Peglib.ParseContext Peglib.Expressions Peglib.Rules
open Peglib.Termination Peglib.SuccessfulAnswers Peglib.PositionDiscipline Peglib.SourceMaps
open Peglib.Decimal

set_option autoImplicit false

/-- The loop of `format`, from its `i`-th round on. -/
def formatItems (count : Nat) : Nat → List ExpectedItem → Str
  | _, [] => []
  | i, item :: rest =>
      (if 0 < i then (if i + 1 = count then ascii " or " else ascii ", ") else []) ++ item.text ++
        formatItems count (i + 1) rest

def message (expected : ExpectedSet) : Str :=
  if expected = [] then ascii "unexpected input"
  else ascii "expected " ++ formatItems expected.length 0 expected

/-- `Diagnostic::format`; the stream prints numbers as in the "C" locale. -/
def format (diagnostic : Diagnostic) (map : SourceMap) (filename : Str) : Str :=
  let loc := map.locate diagnostic.position.toUInt64
  filename ++ ascii ":" ++ printNat loc.line.toNat ++ ascii ":" ++ printNat loc.column.toNat ++
    ascii ": error: " ++ message diagnostic.expected

section Reading

/-- What follows a text that is known to come first. -/
def strip (known text : Str) : Option Str :=
  if text.take known.length = known then some (text.drop known.length) else none

/-- Line, column and message of a report about a file. -/
def readReport (filename text : Str) : Option (Nat × Nat × Str) := do
  let located ← strip (filename ++ ascii ":") text
  let line ← readNat located
  let beyond ← strip (ascii ":") line.2
  let column ← readNat beyond
  let told ← strip (ascii ": error: ") column.2
  pure (line.1, column.1, told)

/-- "A, B or C". -/
def listing : List Str → Str
  | [] => []
  | [only] => only
  | [first, last] => first ++ ascii " or " ++ last
  | first :: second :: third :: rest => first ++ ascii ", " ++ listing (second :: third :: rest)

theorem strip_append (known rest : Str) : strip known (known ++ rest) = some rest := by
  simp [strip]

theorem format_items_listing (items : List ExpectedItem) (nonempty : items ≠ []) (i : Nat) :
    formatItems (i + items.length) i items =
      (if 0 < i then (if items.length = 1 then ascii " or " else ascii ", ") else []) ++
        listing (items.map ExpectedItem.text) := by
  induction items generalizing i with
  | nil => exact absurd rfl nonempty
  | cons first rest induction =>
      cases rest with
      | nil => simp [formatItems, listing]
      | cons second rest =>
          have later := induction (by simp) (i + 1)
          have count : i + (first :: second :: rest).length = i + 1 + (second :: rest).length := by
            simp only [List.length_cons]
            omega
          have more : ¬i + 1 = i + 1 + (second :: rest).length := by simp
          rw [count, formatItems, later, if_neg more]
          cases rest with
          | nil => simp [listing]
          | cons third rest => simp [listing]

theorem message_eq (expected : ExpectedSet) (nonempty : expected ≠ []) :
    message expected = ascii "expected " ++ listing (expected.map ExpectedItem.text) := by
  have items := format_items_listing expected nonempty 0
  rw [Nat.zero_add] at items
  rw [message, if_neg nonempty, items]
  simp

/-- Line, column and message are read back. -/
theorem read_format (diagnostic : Diagnostic) (map : SourceMap) (filename : Str) :
    readReport filename (format diagnostic map filename) =
      some ((map.locate diagnostic.position.toUInt64).line.toNat,
        (map.locate diagnostic.position.toUInt64).column.toNat, message diagnostic.expected) := by
  generalize located : map.locate diagnostic.position.toUInt64 = loc
  have colon : ascii ":" = [58] := by decide
  have told : ascii ": error: " = 58 :: ascii " error: " := by decide
  have stops : isDigit 58 = false := by decide
  have text : format diagnostic map filename = (filename ++ ascii ":") ++
      (printNat loc.line.toNat ++ 58 :: (printNat loc.column.toNat ++
        58 :: (ascii " error: " ++ message diagnostic.expected))) := by
    rw [format, located, colon, told]
    simp
  have line := read_print loc.line.toNat stops
    (printNat loc.column.toNat ++ 58 :: (ascii " error: " ++ message diagnostic.expected))
  have column := read_print loc.column.toNat stops (ascii " error: " ++ message diagnostic.expected)
  have between := strip_append (ascii ":")
    (printNat loc.column.toNat ++ 58 :: (ascii " error: " ++ message diagnostic.expected))
  have end_ := strip_append (ascii ": error: ") (message diagnostic.expected)
  rw [colon, List.singleton_append] at between
  rw [told, List.cons_append] at end_
  simp only [readReport, text, strip_append, Option.bind_eq_bind, Option.bind_some, line, colon,
    between, column, told, end_, Option.pure_def]

end Reading

section Locations

variable {text : SourceText} {map : SourceMap}

theorem locate_on_line (built : Built text map) {pos : Nat} (inside : pos ≤ text.bytes.length) :
    OnLine text.bytes (map.locate pos.toUInt64).line (map.locate pos.toUInt64).column pos := by
  have sized := text.sized
  have word : pos.toUInt64.toNat = pos := UInt64.toNat_ofNat_of_lt' (by rw [UInt64.size]; omega)
  have starts := line_start_spec built pos.toUInt64
  rw [word] at starts
  rw [locate_eq built, word]
  generalize map.lineStarts.getD (newlines (text.bytes.take pos)) 0 = first at starts ⊢
  have before := starts.before
  have start : first.toUInt64.toNat = first :=
    UInt64.toNat_ofNat_of_lt' (by rw [UInt64.size]; omega)
  have distance : (pos.toUInt64 - first.toUInt64).toNat = pos - first := by
    have ordered : first.toUInt64 ≤ pos.toUInt64 := by
      rw [UInt64.le_iff_toNat_le, word, start]
      exact before
    rw [UInt64.toNat_sub_of_le _ _ ordered, word, start]
  refine ⟨first, starts, ?_, ?_⟩
  · rw [small_word (newlines_le _ _) text.sized, starts.newlines_eq, Nat.add_comm]
  · rw [UInt64.toNat_add, distance, UInt64.toNat_one, Nat.mod_eq_of_lt (by omega), Nat.add_comm]

variable {NodeType : Type} {grammar : Grammar UInt8 NodeType} {name : Str} {rule : RuleId}

/-- What a parse leaves on record lies in the input and expects something. -/
theorem taken_inside {input : Str} (inRange : InRange grammar) (found : grammar.find name = some rule)
    (fuel : Nat) {answer : Bool}
    (finished : (grammar.parse fuel name (Context.fresh input)).outcome = .returned answer)
    {diagnostic : Diagnostic}
    (taken : (grammar.parse fuel name (Context.fresh input)).state.errors.takeError.1 = some diagnostic) :
    diagnostic.position ≤ input.length ∧ diagnostic.expected ≠ [] := by
  have visited : Visited grammar input (Context.fresh input) := .fresh
  have states := (entry_same inRange visited (Nat.zero_le _) fuel found).states
  rw [finished] at states
  have fresh : (Context.fresh input).errors.Inside input.length := by
    intro recorded
    cases recorded
  have inside := states.1.clean.2 fresh
  unfold Errors.takeError at taken
  split_ifs at taken with recorded
  cases taken
  exact inside recorded

/-- Of a parsed text, the report that `take_error` hands out is printed with the line and the column
of the furthest failure, which lead back to its position, and with everything that was expected
there. The file may have any name. -/
theorem report_leads_back (built : Built text map) (inRange : InRange grammar)
    (found : grammar.find name = some rule) (fuel : Nat) {answer : Bool}
    (finished : (grammar.parse fuel name (Context.fresh text.bytes)).outcome = .returned answer)
    {diagnostic : Diagnostic}
    (taken : (grammar.parse fuel name (Context.fresh text.bytes)).state.errors.takeError.1 =
      some diagnostic) (filename : Str) :
    ∃ line column : UInt64,
      readReport filename (format diagnostic map filename) = some (line.toNat, column.toNat,
        ascii "expected " ++ listing (diagnostic.expected.map ExpectedItem.text)) ∧
      diagnostic.expected ≠ [] ∧ diagnostic.position ≤ text.bytes.length ∧
      OnLine text.bytes line column diagnostic.position ∧
      map.offsetOf line column = diagnostic.position.toUInt64 := by
  obtain ⟨inside, expecting⟩ := taken_inside inRange found fuel finished taken
  have printed := read_format diagnostic map filename
  rw [message_eq diagnostic.expected expecting] at printed
  exact ⟨_, _, printed, expecting, inside, locate_on_line built inside, offset_of_locate built _⟩

/-- `S = 'x' >> '\n' >> ('y' | 'z')`. -/
def twoLiner : Grammar UInt8 Unit where
  rules := [(ascii "S",
    { name := ascii "S"
      body := some (.sequence [.terminal (.value 120), .terminal (.value 10),
        .alternation [.terminal (.value 121), .terminal (.value 122)]]) })]

def misspelt : SourceText := ⟨ascii "x\nw", by decide⟩

def missing : Diagnostic := ⟨2, [⟨.literal, ascii "'y'"⟩, ⟨.literal, ascii "'z'"⟩]⟩

theorem two_liner_in_range : InRange twoLiner := by
  intro rule body assigned
  cases rule with
  | zero =>
      obtain rfl := Option.some.inj assigned
      simp [Expr.Every, Expr.EveryAll, MatcherInRange]
  | succ rule => cases assigned

theorem misspelt_leads_back :
    format missing (SourceMap.ofText misspelt.bytes) (ascii "in.txt") =
        ascii "in.txt:2:1: error: expected 'y' or 'z'" ∧
      ∃ line column : UInt64,
        readReport (ascii "in.txt") (format missing (SourceMap.ofText misspelt.bytes) (ascii "in.txt")) =
          some (line.toNat, column.toNat,
            ascii "expected " ++ listing (missing.expected.map ExpectedItem.text)) ∧
        missing.expected ≠ [] ∧ missing.position ≤ misspelt.bytes.length ∧
        OnLine misspelt.bytes line column missing.position ∧
        (SourceMap.ofText misspelt.bytes).offsetOf line column = missing.position.toUInt64 :=
  ⟨by decide +kernel, report_leads_back .contiguous two_liner_in_range
    (show twoLiner.find (ascii "S") = some 0 by decide) 5
    (show (twoLiner.parse 5 (ascii "S") (Context.fresh misspelt.bytes)).outcome = .returned false from rfl)
    (show (twoLiner.parse 5 (ascii "S") (Context.fresh misspelt.bytes)).state.errors.takeError.1 =
      some missing by decide +kernel) (ascii "in.txt")⟩

end Locations

end Peglib.FormattedReports
