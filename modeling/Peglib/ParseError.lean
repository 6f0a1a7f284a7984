import Mathlib.Tactic.Common

/-!
# Expected items, display texts and the furthest-failure state

Transcription of `ParseError.h` and of the error-tracking part of `Context.h`.
A `std::string` is a list of bytes, compared as `char_traits<char>` does.
-/

namespace Peglib.ParseError

set_option autoImplicit false

/-- `std::string`. -/
abbrev Str : Type := List UInt8

instance : LawfulBEq Str := inferInstance

/-- A string literal of the source; every literal used below is ASCII. -/
def ascii (literal : String) : Str := literal.toList.map fun letter => letter.toNat.toUInt8

inductive ExpectedKind where
  | ruleLabel
  | ruleName
  | literal
  | range
deriving DecidableEq

/-- The order of the enumerators. -/
def ExpectedKind.rank : ExpectedKind → Nat
  | .ruleLabel => 0
  | .ruleName => 1
  | .literal => 2
  | .range => 3

structure ExpectedItem where
  kind : ExpectedKind
  text : Str
deriving DecidableEq

/-- `operator<`. -/
def ExpectedItem.less (left right : ExpectedItem) : Bool :=
  if left.kind ≠ right.kind then decide (left.kind.rank < right.kind.rank)
  else decide (left.text < right.text)

/-- The sorted vector behind `ExpectedSet`. -/
abbrev ExpectedSet : Type := List ExpectedItem

/-- Insertion before the first item that is not less, unless that item is the
same one. -/
def ExpectedSet.insert (item : ExpectedItem) : ExpectedSet → ExpectedSet
  | [] => [item]
  | first :: rest =>
      if first.less item then first :: ExpectedSet.insert item rest
      else if first = item then first :: rest
      else item :: first :: rest

structure Diagnostic where
  position : Nat
  expected : ExpectedSet
deriving DecidableEq

def hexDigit (value : Nat) : UInt8 :=
  if value < 10 then (48 + value).toUInt8 else (55 + value).toUInt8

/-- `%0<width>X`, for values that fit the width. -/
def hexPadded : Nat → Nat → Str
  | 0, _ => []
  | width + 1, value => hexPadded width (value / 16) ++ [hexDigit (value % 16)]

/-- `integral_to_display`: a single byte passes through, a wider code point is
encoded as UTF-8. -/
def integralToDisplay (byteSized : Bool) (codePoint : Nat) : Str :=
  if byteSized then [codePoint.toUInt8]
  else if codePoint ≤ 0x7F then [codePoint.toUInt8]
  else if codePoint ≤ 0x7FF then
    [(0xC0 ||| codePoint >>> 6).toUInt8, (0x80 ||| (codePoint &&& 0x3F)).toUInt8]
  else if codePoint ≤ 0xFFFF then
    [(0xE0 ||| codePoint >>> 12).toUInt8, (0x80 ||| (codePoint >>> 6 &&& 0x3F)).toUInt8,
      (0x80 ||| (codePoint &&& 0x3F)).toUInt8]
  else
    [(0xF0 ||| codePoint >>> 18).toUInt8, (0x80 ||| (codePoint >>> 12 &&& 0x3F)).toUInt8,
      (0x80 ||| (codePoint >>> 6 &&& 0x3F)).toUInt8, (0x80 ||| (codePoint &&& 0x3F)).toUInt8]

/-- The body of `escape_char_for_expected` for an integral element whose value
as `uint32_t` is `value`; `byte` is that value as an `unsigned char`. -/
def escapeIntegral (byteSized : Bool) (value byte : Nat) : Str :=
  [39] ++
    (if value = 9 then ascii "\\t"
    else if value = 10 then ascii "\\n"
    else if value = 13 then ascii "\\r"
    else if value = 92 then ascii "\\\\"
    else if value = 39 then ascii "\\'"
    else if 0x20 ≤ value ∧ value ≤ 0x7E then [value.toUInt8]
    else if byteSized then ascii "\\x" ++ hexPadded 2 byte
    else ascii "\\U" ++ hexPadded 8 value) ++ [39]

/-- One byte of `escape_string_for_expected`. -/
def escapeByte (byte : UInt8) : Str :=
  if byte = 9 then ascii "\\t"
  else if byte = 10 then ascii "\\n"
  else if byte = 13 then ascii "\\r"
  else if byte = 92 then ascii "\\\\"
  else if byte = 34 then ascii "\\\""
  else if 0x20 ≤ byte ∧ byte ≤ 0x7E then [byte]
  else ascii "\\x" ++ hexPadded 2 byte.toNat

def escapeStringForExpected (text : Str) : Str := [34] ++ text.flatMap escapeByte ++ [34]

/-- What the terminals need of an element type: its comparison operators and
its rendering in expected sets (the `to_display` customization point and
`escape_char_for_expected`). -/
class PegValue (CharT : Type) where
  equal : CharT → CharT → Bool
  lessEqual : CharT → CharT → Bool
  less : CharT → CharT → Bool
  toDisplay : CharT → Str
  escapeCharForExpected : CharT → Str

/-- `char`, signed as on the usual platforms: a negative value is sign-extended
by the cast to `uint32_t`. -/
instance : PegValue UInt8 where
  equal left right := left == right
  lessEqual left right := decide (left.toInt8 ≤ right.toInt8)
  less left right := decide (left.toInt8 < right.toInt8)
  toDisplay letter := integralToDisplay true letter.toNat
  escapeCharForExpected letter :=
    escapeIntegral true
      (if letter < 0x80 then letter.toNat else 0xFFFFFF00 + letter.toNat) letter.toNat

/-- `char32_t`. -/
instance : PegValue UInt32 where
  equal left right := left == right
  lessEqual left right := decide (left ≤ right)
  less left right := decide (left < right)
  toDisplay letter := integralToDisplay false letter.toNat
  escapeCharForExpected letter := escapeIntegral false letter.toNat (letter.toNat % 256)

/-- The error fields of a `Context`. -/
structure Errors where
  furthestFailurePos : Nat := 0
  expected : ExpectedSet := []
  hasError : Bool := false
  diagnostics : List Diagnostic := []

namespace Errors

/-- Furthest wins, same position accumulates, earlier is ignored. -/
def recordFailure (errors : Errors) (pos : Nat) (item : ExpectedItem) : Errors :=
  if !errors.hasError || decide (errors.furthestFailurePos < pos) then
    { errors with furthestFailurePos := pos, expected := [item], hasError := true }
  else if pos = errors.furthestFailurePos then
    { errors with expected := ExpectedSet.insert item errors.expected }
  else errors

/-- The lazy variant calls its producer only in the two branches that keep the
item. -/
def recordFailureLazy (errors : Errors) (pos : Nat) (producer : Unit → ExpectedItem) : Errors :=
  if !errors.hasError || decide (errors.furthestFailurePos < pos) then
    { errors with furthestFailurePos := pos, expected := [producer ()], hasError := true }
  else if pos = errors.furthestFailurePos then
    { errors with expected := ExpectedSet.insert (producer ()) errors.expected }
  else errors

/-- A failure that was recorded stays on record, and one is on record after every
failure. -/
theorem record_failure_has_error (errors : Errors) (pos : Nat) (item : ExpectedItem) :
    (errors.recordFailure pos item).hasError = true := by
  unfold recordFailure
  cases recorded : errors.hasError with
  | false => rfl
  | true => split_ifs <;> first | rfl | exact recorded

/-- What ordinary failures do to the record. -/
structure Noticed (before after : Errors) : Prop where
  hasError : before.hasError = true → after.hasError = true
  diagnostics : after.diagnostics = before.diagnostics

theorem Noticed.refl (errors : Errors) : Noticed errors errors := ⟨id, rfl⟩

theorem record_failure_noticed (errors : Errors) (pos : Nat) (item : ExpectedItem) :
    Noticed errors (errors.recordFailure pos item) := by
  refine ⟨fun _ => record_failure_has_error errors pos item, ?_⟩
  unfold recordFailure
  split_ifs <;> rfl

/-- A failure on record lies in an input of this length and expects something. -/
def Inside (length : Nat) (errors : Errors) : Prop :=
  errors.hasError = true → errors.furthestFailurePos ≤ length ∧ errors.expected ≠ []

theorem insert_ne_nil (item : ExpectedItem) (expected : ExpectedSet) :
    ExpectedSet.insert item expected ≠ [] := by
  cases expected with
  | nil => exact List.cons_ne_nil _ _
  | cons first rest =>
      unfold ExpectedSet.insert
      split_ifs <;> exact List.cons_ne_nil _ _

theorem Inside.recorded {length : Nat} {errors : Errors} (inside : errors.Inside length)
    {pos : Nat} (bounded : pos ≤ length) (item : ExpectedItem) :
    (errors.recordFailure pos item).Inside length := by
  unfold recordFailure
  split_ifs with furthest tied
  · exact fun _ => ⟨bounded, List.cons_ne_nil _ _⟩
  · exact fun recorded => ⟨(inside recorded).1, insert_ne_nil item _⟩
  · exact inside

def takeError (errors : Errors) : Option Diagnostic × Errors :=
  if errors.hasError then
    (some ⟨errors.furthestFailurePos, errors.expected⟩,
      { errors with hasError := false, expected := [], furthestFailurePos := 0 })
  else (none, errors)

def recordDiagnostic (errors : Errors) (diagnostic : Diagnostic) : Errors :=
  { errors with diagnostics := errors.diagnostics ++ [diagnostic] }

end Errors

end Peglib.ParseError
