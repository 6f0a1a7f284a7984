import Peglib.PagedInput
import Peglib.ParseError

/-!
# Source maps

Transcription of `SourceMap.h`. The table of line starts is prescanned from a
contiguous text or from a file, whose pages are refilled as they are read.
Positions in a text fit a `ptrdiff_t`; offsets, lines and columns that a caller
passes in are any `size_t`.
-/

namespace Peglib.SourceMaps

open Peglib.ParseError Peglib.PagedInput

set_option autoImplicit false

/-- A text that a `string_view` or a file can hold. -/
structure SourceText where
  bytes : Str
  sized : bytes.length < 2 ^ 63

/-- The file that holds a text as `char` items. -/
def SourceText.file (text : SourceText) : File UInt8 where
  bytes := text.bytes
  sizeOf := 1
  decode bytes := bytes.headD 0
  sized := Nat.one_pos
  addressable := text.sized

structure SourceLocation where
  offset : UInt64 := 0
  line : UInt64 := 1
  column : UInt64 := 1
deriving DecidableEq

/-- `m_contiguous` stays empty where a file backs the map. -/
structure SourceMap where
  lineStarts : List Nat
  contiguous : Str := []

def npos : UInt64 := -1

def prescanFrom : Nat → Str → List Nat
  | _, [] => []
  | i, letter :: rest =>
      if letter = 10 then (i + 1) :: prescanFrom (i + 1) rest else prescanFrom (i + 1) rest

def prescanFile (file : File UInt8) (page : PageSize) :
    Nat → Nat → FileSource UInt8 → Option (List Nat) × FileSource UInt8
  | 0, _, source => (some [], source)
  | left + 1, i, source =>
      match source.itemAt file page i with
      | (none, after) => (none, after)
      | (some letter, after) =>
          let (starts, last) := prescanFile file page left (i + 1) after
          (starts.map fun starts => if letter = 10 then (i + 1) :: starts else starts, last)

namespace SourceMap

def ofText (source : Str) : SourceMap := ⟨0 :: prescanFrom 0 source, source⟩

def ofFile (file : File UInt8) (page : PageSize) (source : FileSource UInt8) :
    Option SourceMap × FileSource UInt8 :=
  let (starts, after) := prescanFile file page source.size 0 source
  (starts.map fun starts => ⟨0 :: starts, []⟩, after)

variable (map : SourceMap)

/-- `std::upper_bound`: how many line starts are not beyond the offset. -/
def upperBound (offset : UInt64) : Nat :=
  (map.lineStarts.takeWhile fun start => decide (start ≤ offset.toNat)).length

def locate (offset : UInt64) : SourceLocation :=
  let lineIdx := map.upperBound offset - 1
  let lineStart := map.lineStarts.getD lineIdx 0
  { offset := offset
    line := (lineIdx + 1).toUInt64
    column := offset - lineStart.toUInt64 + 1 }

def outOfRange (line : UInt64) : Bool :=
  decide (line = 0) || decide (map.lineStarts.length < line.toNat)

def offsetOf (line column : UInt64) : UInt64 :=
  if map.outOfRange line then npos
  else (map.lineStarts.getD (line.toNat - 1) 0).toUInt64 + (column - 1)

def lineView (line : UInt64) : Str :=
  if map.outOfRange line then []
  else
    let start := map.lineStarts.getD (line.toNat - 1) 0
    let stop :=
      if line.toNat < map.lineStarts.length then
        let stop := map.lineStarts.getD line.toNat 0 - 1
        if start < stop ∧ map.contiguous[stop - 1]? = some 13 then stop - 1 else stop
      else
        let stop := map.contiguous.length
        if start < stop ∧ map.contiguous[stop - 1]? = some 13 then stop - 1 else stop
    (map.contiguous.drop start).take (stop - start)

def lineContent (line : UInt64) : Str :=
  if map.outOfRange line then [] else map.lineView line

/-- `if (end > start && m_file_at(m_file_source, end - 1) == '\r') --end;`. -/
def stripFile (file : File UInt8) (page : PageSize) (start stop : Nat)
    (source : FileSource UInt8) : Option Nat × FileSource UInt8 :=
  if start < stop then
    match source.itemAt file page (stop - 1) with
    | (none, after) => (none, after)
    | (some letter, after) => (some (if letter = 13 then stop - 1 else stop), after)
  else (some stop, source)

/-- `line_content` of a map that a file backs. -/
def lineContentFile (file : File UInt8) (page : PageSize) (line : UInt64)
    (source : FileSource UInt8) : Option Str × FileSource UInt8 :=
  if map.outOfRange line then (some [], source)
  else
    let start := map.lineStarts.getD (line.toNat - 1) 0
    let sourceSize := source.size
    let (stop, after) :=
      if line.toNat < map.lineStarts.length then
        stripFile file page start (map.lineStarts.getD line.toNat 0 - 1) source
      else stripFile file page start sourceSize source
    match stop with
    | none => (none, after)
    | some stop => after.slice file page start (stop - start)

end SourceMap

/-- A map of the text, from memory or from a file that may have been read
before. -/
inductive Built (text : SourceText) : SourceMap → Prop
  | contiguous : Built text (SourceMap.ofText text.bytes)
  | file {page : PageSize} {source : FileSource UInt8} {map : SourceMap} :
      Paged text.file source → (SourceMap.ofFile text.file page source).1 = some map →
      Built text map

section Prescan

variable (text : SourceText)

theorem file_count : text.file.count = text.bytes.length := Nat.div_one _

theorem file_item {pos : Nat} (inside : pos < text.bytes.length) :
    text.bytes[pos]? = some (text.file.item pos) := by
  have drops : text.bytes.drop pos = text.bytes[pos] :: text.bytes.drop (pos + 1) :=
    List.drop_eq_getElem_cons inside
  have item : text.file.item pos = text.bytes[pos] := by
    change ((text.bytes.drop (pos * 1)).take 1).headD 0 = _
    rw [Nat.mul_one, drops]
    rfl
  rw [item, List.getElem?_eq_getElem inside]

theorem file_items {start count : Nat} (inside : start + count ≤ text.bytes.length) :
    (List.range' start count).map text.file.item = (text.bytes.drop start).take count := by
  induction count generalizing start with
  | zero => simp
  | succ count induction =>
      have first : text.bytes[start]? = some (text.file.item start) :=
        file_item text (by omega)
      have drops : text.bytes.drop start = text.file.item start :: text.bytes.drop (start + 1) := by
        rw [List.drop_eq_getElem_cons (by omega)]
        rw [List.getElem?_eq_getElem (by omega)] at first
        rw [Option.some.inj first]
      rw [List.range'_succ, List.map_cons, induction (by omega), drops, List.take_succ_cons]

variable {text}

theorem prescan_file_eq (page : PageSize) {left i : Nat} {source : FileSource UInt8}
    (paged : Paged text.file source) (inside : i + left = text.bytes.length) :
    Paged text.file (prescanFile text.file page left i source).2 ∧
      (prescanFile text.file page left i source).1 = some (prescanFrom i (text.bytes.drop i)) := by
  induction left generalizing i source with
  | zero =>
      rw [List.drop_eq_nil_of_le (by omega)]
      exact ⟨paged, rfl⟩
  | succ left induction =>
      obtain ⟨kept, got⟩ := get_paged page paged i
      have found := got (by rw [file_count]; omega)
      have here : text.bytes[i]? = some (text.file.item i) := file_item text (by omega)
      have drops : text.bytes.drop i = text.file.item i :: text.bytes.drop (i + 1) := by
        rw [List.drop_eq_getElem_cons (by omega)]
        rw [List.getElem?_eq_getElem (by omega)] at here
        rw [Option.some.inj here]
      obtain ⟨last, starts⟩ := induction (i := i + 1) kept (by omega)
      unfold prescanFile FileSource.itemAt
      rcases read : source.get text.file page i with ⟨letter, after⟩
      rw [read] at found last starts
      obtain rfl : letter = some (text.file.item i) := found
      dsimp only at last starts ⊢
      rw [starts, drops, prescanFrom]
      exact ⟨last, rfl⟩

theorem of_file_eq (page : PageSize) {source : FileSource UInt8} (paged : Paged text.file source) :
    Paged text.file (SourceMap.ofFile text.file page source).2 ∧
      (SourceMap.ofFile text.file page source).1 = some ⟨0 :: prescanFrom 0 text.bytes, []⟩ := by
  have whole : 0 + source.size = text.bytes.length := by
    rw [Nat.zero_add, FileSource.size, paged.size, file_count]
  have scanned := prescan_file_eq page paged whole
  unfold SourceMap.ofFile
  dsimp only
  rw [scanned.2]
  exact ⟨scanned.1, rfl⟩

theorem Built.line_starts {map : SourceMap} (built : Built text map) :
    map.lineStarts = 0 :: prescanFrom 0 text.bytes := by
  cases built with
  | contiguous => rfl
  | file paged found =>
      rw [(of_file_eq _ paged).2] at found
      rw [← Option.some.inj found]

end Prescan

section Locations

/-- How many lines end in a text. -/
def newlines (text : Str) : Nat := text.count 10

/-- The line of the position `offset` starts at `start`. -/
structure StartsLine (text : Str) (start offset : Nat) : Prop where
  before : start ≤ offset
  bounded : start ≤ text.length
  first : start = 0 ∨ text[start - 1]? = some 10
  same : ∀ i, start ≤ i → i < offset → text[i]? ≠ some 10

theorem StartsLine.unique {text : Str} {start start' offset : Nat}
    (starts : StartsLine text start offset) (starts' : StartsLine text start' offset) :
    start = start' := by
  have upper : ∀ {low high : Nat}, StartsLine text low offset → StartsLine text high offset →
      high ≤ low := by
    intro low high lower higher
    by_contra beyond
    rcases higher.first with zero | newline
    · omega
    · have before := higher.before
      exact lower.same (high - 1) (by omega) (by omega) newline
  exact Nat.le_antisymm (upper starts' starts) (upper starts starts')

theorem StartsLine.newlines_eq {text : Str} {start offset : Nat}
    (starts : StartsLine text start offset) :
    newlines (text.take offset) = newlines (text.take start) := by
  obtain ⟨more, rfl⟩ := Nat.exists_eq_add_of_le starts.before
  have none : (List.take more (text.drop start)).count 10 = 0 := by
    refine List.count_eq_zero.mpr fun member => ?_
    obtain ⟨index, inside, found⟩ := List.mem_iff_getElem.mp member
    have bounds : index < more ∧ index < text.length - start := by
      simpa [Nat.lt_min] using inside
    refine starts.same (start + index) (by omega) (by omega) ?_
    rw [← List.getElem?_drop, List.getElem?_eq_getElem (by rw [List.length_drop]; exact bounds.2)]
    rw [List.getElem_take] at found
    rw [found]
  unfold newlines
  rw [List.take_add, List.count_append, none, Nat.add_zero]

variable (text : Str)

theorem prescan_upper (i offset : Nat) (later : i ≤ offset) :
    ((prescanFrom i text).takeWhile fun start => decide (start ≤ offset)).length =
      newlines (text.take (offset - i)) := by
  induction text generalizing i with
  | nil => simp [prescanFrom, newlines]
  | cons letter rest induction =>
      by_cases here : offset = i
      · have beyond : ∀ text : Str, ∀ from' : Nat, offset < from' →
            (prescanFrom (from' - 1) text).takeWhile (fun start => decide (start ≤ offset)) = [] := by
          intro text
          induction text with
          | nil => exact fun _ _ => rfl
          | cons letter rest next =>
              intro from' after
              have shift : from' - 1 + 1 = from' + 1 - 1 := by omega
              unfold prescanFrom
              split_ifs
              · rw [List.takeWhile_cons_of_neg (by simp; omega)]
              · rw [shift]
                exact next (from' + 1) (by omega)
        have none := beyond (letter :: rest) (i + 1) (by omega)
        rw [Nat.add_sub_cancel] at none
        rw [none, here]
        simp [newlines]
      · obtain ⟨more, rfl⟩ : ∃ more, offset = i + 1 + more := ⟨offset - (i + 1), by omega⟩
        have shorter : i + 1 + more - i = more + 1 := by omega
        have tail := induction (i + 1) (by omega)
        rw [Nat.add_sub_cancel_left] at tail
        rw [shorter, List.take_succ_cons]
        unfold prescanFrom newlines
        split_ifs with newline
        · rw [List.takeWhile_cons_of_pos (by simp), List.length_cons, tail, newline,
            List.count_cons_self, newlines]
        · rw [tail, List.count_cons_of_ne newline, newlines]

theorem prescan_starts (seen : Str) (start offset : Nat)
    (starts : StartsLine (seen ++ text) start seen.length) (later : seen.length ≤ offset) :
    StartsLine (seen ++ text)
      ((start :: prescanFrom seen.length text).getD
        (newlines (text.take (offset - seen.length))) 0) offset := by
  induction text generalizing seen start with
  | nil =>
      have count : newlines (([] : Str).take (offset - seen.length)) = 0 := by simp [newlines]
      rw [count]
      refine ⟨Nat.le_trans starts.before later, starts.bounded, starts.first, fun i low high => ?_⟩
      by_cases inside : i < seen.length
      · exact starts.same i low inside
      · rw [List.append_nil, List.getElem?_eq_none (by omega)]
        exact nofun
  | cons letter rest induction =>
      by_cases here : offset = seen.length
      · subst here
        have count : newlines ((letter :: rest).take (seen.length - seen.length)) = 0 := by
          simp [newlines]
        rw [count]
        exact starts
      · obtain ⟨more, rfl⟩ : ∃ more, offset = seen.length + 1 + more :=
          ⟨offset - (seen.length + 1), by omega⟩
        have shorter : seen.length + 1 + more - seen.length = more + 1 := by omega
        have joined : seen ++ letter :: rest = (seen ++ [letter]) ++ rest := by simp
        have length : (seen ++ [letter]).length = seen.length + 1 := by simp
        have at' : (seen ++ letter :: rest)[seen.length]? = some letter := by simp
        rw [shorter, List.take_succ_cons]
        by_cases newline : letter = 10
        · have next := induction (seen ++ [letter]) (seen.length + 1) (by
            rw [← joined, length]
            refine ⟨Nat.le_refl _, by simp, Or.inr ?_, fun i low high => absurd low (by omega)⟩
            rw [Nat.add_sub_cancel, at', newline]) (by omega)
          rw [← joined, length, Nat.add_sub_cancel_left] at next
          have count : newlines (letter :: List.take more rest) =
              newlines (List.take more rest) + 1 := by
            rw [newlines, newline, List.count_cons_self, newlines]
          rw [count, prescanFrom, if_pos newline, List.getD_cons_succ]
          exact next
        · have next := induction (seen ++ [letter]) start (by
            rw [← joined, length]
            refine ⟨Nat.le_succ_of_le starts.before, starts.bounded, starts.first, ?_⟩
            intro i low high
            by_cases inside : i < seen.length
            · exact starts.same i low inside
            · obtain rfl : i = seen.length := by omega
              rw [at']
              exact fun found => newline (Option.some.inj found)) (by omega)
          rw [← joined, length, Nat.add_sub_cancel_left] at next
          have count : newlines (letter :: List.take more rest) =
              newlines (List.take more rest) := by
            rw [newlines, List.count_cons_of_ne newline, newlines]
          rw [count, prescanFrom, if_neg newline]
          exact next

/-- The line start that `locate` picks, and how many lines end before it. -/
theorem upper_bound_eq {text : SourceText} {map : SourceMap} (built : Built text map)
    (offset : UInt64) :
    map.upperBound offset = newlines (text.bytes.take offset.toNat) + 1 := by
  have upper := prescan_upper text.bytes 0 offset.toNat (Nat.zero_le _)
  rw [Nat.sub_zero] at upper
  rw [SourceMap.upperBound, built.line_starts, List.takeWhile_cons_of_pos (by simp),
    List.length_cons, upper]

theorem line_start_spec {text : SourceText} {map : SourceMap} (built : Built text map)
    (offset : UInt64) :
    StartsLine text.bytes
      (map.lineStarts.getD (newlines (text.bytes.take offset.toNat)) 0) offset.toNat := by
  have spec := prescan_starts text.bytes [] 0 offset.toNat
    ⟨Nat.le_refl _, Nat.zero_le _, Or.inl rfl, fun i low high => absurd high (Nat.not_lt_zero i)⟩
    (Nat.zero_le _)
  rwa [List.nil_append, List.length_nil, Nat.sub_zero, ← built.line_starts] at spec

theorem newlines_le (text : Str) (offset : Nat) : newlines (text.take offset) ≤ text.length :=
  Nat.le_trans List.count_le_length (by rw [List.length_take]; exact Nat.min_le_right _ _)

theorem newlines_lt_lines {text : SourceText} {map : SourceMap} (built : Built text map)
    (offset : UInt64) : newlines (text.bytes.take offset.toNat) < map.lineStarts.length := by
  have upper := upper_bound_eq built offset
  have most : map.upperBound offset ≤ map.lineStarts.length := (List.takeWhile_sublist _).length_le
  omega

theorem locate_eq {text : SourceText} {map : SourceMap} (built : Built text map)
    (offset : UInt64) :
    map.locate offset =
      { offset := offset
        line := (newlines (text.bytes.take offset.toNat) + 1).toUInt64
        column := offset -
          (map.lineStarts.getD (newlines (text.bytes.take offset.toNat)) 0).toUInt64 + 1 } := by
  rw [SourceMap.locate, upper_bound_eq built, Nat.add_sub_cancel]

theorem small_word {count bound : Nat} (small : count ≤ bound) (sized : bound < 2 ^ 63) :
    (count + 1).toUInt64.toNat = count + 1 :=
  UInt64.toNat_ofNat_of_lt' (by rw [UInt64.size]; omega)

/-- The position `offset` of the text is the `column`-th of its `line`-th line. -/
def OnLine (text : Str) (line column : UInt64) (offset : Nat) : Prop :=
  ∃ start, StartsLine text start offset ∧ line.toNat = 1 + newlines (text.take start) ∧
    column.toNat = 1 + (offset - start)

theorem offset_of_locate {text : SourceText} {map : SourceMap} (built : Built text map)
    (offset : UInt64) :
    map.offsetOf (map.locate offset).line (map.locate offset).column = offset := by
  have small := newlines_le text.bytes offset.toNat
  have inside := newlines_lt_lines built offset
  have line := small_word small text.sized
  have present : map.outOfRange (map.locate offset).line = false := by
    rw [locate_eq built, SourceMap.outOfRange, Bool.or_eq_false_iff, decide_eq_false_iff_not,
      decide_eq_false_iff_not]
    refine ⟨fun zero => ?_, by rw [line]; omega⟩
    rw [← UInt64.toNat_inj, line] at zero
    simp at zero
  rw [SourceMap.offsetOf, present, locate_eq built]
  dsimp only
  rw [line, Nat.add_sub_cancel, if_neg Bool.false_ne_true, UInt64.add_sub_cancel, UInt64.add_comm,
    UInt64.sub_add_cancel]

/-- Locations and offsets are inverse. The column counts from the line's start
as a `size_t`, which is exact for every offset but `npos`. -/
theorem locations_inverse {text : SourceText} {map : SourceMap} (built : Built text map) :
    (∀ offset : UInt64,
      (map.locate offset).offset = offset ∧
        (map.locate offset).line.toNat = 1 + newlines (text.bytes.take offset.toNat) ∧
        (∃ start, StartsLine text.bytes start offset.toNat ∧
          (map.locate offset).column = 1 + (offset - start.toUInt64) ∧
          (offset ≠ npos → (map.locate offset).column.toNat = 1 + (offset.toNat - start))) ∧
        map.offsetOf (map.locate offset).line (map.locate offset).column = offset) ∧
      ∀ (line column : UInt64) (offset : Nat), offset ≤ text.bytes.length →
        OnLine text.bytes line column offset →
        map.offsetOf line column = offset.toUInt64 ∧
          map.locate (map.offsetOf line column) = ⟨offset.toUInt64, line, column⟩ := by
  have exact_column : ∀ offset : UInt64, ∀ start, StartsLine text.bytes start offset.toNat →
      offset.toNat + 1 < 2 ^ 64 →
      (offset - start.toUInt64 + 1).toNat = 1 + (offset.toNat - start) := by
    intro offset start starts below
    have before := starts.before
    have bound : start < UInt64.size := by rw [UInt64.size]; omega
    have same : start.toUInt64.toNat = start := UInt64.toNat_ofNat_of_lt' bound
    have distance : (offset - start.toUInt64).toNat = offset.toNat - start := by
      rw [UInt64.toNat_sub_of_le _ _ (by rw [UInt64.le_iff_toNat_le, same]; exact before), same]
    rw [UInt64.toNat_add, distance, UInt64.toNat_one, Nat.mod_eq_of_lt (by omega), Nat.add_comm]
  constructor
  · intro offset
    have starts := line_start_spec built offset
    refine ⟨rfl, ?_, ⟨_, starts, ?_, fun ordinary => ?_⟩, offset_of_locate built offset⟩
    · rw [locate_eq built, small_word (newlines_le _ _) text.sized, Nat.add_comm]
    · rw [locate_eq built]
      exact UInt64.add_comm _ _
    · rw [locate_eq built]
      refine exact_column offset _ starts ?_
      have word := offset.toNat_lt
      have notLast : offset.toNat ≠ 2 ^ 64 - 1 := fun last =>
        ordinary (UInt64.toNat_inj.mp (last.trans (by decide)))
      omega
  · rintro line column offset inside ⟨start, starts, lined, counted⟩
    have sized := text.sized
    have word : offset.toUInt64.toNat = offset :=
      UInt64.toNat_ofNat_of_lt' (by rw [UInt64.size]; omega)
    have spec := line_start_spec built offset.toUInt64
    rw [word] at spec
    have picked := spec.unique starts
    have location : map.locate offset.toUInt64 = ⟨offset.toUInt64, line, column⟩ := by
      rw [locate_eq built]
      refine SourceLocation.mk.injEq .. |>.mpr ⟨rfl, ?_, ?_⟩
      · rw [← UInt64.toNat_inj, small_word (newlines_le _ _) text.sized, word, lined,
          starts.newlines_eq, Nat.add_comm]
      · rw [word, picked, ← UInt64.toNat_inj,
          exact_column offset.toUInt64 start (by rwa [word]) (by rw [word]; omega), counted, word]
    have back := offset_of_locate built offset.toUInt64
    rw [location] at back
    rw [back]
    exact ⟨rfl, location⟩

def twoLines : SourceText := ⟨ascii "a\nb", by decide⟩

theorem second_line_located :
    (SourceMap.ofText twoLines.bytes).offsetOf 2 1 = 2 ∧
      (SourceMap.ofText twoLines.bytes).locate ((SourceMap.ofText twoLines.bytes).offsetOf 2 1) =
        ⟨2, 2, 1⟩ := by
  have starts : StartsLine twoLines.bytes 2 2 :=
    ⟨by decide, by decide, Or.inr (by decide), fun i low high => absurd low (by omega)⟩
  exact (locations_inverse (Built.contiguous : Built twoLines _)).2 2 1 2 (by decide)
    ⟨2, starts, by decide, by decide⟩

/-- The column of `npos` is zero on a first line that never ends. -/
theorem column_of_npos_wraps :
    StartsLine [] 0 npos.toNat ∧
      ((SourceMap.ofText []).locate npos).column.toNat ≠ 1 + (npos.toNat - 0) :=
  ⟨⟨by decide, by decide, Or.inl rfl, fun i _ _ => by simp⟩, by decide⟩

end Locations

end Peglib.SourceMaps
