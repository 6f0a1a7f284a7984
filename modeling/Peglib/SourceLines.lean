import Peglib.SourceMaps

/-!
# The lines of a source

A text is a sequence of lines, each with its terminator, which only the last one
lacks. Line contents are sliced from the table of line starts, once from memory
and once from a file. Both strip a `\r` off the last line as well, where no
`\n` follows it.
-/

namespace Peglib.SourceLines

open Peglib.ParseError Peglib.PagedInput Peglib.SourceMaps

set_option autoImplicit false

abbrev Line : Type := Str × Str

/-- A letter before the lines that follow. A `\r` right before a `\n` belongs to
the terminator. -/
def prepend (letter : UInt8) : List Line → List Line
  | [] => []
  | (content, terminator) :: more =>
      if letter = 13 ∧ content = [] ∧ terminator = [10] then ([], [13, 10]) :: more
      else (letter :: content, terminator) :: more

/-- The lines of a text, by the line-ending contract. -/
def lines : Str → List Line
  | [] => [([], [])]
  | letter :: rest => if letter = 10 then ([], [10]) :: lines rest else prepend letter (lines rest)

def Line.bytes (line : Line) : Str := line.1 ++ line.2

/-- The start of each line, the first one at `i`. -/
def offsets : Nat → List Line → List Nat
  | _, [] => []
  | i, line :: rest => i :: offsets (i + (Line.bytes line).length) rest

section Lines

theorem lines_ne_nil (text : Str) : lines text ≠ [] := by
  induction text with
  | nil => exact List.cons_ne_nil _ _
  | cons letter rest induction =>
      unfold lines
      split_ifs
      · exact List.cons_ne_nil _ _
      · obtain ⟨line, more, same⟩ := List.exists_cons_of_ne_nil induction
        rw [same, prepend]
        split_ifs <;> exact List.cons_ne_nil _ _

theorem prepend_bytes (letter : UInt8) {all : List Line} (some : all ≠ []) :
    (prepend letter all).flatMap Line.bytes = letter :: all.flatMap Line.bytes := by
  obtain ⟨⟨content, terminator⟩, more, rfl⟩ := List.exists_cons_of_ne_nil some
  rw [prepend]
  split_ifs with carriage
  · obtain ⟨rfl, rfl, rfl⟩ := carriage
    rfl
  · rfl

/-- The lines with their terminators are the text. -/
theorem lines_bytes (text : Str) : (lines text).flatMap Line.bytes = text := by
  induction text with
  | nil => rfl
  | cons letter rest induction =>
      unfold lines
      split_ifs with newline
      · rw [List.flatMap_cons, induction, newline]
        rfl
      · rw [prepend_bytes letter (lines_ne_nil rest), induction]

/-- A terminator that ends a line, and no `\r` left before it that belongs to it. -/
def Ended (line : Line) : Prop :=
  (line.2 = [10] ∧ line.1.getLast? ≠ some 13) ∨ line.2 = [13, 10]

/-- All lines but the last one are ended. -/
def Split (all : List Line) : Prop :=
  ∃ before content, all = before ++ [(content, [])] ∧ ∀ line ∈ before, Ended line

theorem Split.prepend {all : List Line} (split : Split all) (letter : UInt8) :
    Split (prepend letter all) := by
  obtain ⟨before, content, rfl, ended⟩ := split
  cases before with
  | nil =>
      refine ⟨[], letter :: content, ?_, nofun⟩
      rw [List.nil_append, SourceLines.prepend, if_neg (by simp)]
      rfl
  | cons first rest =>
      obtain ⟨inner, terminator⟩ := first
      have others : ∀ line ∈ rest, Ended line := fun line member =>
        ended line (List.mem_cons_of_mem _ member)
      rw [List.cons_append, SourceLines.prepend]
      split_ifs with carriage
      · refine ⟨([], [13, 10]) :: rest, content, rfl, fun line member => ?_⟩
        rcases List.mem_cons.mp member with rfl | other
        · exact Or.inr rfl
        · exact others line other
      · refine ⟨(letter :: inner, terminator) :: rest, content, rfl, fun line member => ?_⟩
        rcases List.mem_cons.mp member with rfl | other
        · rcases ended (inner, terminator) List.mem_cons_self with ⟨newline, clean⟩ | both
          · refine Or.inl ⟨newline, ?_⟩
            cases inner with
            | nil =>
                intro last
                exact carriage ⟨by simpa using last, rfl, newline⟩
            | cons next inner => rwa [List.getLast?_cons_cons]
          · exact Or.inr both
        · exact others line other

theorem lines_split (text : Str) : Split (lines text) := by
  induction text with
  | nil => exact ⟨[], [], rfl, nofun⟩
  | cons letter rest induction =>
      unfold lines
      split_ifs
      · obtain ⟨before, content, same, ended⟩ := induction
        refine ⟨([], [10]) :: before, content, by rw [same]; rfl, fun line member => ?_⟩
        rcases List.mem_cons.mp member with rfl | other
        · exact Or.inl ⟨rfl, nofun⟩
        · exact ended line other
      · exact induction.prepend letter

theorem line_starts_offsets (i : Nat) (text : Str) :
    i :: prescanFrom i text = offsets i (lines text) := by
  induction text generalizing i with
  | nil => rfl
  | cons letter rest induction =>
      have later := induction (i + 1)
      unfold prescanFrom lines
      split_ifs with newline
      · rw [later]
        rfl
      · obtain ⟨⟨content, terminator⟩, more, same⟩ :=
          List.exists_cons_of_ne_nil (lines_ne_nil rest)
        rw [same, offsets, List.cons.injEq] at later
        rw [later.2, same]
        have length : i + 1 + (Line.bytes (content, terminator)).length =
            i + (Line.bytes (letter :: content, terminator)).length := by
          simp only [Line.bytes, List.cons_append, List.length_cons]
          omega
        rw [prepend]
        split_ifs with carriage
        · obtain ⟨-, rfl, rfl⟩ := carriage
          rfl
        · rw [length]
          rfl

theorem offsets_length (i : Nat) (all : List Line) : (offsets i all).length = all.length := by
  induction all generalizing i with
  | nil => rfl
  | cons line rest induction => rw [offsets, List.length_cons, induction, List.length_cons]

theorem offsets_getD (i : Nat) (before : List Line) (line : Line) (after : List Line) :
    (offsets i (before ++ line :: after)).getD before.length 0 =
      i + (before.flatMap Line.bytes).length := by
  induction before generalizing i with
  | nil => rfl
  | cons first rest induction =>
      rw [List.cons_append, offsets, List.length_cons, List.getD_cons_succ, induction,
        List.flatMap_cons, List.length_append]
      omega

end Lines

section Contents

theorem inner_slice (before : Str) {line : Line} (ended : Ended line) (after : Str) :
    let text := before ++ Line.bytes line ++ after
    let stop := before.length + (Line.bytes line).length - 1
    (text.drop before.length).take
        ((if before.length < stop ∧ text[stop - 1]? = some 13 then stop - 1 else stop) -
          before.length) = line.1 := by
  obtain ⟨content, terminator⟩ := line
  intro text stop
  have dropped : text.drop before.length = content ++ terminator ++ after := by
    simp [text, Line.bytes]
  have read : ∀ index, text[before.length + index]? = (content ++ terminator ++ after)[index]? := by
    intro index
    rw [← dropped, List.getElem?_drop]
  rw [dropped]
  rcases ended with ⟨newline, clean⟩ | both
  · obtain rfl : terminator = [10] := newline
    have stopped : stop = before.length + content.length := by
      simp [stop, Line.bytes]
    have kept : ¬(before.length < stop ∧ text[stop - 1]? = some 13) := by
      rintro ⟨longer, carriage⟩
      have index : stop - 1 = before.length + (content.length - 1) := by omega
      rw [index, read, List.append_assoc, List.getElem?_append_left (by omega)] at carriage
      exact clean (by rw [List.getLast?_eq_getElem?]; exact carriage)
    rw [if_neg kept, stopped, Nat.add_sub_cancel_left]
    simp
  · obtain rfl : terminator = [13, 10] := both
    have stopped : stop = before.length + content.length + 1 := by
      simp [stop, Line.bytes]
      omega
    have stripped : before.length < stop ∧ text[stop - 1]? = some 13 := by
      refine ⟨by omega, ?_⟩
      rw [stopped, Nat.add_sub_cancel, read]
      simp
    rw [if_pos stripped, stopped, Nat.add_sub_cancel, Nat.add_sub_cancel_left]
    simp

theorem last_slice (before content : Str) :
    let text := before ++ content
    (text.drop before.length).take
        ((if before.length < text.length ∧ text[text.length - 1]? = some 13 then text.length - 1
          else text.length) - before.length) = content ↔
      ¬(content ≠ [] ∧ text.getLast? = some 13) := by
  intro text
  have dropped : text.drop before.length = content := by simp [text]
  have length : text.length = before.length + content.length := by simp [text]
  have longer : before.length < text.length ↔ content ≠ [] := by
    rw [length, ← List.length_pos_iff]
    omega
  rw [dropped, List.getLast?_eq_getElem?, ← longer]
  by_cases stripped : before.length < text.length ∧ text[text.length - 1]? = some 13
  · have shorter : content.take (text.length - 1 - before.length) ≠ content := by
      intro same
      have lengths := congrArg List.length same
      rw [List.length_take] at lengths
      omega
    rw [if_pos stripped]
    simp only [shorter, stripped, not_true_eq_false, and_self]
  · have whole : content.take (text.length - before.length) = content := by
      rw [length, Nat.add_sub_cancel_left, List.take_length]
    rw [if_neg stripped]
    simp only [whole, stripped, not_false_eq_true]

/-- What both paths compute of a line, given the table of line starts. -/
def sliceOf (text : Str) (starts : List Nat) (line : Nat) : Str :=
  let start := starts.getD (line - 1) 0
  let stop := if line < starts.length then starts.getD line 0 - 1 else text.length
  (text.drop start).take
    ((if start < stop ∧ text[stop - 1]? = some 13 then stop - 1 else stop) - start)

theorem last_content {before : List Line} {text content : Str}
    (whole : lines text = before ++ [(content, [])]) (carriage : text.getLast? = some 13) :
    content ≠ [] := by
  rintro rfl
  have bytes := lines_bytes text
  rw [whole, List.flatMap_append] at bytes
  have trailing : [(([], []) : Line)].flatMap Line.bytes = [] := rfl
  rw [trailing, List.append_nil] at bytes
  obtain ⟨before', content', same, ended⟩ := lines_split text
  rw [whole] at same
  obtain ⟨rfl, -⟩ := List.append_inj' same rfl
  rcases List.eq_nil_or_concat before with rfl | ⟨rest, last, rfl⟩
  · rw [← bytes] at carriage
    cases carriage
  · have newline : (Line.bytes last).getLast? = some 10 := by
      rcases ended last (by simp) with ⟨newline, -⟩ | both
      · rw [Line.bytes, newline]
        simp
      · rw [Line.bytes, both]
        simp
    have others : text = rest.flatMap Line.bytes ++ Line.bytes last := by
      rw [← bytes]
      simp
    rw [others, List.getLast?_append, newline] at carriage
    cases carriage

/-- The slice of a line is its content, except on a last line that ends in `\r`. -/
theorem slice_iff (text : Str) {before after : List Line} {line : Line}
    (whole : lines text = before ++ line :: after) :
    sliceOf text (offsets 0 (lines text)) (before.length + 1) = line.1 ↔
      ¬(after = [] ∧ text.getLast? = some 13) := by
  have start : (offsets 0 (lines text)).getD before.length 0 =
      (before.flatMap Line.bytes).length := by
    rw [whole, offsets_getD, Nat.zero_add]
  have bytes := lines_bytes text
  rw [whole, List.flatMap_append, List.flatMap_cons] at bytes
  obtain ⟨before', content, split, ended⟩ := lines_split text
  unfold sliceOf
  dsimp only
  rw [Nat.add_sub_cancel, start, offsets_length, whole, List.length_append, List.length_cons]
  cases after with
  | nil =>
      rw [whole] at split
      obtain ⟨rfl, same⟩ := List.append_inj' split rfl
      obtain rfl : line = (content, []) := (List.cons.inj same).1
      have text_eq : text = before.flatMap Line.bytes ++ content := by
        rw [← bytes]
        simp [Line.bytes]
      have cut := last_slice (before.flatMap Line.bytes) content
      dsimp only at cut
      rw [← text_eq] at cut
      have final : ¬before.length + 1 < before.length + (([] : List Line).length + 1) := by simp
      simp only [if_neg final]
      rw [cut]
      constructor
      · rintro exact' ⟨-, carriage⟩
        exact exact' ⟨last_content whole carriage, carriage⟩
      · rintro clean ⟨-, carriage⟩
        exact clean ⟨trivial, carriage⟩
  | cons next rest =>
      have inner : Ended line := by
        rw [whole] at split
        refine ended line ?_
        have lengths := congrArg List.length split
        simp only [List.length_append, List.length_cons, List.length_nil] at lengths
        have here := congrArg (fun all => all[before.length]?) split
        simp only [List.getElem?_append_right (Nat.le_refl _), Nat.sub_self] at here
        rw [List.getElem?_cons_zero, List.getElem?_append_left (by omega)] at here
        exact List.mem_of_getElem? here.symm
      have stop : (offsets 0 (lines text)).getD (before.length + 1) 0 =
          (before.flatMap Line.bytes).length + (Line.bytes line).length := by
        have longer := offsets_getD 0 (before ++ [line]) next rest
        rw [List.append_assoc, List.singleton_append, ← whole, List.length_append,
          List.length_singleton] at longer
        rw [longer, List.flatMap_append, List.length_append, Nat.zero_add]
        simp
      have text_eq : text = before.flatMap Line.bytes ++ Line.bytes line ++
          (next :: rest).flatMap Line.bytes := by
        rw [List.append_assoc, bytes]
      have cut := inner_slice (before.flatMap Line.bytes) inner ((next :: rest).flatMap Line.bytes)
      dsimp only at cut
      rw [← text_eq] at cut
      have further : before.length + 1 < before.length + ((next :: rest).length + 1) := by simp
      simp only [if_pos further]
      rw [← whole, stop, cut]
      simp

theorem line_split {all : List Line} {line : Nat} {found : Line} (present : 0 < line)
    (at' : all[line - 1]? = some found) :
    ∃ before after, all = before ++ found :: after ∧ before.length + 1 = line ∧
      (after = [] ↔ line = all.length) := by
  obtain ⟨inside, same⟩ := List.getElem?_eq_some_iff.mp at'
  have parts : all = all.take (line - 1) ++ found :: all.drop (line - 1 + 1) := by
    rw [← same, ← List.drop_eq_getElem_cons inside, List.take_append_drop]
  refine ⟨_, _, parts, ?_, ?_⟩
  · rw [List.length_take]
    omega
  · rw [List.drop_eq_nil_iff]
    omega

theorem in_range {map : SourceMap} {line : UInt64} (present : 0 < line.toNat)
    (last : line.toNat ≤ map.lineStarts.length) : map.outOfRange line = false := by
  rw [SourceMap.outOfRange, Bool.or_eq_false_iff, decide_eq_false_iff_not, decide_eq_false_iff_not]
  refine ⟨?_, by omega⟩
  rintro rfl
  cases present

theorem line_view_slice (text : Str) {line : UInt64} (present : 0 < line.toNat)
    (last : line.toNat ≤ (lines text).length) :
    (SourceMap.ofText text).lineView line = sliceOf text (offsets 0 (lines text)) line.toNat := by
  have starts : (SourceMap.ofText text).lineStarts = offsets 0 (lines text) :=
    line_starts_offsets 0 text
  have range := in_range present (by rw [starts, offsets_length]; exact last)
  have same : (SourceMap.ofText text).contiguous = text := rfl
  rw [SourceMap.lineView, range, if_neg Bool.false_ne_true, starts, same, sliceOf]
  dsimp only
  by_cases inner : line.toNat < (offsets 0 (lines text)).length
  · simp only [if_pos inner]
  · simp only [if_neg inner]

variable {text : SourceText}

theorem strip_file_eq (page : PageSize) {source : FileSource UInt8} (paged : Paged text.file source)
    {start stop : Nat} (inside : stop ≤ text.bytes.length) :
    Paged text.file (SourceMap.stripFile text.file page start stop source).2 ∧
      (SourceMap.stripFile text.file page start stop source).1 =
        some (if start < stop ∧ text.bytes[stop - 1]? = some 13 then stop - 1 else stop) := by
  unfold SourceMap.stripFile
  by_cases longer : start < stop
  · obtain ⟨kept, got⟩ := get_paged page paged (stop - 1)
    have found := got (by rw [file_count]; omega)
    have here := file_item text (show stop - 1 < text.bytes.length by omega)
    unfold FileSource.itemAt
    rcases read : source.get text.file page (stop - 1) with ⟨letter, after⟩
    rw [read] at found kept
    obtain rfl : letter = some (text.file.item (stop - 1)) := found
    rw [if_pos longer]
    refine ⟨kept, ?_⟩
    dsimp only
    rw [here]
    simp only [longer, true_and, Option.some.injEq]
  · rw [if_neg longer]
    exact ⟨paged, by simp [longer]⟩

theorem offsets_bounded (text : Str) {index : Nat} (inside : index < (lines text).length) :
    (offsets 0 (lines text)).getD index 0 ≤ text.length := by
  have found : (lines text)[index + 1 - 1]? = some ((lines text).get ⟨index, inside⟩) := by simp
  obtain ⟨before, after, whole, length, -⟩ := line_split (Nat.succ_pos index) found
  obtain rfl : before.length = index := Nat.succ.inj length
  have bytes := congrArg List.length (lines_bytes text)
  rw [whole, List.flatMap_append, List.length_append] at bytes
  rw [whole, offsets_getD]
  omega

/-- The strip and the loop that follows it. -/
theorem strip_slice_file (page : PageSize) {source : FileSource UInt8}
    (paged : Paged text.file source) {start stop : Nat} (bounded : start ≤ text.bytes.length)
    (inside : stop ≤ text.bytes.length) :
    (match (SourceMap.stripFile text.file page start stop source).1 with
      | none => (none, (SourceMap.stripFile text.file page start stop source).2)
      | some stop' => (SourceMap.stripFile text.file page start stop source).2.slice text.file page
          start (stop' - start)).1 =
      some ((text.bytes.drop start).take
        ((if start < stop ∧ text.bytes[stop - 1]? = some 13 then stop - 1 else stop) - start)) := by
  obtain ⟨kept, found⟩ := @strip_file_eq text page source paged start stop inside
  rw [found]
  dsimp only
  have within : start + ((if start < stop ∧ text.bytes[stop - 1]? = some 13 then stop - 1
      else stop) - start) ≤ text.bytes.length := by
    split_ifs <;> omega
  rw [(slice_paged _ _ _ kept).2 (by rw [file_count]; exact within), file_items text within]

theorem line_content_file_slice (page : PageSize) {source : FileSource UInt8}
    (paged : Paged text.file source) {map : SourceMap} (built : Built text map) {line : UInt64}
    (present : 0 < line.toNat) (last : line.toNat ≤ (lines text.bytes).length) :
    (map.lineContentFile text.file page line source).1 =
      some (sliceOf text.bytes (offsets 0 (lines text.bytes)) line.toNat) := by
  have starts : map.lineStarts = offsets 0 (lines text.bytes) := by
    rw [built.line_starts]
    exact line_starts_offsets 0 text.bytes
  have range := in_range present (by rw [starts, offsets_length]; exact last)
  have size : source.size = text.bytes.length := by rw [FileSource.size, paged.size, file_count]
  have bounded := offsets_bounded text.bytes (show line.toNat - 1 < _ by omega)
  rw [SourceMap.lineContentFile, range, if_neg Bool.false_ne_true, starts, size, sliceOf]
  dsimp only
  by_cases inner : line.toNat < (offsets 0 (lines text.bytes)).length
  · have next := offsets_bounded text.bytes (show line.toNat < _ by rwa [offsets_length] at inner)
    simp only [if_pos inner]
    exact strip_slice_file page paged bounded (by omega)
  · simp only [if_neg inner]
    exact strip_slice_file page paged bounded (Nat.le_refl _)

/-- The contents of the lines, from memory and from a file, are what stands before
the terminators, for every line but a last one that ends in `\r`. The lines with
their terminators are the text. -/
theorem line_contents_iff (text : SourceText) :
    (lines text.bytes).flatMap Line.bytes = text.bytes ∧
      (∀ map, Built text map → map.lineStarts.length = (lines text.bytes).length) ∧
      ∀ (line : UInt64) (found : Line), 0 < line.toNat →
        (lines text.bytes)[line.toNat - 1]? = some found →
        ((SourceMap.ofText text.bytes).lineView line = found.1 ↔
            ¬(line.toNat = (lines text.bytes).length ∧ text.bytes.getLast? = some 13)) ∧
          ((SourceMap.ofText text.bytes).lineContent line = found.1 ↔
            ¬(line.toNat = (lines text.bytes).length ∧ text.bytes.getLast? = some 13)) ∧
          ∀ (map : SourceMap) (page : PageSize) (source : FileSource UInt8), Built text map →
            Paged text.file source →
            ((map.lineContentFile text.file page line source).1 = some found.1 ↔
              ¬(line.toNat = (lines text.bytes).length ∧ text.bytes.getLast? = some 13)) := by
  refine ⟨lines_bytes text.bytes, ?_, ?_⟩
  · intro map built
    rw [built.line_starts, line_starts_offsets, offsets_length]
  · intro line found present at'
    obtain ⟨inside, -⟩ := List.getElem?_eq_some_iff.mp at'
    have last : line.toNat ≤ (lines text.bytes).length := by omega
    obtain ⟨before, after, whole, length, final⟩ := line_split present at'
    have slice := slice_iff text.bytes whole
    rw [length, final] at slice
    have view := line_view_slice text.bytes present last
    have content : (SourceMap.ofText text.bytes).lineContent line =
        (SourceMap.ofText text.bytes).lineView line := by
      rw [SourceMap.lineContent, SourceMap.lineView]
      split_ifs <;> rfl
    refine ⟨by rw [view]; exact slice, by rw [content, view]; exact slice, ?_⟩
    intro map page source built paged
    rw [line_content_file_slice page paged built present last, Option.some.injEq]
    exact slice

/-- A `\r` at the end of a source is content, and is dropped. -/
theorem final_carriage_dropped :
    lines (ascii "a" ++ [13]) = [(ascii "a" ++ [13], [])] ∧
      (SourceMap.ofText (ascii "a" ++ [13])).lineView 1 = ascii "a" ∧
      ascii "a" ≠ ascii "a" ++ [13] := by
  decide

def threeLines : SourceText := ⟨ascii "a" ++ [13, 10] ++ ascii "b" ++ [13, 10], by decide⟩

theorem second_line_content : (SourceMap.ofText threeLines.bytes).lineView 2 = ascii "b" :=
  ((line_contents_iff threeLines).2.2 2 (ascii "b", [13, 10]) (by decide) (by decide)).1.mpr
    (by decide)

end Contents

end Peglib.SourceLines
