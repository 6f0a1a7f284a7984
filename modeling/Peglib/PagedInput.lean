import Mathlib.Algebra.Group.Nat.Defs
import Mathlib.Data.Fin.VecNotation
import Mathlib.Logic.Function.Basic
import Mathlib.Tactic.Common

/-!
# Paged file input

Transcription of `FileSource.h` and of `FileSourceSource` in `InputSource.h`,
over a file that does not change. The standard streams are modelled by the byte
position they are at. A read outside the items a buffer holds, or one that
fails an assertion, has no value. What `fread` leaves of a partial last item is
indeterminate and not kept.
-/

namespace Peglib.PagedInput

set_option autoImplicit false

/-- The bytes of a file and how an item is stored in them. A file offset is a
`long`. -/
structure File (Item : Type) where
  bytes : List UInt8
  sizeOf : Nat
  decode : List UInt8 → Item
  sized : 0 < sizeOf
  addressable : bytes.length < 2 ^ 63

/-- `fseek(fp, offset, SEEK_SET)`: the new position, unless the offset is negative. -/
def fseek (offset : Int) : Option Nat :=
  if offset < 0 then none else some offset.toNat

/-- The template parameter, behind its `static_assert`. -/
abbrev PageSize : Type := { size : Nat // 0 < size }

namespace File

variable {Item : Type} (file : File Item)

/-- `file_size(path) / sizeof(value_type)`. -/
def count : Nat := file.bytes.length / file.sizeOf

def item (index : Nat) : Item :=
  file.decode ((file.bytes.drop (index * file.sizeOf)).take file.sizeOf)

/-- The content of the file, as a contiguous source holds it. -/
def items : List Item := (List.range file.count).map file.item

theorem items_length : file.items.length = file.count := by
  rw [items, List.length_map, List.length_range]

theorem items_read {index : Nat} (inside : index < file.count) :
    file.items[index]? = some (file.item index) := by
  rw [items, List.getElem?_map, List.getElem?_range inside, Option.map_some]

/-- `fread(buffer, sizeof(value_type), items, fp)`: the whole items that were
read, and the new position. -/
def fread (position items : Nat) : List Item × Nat :=
  let left := file.bytes.drop position
  ((List.range (min items (left.length / file.sizeOf))).map fun index =>
      file.decode ((left.drop (index * file.sizeOf)).take file.sizeOf),
    position + min (items * file.sizeOf) left.length)

end File

structure Buffer (Item : Type) where
  buf : List Item := []
  validCount : Nat := 0
  bufFrom : Nat := 0
  bufTo : Nat := 0

namespace Buffer

variable {Item : Type}

/-- `buffer::read`: the number of items read, the buffer, and the stream. -/
def read (file : File Item) (position nItems : Nat) (buffer : Buffer Item) :
    Nat × Buffer Item × Nat :=
  let bufFrom := position / file.sizeOf
  let (items, position) := file.fread position nItems
  (items.length,
    { buf := items ++ buffer.buf.drop items.length
      validCount := items.length
      bufFrom := bufFrom
      bufTo := bufFrom + items.length },
    position)

def clear (buffer : Buffer Item) : Buffer Item :=
  { buffer with validCount := 0, bufFrom := 0, bufTo := 0 }

/-- `in`. -/
def has (buffer : Buffer Item) (pos : Nat) : Bool :=
  decide (buffer.bufFrom ≤ pos) && decide (pos < buffer.bufTo)

def getUnchecked (buffer : Buffer Item) (pos : Nat) : Option Item :=
  buffer.buf[pos - buffer.bufFrom]?

end Buffer

/-- `fp` is empty once the source has been moved from. -/
structure FileSource (Item : Type) where
  fileSize : Nat := 0
  bufs : Fin 2 → Buffer Item := fun _ => {}
  currentBuf : Fin 2 := 0
  fp : Option Nat := none

namespace FileSource

variable {Item : Type}

/-- The constructor. -/
def openFile (file : File Item) (page : PageSize) : FileSource Item :=
  let (n0, first, position) := Buffer.read file 0 page {}
  if n0 = page then
    let (_, second, position) := Buffer.read file position page {}
    { fileSize := file.count, bufs := ![first, second], fp := some position }
  else { fileSize := file.count, bufs := ![first, {}], fp := some position }

/-- The moving constructor: the new source, and what is left of the old one. -/
def move (source : FileSource Item) : FileSource Item × FileSource Item :=
  ({ fileSize := source.fileSize
     bufs := source.bufs
     currentBuf := source.currentBuf
     fp := source.fp },
    { source with fp := none, fileSize := 0, currentBuf := 0 })

def readTo (file : File Item) (page : PageSize) (itemPos : Nat) (index : Fin 2)
    (source : FileSource Item) : Option (FileSource Item) :=
  if source.fileSize ≤ itemPos then none
  else do
    let _ ← source.fp
    let bufPos := itemPos - itemPos % page
    let position ← fseek (Int.bmod (bufPos * file.sizeOf : Nat) (2 ^ 64))
    let (count, buffer, position) := (source.bufs index).read file position page
    if 0 < count then
      some { source with bufs := Function.update source.bufs index buffer, fp := some position }
    else none

def get (file : File Item) (page : PageSize) (pos : Nat) (source : FileSource Item) :
    Option Item × FileSource Item :=
  if pos < source.fileSize then
    if (source.bufs source.currentBuf).has pos then
      ((source.bufs source.currentBuf).getUnchecked pos, source)
    else
      let other := 1 - source.currentBuf
      if (source.bufs other).has pos then
        ((source.bufs other).getUnchecked pos, { source with currentBuf := other })
      else
        match source.readTo file page pos 0 with
        | some filled => ((filled.bufs 0).getUnchecked pos, { filled with currentBuf := 0 })
        | none => (none, source)
  else (none, source)

/-- `at`. -/
def itemAt (file : File Item) (page : PageSize) (pos : Nat) (source : FileSource Item) :
    Option Item × FileSource Item :=
  source.get file page pos

def size (source : FileSource Item) : Nat := source.fileSize

def releaseBefore (pos : Nat) (source : FileSource Item) : FileSource Item :=
  { source with
    bufs := fun index =>
      if (source.bufs index).bufTo ≤ pos then (source.bufs index).clear else source.bufs index }

/-- `slice` of a source without contiguous data. -/
def slice (file : File Item) (page : PageSize) (offset : Nat) :
    Nat → FileSource Item → Option (List Item) × FileSource Item
  | 0, source => (some [], source)
  | count + 1, source =>
      match source.itemAt file page offset with
      | (none, after) => (none, after)
      | (some item, after) =>
          let (rest, last) := slice file page (offset + 1) count after
          (rest.map fun items => item :: items, last)

end FileSource

/-- The calls a source may receive. -/
inductive Call where
  | itemAt (pos : Nat)
  | slice (offset count : Nat)
  | releaseBefore (offset : Nat)
  | move

variable {Item : Type}

def Call.perform (file : File Item) (page : PageSize) (source : FileSource Item) :
    Call → FileSource Item
  | .itemAt pos => (source.itemAt file page pos).2
  | .slice offset count => (source.slice file page offset count).2
  | .releaseBefore offset => source.releaseBefore offset
  | .move => source.move.1

/-- The items between `bufFrom` and `bufTo` are those of the file. -/
def Window (file : File Item) (buffer : Buffer Item) : Prop :=
  ∀ pos, buffer.bufFrom ≤ pos → pos < buffer.bufTo →
    buffer.getUnchecked pos = some (file.item pos)

structure Paged (file : File Item) (source : FileSource Item) : Prop where
  size : source.fileSize = file.count
  opened : source.fp.isSome = true
  windows : ∀ index, Window file (source.bufs index)

section Reads

variable {file : File Item} {page : PageSize}

theorem window_empty (buffer : Buffer Item) (empty : buffer.bufTo ≤ buffer.bufFrom) :
    Window file buffer := by
  intro pos low high
  omega

/-- What `fread` delivers from the start of an item. -/
theorem fread_items (file : File Item) (first nItems : Nat) :
    (file.fread (first * file.sizeOf) nItems).1 =
      (List.range (min nItems (file.count - first))).map fun index => file.item (first + index) := by
  have left : (file.bytes.drop (first * file.sizeOf)).length / file.sizeOf =
      file.count - first := by
    rw [List.length_drop, Nat.mul_comm, Nat.sub_mul_div, File.count]
  unfold File.fread File.item
  simp only [left, List.drop_drop, Nat.add_mul]

theorem read_window (file : File Item) (first nItems : Nat) (buffer : Buffer Item) :
    Window file (buffer.read file (first * file.sizeOf) nItems).2.1 ∧
      (buffer.read file (first * file.sizeOf) nItems).2.1.bufFrom = first ∧
      (buffer.read file (first * file.sizeOf) nItems).2.1.bufTo =
        first + min nItems (file.count - first) ∧
      (buffer.read file (first * file.sizeOf) nItems).1 = min nItems (file.count - first) := by
  have start : first * file.sizeOf / file.sizeOf = first := Nat.mul_div_cancel _ file.sized
  have read := fread_items file first nItems
  have length : (file.fread (first * file.sizeOf) nItems).1.length =
      min nItems (file.count - first) := by
    rw [read, List.length_map, List.length_range]
  refine ⟨?_, start, ?_, length⟩
  · intro pos low high
    simp only [Buffer.read, start, length] at low high
    have inside : pos - first < min nItems (file.count - first) := by omega
    simp only [Buffer.getUnchecked, Buffer.read, start]
    rw [List.getElem?_append_left (by rw [length]; exact inside), read, List.getElem?_map,
      List.getElem?_range inside, Option.map_some, Nat.add_sub_cancel' low]
  · simp only [Buffer.read, start, length]

theorem open_paged : Paged file (FileSource.openFile file page) := by
  have first := read_window file 0 page ({} : Buffer Item)
  rw [Nat.zero_mul] at first
  have empty : Window file ({} : Buffer Item) := window_empty _ (Nat.le_refl 0)
  unfold FileSource.openFile
  dsimp only
  split_ifs with full
  · have aligned : (Buffer.read file 0 page ({} : Buffer Item)).2.2 = page * file.sizeOf := by
      have enough : page * file.sizeOf ≤ file.bytes.length := by
        rw [← Nat.le_div_iff_mul_le file.sized]
        have counted := first.2.2.2
        rw [File.count] at counted
        omega
      simp only [Buffer.read, File.fread, List.drop_zero, Nat.zero_add]
      exact Nat.min_eq_left enough
    refine ⟨rfl, rfl, fun index => ?_⟩
    match index with
    | 0 => exact first.1
    | 1 =>
        rw [aligned]
        exact (read_window file page page {}).1
  · refine ⟨rfl, rfl, fun index => ?_⟩
    match index with
    | 0 => exact first.1
    | 1 => exact empty

variable {source : FileSource Item}

theorem move_paged (paged : Paged file source) : Paged file source.move.1 :=
  ⟨paged.size, paged.opened, paged.windows⟩

theorem release_paged (paged : Paged file source) (offset : Nat) :
    Paged file (source.releaseBefore offset) := by
  refine ⟨paged.size, paged.opened, fun index => ?_⟩
  dsimp only [FileSource.releaseBefore]
  split_ifs
  · exact window_empty _ (Nat.le_refl 0)
  · exact paged.windows index

/-- The page of an item of the file starts at an offset that fits a `long`. -/
theorem seek_page {pos : Nat} (inside : pos < file.count) :
    fseek (Int.bmod (((pos - pos % page) * file.sizeOf : Nat) : Int) (2 ^ 64)) =
      some ((pos - pos % page) * file.sizeOf) := by
  have whole : pos * file.sizeOf < 2 ^ 63 := by
    have below : pos * file.sizeOf ≤ file.count * file.sizeOf :=
      Nat.mul_le_mul_right _ (Nat.le_of_lt inside)
    have read : file.count * file.sizeOf ≤ file.bytes.length := Nat.div_mul_le_self _ _
    exact Nat.lt_of_le_of_lt (Nat.le_trans below read) file.addressable
  have low : (pos - pos % page) * file.sizeOf < 2 ^ 63 :=
    Nat.lt_of_le_of_lt (Nat.mul_le_mul_right _ (Nat.sub_le _ _)) whole
  generalize (pos - pos % page) * file.sizeOf = offset at low
  have same : Int.bmod (offset : Int) (2 ^ 64) = offset := by
    rw [Int.bmod_def]
    omega
  rw [same, fseek, if_neg (by omega), Int.toNat_natCast]

/-- Refilling a buffer brings in the page of the item asked for. -/
theorem read_to_paged (page : PageSize) (paged : Paged file source) {pos : Nat} (inside : pos < file.count)
    (index : Fin 2) :
    ∃ filled, source.readTo file page pos index = some filled ∧ Paged file filled ∧
      (filled.bufs index).getUnchecked pos = some (file.item pos) := by
  obtain ⟨position, opened⟩ := Option.isSome_iff_exists.mp paged.opened
  obtain ⟨window, low, high, count⟩ :=
    read_window file (pos - pos % page) page (source.bufs index)
  have remainder : pos % page < page := Nat.mod_lt _ page.2
  have nonempty : 0 < min page.1 (file.count - (pos - pos % page)) := by
    have positive := page.2
    omega
  unfold FileSource.readTo
  rw [if_neg (by rw [paged.size]; omega)]
  simp only [opened, seek_page inside, Option.bind_eq_bind, Option.bind_some]
  rw [if_pos (by rw [count]; exact nonempty)]
  refine ⟨_, rfl, ⟨paged.size, rfl, fun other => ?_⟩, ?_⟩
  · dsimp only
    by_cases same : other = index
    · rw [same, Function.update_self]
      exact window
    · rw [Function.update_of_ne same]
      exact paged.windows other
  · dsimp only
    rw [Function.update_self]
    refine window pos (by rw [low]; omega) ?_
    rw [high]
    omega

theorem has_iff {buffer : Buffer Item} {pos : Nat} :
    buffer.has pos = true ↔ buffer.bufFrom ≤ pos ∧ pos < buffer.bufTo := by
  rw [Buffer.has, Bool.and_eq_true, decide_eq_true_eq, decide_eq_true_eq]

theorem get_paged (page : PageSize) (paged : Paged file source) (pos : Nat) :
    Paged file (source.get file page pos).2 ∧
      (pos < file.count → (source.get file page pos).1 = some (file.item pos)) := by
  have held : ∀ index, (source.bufs index).has pos = true →
      (source.bufs index).getUnchecked pos = some (file.item pos) := by
    intro index has
    have bounds := has_iff.mp has
    exact paged.windows index pos bounds.1 bounds.2
  unfold FileSource.get
  dsimp only
  split_ifs with inside current other
  · exact ⟨paged, fun _ => held _ current⟩
  · exact ⟨⟨paged.size, paged.opened, paged.windows⟩, fun _ => held _ other⟩
  · obtain ⟨filled, read, filledPaged, got⟩ :=
      read_to_paged page paged (by rw [← paged.size]; exact inside) 0
    rw [read]
    exact ⟨⟨filledPaged.size, filledPaged.opened, filledPaged.windows⟩, fun _ => got⟩
  · exact ⟨paged, fun below => absurd (by rw [paged.size]; exact below) inside⟩

/-- The items from `offset` on, read one by one. -/
theorem slice_paged (count : Nat) : ∀ (offset : Nat) (source : FileSource Item),
    Paged file source →
      Paged file (source.slice file page offset count).2 ∧
        (offset + count ≤ file.count → (source.slice file page offset count).1 =
          some ((List.range' offset count).map file.item)) := by
  induction count with
  | zero => exact fun offset source paged => ⟨paged, fun _ => rfl⟩
  | succ count induction =>
      intro offset source paged
      obtain ⟨kept, got⟩ := get_paged page paged offset
      unfold FileSource.slice FileSource.itemAt
      rcases read : source.get file page offset with ⟨found, after⟩
      rw [read] at kept got
      cases found with
      | none =>
          refine ⟨kept, fun inside => ?_⟩
          cases got (by omega)
      | some item =>
          obtain ⟨last, rest⟩ := induction (offset + 1) after kept
          refine ⟨last, fun inside => ?_⟩
          have first : item = file.item offset := Option.some.inj (got (by omega))
          dsimp only
          rw [rest (by omega), first, List.range'_succ, List.map_cons, Option.map_some]

theorem perform_paged (paged : Paged file source) (call : Call) :
    Paged file (call.perform file page source) := by
  cases call with
  | itemAt pos => exact (get_paged page paged pos).1
  | slice offset count => exact (slice_paged count offset source paged).1
  | releaseBefore offset => exact release_paged paged offset
  | move => exact move_paged paged

/-- The invariant of every source that calls lead to. -/
theorem calls_paged (calls : List Call) (paged : Paged file source) :
    Paged file (calls.foldl (Call.perform file page) source) := by
  induction calls generalizing source with
  | nil => exact paged
  | cons call rest induction => exact induction (perform_paged paged call)

end Reads

end Peglib.PagedInput
