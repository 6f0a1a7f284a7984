import Mathlib.Tactic.Common

/-!
# Reading code words off a stream

A code is uniquely decodable when one function reads any of its words off the
front of any text. Such a reader gets back every message, up to whatever it
cannot read, so that different messages have different texts.
-/

namespace Peglib.StreamDecoding

set_option autoImplicit false

variable {Source Letter : Type}

/-- `decode` reads the word of every valid symbol, and no symbol off nothing. -/
structure Reads (valid : Source → Prop) (encode : Source → List Letter)
    (decode : List Letter → Option (Source × List Letter)) : Prop where
  word : ∀ symbol rest, valid symbol → decode (encode symbol ++ rest) = some (symbol, rest)
  nothing : decode [] = none

/-- The symbols read until the reader stops, and what it leaves. -/
def message (decode : List Letter → Option (Source × List Letter)) :
    Nat → List Letter → List Source × List Letter
  | 0, text => ([], text)
  | fuel + 1, text =>
      match decode text with
      | none => ([], text)
      | some (symbol, rest) =>
          (symbol :: (message decode fuel rest).1, (message decode fuel rest).2)

variable {valid : Source → Prop} {encode : Source → List Letter}
  {decode : List Letter → Option (Source × List Letter)}

theorem Reads.message_eq (reads : Reads valid encode decode) {symbols : List Source}
    (allValid : ∀ symbol ∈ symbols, valid symbol) {stop : List Letter} (stops : decode stop = none)
    {fuel : Nat} (enough : symbols.length ≤ fuel) :
    message decode fuel (symbols.flatMap encode ++ stop) = (symbols, stop) := by
  induction symbols generalizing fuel with
  | nil =>
      cases fuel with
      | zero => rfl
      | succ fuel =>
          have text : [].flatMap encode ++ stop = stop := rfl
          rw [text, message, stops]
  | cons symbol rest induction =>
      obtain ⟨less, rfl⟩ : ∃ less, fuel = less + 1 := ⟨fuel - 1, by simp at enough; omega⟩
      have later : message decode less (rest.flatMap encode ++ stop) = (rest, stop) :=
        induction (fun other member => allValid other (List.mem_cons_of_mem _ member))
          (by simpa using enough)
      rw [List.flatMap_cons, List.append_assoc, message,
        reads.word symbol _ (allValid symbol List.mem_cons_self)]
      simp only [later]

theorem Reads.flatMap_injective (reads : Reads valid encode decode) {left right : List Source}
    (leftValid : ∀ symbol ∈ left, valid symbol) (rightValid : ∀ symbol ∈ right, valid symbol)
    (same : left.flatMap encode = right.flatMap encode) : left = right := by
  have readLeft := reads.message_eq leftValid reads.nothing (Nat.le_max_left _ right.length)
  have readRight := reads.message_eq rightValid reads.nothing (Nat.le_max_right left.length _)
  rw [same, readRight] at readLeft
  exact (congrArg Prod.fst readLeft).symm

end Peglib.StreamDecoding
