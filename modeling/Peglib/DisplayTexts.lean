import Peglib.Expressions
import Peglib.StreamDecoding

/-!
# Display texts tell literals apart

The text that a failed literal is recorded under is its elements as UTF-8, each
byte escaped, in quotes. Both encoders can be read back symbol by symbol, so two
literals of one element type never share a text.
-/

namespace Peglib.DisplayTexts

open Peglib.ParseError Peglib.StreamDecoding

set_option autoImplicit false

section Escapes

def hexValue (digit : UInt8) : Nat :=
  if digit < 65 then digit.toNat - 48 else digit.toNat - 55

/-- Reads one byte back from its escape; a quote ends the text. -/
def unescapeByte : Str → Option (UInt8 × Str)
  | [] => none
  | first :: rest =>
      if first = 34 then none
      else if first ≠ 92 then some (first, rest)
      else
        match rest with
        | [] => none
        | letter :: rest =>
            if letter = 116 then some (9, rest)
            else if letter = 110 then some (10, rest)
            else if letter = 114 then some (13, rest)
            else if letter = 120 then
              match rest with
              | high :: low :: rest => some ((16 * hexValue high + hexValue low).toUInt8, rest)
              | _ => none
            else some (letter, rest)

theorem hex_value_digit (value : Nat) (small : value < 16) : hexValue (hexDigit value) = value := by
  have all : ∀ value : Fin 16, hexValue (hexDigit value) = value := by decide
  exact all ⟨value, small⟩

theorem hex_padded_two (value : Nat) :
    hexPadded 2 value = [hexDigit (value / 16 % 16), hexDigit (value % 16)] := rfl

theorem unescape_reads : Reads (fun _ => True) escapeByte unescapeByte where
  nothing := rfl
  word byte rest _ := by
    unfold escapeByte
    split_ifs with tab newline carriage backslash quote printable
    · rw [tab]; rfl
    · rw [newline]; rfl
    · rw [carriage]; rfl
    · rw [backslash]; rfl
    · rw [quote]; rfl
    · simp only [List.cons_append, List.nil_append, unescapeByte]
      rw [if_neg quote, if_pos backslash]
    · rw [hex_padded_two]
      have read : unescapeByte ((ascii "\\x" ++ [hexDigit (byte.toNat / 16 % 16),
          hexDigit (byte.toNat % 16)]) ++ rest) =
          some ((16 * hexValue (hexDigit (byte.toNat / 16 % 16)) +
            hexValue (hexDigit (byte.toNat % 16))).toUInt8, rest) := rfl
      rw [read, hex_value_digit _ (Nat.mod_lt _ (by omega)),
        hex_value_digit _ (Nat.mod_lt _ (by omega))]
      have bound := byte.toNat_lt
      have value : 16 * (byte.toNat / 16 % 16) + byte.toNat % 16 = byte.toNat := by omega
      rw [value]
      simp

/-- What may stand in a display text. -/
def Printable (byte : UInt8) : Prop := 0x20 ≤ byte ∧ byte ≤ 0x7E

instance (byte : UInt8) : Decidable (Printable byte) := inferInstanceAs (Decidable (_ ∧ _))

theorem hex_digit_printable (value : Nat) (small : value < 16) : Printable (hexDigit value) := by
  have all : ∀ value : Fin 16, Printable (hexDigit value) := by decide
  exact all ⟨value, small⟩

theorem all_printable {text : Str} (all : (text.all fun letter => decide (Printable letter)) = true) :
    ∀ letter ∈ text, Printable letter := by
  simpa using all

theorem escape_byte_printable (byte : UInt8) : ∀ letter ∈ escapeByte byte, Printable letter := by
  unfold escapeByte
  split_ifs with tab newline carriage backslash quote printable
  · exact all_printable rfl
  · exact all_printable rfl
  · exact all_printable rfl
  · exact all_printable rfl
  · exact all_printable rfl
  · intro letter member
    rw [List.mem_singleton.mp member]
    exact printable
  · rw [hex_padded_two]
    intro letter member
    rcases List.mem_append.mp member with mark | digit
    · exact all_printable rfl letter mark
    · simp only [List.mem_cons, List.not_mem_nil, or_false] at digit
      rcases digit with rfl | rfl
      · exact hex_digit_printable _ (Nat.mod_lt _ (by omega))
      · exact hex_digit_printable _ (Nat.mod_lt _ (by omega))

theorem escape_string_printable (text : Str) :
    ∀ letter ∈ escapeStringForExpected text, Printable letter := by
  intro letter member
  rcases List.mem_append.mp member with inner | quote
  · rcases List.mem_append.mp inner with quote | escaped
    · rw [List.mem_singleton.mp quote]
      decide
    · obtain ⟨byte, -, held⟩ := List.mem_flatMap.mp escaped
      exact escape_byte_printable byte letter held
  · rw [List.mem_singleton.mp quote]
    decide

theorem escape_string_injective {left right : Str}
    (same : escapeStringForExpected left = escapeStringForExpected right) : left = right := by
  unfold escapeStringForExpected at same
  have inner := List.append_cancel_left (List.append_cancel_right same)
  exact unescape_reads.flatMap_injective (fun _ _ => trivial) (fun _ _ => trivial) inner

end Escapes

section CodePoints

def maxCodePoint : Nat := 0x10FFFF

/-- The low six bits that a byte after the first carries. -/
def tailBits (byte : UInt8) : Nat := byte.toNat - 0x80

/-- Reads one code point back; the first byte says how many follow. -/
def decodeCodePoint : Str → Option (Nat × Str)
  | [] => none
  | first :: rest =>
      if first.toNat < 0x80 then some (first.toNat, rest)
      else if first.toNat < 0xE0 then
        match rest with
        | second :: rest => some ((first.toNat - 0xC0) * 2 ^ 6 + tailBits second, rest)
        | _ => none
      else if first.toNat < 0xF0 then
        match rest with
        | second :: third :: rest =>
            some ((first.toNat - 0xE0) * 2 ^ 12 + tailBits second * 2 ^ 6 + tailBits third, rest)
        | _ => none
      else
        match rest with
        | second :: third :: fourth :: rest =>
            some ((first.toNat - 0xF0) * 2 ^ 18 + tailBits second * 2 ^ 12 + tailBits third * 2 ^ 6 +
              tailBits fourth, rest)
        | _ => none

theorem marked_byte (lead mark width value : Nat) (leads : lead = mark * 2 ^ width)
    (small : value < 2 ^ width) (fits : lead + value < 256) :
    (lead ||| value).toUInt8.toNat = lead + value := by
  have sum : lead ||| value = lead + value := by
    rw [leads, Nat.mul_comm]
    exact (Nat.two_pow_add_eq_or_of_lt small mark).symm
  rw [sum]
  exact UInt8.toNat_ofNat_of_lt' fits

theorem tail_bits_marked (value : Nat) :
    tailBits (0x80 ||| (value &&& 0x3F)).toUInt8 = value % 64 := by
  have low : value &&& 0x3F = value % 64 := Nat.and_two_pow_sub_one_eq_mod value 6
  have bound : value % 64 < 64 := Nat.mod_lt _ (by omega)
  have byte := marked_byte 0x80 2 6 (value % 64) rfl bound (by omega)
  have bits : ∀ byte : UInt8, byte.toNat = 0x80 + value % 64 → tailBits byte = value % 64 := by
    intro byte marked
    unfold tailBits
    omega
  refine bits _ ?_
  rw [low]
  exact byte

theorem decode_reads :
    Reads (fun codePoint => codePoint ≤ maxCodePoint) (integralToDisplay false) decodeCodePoint where
  nothing := rfl
  word codePoint rest small := by
    unfold maxCodePoint at small
    unfold integralToDisplay
    rw [if_neg Bool.false_ne_true]
    simp only [Nat.shiftRight_eq_div_pow]
    split_ifs with one two three
    · have byte : codePoint.toUInt8.toNat = codePoint :=
        UInt8.toNat_ofNat_of_lt' (Nat.lt_of_le_of_lt one (by decide))
      simp only [List.cons_append, List.nil_append, decodeCodePoint, byte]
      rw [if_pos (by omega)]
    · have first := marked_byte 0xC0 6 5 (codePoint / 2 ^ 6) rfl (by omega) (by omega)
      simp only [List.cons_append, List.nil_append, decodeCodePoint, tail_bits_marked, first]
      rw [if_neg (by omega), if_pos (by omega)]
      have value : (192 + codePoint / 2 ^ 6 - 192) * 2 ^ 6 + codePoint % 64 = codePoint := by omega
      rw [value]
    · have first := marked_byte 0xE0 14 4 (codePoint / 2 ^ 12) rfl (by omega) (by omega)
      simp only [List.cons_append, List.nil_append, decodeCodePoint, tail_bits_marked, first]
      rw [if_neg (by omega), if_neg (by omega), if_pos (by omega)]
      have value : (224 + codePoint / 2 ^ 12 - 224) * 2 ^ 12 + codePoint / 2 ^ 6 % 64 * 2 ^ 6 +
          codePoint % 64 = codePoint := by omega
      rw [value]
    · have first := marked_byte 0xF0 30 3 (codePoint / 2 ^ 18) rfl (by omega) (by omega)
      simp only [List.cons_append, List.nil_append, decodeCodePoint, tail_bits_marked, first]
      rw [if_neg (by omega), if_neg (by omega), if_neg (by omega)]
      have value : (240 + codePoint / 2 ^ 18 - 240) * 2 ^ 18 + codePoint / 2 ^ 12 % 64 * 2 ^ 12 +
          codePoint / 2 ^ 6 % 64 * 2 ^ 6 + codePoint % 64 = codePoint := by omega
      rw [value]

end CodePoints

section Literals

/-- The text a failed literal is recorded under. -/
def literalText {CharT : Type} [PegValue CharT] (values : List CharT) : Str :=
  escapeStringForExpected (values.flatMap PegValue.toDisplay)

/-- What a failing literal puts on record, wherever it fails. -/
def RecordedAs {CharT : Type} [PegValue CharT] (values : List CharT) (item : ExpectedItem) : Prop :=
  ∀ context : ParseContext.Context CharT,
    Expressions.TerminalSeqExpr.recordExpected values context =
      context.recordFailureLazy context.position fun _ => item

theorem recorded_text {CharT : Type} [PegValue CharT] (values : List CharT) :
    RecordedAs values ⟨.literal, literalText values⟩ := fun _ => rfl

theorem byte_display (values : Str) : values.flatMap PegValue.toDisplay = values := by
  induction values with
  | nil => rfl
  | cons value rest induction =>
      have single : PegValue.toDisplay value = [value] := by
        simp [PegValue.toDisplay, integralToDisplay]
      rw [List.flatMap_cons, induction, single]
      rfl

theorem wide_display (values : List UInt32) :
    values.flatMap PegValue.toDisplay =
      (values.map UInt32.toNat).flatMap (integralToDisplay false) := by
  rw [List.flatMap_map]
  rfl

theorem byte_texts_injective {left right : Str} (same : literalText left = literalText right) :
    left = right := by
  have displays := escape_string_injective same
  rwa [byte_display, byte_display] at displays

theorem wide_texts_injective {left right : List UInt32}
    (leftSmall : ∀ value ∈ left, value.toNat ≤ maxCodePoint)
    (rightSmall : ∀ value ∈ right, value.toNat ≤ maxCodePoint)
    (same : literalText left = literalText right) : left = right := by
  have displays := escape_string_injective same
  rw [wide_display, wide_display] at displays
  have points : left.map UInt32.toNat = right.map UInt32.toNat := by
    refine decode_reads.flatMap_injective ?_ ?_ displays
    · simpa using leftSmall
    · simpa using rightSmall
  exact (List.map_inj_right fun _ _ => UInt32.toNat_inj.mp).mp points

/-- Two different literals are recorded under different texts, of printable ASCII
only, and each text is read back to its literal. -/
theorem literal_texts_faithful :
    ((∀ values : Str, RecordedAs values ⟨.literal, literalText values⟩) ∧
      ∀ values : List UInt32, RecordedAs values ⟨.literal, literalText values⟩) ∧
    (∀ left right : Str, left ≠ right → literalText left ≠ literalText right) ∧
    (∀ left right : List UInt32, (∀ value ∈ left, value.toNat ≤ maxCodePoint) →
      (∀ value ∈ right, value.toNat ≤ maxCodePoint) → left ≠ right →
      literalText left ≠ literalText right) ∧
    (∀ values : Str, ∀ letter ∈ literalText values, Printable letter) ∧
    ∀ values : List UInt32, ∀ letter ∈ literalText values, Printable letter := by
  refine ⟨⟨recorded_text, recorded_text⟩, fun left right different same => ?_,
    fun left right leftSmall rightSmall different same => ?_, fun values => ?_, fun values => ?_⟩
  · exact different (byte_texts_injective same)
  · exact different (wide_texts_injective leftSmall rightSmall same)
  · exact escape_string_printable _
  · exact escape_string_printable _

theorem literals_apart :
    RecordedAs (ascii "\"") ⟨.literal, literalText (ascii "\"")⟩ ∧
      literalText (ascii "\"") ≠ literalText (ascii "\\") ∧
      literalText [(0xE9 : UInt32)] ≠ literalText [(0x10FFFF : UInt32)] :=
  ⟨literal_texts_faithful.1.1 _, literal_texts_faithful.2.1 _ _ (by decide),
    literal_texts_faithful.2.2.1 _ _ (by simp [maxCodePoint]) (by simp [maxCodePoint]) (by decide)⟩

end Literals

end Peglib.DisplayTexts
