import Mathlib.Data.Nat.Digits.Defs
import Mathlib.Tactic.Common

/-!
# Decimal numerals

A number printed in decimal is read back from the front of every text that does
not go on with a digit.
-/

namespace Peglib.Decimal

set_option autoImplicit false

def isDigit (byte : UInt8) : Bool := decide (48 ≤ byte) && decide (byte ≤ 57)

def digitByte (digit : Nat) : UInt8 := (48 + digit).toUInt8

/-- Without leading zeros, the most significant digit first. -/
def printNat (number : Nat) : List UInt8 :=
  if number = 0 then [48] else (Nat.digits 10 number).reverse.map digitByte

def valueOf (digits : List UInt8) : Nat :=
  digits.foldl (fun value byte => (byte.toNat - 48) + 10 * value) 0

/-- The number at the front of a text, and what follows its digits. -/
def readNat (text : List UInt8) : Option (Nat × List UInt8) :=
  if text.takeWhile isDigit = [] then none
  else some (valueOf (text.takeWhile isDigit), text.dropWhile isDigit)

theorem digit_byte_spec {digit : Nat} (small : digit < 10) :
    isDigit (digitByte digit) = true ∧ (digitByte digit).toNat - 48 = digit := by
  have all : ∀ digit < 10, isDigit (digitByte digit) = true ∧ (digitByte digit).toNat - 48 = digit := by
    decide
  exact all digit small

theorem print_digits (number : Nat) : ∀ byte ∈ printNat number, isDigit byte = true := by
  intro byte member
  unfold printNat at member
  split_ifs at member
  · simp only [List.mem_singleton] at member
    simp [member, isDigit]
  · obtain ⟨digit, among, rfl⟩ := List.mem_map.mp member
    exact (digit_byte_spec (Nat.digits_lt_base (by omega) (List.mem_reverse.mp among))).1

theorem print_ne_nil (number : Nat) : printNat number ≠ [] := by
  unfold printNat
  split_ifs with zero
  · simp
  · simpa [Nat.digits_eq_nil_iff_eq_zero] using zero

theorem value_of_digits {digits : List Nat} (small : ∀ digit ∈ digits, digit < 10) :
    valueOf (digits.reverse.map digitByte) = Nat.ofDigits 10 digits := by
  rw [Nat.ofDigits_eq_foldr, valueOf, List.foldl_map, List.foldl_reverse]
  induction digits with
  | nil => rfl
  | cons digit rest induction =>
      have first := small digit (by simp)
      have later := induction fun other member => small other (by simp [member])
      simp only [List.foldr_cons, later, (digit_byte_spec first).2, Nat.cast_id]

theorem value_print (number : Nat) : valueOf (printNat number) = number := by
  unfold printNat
  split_ifs with zero
  · simp [valueOf, zero]
  · rw [value_of_digits fun digit member => Nat.digits_lt_base (by omega) member, Nat.ofDigits_digits]

theorem read_print (number : Nat) {stop : UInt8} (stops : isDigit stop = false) (rest : List UInt8) :
    readNat (printNat number ++ stop :: rest) = some (number, stop :: rest) := by
  have digits := print_digits number
  have front : (printNat number ++ stop :: rest).takeWhile isDigit = printNat number := by
    rw [List.takeWhile_append_of_pos digits]
    simp [stops]
  have back : (printNat number ++ stop :: rest).dropWhile isDigit = stop :: rest := by
    rw [List.dropWhile_append_of_pos digits]
    simp [stops]
  rw [readNat, front, back, if_neg (print_ne_nil number), value_print]

end Peglib.Decimal
