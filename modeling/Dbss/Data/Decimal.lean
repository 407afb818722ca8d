import Mathlib.Data.Nat.Digits.Lemmas
import Mathlib.Tactic.Ring

namespace Dbss.Data

/-! Decimal numerals as byte strings: the canonical text of a number, the value
of a digit string, and the bounds that relate the two. -/

def isDigit (byte : UInt8) : Bool :=
  48 ≤ byte && byte ≤ 57

def digitValue (byte : UInt8) : Nat :=
  byte.toNat - 48

/-- The value of a digit string, most significant digit first. -/
def numeral (digits : List UInt8) : Nat :=
  digits.foldl (fun value digit => value * 10 + digitValue digit) 0

def digitByte (digit : Nat) : UInt8 :=
  UInt8.ofNat (digit + 48)

/-- The text of a number without leading zeros; zero is a single `0`. -/
def decimal (number : Nat) : List UInt8 :=
  if number = 0 then [48] else (Nat.digits 10 number).reverse.map digitByte

theorem isDigit_iff {byte : UInt8} : isDigit byte = true ↔ 48 ≤ byte.toNat ∧ byte.toNat ≤ 57 := by
  simp [isDigit, UInt8.le_iff_toNat_le]

theorem digitByte_toNat {digit : Nat} (bound : digit < 10) :
    (digitByte digit).toNat = digit + 48 := by
  simp only [digitByte, UInt8.toNat_ofNat']
  omega

theorem isDigit_digitByte {digit : Nat} (bound : digit < 10) :
    isDigit (digitByte digit) = true := by
  rw [isDigit_iff, digitByte_toNat bound]
  omega

theorem digitValue_digitByte {digit : Nat} (bound : digit < 10) :
    digitValue (digitByte digit) = digit := by
  simp [digitValue, digitByte_toNat bound]

theorem foldl_numeral (digits : List UInt8) (start : Nat) :
    digits.foldl (fun value digit => value * 10 + digitValue digit) start =
      start * 10 ^ digits.length + numeral digits := by
  unfold numeral
  induction digits generalizing start with
  | nil => simp
  | cons digit rest ih =>
      simp only [List.foldl_cons, List.length_cons]
      rw [ih (start * 10 + digitValue digit), ih (0 * 10 + digitValue digit)]
      ring

@[simp] theorem numeral_nil : numeral [] = 0 := rfl

theorem numeral_append (front back : List UInt8) :
    numeral (front ++ back) = numeral front * 10 ^ back.length + numeral back := by
  rw [numeral, List.foldl_append, foldl_numeral]
  rfl

theorem numeral_lt {digits : List UInt8} (plain : ∀ byte ∈ digits, isDigit byte = true) :
    numeral digits < 10 ^ digits.length := by
  induction digits with
  | nil => simp
  | cons digit rest ih =>
      have tail := ih (fun byte member => plain byte (by simp [member]))
      have head := isDigit_iff.mp (plain digit (by simp))
      have split : numeral (digit :: rest) = digitValue digit * 10 ^ rest.length + numeral rest := by
        simpa [numeral] using numeral_append [digit] rest
      have lead : digitValue digit * 10 ^ rest.length ≤ 9 * 10 ^ rest.length :=
        Nat.mul_le_mul_right _ (by simp only [digitValue]; omega)
      rw [split, List.length_cons, pow_succ]
      omega

theorem numeral_map_digitByte (digits : List Nat) (small : ∀ digit ∈ digits, digit < 10) :
    numeral (digits.reverse.map digitByte) = Nat.ofDigits 10 digits := by
  induction digits with
  | nil => rfl
  | cons digit rest ih =>
      have first := digitValue_digitByte (small digit (by simp))
      rw [List.reverse_cons, List.map_append, numeral_append,
        ih (fun other member => small other (by simp [member])), Nat.ofDigits_cons]
      simp only [numeral, List.map_cons, List.map_nil, List.foldl_cons, List.foldl_nil,
        List.length_singleton, first]
      ring

@[simp] theorem numeral_decimal (number : Nat) : numeral (decimal number) = number := by
  unfold decimal
  split
  · next zero => subst zero; rfl
  · rw [numeral_map_digitByte _ (fun digit member => Nat.digits_lt_base (by decide) member),
      Nat.ofDigits_digits]

theorem decimal_injective : Function.Injective decimal := fun left right same => by
  rw [← numeral_decimal left, same, numeral_decimal]

theorem isDigit_of_mem_decimal {number : Nat} {byte : UInt8} (member : byte ∈ decimal number) :
    isDigit byte = true := by
  unfold decimal at member
  split at member
  · simp only [List.mem_singleton] at member
    subst member
    rfl
  · obtain ⟨digit, inDigits, rfl⟩ := List.mem_map.mp member
    exact isDigit_digitByte (Nat.digits_lt_base (by decide) (List.mem_reverse.mp inDigits))

theorem not_mem_decimal {number : Nat} {byte : UInt8} (other : isDigit byte = false) :
    byte ∉ decimal number := fun member => by
  simp [isDigit_of_mem_decimal member] at other

theorem decimal_ne_nil (number : Nat) : decimal number ≠ [] := by
  unfold decimal
  split
  · simp
  · next positive => simp [Nat.digits_ne_nil_iff_ne_zero.mpr positive]

theorem decimal_length_pos (number : Nat) : 0 < (decimal number).length :=
  List.length_pos_iff.mpr (decimal_ne_nil number)

theorem decimal_length_le {number width : Nat} (positive : 0 < width)
    (bound : number < 10 ^ width) : (decimal number).length ≤ width := by
  unfold decimal
  split
  · exact positive
  · simpa using (Nat.digits_length_le_iff (by decide) number).mpr bound

theorem decimal_head_isDigit (number : Nat) :
    ∃ first rest, decimal number = first :: rest ∧ isDigit first = true := by
  cases text : decimal number with
  | nil => exact absurd text (decimal_ne_nil number)
  | cons first rest =>
      exact ⟨first, rest, rfl, isDigit_of_mem_decimal (show first ∈ decimal number by simp [text])⟩

/-- Scanning digits off a numeral that is followed by something else stops
exactly at its end. -/
theorem takeWhile_isDigit_append {digits rest : List UInt8}
    (plain : ∀ byte ∈ digits, isDigit byte = true)
    (stop : ∀ byte ∈ rest.head?, isDigit byte = false) :
    (digits ++ rest).takeWhile isDigit = digits := by
  rw [List.takeWhile_append_of_pos plain]
  cases rest with
  | nil => simp
  | cons byte rest => simp [stop byte (by simp)]

end Dbss.Data
