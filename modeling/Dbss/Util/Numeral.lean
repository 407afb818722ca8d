import Dbss.Util.Strings
import Mathlib.Data.List.TakeWhile

namespace Dbss.Util

open Dbss.Data

/-! Decimal texts of signed integers, and what the number helpers of
`util/strings.h` make of them. -/

/-- An optional `-` and one or more decimal digits, with the integer they denote. -/
inductive Numeral : Bytes → Int → Prop where
  | nonnegative {digits} (nonempty : digits ≠ []) (plain : ∀ byte ∈ digits, isDigit byte = true) :
      Numeral digits (numeral digits)
  | negative {digits} (nonempty : digits ≠ []) (plain : ∀ byte ∈ digits, isDigit byte = true) :
      Numeral (45 :: digits) (-numeral digits)

def IsInt64 (value : Int) : Prop :=
  -9223372036854775808 ≤ value ∧ value ≤ 9223372036854775807

instance (value : Int) : Decidable (IsInt64 value) :=
  inferInstanceAs (Decidable (_ ∧ _))

variable {text rest : Bytes} {value : Int} {errno : Errno}

theorem Numeral.tail_plain (number : Numeral text value) : ∀ byte ∈ text.tail, isDigit byte = true := by
  cases number with
  | nonnegative _ plain => exact fun byte member => plain byte (List.mem_of_mem_tail member)
  | negative _ plain => exact plain

theorem Numeral.nonzero_bytes (number : Numeral text value) : ∀ byte ∈ text, byte ≠ 0 := by
  have digit_ne {byte : UInt8} (digit : isDigit byte = true) : byte ≠ 0 := by
    rintro rfl
    exact absurd digit (by decide)
  cases number with
  | nonnegative _ plain => exact fun byte member => digit_ne (plain byte member)
  | negative _ plain =>
      intro byte member
      rcases List.mem_cons.mp member with rfl | later
      · decide
      · exact digit_ne (plain byte later)

theorem strtol_numeral (number : Numeral text value) (range : IsInt64 value)
    (stop : ∀ byte ∈ rest.head?, isDigit byte = false) :
    strtol (text ++ rest) errno = ⟨value, text.length, errno⟩ := by
  obtain ⟨lower, upper⟩ := range
  cases number with
  | nonnegative nonempty plain =>
      have leading : (text ++ rest).takeWhile isDigit = text := takeWhile_isDigit_append plain stop
      obtain ⟨first, others, rfl⟩ := List.exists_cons_of_ne_nil nonempty
      rw [strtol_of_digit (show _ = some first from rfl) (plain first List.mem_cons_self)
        (by rw [leading]; omega), leading]
  | @negative digits nonempty plain =>
      have leading : (digits ++ rest).takeWhile isDigit = digits := takeWhile_isDigit_append plain stop
      have noSpaces : (45 :: (digits ++ rest)).takeWhile isSpace = [] := by simp [isSpace]
      rw [List.cons_append, strtol]
      simp only [noSpaces, List.length_nil, List.drop_zero, List.head?_cons, BEq.rfl, Bool.true_or,
        if_true, List.drop_succ_cons, leading, if_neg nonempty]
      rw [if_neg (by omega), if_neg (by omega)]
      simp [Nat.add_comm]

/-- The whole text is converted, whatever `errno` was. -/
theorem strToInt64_numeral (number : Numeral text value) (range : IsInt64 value) (errno : Errno) :
    strToInt64 text errno = (value, .success) := by
  have whole : text.takeWhile (· ≠ 0) = text := by
    rw [List.takeWhile_eq_self_iff]
    simpa using number.nonzero_bytes
  have converted : strtol (text ++ []) errno = ⟨value, text.length, errno⟩ :=
    strtol_numeral number range (by simp)
  rw [List.append_nil] at converted
  simp only [strToInt64, whole, converted, wholeStringErrno]
  simp

end Dbss.Util
