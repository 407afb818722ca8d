import Dbss.Util.Strings
import Mathlib.Data.List.DropRight

namespace Dbss.Lua

open Dbss.Data Dbss.Util

/-! Lua numbers, as far as they are whole: doubles without a fraction, here the
integers they stand for. -/

/-- The nearest multiple of `unit`, counted in units; the even one of two. -/
def roundHalfEven (value unit : Nat) : Nat :=
  let quotient := value / unit
  let twice := 2 * (value % unit)
  if twice < unit then quotient
  else if unit < twice then quotient + 1
  else quotient + quotient % 2

/-- `tonumber` of an `int64_t`: the nearest double. -/
def toDouble (value : Int) : Int :=
  let unit := 2 ^ (value.natAbs.log2 + 1 - 53)
  value.sign * (roundHalfEven value.natAbs unit * unit : Nat)

/-- The form `d.ddde+xx` of `%g`, without trailing zeros. -/
def scientific (mantissa exponent : Nat) : Bytes :=
  let digits := (decimal mantissa).rdropWhile (· == 48)
  digits.take 1 ++ (if digits.length ≤ 1 then [] else [46]) ++ digits.drop 1 ++
    [101, 43] ++ decimal exponent

/-- `%.14g` of a whole number that is not negative.  The exponent has two
digits, since it is at least 14. -/
def formatMagnitude (value : Nat) : Bytes :=
  let width := (decimal value).length
  if width ≤ 14 then
    decimal value
  else
    let mantissa := roundHalfEven value (10 ^ (width - 14))
    -- rounding up may add a digit
    if mantissa = 10 ^ 14 then scientific (10 ^ 13) width else scientific mantissa (width - 1)

/-- Lua's `n .. ""`: the format `%.14g`. -/
def formatG (value : Int) : Bytes :=
  if value < 0 then 45 :: formatMagnitude value.natAbs else formatMagnitude value.natAbs

/-- The FFI's conversion of a Lua number to a C `int`: whatever it makes of a
number out of range, it is an `int`. -/
structure CIntConversion where
  toInt : Int → Int
  exact : ∀ value, -2147483648 ≤ value → value < 2147483648 → toInt value = value
  range : ∀ value, -2147483648 ≤ toInt value ∧ toInt value < 2147483648

theorem scientific_exponent_mark (mantissa exponent : Nat) : 101 ∈ scientific mantissa exponent := by
  simp [scientific]

theorem decimal_length_le_iff {value : Nat} : (decimal value).length ≤ 14 ↔ value < 10 ^ 14 := by
  constructor
  · intro short
    have digits := numeral_lt fun byte (member : byte ∈ decimal value) => isDigit_of_mem_decimal member
    rw [numeral_decimal] at digits
    exact digits.trans_le (Nat.pow_le_pow_right (by decide) short)
  · exact decimal_length_le (by decide)

theorem mark_mem_formatMagnitude {value : Nat} (long : ¬ (decimal value).length ≤ 14) :
    101 ∈ formatMagnitude value := by
  simp only [formatMagnitude, if_neg long]
  split <;> apply scientific_exponent_mark

theorem formatMagnitude_eq_iff {value : Nat} : formatMagnitude value = decimal value ↔ value < 10 ^ 14 := by
  rw [← decimal_length_le_iff]
  constructor
  · intro same
    by_contra long
    have noMark : (101 : UInt8) ∉ decimal value := not_mem_decimal (by decide)
    exact noMark (same ▸ mark_mem_formatMagnitude long)
  · intro short
    simp [formatMagnitude, short]

/-- Lua writes a whole number as its numeral up to 14 digits. -/
theorem formatG_eq_iff {value : Int} : formatG value = str value ↔ value.natAbs < 10 ^ 14 := by
  unfold formatG str
  split
  · rw [List.cons_inj_right, formatMagnitude_eq_iff]
  · rw [formatMagnitude_eq_iff]

theorem clean_scientific (mantissa exponent : Nat) : 0 ∉ scientific mantissa exponent := by
  have digits : 0 ∉ (decimal mantissa).rdropWhile (· == 48) := by
    intro member
    exact clean_decimal mantissa ((List.rdropWhile_prefix _ _).subset member)
  simp only [scientific, List.mem_append, not_or]
  refine ⟨⟨⟨⟨?_, ?_⟩, ?_⟩, by decide⟩, clean_decimal exponent⟩
  · exact mt List.mem_of_mem_take digits
  · split <;> decide
  · exact mt List.mem_of_mem_drop digits

theorem clean_formatG (value : Int) : 0 ∉ formatG value := by
  have magnitude : 0 ∉ formatMagnitude value.natAbs := by
    simp only [formatMagnitude]
    split
    · exact clean_decimal _
    · split <;> apply clean_scientific
  unfold formatG
  split <;> simp [magnitude]

theorem CIntConversion.str_eq_iff (ffi : CIntConversion) {value : Int} :
    str (ffi.toInt value) = str value ↔ -2147483648 ≤ value ∧ value < 2147483648 := by
  rw [str_injective.eq_iff]
  constructor
  · intro same
    exact same ▸ ffi.range value
  · intro range
    exact ffi.exact value range.1 range.2

def CIntConversion.wrapping : CIntConversion where
  toInt := wrap32
  exact _ := wrap32_of_range
  range := wrap32_range

example : formatG 1234567890123456 = ascii "1.2345678901235e+15" := by decide +kernel

end Dbss.Lua
