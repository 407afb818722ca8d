import Dbss.Data.Decimal
import Dbss.Data.MachineInt

namespace Dbss.Util

open Dbss.Data

/-! The number and text helpers of `util/strings.h`, with the C library calls
they rest on.  A `std::string` is the list of its bytes. -/

abbrev Bytes := List UInt8

/-- The bytes of an ASCII literal of the source. -/
def ascii (text : String) : Bytes :=
  text.toList.map fun char => UInt8.ofNat char.toNat

def crlf : Bytes := [13, 10]

/-- The values of `errno` that the code tests for or that the C library calls
it makes can store. -/
inductive Errno where
  | success
  | eintr
  | ewouldblock
  | einval
  | erange
  | other (code : Nat)
deriving DecidableEq, Repr

/-- `size_` of a `Bytes` made from a `std::string`: a `size_t` stored in an `int`. -/
def Bytes.size (text : Bytes) : Int :=
  wrap32 text.length

/-- C's `isspace` in the C locale. -/
def isSpace (byte : UInt8) : Bool :=
  byte == 32 || (9 ≤ byte && byte ≤ 13)

/-- What a call of `strtol` gives back: the value, `endptr - nptr`, and `errno`. -/
structure Conversion where
  value : Int
  consumed : Nat
  errno : Errno
deriving DecidableEq, Repr

/-- `strtol(text, &end, 10)` with a 64-bit `long`.  The text ends at a NUL or
where the memory ends; neither is a digit, so the scan stops there. -/
def strtol (text : Bytes) (errno : Errno) : Conversion :=
  let spaces := (text.takeWhile isSpace).length
  let signed := text.drop spaces
  let negative := signed.head? == some 45
  let sign := if negative || signed.head? == some 43 then 1 else 0
  let digits := (signed.drop sign).takeWhile isDigit
  if digits = [] then
    ⟨0, 0, errno⟩
  else
    let magnitude : Int := numeral digits
    let value := if negative then -magnitude else magnitude
    let consumed := spaces + sign + digits.length
    if value < -9223372036854775808 then ⟨-9223372036854775808, consumed, .erange⟩
    else if 9223372036854775807 < value then ⟨9223372036854775807, consumed, .erange⟩
    else ⟨value, consumed, errno⟩

/-- `atoi`: `strtol` narrowed to `int`. -/
def atoi (text : Bytes) : Int :=
  wrap32 (strtol text .success).value

/-- The test the `str_to_xx` functions share: "the WHOLE string must be string
represented integer".  The character at `end` is looked up in the text with
its terminator. -/
def wholeStringErrno (text : Bytes) (conversion : Conversion) : Errno :=
  if (text ++ [0])[conversion.consumed]? = some 0 ∧ conversion.consumed = text.length then
    .success
  else if conversion.errno = .success then
    .einval
  else
    conversion.errno

/-- `str_to_int64`: the result and `errno` afterwards.  `c_str()` ends at the
first NUL. -/
def strToInt64 (text : Bytes) (errno : Errno) : Int × Errno :=
  let conversion := strtol (text.takeWhile (· ≠ 0)) errno
  (conversion.value, wholeStringErrno text conversion)

/-- `str_to_int`: as `str_to_int64`, narrowed to `int`. -/
def strToInt (text : Bytes) (errno : Errno) : Int × Errno :=
  let conversion := strtol (text.takeWhile (· ≠ 0)) errno
  (wrap32 conversion.value, wholeStringErrno text conversion)

/-- `tolower` on one byte in the C locale. -/
def toLower (byte : UInt8) : UInt8 :=
  if 65 ≤ byte && byte ≤ 90 then byte + 32 else byte

def strToLower (text : Bytes) : Bytes :=
  text.map toLower

/-- What `%d` and `PRId64` print; also `str(int)` and `str(int64_t)`, whose
21-byte buffer holds every value of these types. -/
def str (value : Int) : Bytes :=
  if value < 0 then 45 :: decimal value.natAbs else decimal value.natAbs

theorem str_natCast (number : Nat) : str number = decimal number := by
  simp [str]

theorem str_negative {value : Int} (negative : value < 0) : str value = 45 :: decimal value.natAbs := by
  simp [str, negative]

theorem str_nonnegative {value : Int} (nonnegative : 0 ≤ value) : str value = decimal value.natAbs := by
  simp [str, not_lt.mpr nonnegative]

theorem minus_not_mem_decimal (number : Nat) : (45 : UInt8) ∉ decimal number :=
  not_mem_decimal (by decide)

theorem clean_decimal (value : Nat) : 0 ∉ decimal value :=
  not_mem_decimal (by decide)

theorem clean_str (value : Int) : 0 ∉ str value := by
  unfold str
  split <;> simp [clean_decimal]

theorem str_injective : Function.Injective str := by
  intro left right same
  have signs : left < 0 ↔ right < 0 := by
    constructor <;> intro negative <;> by_contra nonnegative
    · rw [str_negative negative, str_nonnegative (not_lt.mp nonnegative)] at same
      exact minus_not_mem_decimal right.natAbs (same ▸ List.mem_cons_self)
    · rw [str_nonnegative (not_lt.mp nonnegative), str_negative negative] at same
      exact minus_not_mem_decimal left.natAbs (same ▸ List.mem_cons_self)
  have magnitudes : left.natAbs = right.natAbs := by
    apply decimal_injective
    by_cases negative : left < 0
    · simpa [str_negative negative, str_negative (signs.mp negative)] using same
    · simpa [str, negative, mt signs.mpr negative] using same
  omega

@[simp] theorem size_of_short {text : Bytes} (short : text.length < 2147483648) :
    Bytes.size text = text.length :=
  wrap32_of_range (by omega) (by omega)

theorem isSpace_of_isDigit {byte : UInt8} (digit : isDigit byte = true) : isSpace byte = false := by
  have range := isDigit_iff.mp digit
  simp only [isSpace, Bool.or_eq_false_iff, beq_eq_false_iff_ne, Bool.and_eq_false_iff,
    decide_eq_false_iff_not, UInt8.le_iff_toNat_le, ne_eq, ← UInt8.toNat_inj, UInt8.reduceToNat]
  omega

theorem not_sign_of_isDigit {byte : UInt8} (digit : isDigit byte = true) : byte ≠ 45 ∧ byte ≠ 43 := by
  have range := isDigit_iff.mp digit
  simp only [ne_eq, ← UInt8.toNat_inj, UInt8.reduceToNat]
  omega

/-- `errno` is only written. -/
theorem strtol_value (text : Bytes) (errno : Errno) :
    (strtol text errno).value = (strtol text .success).value := by
  simp only [strtol, apply_ite Conversion.value]

/-- `strtol` stores ERANGE or nothing, and ERANGE only with a value whose low half is not positive. -/
theorem strtol_errno (text : Bytes) (errno : Errno) :
    (strtol text errno).errno = errno ∨
      (strtol text errno).errno = .erange ∧ wrap32 (strtol text errno).value ≤ 0 := by
  generalize converted : strtol text errno = number
  simp only [strtol] at converted
  split_ifs at converted <;> subst converted
  all_goals first
    | exact .inl rfl
    | exact .inr ⟨rfl, (by decide : wrap32 (-9223372036854775808) ≤ 0)⟩
    | exact .inr ⟨rfl, (by decide : wrap32 9223372036854775807 ≤ 0)⟩

theorem strtol_of_digit {text : Bytes} {errno : Errno} {first : UInt8}
    (starts : text.head? = some first) (digit : isDigit first = true)
    (bound : numeral (text.takeWhile isDigit) ≤ 9223372036854775807) :
    strtol text errno = ⟨numeral (text.takeWhile isDigit), (text.takeWhile isDigit).length, errno⟩ := by
  cases text with
  | nil => simp at starts
  | cons byte rest =>
      cases starts
      have noSpace := isSpace_of_isDigit digit
      have noSign := not_sign_of_isDigit digit
      have leading : (first :: rest).takeWhile isDigit ≠ [] := by simp [digit]
      have noSpaces : (first :: rest).takeWhile isSpace = [] := by simp [noSpace]
      have minus : (some first == some (45 : UInt8)) = false := by simp [noSign.1]
      have plus : (some first == some (43 : UInt8)) = false := by simp [noSign.2]
      simp only [strtol, noSpaces, List.length_nil, List.drop_zero, List.head?_cons, minus, plus,
        Bool.or_self, Bool.false_eq_true, if_false, if_neg leading, Nat.zero_add]
      rw [if_neg (by omega), if_neg (by omega)]

/-- Reading back a printed number that is followed by something else. -/
theorem strtol_decimal {number : Nat} {rest : Bytes} {errno : Errno}
    (bound : number ≤ 9223372036854775807) (stop : ∀ byte ∈ rest.head?, isDigit byte = false) :
    strtol (decimal number ++ rest) errno = ⟨number, (decimal number).length, errno⟩ := by
  have leading : (decimal number ++ rest).takeWhile isDigit = decimal number :=
    takeWhile_isDigit_append (fun _ => isDigit_of_mem_decimal) stop
  obtain ⟨first, tail, text, digit⟩ := decimal_head_isDigit number
  rw [strtol_of_digit (show _ = some first by simp [text]) digit (by simpa [leading] using bound),
    leading, numeral_decimal]

end Dbss.Util
