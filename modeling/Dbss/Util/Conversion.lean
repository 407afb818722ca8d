import Dbss.Util.Numeral

namespace Dbss.Util

open Dbss.Data

/-! `str_to_int`, `str_to_int64` and `str_to_uint64`: which texts they accept
and what they make of them. -/

/-- `strtoull(text, &end, 10)` with a 64-bit `unsigned long long`.  It reads a
sign as `strtol` does; a negative number is reduced modulo 2^64. -/
def strtoull (text : Bytes) (errno : Errno) : Conversion :=
  let spaces := (text.takeWhile isSpace).length
  let signed := text.drop spaces
  let negative := signed.head? == some 45
  let sign := if negative || signed.head? == some 43 then 1 else 0
  let digits := (signed.drop sign).takeWhile isDigit
  if digits = [] then
    ⟨0, 0, errno⟩
  else
    let magnitude : Int := numeral digits
    let consumed := spaces + sign + digits.length
    if 18446744073709551615 < magnitude then ⟨18446744073709551615, consumed, .erange⟩
    else ⟨if negative then -magnitude % 18446744073709551616 else magnitude, consumed, errno⟩

/-- `str_to_uint64`: as `str_to_int64`, by way of `strtoull`. -/
def strToUInt64 (text : Bytes) (errno : Errno) : Int × Errno :=
  let conversion := strtoull (text.takeWhile (· ≠ 0)) errno
  (conversion.value, wholeStringErrno text conversion)

inductive IntType where
  | int
  | int64
  | uint64
deriving DecidableEq, Repr

namespace IntType

def parse : IntType → Bytes → Errno → Int × Errno
  | int => strToInt
  | int64 => strToInt64
  | uint64 => strToUInt64

def signed : IntType → Bool
  | int | int64 => true
  | uint64 => false

def lowest : IntType → Int
  | int => -2147483648
  | int64 => -9223372036854775808
  | uint64 => 0

def highest : IntType → Int
  | int => 2147483647
  | int64 => 9223372036854775807
  | uint64 => 18446744073709551615

def InRange (type : IntType) (value : Int) : Prop :=
  type.lowest ≤ value ∧ value ≤ type.highest

instance decidableInRange (type : IntType) (value : Int) : Decidable (type.InRange value) :=
  inferInstanceAs (Decidable (_ ∧ _))

end IntType

inductive Sign where
  | absent
  | minus
  | plus
deriving DecidableEq, Repr

def Sign.text : Sign → Bytes
  | absent => []
  | minus => [45]
  | plus => [43]

/-- What the C library takes for a number: blanks, perhaps a sign, and digits. -/
structure Spelling where
  blanks : Bytes
  sign : Sign
  digits : Bytes
  blank : ∀ byte ∈ blanks, isSpace byte = true
  nonempty : digits ≠ []
  plain : ∀ byte ∈ digits, isDigit byte = true

namespace Spelling

def text (spelling : Spelling) : Bytes :=
  spelling.blanks ++ (spelling.sign.text ++ spelling.digits)

def value (spelling : Spelling) : Int :=
  if spelling.sign = .minus then -numeral spelling.digits else numeral spelling.digits

variable {spelling : Spelling}

theorem head_digits (spelling : Spelling) :
    ∃ first rest, spelling.digits = first :: rest ∧ isDigit first = true := by
  obtain ⟨first, rest, digits⟩ := List.exists_cons_of_ne_nil spelling.nonempty
  exact ⟨first, rest, digits, spelling.plain first (by simp [digits])⟩

theorem takeWhile_blanks (spelling : Spelling) : spelling.text.takeWhile isSpace = spelling.blanks := by
  rw [text, List.takeWhile_append_of_pos spelling.blank]
  obtain ⟨first, rest, digits, digit⟩ := spelling.head_digits
  have noSpace := isSpace_of_isDigit digit
  have signs : isSpace 45 = false ∧ isSpace 43 = false := by decide
  cases spelling.sign <;> simp [Sign.text, digits, noSpace, signs]

theorem drop_blanks (spelling : Spelling) :
    spelling.text.drop spelling.blanks.length = spelling.sign.text ++ spelling.digits :=
  List.drop_left

theorem head_sign (spelling : Spelling) :
    ((spelling.sign.text ++ spelling.digits).head? == some 45) = decide (spelling.sign = .minus) ∧
      ((spelling.sign.text ++ spelling.digits).head? == some 43) = decide (spelling.sign = .plus) ∧
      (spelling.sign.text ++ spelling.digits).drop spelling.sign.text.length = spelling.digits := by
  obtain ⟨first, rest, digits, digit⟩ := spelling.head_digits
  have noSign := not_sign_of_isDigit digit
  refine ⟨?_, ?_, List.drop_left⟩
  · cases spelling.sign <;> simp [Sign.text, digits, noSign.1]
  · cases spelling.sign <;> simp [Sign.text, digits, noSign.2]

theorem takeWhile_digits (spelling : Spelling) : spelling.digits.takeWhile isDigit = spelling.digits :=
  List.takeWhile_eq_self_iff.mpr spelling.plain

theorem signWidth (spelling : Spelling) :
    (if (decide (spelling.sign = .minus) || decide (spelling.sign = .plus)) = true then 1 else 0) =
      spelling.sign.text.length := by
  cases spelling.sign <;> rfl

theorem length_text (spelling : Spelling) :
    spelling.blanks.length + spelling.sign.text.length + spelling.digits.length = spelling.text.length := by
  rw [text, List.length_append, List.length_append, Nat.add_assoc]

theorem strtol_text (spelling : Spelling) (errno : Errno) :
    strtol spelling.text errno =
      if spelling.value < -9223372036854775808 then ⟨-9223372036854775808, spelling.text.length, .erange⟩
      else if 9223372036854775807 < spelling.value then ⟨9223372036854775807, spelling.text.length, .erange⟩
      else ⟨spelling.value, spelling.text.length, errno⟩ := by
  obtain ⟨minus, plus, rest⟩ := spelling.head_sign
  have negated : (if decide (spelling.sign = .minus) = true then -(numeral spelling.digits : Int)
      else numeral spelling.digits) = spelling.value := by
    simp only [value, decide_eq_true_eq]
  simp only [strtol, spelling.takeWhile_blanks, spelling.drop_blanks, minus, plus, spelling.signWidth, rest,
    spelling.takeWhile_digits, if_neg spelling.nonempty, spelling.length_text, negated]

theorem strtoull_text (spelling : Spelling) (errno : Errno) :
    strtoull spelling.text errno =
      if 18446744073709551615 < (numeral spelling.digits : Int) then
        ⟨18446744073709551615, spelling.text.length, .erange⟩
      else ⟨if spelling.sign = .minus then -numeral spelling.digits % 18446744073709551616
        else numeral spelling.digits, spelling.text.length, errno⟩ := by
  obtain ⟨minus, plus, rest⟩ := spelling.head_sign
  simp only [strtoull, spelling.takeWhile_blanks, spelling.drop_blanks, minus, plus, spelling.signWidth, rest,
    spelling.takeWhile_digits, if_neg spelling.nonempty, spelling.length_text, decide_eq_true_eq]

theorem nonzero_bytes (spelling : Spelling) : ∀ byte ∈ spelling.text, byte ≠ 0 := by
  rintro byte member rfl
  rw [text, List.mem_append, List.mem_append] at member
  rcases member with blank | sign | digit
  · exact absurd (spelling.blank 0 blank) (by decide)
  · revert sign
    cases spelling.sign <;> decide
  · exact absurd (spelling.plain 0 digit) (by decide)

theorem cString (spelling : Spelling) : spelling.text.takeWhile (· ≠ 0) = spelling.text := by
  rw [List.takeWhile_eq_self_iff]
  simpa using spelling.nonzero_bytes

/-- A text is spelled in one way only. -/
theorem text_injective {other : Spelling} (same : spelling.text = other.text) :
    spelling.blanks = other.blanks ∧ spelling.sign = other.sign ∧ spelling.value = other.value := by
  have blanks : spelling.blanks = other.blanks := by
    rw [← spelling.takeWhile_blanks, same, other.takeWhile_blanks]
  have behind : spelling.sign.text ++ spelling.digits = other.sign.text ++ other.digits := by
    rw [← spelling.drop_blanks, ← other.drop_blanks, same, blanks]
  obtain ⟨minus, plus, rest⟩ := spelling.head_sign
  obtain ⟨otherMinus, otherPlus, otherRest⟩ := other.head_sign
  rw [behind, otherMinus] at minus
  rw [behind, otherPlus] at plus
  have sign : spelling.sign = other.sign := by
    cases first : spelling.sign <;> cases second : other.sign <;> simp [first, second] at minus plus ⊢
  have digits : spelling.digits = other.digits := by rw [← rest, ← otherRest, behind, sign]
  exact ⟨blanks, sign, by rw [value, value, sign, digits]⟩

end Spelling

variable {text : Bytes}

theorem wholeStringErrno_success {conversion : Conversion} :
    wholeStringErrno text conversion = .success ↔ conversion.consumed = text.length := by
  have terminator : (text ++ [0])[text.length]? = some 0 := by simp
  unfold wholeStringErrno
  split
  · next whole => exact iff_of_true rfl whole.2
  · next part =>
      have shorter : conversion.consumed ≠ text.length := fun same => part ⟨same ▸ terminator, same⟩
      refine iff_of_false ?_ shorter
      split
      · decide
      · assumption

theorem strtoull_consumed (text : Bytes) (errno : Errno) :
    (strtoull text errno).consumed = (strtol text .success).consumed := by
  simp only [strtoull, strtol, apply_ite Conversion.consumed]
  split_ifs <;> rfl

theorem strtol_consumed (text : Bytes) (errno : Errno) :
    (strtol text errno).consumed = (strtol text .success).consumed := by
  simp only [strtol, apply_ite Conversion.consumed]

theorem sign_split (text : Bytes) :
    ∃ sign : Sign, ∃ body, text = sign.text ++ body ∧
      (if (text.head? == some 45 || text.head? == some 43) = true then 1 else 0) = sign.text.length := by
  cases text with
  | nil => exact ⟨.absent, [], rfl, rfl⟩
  | cons first rest =>
      by_cases minus : first = 45
      · exact ⟨.minus, rest, by rw [minus]; rfl, by rw [minus]; rfl⟩
      by_cases plus : first = 43
      · exact ⟨.plus, rest, by rw [plus]; rfl, by rw [plus]; rfl⟩
      · exact ⟨.absent, first :: rest, rfl, by simp [minus, plus, Sign.text]⟩

/-- What is consumed is nothing at all or a number. -/
theorem strtol_spelled (text : Bytes) :
    (strtol text .success).consumed = 0 ∨
      ∃ spelling : Spelling, ∃ rest, text = spelling.text ++ rest ∧
        (strtol text .success).consumed = spelling.text.length := by
  have blanks : text.takeWhile isSpace ++ text.drop (text.takeWhile isSpace).length = text :=
    List.prefix_iff_eq_append.mp <| List.takeWhile_prefix isSpace
  obtain ⟨sign, body, signed, width⟩ := sign_split (text.drop (text.takeWhile isSpace).length)
  have digits : body.takeWhile isDigit ++ body.dropWhile isDigit = body := List.takeWhile_append_dropWhile
  have scanned : (text.drop (text.takeWhile isSpace).length).drop sign.text.length = body := by
    rw [signed, List.drop_left]
  simp only [strtol, width, scanned, apply_ite Conversion.consumed, ite_self]
  split
  · exact .inl rfl
  · next nonempty =>
      let spelling : Spelling := {
        blanks := text.takeWhile isSpace
        sign
        digits := body.takeWhile isDigit
        blank := fun byte member => List.mem_takeWhile_imp member
        nonempty
        plain := fun byte member => List.mem_takeWhile_imp member }
      refine .inr ⟨spelling, body.dropWhile isDigit, ?_, spelling.length_text⟩
      rw [Spelling.text, List.append_assoc, List.append_assoc]
      simp only [spelling, digits]
      rw [← signed, blanks]

namespace IntType

variable {type : IntType} {errno : Errno}

/-- `errno` is 0 after the empty text and after anything that is spelled as a number. -/
theorem parse_success :
    (type.parse text errno).2 = .success ↔ text = [] ∨ ∃ spelling : Spelling, spelling.text = text := by
  have consumed : (type.parse text errno).2 = .success ↔
      (strtol (text.takeWhile (· ≠ 0)) .success).consumed = text.length := by
    cases type with
    | int | int64 => rw [← strtol_consumed _ errno, ← wholeStringErrno_success]; rfl
    | uint64 => rw [← strtoull_consumed _ errno, ← wholeStringErrno_success]; rfl
  rw [consumed]
  constructor
  · intro whole
    rcases strtol_spelled (text.takeWhile (· ≠ 0)) with none | ⟨spelling, rest, here, length⟩
    · exact .inl (List.length_eq_zero_iff.mp (whole.symm.trans none))
    · -- the C string is at most as long as the text, and starts with the number
      have shorter := (List.takeWhile_prefix (l := text) (· ≠ 0)).length_le
      have lengths := congrArg List.length here
      rw [List.length_append] at lengths
      have all : text.takeWhile (· ≠ 0) = text :=
        (List.takeWhile_prefix _).eq_of_length (by omega)
      have nothing : rest = [] := List.length_eq_zero_iff.mp (by omega)
      rw [nothing, List.append_nil, all] at here
      exact .inr ⟨spelling, here.symm⟩
  · rintro (rfl | ⟨spelling, rfl⟩)
    · rfl
    · rw [spelling.cString, spelling.strtol_text]
      simp only [apply_ite Conversion.consumed, ite_self]

/-- In range, a number without a sign that the type cannot have is converted exactly. -/
theorem parse_value (spelling : Spelling) (errno : Errno) (unsigned : type.signed = false → spelling.sign = .absent)
    (range : type.InRange spelling.value) : (type.parse spelling.text errno).1 = spelling.value := by
  obtain ⟨lower, upper⟩ := range
  cases type with
  | int =>
      simp only [lowest, highest] at lower upper
      simp only [parse, strToInt, spelling.cString, spelling.strtol_text]
      rw [if_neg (by omega), if_neg (by omega)]
      exact wrap32_of_range lower (Int.lt_add_one_of_le upper)
  | int64 =>
      simp only [lowest, highest] at lower upper
      simp only [parse, strToInt64, spelling.cString, spelling.strtol_text]
      rw [if_neg (by omega), if_neg (by omega)]
  | uint64 =>
      have noSign := unsigned rfl
      simp only [highest, Spelling.value, noSign, reduceCtorEq, if_false] at upper
      simp only [parse, strToUInt64, spelling.cString, spelling.strtoull_text, noSign, reduceCtorEq, if_false,
        Spelling.value]
      rw [if_neg (by omega)]

/-- A decimal numeral and nothing else, with a sign only where the type has one. -/
def IsNumeral (type : IntType) (text : Bytes) (value : Int) : Prop :=
  ∃ spelling : Spelling, spelling.text = text ∧ spelling.value = value ∧ spelling.blanks = [] ∧
    (type.signed = false → spelling.sign = .absent)

/-- `errno` is 0 exactly after a numeral in range, and the result is its value. -/
def ReportsErrors (type : IntType) (text : Bytes) (errno : Errno) : Prop :=
  ((type.parse text errno).2 = .success ↔ ∃ value, type.IsNumeral text value ∧ type.InRange value) ∧
    ∀ value, type.IsNumeral text value → type.InRange value → (type.parse text errno).1 = value

/-- What passes although it is no numeral of the type. -/
inductive Passes (type : IntType) : Bytes → Prop where
  | empty : Passes type []
  | blanks (spelling : Spelling) (leading : spelling.blanks ≠ []) : Passes type spelling.text
  | sign (spelling : Spelling) (unsigned : type.signed = false) (signed : spelling.sign ≠ .absent) :
      Passes type spelling.text
  | range (spelling : Spelling) (beyond : ¬ type.InRange spelling.value) : Passes type spelling.text

theorem IsNumeral.success {value : Int} (number : type.IsNumeral text value) :
    (type.parse text errno).2 = .success := by
  obtain ⟨spelling, same, _⟩ := number
  exact parse_success.mpr (.inr ⟨spelling, same⟩)

theorem IsNumeral.not_passes {value : Int} (number : type.IsNumeral text value) (range : type.InRange value) :
    ¬ type.Passes text := by
  obtain ⟨spelling, same, rfl, noBlanks, noSign⟩ := number
  rintro (_ | ⟨other, leading⟩ | ⟨other, unsigned, signed⟩ | ⟨other, beyond⟩)
  · have nothing : spelling.digits = [] := (List.append_eq_nil_iff.mp (List.append_eq_nil_iff.mp same).2).2
    exact spelling.nonempty nothing
  · exact leading ((Spelling.text_injective same).1 ▸ noBlanks)
  · exact signed ((Spelling.text_injective same).2.1 ▸ noSign unsigned)
  · exact beyond ((Spelling.text_injective same).2.2 ▸ range)

/-- The functions take the empty text for a 0, skip leading blanks, accept a
sign for an unsigned type, and forget that a number was out of range. -/
theorem reportsErrors_iff (type : IntType) (text : Bytes) (errno : Errno) :
    type.ReportsErrors text errno ↔ ¬ type.Passes text := by
  constructor
  · rintro ⟨exact_success, _⟩ passes
    have success : (type.parse text errno).2 = .success := by
      rw [parse_success]
      cases passes with
      | empty => exact .inl rfl
      | blanks spelling | sign spelling | range spelling => exact .inr ⟨spelling, rfl⟩
    obtain ⟨value, number, range⟩ := exact_success.mp success
    exact number.not_passes range passes
  · intro strict
    refine ⟨⟨fun success => ?_, fun ⟨_, number, _⟩ => number.success⟩, ?_⟩
    · rcases parse_success.mp success with rfl | ⟨spelling, rfl⟩
      · exact absurd .empty strict
      · refine ⟨spelling.value, ⟨spelling, rfl, rfl, ?_, fun unsigned => ?_⟩, ?_⟩
        · by_contra leading
          exact strict (.blanks spelling leading)
        · by_contra signed
          exact strict (.sign spelling unsigned signed)
        · by_contra beyond
          exact strict (.range spelling beyond)
    · rintro value ⟨spelling, rfl, rfl, _, noSign⟩ range
      exact parse_value spelling errno noSign range

end IntType

def Spelling.ofInt (value : Int) : Spelling where
  blanks := []
  sign := if value < 0 then .minus else .absent
  digits := decimal value.natAbs
  blank := List.forall_mem_nil _
  nonempty := decimal_ne_nil _
  plain := fun _ => isDigit_of_mem_decimal

@[simp] theorem Spelling.ofInt_text (value : Int) : (Spelling.ofInt value).text = str value := by
  unfold Spelling.ofInt Spelling.text str
  split <;> rfl

@[simp] theorem Spelling.ofInt_value (value : Int) : (Spelling.ofInt value).value = value := by
  unfold Spelling.ofInt Spelling.value
  simp only [numeral_decimal]
  by_cases negative : value < 0
  · rw [if_pos (if_pos negative)]
    omega
  · rw [if_neg (by rw [if_neg negative]; decide)]
    omega

/-- 2^32 + 1 is a 1 without an error. -/
theorem strToInt_beyond : ¬ IntType.int.ReportsErrors (str 4294967297) .success := by
  rintro ⟨exact_success, _⟩
  have spelled := Spelling.ofInt_text 4294967297
  obtain ⟨value, ⟨spelling, same, rfl, _⟩, range⟩ :=
    exact_success.mp (IntType.parse_success.mpr (.inr ⟨_, spelled⟩))
  have written := (Spelling.text_injective (same.trans spelled.symm)).2.2
  rw [Spelling.ofInt_value] at written
  rw [written] at range
  exact absurd range (by decide)

/-! ### `str` and back -/

/-- `char buf[21] = {0}; snprintf(buf, sizeof(buf), …);` and `std::string(buf)`. -/
def throughBuffer (printed : Bytes) : Bytes :=
  (printed.take 20).takeWhile (· ≠ 0)

theorem throughBuffer_str {value : Int} (fits : (str value).length ≤ 20) :
    throughBuffer (str value) = str value := by
  rw [throughBuffer, List.take_of_length_le fits, ← Spelling.ofInt_text, Spelling.cString]

namespace IntType

/-- The text of the value fits the buffer with its NUL, and is converted back. -/
def Recovers (type : IntType) (value : Int) (errno : Errno) : Prop :=
  (str value).length + 1 ≤ 21 ∧ throughBuffer (str value) = str value ∧
    type.parse (throughBuffer (str value)) errno = (value, .success)

variable {type : IntType} {value : Int}

/-- The longest texts are those of -2^63 and of 2^64 - 1. -/
theorem InRange.length_str (range : type.InRange value) : (str value).length ≤ 20 := by
  obtain ⟨lower, upper⟩ := range
  by_cases negative : value < 0
  · have digits : (decimal value.natAbs).length ≤ 19 := by
      apply decimal_length_le (by decide)
      cases type <;> simp only [lowest] at lower <;> omega
    rw [str_negative negative, List.length_cons]
    omega
  · rw [str_nonnegative (not_lt.mp negative)]
    apply decimal_length_le (by decide)
    cases type <;> simp only [highest] at upper <;> omega

theorem InRange.parse_str (range : type.InRange value) (errno : Errno) :
    type.parse (str value) errno = (value, .success) := by
  have noSign : type.signed = false → (Spelling.ofInt value).sign = .absent := by
    intro unsigned
    have nonnegative : 0 ≤ value := by
      cases type with
      | int | int64 => cases unsigned
      | uint64 => exact range.1
    exact if_neg (not_lt.mpr nonnegative)
  have exact_value := parse_value (Spelling.ofInt value) errno noSign (by rwa [Spelling.ofInt_value])
  have success : (type.parse (str value) errno).2 = .success :=
    parse_success.mpr (.inr ⟨_, Spelling.ofInt_text value⟩)
  rw [Spelling.ofInt_text, Spelling.ofInt_value] at exact_value
  exact Prod.ext exact_value success

theorem InRange.recovers (range : type.InRange value) (errno : Errno) : type.Recovers value errno := by
  have fits := range.length_str
  rw [Recovers, throughBuffer_str fits]
  exact ⟨by omega, rfl, range.parse_str errno⟩

end IntType

end Dbss.Util
