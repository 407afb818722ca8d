import Mathlib.Tactic.Common

namespace Dbss.Data

/-! Fixed-width two's complement integers, as the mathematical integers they
stand for.  Every definition that can overflow passes its exact result through
`wrap32` or `wrap64`; inside the range both are the identity. -/

def int32Max : Int := 2147483647

def wrap32 (value : Int) : Int :=
  (value + 2147483648) % 4294967296 - 2147483648

def wrap64 (value : Int) : Int :=
  (value + 9223372036854775808) % 18446744073709551616 - 9223372036854775808

theorem wrap32_of_range {value : Int} (lower : -2147483648 ≤ value)
    (upper : value < 2147483648) : wrap32 value = value := by
  unfold wrap32
  omega

theorem wrap32_range (value : Int) :
    -2147483648 ≤ wrap32 value ∧ wrap32 value < 2147483648 := by
  unfold wrap32
  omega

/-- A difference of wrapped sums is exact as soon as the difference is in range. -/
theorem wrap32_sub_wrap32 {left right : Int} (lower : -2147483648 ≤ left - right)
    (upper : left - right < 2147483648) : wrap32 (left - wrap32 right) = left - right := by
  unfold wrap32
  omega

end Dbss.Data
