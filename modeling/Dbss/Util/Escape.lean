import Dbss.Util.Strings

namespace Dbss.Util

open Dbss.Data

/-! `str_escape` and `str_unescape` of `util/strings.h`. -/

/-- A `char` as the `int` it is promoted to: `char` is signed. -/
def charValue (c : UInt8) : Int :=
  if c.toNat < 128 then c.toNat else c.toNat - 256

def hex : Bytes := ascii "0123456789abcdef"

/-- The body of the loop of `str_escape`. -/
def escapeByte (c : UInt8) : Bytes :=
  if c = 13 then ascii "\\r"
  else if c = 10 then ascii "\\n"
  else if c = 9 then ascii "\\t"
  else if c = 92 then ascii "\\\\"
  else if c = 32 then [c]
  else if 33 ≤ charValue c ∧ charValue c ≤ 126 then [c]
  else ascii "\\x" ++ [hex.getD (c >>> 4).toNat 0, hex.getD (c &&& 15).toNat 0]

def escaped (text : Bytes) : Bytes :=
  text.flatMap escapeByte

/-- `str_escape`, which is given the size as an `int`. -/
def strEscape (text : Bytes) : Bytes :=
  escaped (text.take (Bytes.size text).toNat)

def hexInt (c : UInt8) : Int :=
  if 48 ≤ charValue c ∧ charValue c ≤ 57 then charValue c - 48
  else charValue c - 97 + 10

/-- The cases of `str_unescape` for the byte behind a backslash, without `x`. -/
def unescapeByte (c2 : UInt8) : UInt8 :=
  if c2 = 97 then 7
  else if c2 = 98 then 8
  else if c2 = 102 then 12
  else if c2 = 118 then 11
  else if c2 = 114 then 13
  else if c2 = 110 then 10
  else if c2 = 116 then 9
  else c2

/-- `s[index]`; every use is behind a test against the size. -/
def byteAt (s : Bytes) (index : Int) : UInt8 :=
  s.getD index.toNat 0

/-- The loop of `str_unescape` from `i` on.  Each round moves `i` forward, so
`size + 1` rounds are enough. -/
def unescapeLoop (s : Bytes) (size : Int) : Nat → Int → Bytes → Bytes
  | 0, _, ret => ret
  | rounds + 1, i, ret =>
      if i < size then
        let c := byteAt s i
        if c ≠ 92 then
          unescapeLoop s size rounds (i + 1) (ret ++ [c])
        else if i ≥ size - 1 then
          unescapeLoop s size rounds (i + 1) ret
        else
          let c2 := byteAt s (i + 1)
          if c2 = 120 then
            if i + 1 < size - 2 then
              let value := hexInt (byteAt s (i + 2)) * 16 + hexInt (byteAt s (i + 3))
              unescapeLoop s size rounds (i + 4) (ret ++ [UInt8.ofInt value])
            else
              unescapeLoop s size rounds (i + 2) ret
          else
            unescapeLoop s size rounds (i + 2) (ret ++ [unescapeByte c2])
      else
        ret

def strUnescape (s : Bytes) : Bytes :=
  let size := Bytes.size s
  unescapeLoop s size (size.toNat + 1) 0 []

/-- What the decoder can meet in an escaped text: one byte of the original and
the bytes that stand for it. -/
inductive Escapes : UInt8 → Bytes → Prop where
  | plain {c} (printable : 32 ≤ c.toNat ∧ c.toNat ≤ 126) (clean : c ≠ 92) : Escapes c [c]
  | short {c c2} (printable : 32 ≤ c2.toNat ∧ c2.toNat ≤ 126) (other : c2 ≠ 120)
      (meaning : unescapeByte c2 = c) : Escapes c [92, c2]
  | hexadecimal (c) : Escapes c [92, 120, hex.getD (c.toNat / 16) 0, hex.getD (c.toNat % 16) 0]

variable {text front back ret : Bytes} {c : UInt8}

theorem charValue_printable : 33 ≤ charValue c ∧ charValue c ≤ 126 ↔ 33 ≤ c.toNat ∧ c.toNat ≤ 126 := by
  have size := c.toNat_lt
  unfold charValue
  split <;> omega

theorem high_nibble (c : UInt8) : (c >>> 4).toNat = c.toNat / 16 := by
  rw [UInt8.toNat_shiftRight, Nat.shiftRight_eq_div_pow]
  rfl

theorem low_nibble (c : UInt8) : (c &&& 15).toNat = c.toNat % 16 := by
  rw [UInt8.toNat_and]
  exact Nat.and_two_pow_sub_one_eq_mod c.toNat 4

theorem escapeByte_escapes (c : UInt8) : Escapes c (escapeByte c) := by
  unfold escapeByte
  split
  · next same => exact same ▸ (.short (by decide) (by decide) rfl : Escapes 13 [92, 114])
  split
  · next same => exact same ▸ (.short (by decide) (by decide) rfl : Escapes 10 [92, 110])
  split
  · next same => exact same ▸ (.short (by decide) (by decide) rfl : Escapes 9 [92, 116])
  split
  · next same => exact same ▸ (.short (by decide) (by decide) rfl : Escapes 92 [92, 92])
  next clean =>
  split
  · next same => exact .plain (by simp [same]) clean
  split
  · next printable =>
      have range := charValue_printable.mp printable
      exact .plain ⟨by omega, range.2⟩ clean
  · rw [high_nibble, low_nibble]
    exact .hexadecimal c

theorem hex_printable {digit : Nat} (small : digit < 16) :
    32 ≤ (hex.getD digit 0).toNat ∧ (hex.getD digit 0).toNat ≤ 126 := by
  have each : ∀ digit < 16, 32 ≤ (hex.getD digit 0).toNat ∧ (hex.getD digit 0).toNat ≤ 126 := by decide
  exact each digit small

theorem hexInt_hex {digit : Nat} (small : digit < 16) : hexInt (hex.getD digit 0) = digit := by
  have each : ∀ digit < 16, hexInt (hex.getD digit 0) = digit := by decide
  exact each digit small

theorem Escapes.printable {bytes : Bytes} (escapes : Escapes c bytes) :
    ∀ byte ∈ bytes, 32 ≤ byte.toNat ∧ byte.toNat ≤ 126 := by
  have size := c.toNat_lt
  cases escapes with
  | plain printable _ => exact List.forall_mem_singleton.mpr printable
  | short printable _ _ => exact List.forall_mem_cons.mpr ⟨by decide, List.forall_mem_singleton.mpr printable⟩
  | hexadecimal =>
      refine List.forall_mem_cons.mpr ⟨by decide, List.forall_mem_cons.mpr ⟨by decide, ?_⟩⟩
      refine List.forall_mem_cons.mpr ⟨hex_printable (by omega), ?_⟩
      exact List.forall_mem_singleton.mpr (hex_printable (by omega))

theorem escaped_printable (text : Bytes) : ∀ byte ∈ escaped text, 32 ≤ byte.toNat ∧ byte.toNat ≤ 126 := by
  intro byte member
  obtain ⟨c, _, inside⟩ := List.mem_flatMap.mp member
  exact (escapeByte_escapes c).printable byte inside

theorem Escapes.length_pos {bytes : Bytes} (escapes : Escapes c bytes) : 0 < bytes.length := by
  cases escapes <;> simp

theorem length_le_escaped (text : Bytes) : text.length ≤ (escaped text).length := by
  induction text with
  | nil => exact le_refl _
  | cons c rest ih =>
      have first := (escapeByte_escapes c).length_pos
      rw [escaped, List.flatMap_cons, List.length_append, List.length_cons, ← escaped]
      omega

theorem byteAt_append {index : Int} {offset : Nat} (behind : index = front.length + offset) :
    byteAt (front ++ back) index = back.getD offset 0 := by
  have position : index.toNat = front.length + offset := by omega
  rw [byteAt, position, List.getD_eq_getElem?_getD, List.getD_eq_getElem?_getD,
    List.getElem?_append_right (Nat.le_add_right _ _), Nat.add_sub_cancel_left]

/-- One round of the decoder takes the next escaped byte off the text. -/
theorem unescapeLoop_step {bytes : Bytes} (escapes : Escapes c bytes) (rounds : Nat)
    (here : text = front ++ (bytes ++ back)) :
    unescapeLoop text text.length (rounds + 1) front.length ret =
      unescapeLoop text text.length rounds (front ++ bytes).length (ret ++ [c]) := by
  have size : (text.length : Int) = front.length + bytes.length + back.length := by
    rw [here]
    simp only [List.length_append]
    omega
  have read {index : Int} (offset : Nat) (behind : index = front.length + offset) :
      byteAt text index = (bytes ++ back).getD offset 0 := by
    rw [here, byteAt_append behind]
  have first := read 0 (show (front.length : Int) = front.length + (0 : Nat) by omega)
  rw [unescapeLoop, List.length_append]
  cases escapes with
  | plain _ clean =>
      rw [List.length_singleton] at size ⊢
      replace first : byteAt text front.length = c := first
      rw [if_pos (by omega), first, if_pos clean]
      rfl
  | @short c2 _ other meaning =>
      rw [List.length_cons, List.length_singleton] at size ⊢
      have second : byteAt text (front.length + 1) = c2 := read 1 (by omega)
      replace first : byteAt text front.length = 92 := first
      simp only [first, second, ne_eq, not_true, if_false, meaning, if_neg other]
      rw [if_pos (by omega), if_neg (by omega)]
      rfl
  | hexadecimal =>
      have bound := c.toNat_lt
      simp only [List.length_cons, List.length_nil] at size ⊢
      have second : byteAt text (front.length + 1) = 120 := read 1 (by omega)
      have third : byteAt text (front.length + 2) = hex.getD (c.toNat / 16) 0 := read 2 (by omega)
      have fourth : byteAt text (front.length + 3) = hex.getD (c.toNat % 16) 0 := read 3 (by omega)
      have value : UInt8.ofInt (((c.toNat / 16 : Nat) : Int) * 16 + (c.toNat % 16 : Nat)) = c := by
        have parts : ((c.toNat / 16 : Nat) : Int) * 16 + (c.toNat % 16 : Nat) = c.toNat := by omega
        have small : (((c.toNat : Nat) : Int) % 2 ^ 8).toNat = c.toNat := by omega
        rw [parts, UInt8.ofInt, small, UInt8.ofNat_toNat]
      replace first : byteAt text front.length = 92 := first
      simp only [first, second, third, fourth, ne_eq, not_true, if_false, if_true,
        hexInt_hex (show c.toNat / 16 < 16 by omega), hexInt_hex (show c.toNat % 16 < 16 by omega), value]
      rw [if_pos (by omega), if_neg (by omega), if_pos (by omega)]
      rfl

theorem unescapeLoop_escaped {rounds : Nat} (enough : back.length < rounds) (here : text = front ++ escaped back) :
    unescapeLoop text text.length rounds front.length ret = ret ++ back := by
  induction back generalizing front ret rounds with
  | nil =>
      obtain ⟨rounds, rfl⟩ := Nat.exists_eq_add_of_lt enough
      have all : text = front := by simpa [escaped] using here
      rw [unescapeLoop, if_neg (by rw [all]; omega), List.append_nil]
  | cons c rest ih =>
      obtain ⟨rounds, rfl⟩ := Nat.exists_eq_succ_of_ne_zero (Nat.ne_of_gt (Nat.zero_lt_of_lt enough))
      rw [escaped, List.flatMap_cons, ← escaped] at here
      rw [unescapeLoop_step (escapeByte_escapes c) rounds here,
        ih (by simpa using enough) (by rw [here, List.append_assoc]), List.append_assoc]
      rfl

theorem strEscape_of_short (short : text.length < 2147483648) : strEscape text = escaped text := by
  rw [strEscape, size_of_short short, Int.toNat_natCast, List.take_length]

/-- `str_unescape` undoes `str_escape`, whose output is printable ASCII. -/
theorem unescape_escape (text : Bytes) :
    ((escaped text).length < 2147483648 → strUnescape (strEscape text) = text) ∧
      ∀ byte ∈ strEscape text, 32 ≤ byte.toNat ∧ byte.toNat ≤ 126 := by
  refine ⟨fun short => ?_, escaped_printable _⟩
  have shorter := length_le_escaped text
  rw [strEscape_of_short (by omega), strUnescape]
  simp only [size_of_short short, Int.toNat_natCast]
  exact unescapeLoop_escaped (show text.length < (escaped text).length + 1 by omega) (List.nil_append _).symm

theorem unescape_escape_backslash :
    strUnescape (strEscape [92, 120, 9, 255]) = [92, 120, 9, 255] ∧
      ∀ byte ∈ strEscape [92, 120, 9, 255], 32 ≤ byte.toNat ∧ byte.toNat ≤ 126 :=
  ⟨(unescape_escape [92, 120, 9, 255]).1 (by decide), (unescape_escape [92, 120, 9, 255]).2⟩

example : strEscape [92, 120, 9, 255] = ascii "\\\\x\\t\\xff" := by decide

end Dbss.Util
