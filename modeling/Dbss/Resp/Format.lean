import Dbss.Util.Strings

namespace Dbss.Resp

open Dbss.Data Dbss.Util

/-! The Redis wire format: requests, and the values a reply may consist of. -/

/-- A length line: `mark` is `*` or `$`. -/
def lengthLine (mark : UInt8) (length : Nat) : Bytes :=
  mark :: (decimal length ++ crlf)

def bulkText (val : Bytes) : Bytes :=
  lengthLine 36 val.length ++ (val ++ crlf)

/-- A request as a Redis client writes it. -/
def requestText (args : List Bytes) : Bytes :=
  lengthLine 42 args.length ++ args.flatMap bulkText

inductive Bulk : Bytes → Prop where
  | nil : Bulk (ascii "$-1" ++ crlf)
  | val (val : Bytes) : Bulk (bulkText val)

/-- Text that may stand in a line. -/
def Clean (text : Bytes) : Prop :=
  13 ∉ text ∧ 10 ∉ text

instance (text : Bytes) : Decidable (Clean text) :=
  inferInstanceAs (Decidable (_ ∧ _))

inductive RespValue : Bytes → Prop where
  | line (mark : UInt8) (text : Bytes) (kind : mark = 43 ∨ mark = 45 ∨ mark = 58) (clean : Clean text) :
      RespValue (mark :: (text ++ crlf))
  | bulk {value} (bulk : Bulk value) : RespValue value
  | multi {values : List Bytes} (bulks : ∀ value ∈ values, Bulk value) :
      RespValue (lengthLine 42 values.length ++ values.flatten)

variable {mark : UInt8} {length other : Nat} {rest remains value text : Bytes} {args values others : List Bytes}

/-! ### Length lines -/

theorem lengthLine_append :
    lengthLine mark length ++ rest = (mark :: (decimal length ++ [13])) ++ 10 :: rest := by
  simp [lengthLine, crlf]

theorem lengthLine_length : (lengthLine mark length).length = (decimal length).length + 3 := by
  simp [lengthLine, crlf]

theorem not_newline_mem {digits : Bytes} (plain : ∀ byte ∈ digits, isDigit byte = true) (other : mark ≠ 10) :
    10 ∉ mark :: (digits ++ [13]) := by
  have absent : 10 ∉ digits := fun found => absurd (plain 10 found) (by decide)
  simp [absent, Ne.symm other]

theorem lengthLine_unique
    (same : lengthLine mark length ++ rest = lengthLine mark other ++ remains) :
    length = other ∧ rest = remains := by
  have digits : decimal length = decimal other := by
    have leading (number : Nat) (after : Bytes) :
        (decimal number ++ (crlf ++ after)).takeWhile isDigit = decimal number :=
      takeWhile_isDigit_append (fun _ => isDigit_of_mem_decimal) (by simp [crlf, isDigit])
    simp only [lengthLine, List.cons_append, List.append_assoc, List.cons.injEq, true_and] at same
    rw [← leading length rest, same, leading]
  cases decimal_injective digits
  exact ⟨rfl, List.append_cancel_left same⟩

/-! ### Requests -/

theorem bulkText_length (val : Bytes) :
    (bulkText val).length = (lengthLine 36 val.length).length + val.length + 2 := by
  simp only [bulkText, crlf, List.length_append, List.length_cons, List.length_nil]
  omega

theorem args_length_le (args : List Bytes) : args.length ≤ (args.flatMap bulkText).length := by
  induction args with
  | nil => simp
  | cons arg others ih =>
      rw [List.flatMap_cons, List.length_append, List.length_cons, bulkText_length]
      omega

theorem requestText_bounds {limit : Nat} (bound : (requestText args).length < limit) :
    args.length < limit ∧ ∀ arg ∈ args, arg.length < limit := by
  have count := args_length_le args
  rw [requestText, List.length_append] at bound
  refine ⟨by omega, fun arg member => ?_⟩
  obtain ⟨before, after, rfl⟩ := List.append_of_mem member
  simp only [List.flatMap_append, List.flatMap_cons, List.length_append, bulkText_length] at bound
  omega

/-! ### Values -/

theorem Bulk.unique (left : Bulk value) (right : Bulk text) (same : value ++ rest = text ++ remains) :
    value = text ∧ rest = remains := by
  cases left with
  | nil =>
      cases right with
      | nil => exact ⟨rfl, List.append_cancel_left same⟩
      | val val =>
          obtain ⟨first, tail, number, digit⟩ := decimal_head_isDigit val.length
          simp [ascii, bulkText, lengthLine, number] at same
          simp [← same.1, isDigit] at digit
  | val val =>
      cases right with
      | nil =>
          obtain ⟨first, tail, number, digit⟩ := decimal_head_isDigit val.length
          simp [ascii, bulkText, lengthLine, number] at same
          simp [same.1, isDigit] at digit
      | val text =>
          simp only [bulkText, List.append_assoc] at same
          obtain ⟨lengths, after⟩ := lengthLine_unique same
          obtain ⟨rfl, after⟩ := List.append_inj after lengths
          exact ⟨rfl, List.append_cancel_left (List.append_cancel_left after)⟩

theorem Bulk.has_cr (bulk : Bulk value) : 13 ∈ value := by
  cases bulk <;> simp [ascii, crlf, bulkText]

theorem bulks_unique (left : ∀ value ∈ values, Bulk value) (right : ∀ value ∈ others, Bulk value)
    (same : values.flatten = others.flatten) : values = others := by
  induction values generalizing others with
  | nil =>
      cases others with
      | nil => rfl
      | cons value more =>
          have present := (right value (by simp)).has_cr
          simp only [List.flatten_nil, List.flatten_cons, List.nil_eq_append_iff] at same
          simp [same.1] at present
  | cons value more ih =>
      cases others with
      | nil =>
          have present := (left value (by simp)).has_cr
          simp only [List.flatten_nil, List.flatten_cons, List.append_eq_nil_iff] at same
          simp [same.1] at present
      | cons text others =>
          obtain ⟨rfl, tail⟩ := (left value (by simp)).unique (right text (by simp)) same
          rw [ih (fun other member => left other (by simp [member]))
            (fun other member => right other (by simp [member])) tail]

theorem RespValue.has_cr (reply : RespValue value) : 13 ∈ value := by
  cases reply with
  | line => simp [crlf]
  | bulk bulk => exact bulk.has_cr
  | multi => simp [lengthLine, crlf]

/-- A multi-bulk value announces as many bulk values as follow. -/
theorem RespValue.multi_length (bulks : ∀ value ∈ values, Bulk value)
    (reply : RespValue (lengthLine 42 length ++ values.flatten)) : length = values.length := by
  generalize whole : lengthLine 42 length ++ values.flatten = text at reply
  cases reply with
  | line _ _ kind => rcases kind with rfl | rfl | rfl <;> simp [lengthLine] at whole
  | bulk bulk => cases bulk <;> simp [lengthLine, bulkText, ascii] at whole
  | multi others =>
      obtain ⟨rfl, tail⟩ := lengthLine_unique whole
      rw [bulks_unique bulks others tail]

theorem not_respValue_dollar : ¬ RespValue (ascii "$0" ++ crlf) := by
  intro reply
  generalize whole : ascii "$0" ++ crlf = text at reply
  cases reply with
  | line _ _ kind => rcases kind with rfl | rfl | rfl <;> simp [ascii] at whole
  | bulk bulk =>
      cases bulk with
      | nil => simp [ascii] at whole
      | val val =>
          have lengths := congrArg List.length whole
          have positive := decimal_length_pos val.length
          have four : (ascii "$0" ++ crlf).length = 4 := rfl
          rw [four, bulkText_length, lengthLine_length] at lengths
          omega
  | multi => simp [ascii, lengthLine] at whole

end Dbss.Resp
