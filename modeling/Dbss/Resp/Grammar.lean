import Dbss.Resp.Format
import Dbss.Util.Numeral

namespace Dbss.Resp

open Dbss.Data Dbss.Util

/-! Requests with any decimal numerals, written down without the parser, and
the test that a content begins with one. -/

/-- A length line whose numeral may have leading zeros. -/
inductive LengthLine (mark : UInt8) (length : Nat) : Bytes → Prop where
  | line {digits} (nonempty : digits ≠ []) (plain : ∀ byte ∈ digits, isDigit byte = true)
      (value : numeral digits = length) : LengthLine mark length (mark :: (digits ++ crlf))

/-- Arguments, each behind its length line and in front of a line end. -/
inductive ArgTexts : List Bytes → Bytes → Prop where
  | nil : ArgTexts [] []
  | cons {line arg args texts} (header : LengthLine 36 arg.length line) (more : ArgTexts args texts) :
      ArgTexts (arg :: args) (line ++ (arg ++ (crlf ++ texts)))

inductive IsRequest : List Bytes → Bytes → Prop where
  | request {line args texts} (header : LengthLine 42 args.length line) (some : args ≠ [])
      (all : ArgTexts args texts) : IsRequest args (line ++ texts)

/-- The number of the length line at the front, with what follows the line:
`none` unless the line is its mark, decimal digits of an `int` and a carriage return. -/
def readLength (mark : UInt8) (content : Bytes) : Option (Nat × Bytes) :=
  let line := content.takeWhile (· ≠ 10)
  let digits := (line.drop 1).dropLast
  let after := content.dropWhile (· ≠ 10)
  if line = mark :: (digits ++ [13]) ∧ digits ≠ [] ∧ digits.all isDigit = true ∧ numeral digits < 2147483648 ∧
      after ≠ [] then
    some (numeral digits, after.tail)
  else
    none

/-- What a parser may pass over is in place for `count` arguments: their length
lines, and the line ends behind them. -/
def argsSpelled : Nat → Bytes → Bool
  | 0, _ => true
  | count + 1, content =>
      match readLength 36 content with
      | none => false
      | some (length, rest) => (rest.drop length).take 2 == crlf && argsSpelled count (rest.drop (length + 2))

def requestSpelled (content : Bytes) : Bool :=
  match readLength 42 content with
  | none => false
  | some (count, rest) => argsSpelled count rest

variable {mark : UInt8} {length count : Nat} {line content rest text : Bytes} {args : List Bytes}

theorem LengthLine.canonical (mark : UInt8) (length : Nat) : LengthLine mark length (lengthLine mark length) :=
  .line (by
      obtain ⟨first, tail, number, _⟩ := decimal_head_isDigit length
      simp [number])
    (fun _ => isDigit_of_mem_decimal) (numeral_decimal length)

theorem isRequest_requestText (some : args ≠ []) : IsRequest args (requestText args) := by
  have texts (args : List Bytes) : ArgTexts args (args.flatMap bulkText) := by
    induction args with
    | nil => exact .nil
    | cons arg others ih =>
        have joined := ArgTexts.cons (.canonical 36 arg.length) ih
        simpa [bulkText] using joined
  exact .request (.canonical 42 args.length) some (texts args)

/-- The line feed of a length line is its last byte. -/
theorem LengthLine.split (header : LengthLine mark length line) (other : mark ≠ 10) :
    ∃ front, line = front ++ [10] ∧ 10 ∉ front := by
  cases header with
  | @line digits nonempty plain value =>
      exact ⟨mark :: (digits ++ [13]), by simp [crlf], not_newline_mem plain other⟩

theorem dropWhile_newline (some : content.dropWhile (· ≠ 10) ≠ []) :
    content.dropWhile (· ≠ 10) = 10 :: (content.dropWhile (· ≠ 10)).tail := by
  have stops := List.head_dropWhile_not (fun byte : UInt8 => decide (byte ≠ 10)) some
  have first : (content.dropWhile (· ≠ 10)).head some = 10 := by simpa using stops
  conv_lhs => rw [← List.cons_head_tail some, first]

theorem readLength_iff (other : mark ≠ 10) :
    readLength mark content = some (length, rest) ↔
      (∃ line, LengthLine mark length line ∧ content = line ++ rest) ∧ length < 2147483648 := by
  constructor
  · intro read
    simp only [readLength, Option.ite_none_right_eq_some, Option.some.injEq, Prod.mk.injEq] at read
    obtain ⟨⟨spelled, nonempty, plain, bound, more⟩, rfl, rfl⟩ := read
    refine ⟨⟨_, .line nonempty (by simpa using plain) rfl, ?_⟩, bound⟩
    conv_lhs => rw [← List.takeWhile_append_dropWhile (p := fun byte => decide (byte ≠ 10)) (l := content),
      spelled, dropWhile_newline more]
    simp [crlf]
  · rintro ⟨⟨line, header, rfl⟩, bound⟩
    cases header with
    | @line digits nonempty plain value =>
        have clean : ∀ byte ∈ mark :: (digits ++ [13]), decide (byte ≠ 10) = true := fun byte member =>
          decide_eq_true (ne_of_mem_of_not_mem member (not_newline_mem plain other))
        have split : mark :: (digits ++ crlf) ++ rest = (mark :: (digits ++ [13])) ++ 10 :: rest := by
          simp [crlf]
        have front : (mark :: (digits ++ crlf) ++ rest).takeWhile (· ≠ 10) = mark :: (digits ++ [13]) := by
          rw [split, List.takeWhile_append_of_pos clean, List.takeWhile_cons_of_neg (by simp), List.append_nil]
        have back : (mark :: (digits ++ crlf) ++ rest).dropWhile (· ≠ 10) = 10 :: rest := by
          rw [split, List.dropWhile_append_of_pos clean, List.dropWhile_cons_of_neg (by simp)]
        unfold readLength
        simp only [front, back, List.drop_succ_cons, List.drop_zero, List.dropLast_concat, value]
        rw [if_pos ⟨trivial, nonempty, by simpa using plain, bound, by simp⟩]
        rfl

theorem ArgTexts.length_le (texts : ArgTexts args text) :
    args.length ≤ text.length ∧ ∀ arg ∈ args, arg.length ≤ text.length := by
  induction texts with
  | nil => simp
  | @cons line arg args texts header _ ih =>
      obtain ⟨count, each⟩ := ih
      simp only [crlf, List.length_append, List.length_cons, List.length_nil]
      refine ⟨by omega, fun other member => ?_⟩
      rcases List.mem_cons.mp member with rfl | later
      · omega
      · have := each other later
        omega

theorem argsSpelled_iff :
    argsSpelled count content = true ↔ ∃ args text rest, ArgTexts args text ∧ args.length = count ∧
      (∀ arg ∈ args, arg.length < 2147483648) ∧ content = text ++ rest := by
  induction count generalizing content with
  | zero =>
      refine iff_of_true rfl ⟨[], [], content, .nil, rfl, List.forall_mem_nil _, rfl⟩
  | succ count ih =>
      constructor
      · intro spelled
        rw [argsSpelled] at spelled
        split at spelled
        · cases spelled
        · next length after read =>
            obtain ⟨⟨line, header, rfl⟩, bound⟩ := (readLength_iff (by decide)).mp read
            rw [Bool.and_eq_true, beq_iff_eq] at spelled
            obtain ⟨args, texts, rest, all, counted, small, later⟩ := ih.mp spelled.2
            have enough : length ≤ after.length := by
              have lengths := congrArg List.length spelled.1
              simp only [List.length_take, List.length_drop, crlf, List.length_cons, List.length_nil] at lengths
              omega
            have width : (after.take length).length = length := by
              rw [List.length_take, Nat.min_eq_left enough]
            refine ⟨after.take length :: args, line ++ (after.take length ++ (crlf ++ texts)), rest,
              .cons (by rwa [width]) all, by rw [List.length_cons, counted], ?_, ?_⟩
            · exact List.forall_mem_cons.mpr ⟨by rwa [width], small⟩
            · rw [List.append_assoc, List.append_assoc, List.append_assoc, ← later, ← spelled.1, ← List.drop_drop,
                List.take_append_drop, List.take_append_drop]
      · rintro ⟨args, text, rest, texts, counted, small, rfl⟩
        cases texts with
        | nil => cases counted
        | @cons line arg args texts header more =>
            have bounds := List.forall_mem_cons.mp small
            have read : readLength 36 (line ++ (arg ++ (crlf ++ texts)) ++ rest) =
                some (arg.length, arg ++ (crlf ++ texts) ++ rest) :=
              (readLength_iff (by decide)).mpr ⟨⟨line, header, by rw [List.append_assoc]⟩, bounds.1⟩
            have later := ih.mpr ⟨args, texts, rest, more, Nat.succ.inj counted, bounds.2, rfl⟩
            rw [argsSpelled, read]
            simp [crlf, later]

theorem requestSpelled_iff :
    requestSpelled content = true ↔ ∃ line args texts rest, LengthLine 42 args.length line ∧ ArgTexts args texts ∧
      args.length < 2147483648 ∧ (∀ arg ∈ args, arg.length < 2147483648) ∧ content = line ++ (texts ++ rest) := by
  unfold requestSpelled
  constructor
  · intro spelled
    split at spelled
    · cases spelled
    · next count after read =>
        obtain ⟨⟨line, header, rfl⟩, bound⟩ := (readLength_iff (by decide)).mp read
        obtain ⟨args, texts, rest, all, rfl, small, rfl⟩ := argsSpelled_iff.mp spelled
        exact ⟨line, args, texts, rest, header, all, bound, small, rfl⟩
  · rintro ⟨line, args, texts, rest, header, all, bound, small, rfl⟩
    rw [(readLength_iff (by decide)).mpr ⟨⟨line, header, rfl⟩, bound⟩]
    exact argsSpelled_iff.mpr ⟨args, texts, rest, all, rfl, small, rfl⟩

end Dbss.Resp
