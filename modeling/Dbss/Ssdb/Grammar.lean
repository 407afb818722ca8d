import Dbss.Ssdb.Format
import Mathlib.Data.List.TakeWhile

namespace Dbss.Ssdb

open Dbss.Data Dbss.Util

/-! The grammar of the SSDB format, written down without the receiver, and how
the records the receiver reads relate to it. -/

/-- A header line that is a plain numeral of its value, up to a carriage return. -/
def PlainHeader (line : Bytes) (length : Nat) : Prop :=
  ∃ digits, (line = digits ∨ line = digits ++ [13]) ∧ digits ≠ [] ∧
    (∀ byte ∈ digits, isDigit byte = true) ∧ numeral digits = length

/-- A packet in its textual form, from its first header on. -/
inductive Plain : List Bytes → Bytes → Prop where
  | close {ending} (ended : LineEnd ending) : Plain [] ending
  | record {line body ending packet text} (header : PlainHeader line body.length)
      (ended : LineEnd ending) (more : Plain packet text) :
      Plain (body :: packet) (line ++ 10 :: (body ++ (ending ++ text)))

/-- Blank bytes and a packet. -/
def Grammatical (packet : List Bytes) (consumed : Bytes) : Prop :=
  ∃ blank text, consumed = blank ++ text ∧ (∀ byte ∈ blank, isBlank byte = true) ∧ Plain packet text

/-- Nothing but a carriage return follows the leading digits of the line, and
their value is an `int`. -/
def CleanHeader (line : Bytes) : Prop :=
  (line.dropWhile isDigit = [] ∨ line.dropWhile isDigit = [13]) ∧
    numeral (line.takeWhile isDigit) < 2147483648

instance (line : Bytes) : Decidable (CleanHeader line) :=
  inferInstanceAs (Decidable (_ ∧ _))

/-- Every header line of the packet that the content begins with is clean. -/
def CleanHeaders (limit : Nat) (content : Bytes) : Prop :=
  ∀ records ending rest, Splits limit content records (ending ++ rest) → LineEnd ending →
    ∀ record ∈ records, CleanHeader record.line

/-- The receiver has to wait for the rest of a record, or for the next one. -/
def Waits (limit : Nat) (content : Bytes) : Prop :=
  ∃ records tail, Splits limit content records tail ∧ Unfinished tail

/-- The tail is the beginning of an empty line that may stand here (there are
records before it exactly when `begun`) or of a record that fits.  A header line
counts by the value it can still get; behind a whole body nothing but a line
end may follow. -/
inductive Completable (limit parsed : Nat) (begun : Prop) : Bytes → Prop where
  | emptyLine {part} (some : begun) (start : part = [] ∨ part = [13]) :
      Completable limit parsed begun part
  | header {part missing length} (header : Header (part ++ missing) length)
      (fits : parsed + (part ++ missing).length + length + 2 ≤ limit) :
      Completable limit parsed begun part
  | body {line length part} (header : Header line length) (within : part.length ≤ length)
      (fits : parsed + line.length + length + 2 ≤ limit) :
      Completable limit parsed begun (line ++ 10 :: part)
  | ending {line body} (header : Header line body.length)
      (fits : parsed + line.length + body.length + 3 ≤ limit) :
      Completable limit parsed begun (line ++ 10 :: (body ++ [13]))

/-- Wherever the receiver waits, what it waits for can still come. -/
def Viable (limit : Nat) (content : Bytes) : Prop :=
  ∀ records tail, Splits limit content records tail → Unfinished tail →
    Completable limit ((content.takeWhile isBlank).length + (recordsText records).length)
      (records ≠ []) tail

variable {limit parsed length : Nat} {line content bytes tail rest : Bytes} {records : List Record}

/-! ### Header lines -/

theorem Header.wrap_numeral (header : Header line length) :
    wrap32 (numeral (line.takeWhile isDigit)) = length := by
  obtain ⟨first, starts, digit⟩ := header.startsWithDigit
  have small : numeral (line.takeWhile isDigit) < _ := numeral_lt fun _ => List.mem_takeWhile_imp
  have short : (line.takeWhile isDigit).length ≤ 18 :=
    (List.takeWhile_prefix _).length_le.trans header.short
  have power : 10 ^ (line.takeWhile isDigit).length ≤ 10 ^ 18 := Nat.pow_le_pow_right (by decide) short
  have read : strtol line .success = _ := strtol_of_digit (Option.mem_def.mp starts) digit (by omega)
  have value := header.value
  rwa [atoi, read] at value

theorem Header.plain_iff (header : Header line length) :
    PlainHeader line length ↔ CleanHeader line := by
  constructor
  · intro numeral
    obtain ⟨digits, shape, _, plain, value⟩ := numeral
    have bound := header.length_lt
    rcases shape with rfl | rfl
    · have all : line.takeWhile isDigit = line := List.takeWhile_eq_self_iff.mpr plain
      have none : line.dropWhile isDigit = [] := List.dropWhile_eq_nil_iff.mpr plain
      exact ⟨.inl none, by rw [all]; omega⟩
    · have leading : (digits ++ [13]).takeWhile isDigit = digits :=
        takeWhile_isDigit_append plain (by simp [isDigit])
      have after : (digits ++ [13]).dropWhile isDigit = [13] := by
        rw [List.dropWhile_append_of_pos plain]
        rfl
      exact ⟨.inr after, by rw [leading]; omega⟩
  · intro clean
    obtain ⟨shape, bound⟩ := clean
    have value := header.wrap_numeral
    rw [wrap32_of_range (by omega) (by omega)] at value
    refine ⟨line.takeWhile isDigit, ?_, ?_, fun _ => List.mem_takeWhile_imp, by omega⟩
    · have whole := line.takeWhile_append_dropWhile (p := isDigit)
      rcases shape with none | single
      · exact .inl (by simpa [none] using whole.symm)
      · exact .inr (by simpa [single] using whole.symm)
    · obtain ⟨first, starts, digit⟩ := header.startsWithDigit
      cases line with
      | nil => simp at starts
      | cons byte rest =>
          cases starts
          simp [digit]

theorem PlainHeader.noNewline (header : PlainHeader line length) : 10 ∉ line := by
  obtain ⟨digits, shape, _, plain, _⟩ := header
  have clean : 10 ∉ digits := fun found => by simpa [isDigit] using plain 10 found
  rcases shape with rfl | rfl
  · exact clean
  · simpa using clean

theorem PlainHeader.starts (header : PlainHeader line length) (rest : Bytes) :
    ∃ first more, line ++ rest = first :: more ∧ isDigit first = true := by
  obtain ⟨digits, shape, nonempty, plain, _⟩ := header
  cases digits with
  | nil => exact absurd rfl nonempty
  | cons first others =>
      have digit := plain first (by simp)
      rcases shape with rfl | rfl
      · exact ⟨first, _, rfl, digit⟩
      · exact ⟨first, _, rfl, digit⟩

/-! ### Packets -/

/-- Records with clean headers are in the grammar, and only those. -/
theorem plain_records_iff {ending : Bytes} (ended : LineEnd ending) :
    Plain (bodies records) (recordsText records ++ ending) ↔
      ∀ record ∈ records, CleanHeader record.line := by
  induction records with
  | nil => exact ⟨fun _ => by simp, fun _ => .close ended⟩
  | cons first records ih =>
      have text : recordsText (first :: records) ++ ending =
          first.line ++ 10 :: (first.body ++ (first.ending ++ (recordsText records ++ ending))) := by
        simp [recordsText_cons, Record.text]
      rw [text]
      constructor
      · intro plain
        generalize same : first.line ++ 10 ::
          (first.body ++ (first.ending ++ (recordsText records ++ ending))) = whole at plain
        cases plain with
        | @record line _ closing _ more header closes rest =>
            obtain ⟨lines, after⟩ := line_unique first.header.noNewline header.noNewline same
            obtain ⟨_, after⟩ := first.ended.unique closes (List.append_cancel_left after)
            subst after
            intro record member
            rcases List.mem_cons.mp member with rfl | later
            · rw [← lines] at header
              exact record.header.plain_iff.mp header
            · exact ih.mp rest record later
      · intro clean
        exact .record (first.header.plain_iff.mpr (clean first (by simp))) first.ended
          (ih.mpr fun record member => clean record (by simp [member]))

/-! ### Verdicts on a whole content -/

theorem nonblank_after_blank {byte : UInt8}
    (starts : (content.dropWhile isBlank).head? = some byte) : isBlank byte = false := by
  simpa [starts] using List.head?_dropWhile_not isBlank content

theorem recordsText_starts (nonempty : records ≠ []) (rest : Bytes) :
    ∃ first more, recordsText records ++ rest = first :: more ∧ isDigit first = true := by
  cases records with
  | nil => exact absurd rfl nonempty
  | cons record others =>
      obtain ⟨first, starts, digit⟩ := record.header.startsWithDigit
      cases line : record.line with
      | nil => simp [line] at starts
      | cons byte more =>
          rw [line] at starts
          cases starts
          exact ⟨first, _, by simp [recordsText_cons, Record.text, line]; rfl, digit⟩

theorem Splits.content_eq (splits : Splits limit content records tail) :
    content = content.takeWhile isBlank ++ (recordsText records ++ tail) := by
  rw [← splits.1, List.takeWhile_append_dropWhile]

theorem splits_of_append {blank : Bytes} (skipped : ∀ byte ∈ blank, isBlank byte = true)
    (nonempty : records ≠ []) (within : blank.length + (recordsText records).length ≤ limit)
    (tail : Bytes) :
    Splits limit (blank ++ (recordsText records ++ tail)) records tail ∧
      (blank ++ (recordsText records ++ tail)).takeWhile isBlank = blank := by
  obtain ⟨first, more, starts, digit⟩ := recordsText_starts nonempty tail
  have stop := isBlank_of_isDigit digit
  have front : (blank ++ (recordsText records ++ tail)).takeWhile isBlank = blank := by
    rw [List.takeWhile_append_of_pos skipped, starts, List.takeWhile_cons_of_neg (by simp [stop]),
      List.append_nil]
  refine ⟨⟨?_, fun _ => by rwa [front]⟩, front⟩
  rw [List.dropWhile_append_of_pos skipped, starts, List.dropWhile_cons_of_neg (by simp [stop])]

theorem Reads.complete {used : Nat} (reads : Reads limit content records (.complete used)) :
    ∃ ending rest, LineEnd ending ∧ Splits limit content records (ending ++ rest) ∧ records ≠ [] ∧
      used = (content.takeWhile isBlank ++ (recordsText records ++ ending)).length := by
  obtain ⟨tail, splits, stops⟩ := reads_iff.mp reads
  cases stops with
  | @close ending rest ended =>
      refine ⟨ending, rest, ended, splits, ?_, by simp only [List.length_append]; omega⟩
      intro same
      subst same
      have blank : (content.dropWhile isBlank).head? = some (ending.headD 10) → _ := nonblank_after_blank
      rw [splits.1] at blank
      cases ended <;> simp [recordsText, isBlank] at blank

theorem grammatical_iff {blank ending : Bytes} (skipped : ∀ byte ∈ blank, isBlank byte = true)
    (nonempty : records ≠ []) (ended : LineEnd ending) :
    Grammatical (bodies records) (blank ++ (recordsText records ++ ending)) ↔
      ∀ record ∈ records, CleanHeader record.line := by
  rw [← plain_records_iff ended]
  constructor
  · intro grammatical
    obtain ⟨other, text, same, alsoSkipped, plain⟩ := grammatical
    obtain ⟨first, more, starts, digit⟩ := recordsText_starts nonempty ending
    have started : ∃ byte rest, text = byte :: rest ∧ isDigit byte = true := by
      cases records with
      | nil => exact absurd rfl nonempty
      | cons record others =>
          cases plain with
          | record header => exact header.starts _
    obtain ⟨byte, rest, start, alsoDigit⟩ := started
    have dropped := congrArg (List.dropWhile isBlank) same
    rw [List.dropWhile_append_of_pos skipped, List.dropWhile_append_of_pos alsoSkipped, starts,
      start, List.dropWhile_cons_of_neg (by simp [isBlank_of_isDigit digit]),
      List.dropWhile_cons_of_neg (by simp [isBlank_of_isDigit alsoDigit]), ← starts, ← start] at dropped
    rwa [dropped]
  · exact fun plain => ⟨blank, _, rfl, skipped, plain⟩

/-! ### Waiting for bytes that can still come -/

variable {begun : Prop} {missing extension : Bytes}

theorem Completable.of_record {record : Record} (cut : record.text = tail ++ missing)
    (some : missing ≠ []) (fits : parsed + record.text.length ≤ limit) :
    Completable limit parsed begun tail := by
  have width := record.text_length
  have ending := record.ended.length_le
  rcases List.append_eq_append_iff.mp cut.symm with ⟨middle, line, _⟩ | ⟨more, rfl, after⟩
  · rw [line] at width
    exact .header (line ▸ record.header) (by omega)
  · cases more with
    | nil =>
        have header := record.header
        rw [← List.append_nil record.line] at header
        have room : parsed + (record.line ++ []).length + record.body.length + 2 ≤ limit := by
          rw [List.append_nil]
          omega
        rw [List.append_nil]
        exact .header header room
    | cons newline more =>
        simp only [List.cons_append, List.cons.injEq] at after
        obtain ⟨rfl, after⟩ := after
        rcases List.append_eq_append_iff.mp after with ⟨middle, rfl, cutEnding⟩ | ⟨middle, body, _⟩
        · -- the cut is in the line end: before it or behind its carriage return
          rcases record.ended.part_cases cutEnding some with rfl | rfl
          · exact .body record.header (by simp) (by omega)
          · refine .ending record.header ?_
            have longer := List.length_pos_iff.mpr some
            rw [cutEnding, List.length_append, List.length_singleton] at width
            omega
        · exact .body record.header (by simp [body]) (by omega)

/-- What is completable is completed by some bytes, to an empty line or a record. -/
theorem Completable.completes (can : Completable limit parsed begun tail) :
    begun ∧ LineEnd (tail ++ [10]) ∨
      ∃ record missing, Record.text record = tail ++ missing ∧ parsed + record.text.length ≤ limit := by
  cases can with
  | emptyLine some start => exact .inl ⟨some, lineEnd_iff.mpr start⟩
  | @header _ missing length header fits =>
      have body : (List.replicate length (0 : UInt8)).length = length := List.length_replicate
      let record : Record := ⟨_, List.replicate length 0, [10], by rwa [body], .lf⟩
      refine .inr ⟨record, missing ++ 10 :: (List.replicate length 0 ++ [10]), ?_, ?_⟩
      · simp [record, Record.text]
      · rw [record.text_length]
        simp only [record, body, List.length_singleton]
        omega
  | @body line length part header within fits =>
      have body : (part ++ List.replicate (length - part.length) (0 : UInt8)).length = length := by
        rw [List.length_append, List.length_replicate]
        omega
      let record : Record := ⟨line, _, [10], by rwa [body], .lf⟩
      refine .inr ⟨record, List.replicate (length - part.length) 0 ++ [10], ?_, ?_⟩
      · simp [record, Record.text]
      · rw [record.text_length]
        simp only [record, body, List.length_singleton]
        omega
  | @ending line body header fits =>
      let record : Record := ⟨line, body, [13, 10], header, .crlf⟩
      refine .inr ⟨record, [10], by simp [record, Record.text], ?_⟩
      rw [record.text_length]
      simp only [record, List.length_cons, List.length_nil]
      omega

/-- A completable content is the beginning of a packet. -/
theorem Splits.completes (splits : Splits limit content records tail)
    (can : Completable limit ((content.takeWhile isBlank).length + (recordsText records).length)
      (records ≠ []) tail) :
    ∃ extension others ending, LineEnd ending ∧ others ≠ [] ∧
      Splits limit (content ++ extension) others ending := by
  have skipped : ∀ byte ∈ content.takeWhile isBlank, isBlank byte = true :=
    fun _ => List.mem_takeWhile_imp
  rcases can.completes with ⟨some, ended⟩ | ⟨record, missing, text, fits⟩
  · refine ⟨[10], records, tail ++ [10], ended, some, ?_⟩
    have whole := (splits_of_append skipped some (splits.2 some) (tail ++ [10])).1
    rwa [← List.append_assoc (recordsText records), ← List.append_assoc, ← splits.content_eq] at whole
  · refine ⟨missing ++ [10], records ++ [record], [10], .lf, by simp, ?_⟩
    have longer : recordsText (records ++ [record]) ++ [10] =
        recordsText records ++ tail ++ (missing ++ [10]) := by
      simp [recordsText, text]
    have within : (content.takeWhile isBlank).length + (recordsText (records ++ [record])).length ≤ limit := by
      simp only [recordsText, List.flatMap_append, List.flatMap_singleton, List.length_append] at fits ⊢
      omega
    have whole := (splits_of_append skipped (by simp) within [10]).1
    rwa [longer, ← List.append_assoc, ← splits.content_eq] at whole

/-- Where a packet follows, its reader was waiting for what could still come. -/
theorem Splits.completable {others : List Record} {ending : Bytes}
    (splits : Splits limit content records tail) (waits : Unfinished tail)
    (whole : Splits limit (content ++ extension) others (ending ++ rest)) (some : others ≠ [])
    (ended : LineEnd ending) :
    Completable limit ((content.takeWhile isBlank).length + (recordsText records).length)
      (records ≠ []) tail := by
  obtain ⟨text, within⟩ := whole
  have within := within some
  rw [List.dropWhile_append] at text
  rw [List.takeWhile_append] at within
  have partition := congrArg List.length (content.takeWhile_append_dropWhile (p := isBlank))
  rw [List.length_append] at partition
  by_cases blank : content.dropWhile isBlank = []
  · -- only blank bytes have come, so any record that follows will do
    have empty := splits.1
    rw [blank] at empty partition
    obtain ⟨none, rfl⟩ := List.nil_eq_append_iff.mp empty
    rw [if_pos (by simpa using partition)] at within
    cases others with
    | nil => exact absurd rfl some
    | cons record others =>
        refine .of_record (show record.text = [] ++ record.text from rfl) ?_ ?_
        · exact List.ne_nil_of_length_pos record.text_length_pos
        · simp only [List.length_append, recordsText_cons, none, List.length_nil] at within partition ⊢
          omega
  · have unfinished : (content.takeWhile isBlank).length ≠ content.length := fun all =>
      blank (List.eq_nil_of_length_eq_zero (by omega))
    rw [if_neg (by simpa using blank), splits.1, List.append_assoc] at text
    rw [if_neg unfinished] at within
    obtain ⟨more, rfl, after⟩ := records_front ended text
    cases more with
    | nil =>
        simp only [List.append_nil] at some
        have after : tail ++ extension = ending ++ rest := after
        rcases List.append_eq_append_iff.mp after with ⟨middle, cut, _⟩ | ⟨middle, tail, _⟩
        · refine .emptyLine some (ended.part_cases cut ?_)
          intro same
          subst same
          exact waits.not_lineEnd ended (show _ = ending ++ [] by simpa using cut.symm)
        · exact (waits.not_lineEnd ended tail).elim
    | cons record others =>
        rw [recordsText_cons, List.append_assoc] at after
        rcases List.append_eq_append_iff.mp after with ⟨middle, cut, _⟩ | ⟨middle, tail, _⟩
        · refine .of_record cut ?_ ?_
          · intro same
            subst same
            exact waits.not_record (show _ = record.text ++ [] by simpa using cut.symm)
          · simp only [recordsText, List.flatMap_append, List.flatMap_cons, List.length_append] at within ⊢
            omega
        · exact (waits.not_record tail).elim

end Dbss.Ssdb
