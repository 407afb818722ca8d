import Dbss.Util.Strings

namespace Dbss.Ssdb

open Dbss.Data Dbss.Util

/-! The SSDB packet format: what a sender writes, and which byte strings a
receiver of this code base takes for a packet, for the beginning of one, or
for neither. -/

/-! ### Writing -/

def encodeRecord (record : Bytes) : Bytes :=
  decimal record.length ++ 10 :: (record ++ [10])

/-- The encoding of a packet: its records and an empty line. -/
def encode (packet : List Bytes) : Bytes :=
  packet.flatMap encodeRecord ++ [10]

/-! ### Reading -/

inductive LineEnd : Bytes → Prop where
  | lf : LineEnd [10]
  | crlf : LineEnd [13, 10]

/-- A header line, without its newline, that the receiver takes to announce a
body of `length` bytes.  The value is the one `atoi` finds. -/
structure Header (line : Bytes) (length : Nat) : Prop where
  noNewline : 10 ∉ line
  short : line.length ≤ 18
  startsWithDigit : ∃ first ∈ line.head?, isDigit first = true
  value : atoi line = length

structure Record where
  line : Bytes
  body : Bytes
  ending : Bytes
  header : Header line body.length
  ended : LineEnd ending

def Record.text (record : Record) : Bytes :=
  record.line ++ 10 :: (record.body ++ record.ending)

def recordsText (records : List Record) : Bytes :=
  records.flatMap Record.text

def bodies (records : List Record) : List Bytes :=
  records.map Record.body

/-- What is left when the receiver has to wait: no line end in sight, a body
that is not all there, or a body that no line end follows. -/
inductive Unfinished : Bytes → Prop where
  | noLine {tail} (noNewline : 10 ∉ tail) : Unfinished tail
  | shortBody {line length body} (header : Header line length) (missing : body.length < length) :
      Unfinished (line ++ 10 :: body)
  | noEnding {line body after} (header : Header line body.length)
      (unended : ∀ ending rest, LineEnd ending → after ≠ ending ++ rest) :
      Unfinished (line ++ 10 :: (body ++ after))

inductive Verdict where
  | null
  | notReady
  | complete (used : Nat)
deriving DecidableEq, Repr

/-- How reading stops at bytes that do not start with another record, after
`parsed` bytes and with at most `limit` bytes allowed for the records. -/
inductive Ends (limit parsed : Nat) : Bytes → Verdict → Prop where
  | unfinished {tail} (waits : Unfinished tail) : Ends limit parsed tail .notReady
  | badHeader {line rest} (noNewline : 10 ∉ line) (nonblank : ¬ LineEnd (line ++ [10]))
      (bad : ∀ length, ¬ Header line length) : Ends limit parsed (line ++ 10 :: rest) .null
  | tooLong {rest} (record : Record) (long : limit < parsed + record.text.length) :
      Ends limit parsed (record.text ++ rest) .null
  | close {ending rest} (ended : LineEnd ending) :
      Ends limit parsed (ending ++ rest) (.complete (parsed + ending.length))

/-- Reading record by record. -/
inductive Scans (limit : Nat) : Nat → Bytes → List Record → Verdict → Prop where
  | ends {parsed tail verdict} (stops : Ends limit parsed tail verdict) :
      Scans limit parsed tail [] verdict
  | record {parsed rest records verdict} (first : Record)
      (fits : parsed + first.text.length ≤ limit)
      (more : Scans limit (parsed + first.text.length) rest records verdict) :
      Scans limit parsed (first.text ++ rest) (first :: records) verdict

/-- The bytes that are skipped in front of a packet. -/
def isBlank (byte : UInt8) : Bool :=
  byte == 10 || byte == 13

/-- Reading a whole content: blank bytes count towards the limit. -/
def Reads (limit : Nat) (content : Bytes) (records : List Record) (verdict : Verdict) : Prop :=
  Scans limit (content.takeWhile isBlank).length (content.dropWhile isBlank) records verdict

/-- The content is blank bytes followed by `records` and `tail`, and the blank
bytes and records together stay within `limit`. -/
def Splits (limit : Nat) (content : Bytes) (records : List Record) (tail : Bytes) : Prop :=
  content.dropWhile isBlank = recordsText records ++ tail ∧
    (records ≠ [] → (content.takeWhile isBlank).length + (recordsText records).length ≤ limit)

/-! ### Basic facts -/

theorem isBlank_of_isDigit {byte : UInt8} (digit : isDigit byte = true) : isBlank byte = false := by
  have range := isDigit_iff.mp digit
  simp only [isBlank, Bool.or_eq_false_iff, beq_eq_false_iff_ne, ne_eq, ← UInt8.toNat_inj,
    UInt8.reduceToNat]
  omega

theorem LineEnd.length_le {ending : Bytes} (ended : LineEnd ending) :
    1 ≤ ending.length ∧ ending.length ≤ 2 := by
  cases ended <;> simp

theorem LineEnd.part_cases {ending part missing : Bytes} (ended : LineEnd ending)
    (cut : ending = part ++ missing) (nonempty : missing ≠ []) : part = [] ∨ part = [13] := by
  match part with
  | [] => exact .inl rfl
  | [byte] => cases ended <;> simp_all
  | _ :: _ :: _ => cases ended <;> simp_all

theorem Header.line_ne_nil {line : Bytes} {length : Nat} (header : Header line length) : line ≠ [] := by
  obtain ⟨first, isFirst, _⟩ := header.startsWithDigit
  intro same
  subst same
  simp at isFirst

theorem lineEnd_iff {line : Bytes} : LineEnd (line ++ [10]) ↔ line = [] ∨ line = [13] := by
  constructor
  · intro ended
    generalize whole : line ++ [10] = text at ended
    cases ended with
    | lf => exact .inl (List.append_inj' (show line ++ [10] = [] ++ [10] from whole) rfl).1
    | crlf => exact .inr (List.append_inj' (show line ++ [10] = [13] ++ [10] from whole) rfl).1
  · rintro (rfl | rfl)
    · exact .lf
    · exact .crlf

theorem Header.nonblank {line : Bytes} {length : Nat} (header : Header line length) :
    ¬ LineEnd (line ++ [10]) := by
  obtain ⟨first, isFirst, digit⟩ := header.startsWithDigit
  rw [lineEnd_iff]
  rintro (rfl | rfl)
  · cases isFirst
  · cases isFirst
    simp [isDigit] at digit

theorem Header.length_lt {line : Bytes} {length : Nat} (header : Header line length) :
    length < 2147483648 := by
  have range := (wrap32_range (strtol line .success).value).2
  have value := header.value
  simp only [atoi] at value
  omega

theorem Header.length_unique {line : Bytes} {left right : Nat} (first : Header line left)
    (second : Header line right) : left = right := by
  have := first.value
  have := second.value
  omega

theorem header_decimal {length : Nat} (bound : length < 2147483648) :
    Header (decimal length) length := by
  have width : (decimal length).length ≤ 10 := decimal_length_le (by decide) (by omega)
  obtain ⟨first, rest, text, digit⟩ := decimal_head_isDigit length
  refine ⟨not_mem_decimal rfl, by omega, ⟨first, by simp [text], digit⟩, ?_⟩
  have read : strtol (decimal length ++ []) .success = _ := strtol_decimal (by omega) (by simp)
  rw [List.append_nil] at read
  rw [atoi, read]
  exact wrap32_of_range (by simp only; omega) (by simp only; omega)

/-- The record a sender writes. -/
def plainRecord (body : Bytes) (bound : body.length < 2147483648) : Record :=
  ⟨decimal body.length, body, [10], header_decimal bound, .lf⟩

theorem plainRecord_text {body : Bytes} (bound : body.length < 2147483648) :
    (plainRecord body bound).text = encodeRecord body := rfl

theorem recordsText_cons (first : Record) (rest : List Record) :
    recordsText (first :: rest) = first.text ++ recordsText rest := rfl

theorem Record.text_length (record : Record) :
    record.text.length = record.line.length + 1 + record.body.length + record.ending.length := by
  simp only [text, List.length_append, List.length_cons]
  omega

theorem Record.text_length_pos (record : Record) : 0 < record.text.length := by
  rw [record.text_length]
  omega

theorem takeWhile_line {line rest : Bytes} (clean : 10 ∉ line) :
    (line ++ 10 :: rest).takeWhile (· ≠ 10) = line := by
  rw [List.takeWhile_append_of_pos fun byte member => by
    simpa using ne_of_mem_of_not_mem member clean]
  simp

theorem line_unique {line other rest remains : Bytes} (clean : 10 ∉ line) (pure : 10 ∉ other)
    (same : line ++ 10 :: rest = other ++ 10 :: remains) : line = other ∧ rest = remains := by
  have lines : line = other := by rw [← takeWhile_line clean, same, takeWhile_line pure]
  subst lines
  exact ⟨rfl, by simpa using same⟩

theorem LineEnd.unique {ending other rest remains : Bytes} (ended : LineEnd ending)
    (alike : LineEnd other) (same : ending ++ rest = other ++ remains) :
    ending = other ∧ rest = remains := by
  cases ended <;> cases alike <;> simp_all

theorem Record.unique {record other : Record} {rest remains : Bytes}
    (same : record.text ++ rest = other.text ++ remains) : record = other ∧ rest = remains := by
  obtain ⟨line, body, ending, header, ended⟩ := record
  obtain ⟨line', body', ending', header', ended'⟩ := other
  simp only [text, List.append_assoc, List.cons_append] at same
  obtain ⟨rfl, after⟩ := line_unique header.noNewline header'.noNewline same
  obtain ⟨rfl, tail⟩ := List.append_inj after (header.length_unique header')
  obtain ⟨rfl, rfl⟩ := ended.unique ended' tail
  exact ⟨rfl, rfl⟩

theorem LineEnd.blank_line {line ending rest remains : Bytes} (ended : LineEnd ending) (clean : 10 ∉ line)
    (same : ending ++ rest = line ++ 10 :: remains) : LineEnd (line ++ [10]) := by
  cases ended with
  | lf =>
      obtain ⟨rfl, _⟩ := line_unique List.not_mem_nil clean same
      exact .lf
  | crlf =>
      obtain ⟨rfl, _⟩ := line_unique (show 10 ∉ [13] by decide) clean same
      exact .crlf

theorem LineEnd.not_record {ending rest remains : Bytes} {record : Record} (ended : LineEnd ending)
    (same : ending ++ rest = record.text ++ remains) : False := by
  simp only [Record.text, List.append_assoc, List.cons_append] at same
  exact record.header.nonblank (ended.blank_line record.header.noNewline same)

/-- Records in front of some tail are the first records of the whole packet. -/
theorem records_front {records others : List Record} {ending tail rest : Bytes} (ended : LineEnd ending)
    (same : recordsText records ++ tail = recordsText others ++ (ending ++ rest)) :
    ∃ more, others = records ++ more ∧ tail = recordsText more ++ (ending ++ rest) := by
  induction records generalizing others with
  | nil => exact ⟨others, rfl, by simpa [recordsText] using same⟩
  | cons first records ih =>
      rw [recordsText_cons, List.append_assoc] at same
      cases others with
      | nil => exact (ended.not_record same.symm).elim
      | cons second others =>
          rw [recordsText_cons, List.append_assoc] at same
          obtain ⟨rfl, after⟩ := Record.unique same
          obtain ⟨more, rfl, tail⟩ := ih after
          exact ⟨more, rfl, tail⟩

/-! ### Waiting -/

theorem Unfinished.not_record {tail rest : Bytes} {record : Record} (waits : Unfinished tail) :
    tail ≠ record.text ++ rest := by
  simp only [Record.text, List.append_assoc, List.cons_append]
  cases waits with
  | noLine clean =>
      intro same
      subst same
      simp at clean
  | shortBody header missing =>
      intro same
      obtain ⟨rfl, bodies⟩ := line_unique header.noNewline record.header.noNewline same
      have longer := congrArg List.length bodies
      have := header.length_unique record.header
      rw [List.length_append] at longer
      omega
  | noEnding header unended =>
      intro same
      obtain ⟨rfl, bodies⟩ := line_unique header.noNewline record.header.noNewline same
      obtain ⟨_, after⟩ := List.append_inj bodies (header.length_unique record.header)
      exact unended _ _ record.ended after

theorem Unfinished.not_lineEnd {tail ending rest : Bytes} (waits : Unfinished tail)
    (ended : LineEnd ending) : tail ≠ ending ++ rest := by
  cases waits with
  | noLine clean =>
      intro same
      subst same
      cases ended <;> simp at clean
  | shortBody header =>
      exact fun same => header.nonblank (ended.blank_line header.noNewline same.symm)
  | noEnding header =>
      exact fun same => header.nonblank (ended.blank_line header.noNewline same.symm)

/-! ### Every byte string gets a verdict -/

theorem lineEnd_or_not (bytes : Bytes) :
    (∃ ending rest, LineEnd ending ∧ bytes = ending ++ rest) ∨
      ∀ ending rest, LineEnd ending → bytes ≠ ending ++ rest := by
  by_cases found : ∃ ending rest, LineEnd ending ∧ bytes = ending ++ rest
  · exact .inl found
  · exact .inr fun ending rest ended same => found ⟨ending, rest, ended, same⟩

theorem ends_or_record (limit parsed : Nat) (bytes : Bytes) :
    (∃ verdict, Ends limit parsed bytes verdict) ∨
      ∃ record rest, bytes = Record.text record ++ rest ∧
        parsed + record.text.length ≤ limit := by
  by_cases found : 10 ∈ bytes
  · obtain ⟨line, rest, rfl, clean⟩ := List.eq_append_cons_of_mem found
    by_cases blank : LineEnd (line ++ [10])
    · have ends : Ends limit parsed ((line ++ [10]) ++ rest) _ := .close blank
      exact .inl ⟨_, by simpa using ends⟩
    · by_cases header : ∃ length, Header line length
      · obtain ⟨length, header⟩ := header
        by_cases short : rest.length < length
        · exact .inl ⟨_, .unfinished (.shortBody header short)⟩
        · -- the body is all there; what follows it decides
          have width : (rest.take length).length = length := by
            rw [List.length_take]
            omega
          have fitting : Header line (rest.take length).length := by rwa [width]
          rcases lineEnd_or_not (rest.drop length) with ⟨ending, remains, ended, after⟩ | unended
          · let record : Record := ⟨line, rest.take length, ending, fitting, ended⟩
            have text : line ++ 10 :: rest = record.text ++ remains := by
              simp only [record, Record.text, List.append_assoc, List.cons_append, ← after,
                List.take_append_drop]
            by_cases fits : parsed + record.text.length ≤ limit
            · exact .inr ⟨record, remains, text, fits⟩
            · rw [text]
              exact .inl ⟨_, .tooLong record (Nat.lt_of_not_le fits)⟩
          · refine .inl ⟨_, .unfinished ?_⟩
            have waits := Unfinished.noEnding fitting unended
            rwa [List.take_append_drop] at waits
      · exact .inl ⟨_, .badHeader clean blank fun length is => header ⟨length, is⟩⟩
  · exact .inl ⟨_, .unfinished (.noLine found)⟩

/-- Reading splits the bytes into records and the tail at which it stops. -/
theorem Scans.split {limit parsed : Nat} {bytes : Bytes} {records : List Record} {verdict : Verdict}
    (scans : Scans limit parsed bytes records verdict) :
    ∃ tail, bytes = recordsText records ++ tail ∧
      (records ≠ [] → parsed + (recordsText records).length ≤ limit) ∧
      Ends limit (parsed + (recordsText records).length) tail verdict := by
  induction scans with
  | ends stops => exact ⟨_, rfl, by simp, stops⟩
  | @record parsed rest records verdict first fits more ih =>
      obtain ⟨tail, rfl, within, stops⟩ := ih
      have width : parsed + (recordsText (first :: records)).length =
          parsed + first.text.length + (recordsText records).length := by
        rw [recordsText_cons, List.length_append]
        omega
      refine ⟨tail, by simp [recordsText_cons], fun _ => ?_, by rwa [width]⟩
      cases records with
      | nil => simpa [recordsText_cons, recordsText] using fits
      | cons second others =>
          rw [width]
          exact within (by simp)

theorem Scans.join {limit parsed : Nat} {tail : Bytes} {records : List Record} {verdict : Verdict}
    (within : records ≠ [] → parsed + (recordsText records).length ≤ limit)
    (stops : Ends limit (parsed + (recordsText records).length) tail verdict) :
    Scans limit parsed (recordsText records ++ tail) records verdict := by
  induction records generalizing parsed with
  | nil => exact .ends (by simpa [recordsText] using stops)
  | cons first rest ih =>
      simp only [recordsText_cons, List.length_append, List.append_assoc] at within stops ⊢
      have fits := within (by simp)
      refine .record first (by omega) (ih (fun _ => by omega) ?_)
      rwa [Nat.add_assoc]

theorem scans_total (limit parsed : Nat) (bytes : Bytes) :
    ∃ records verdict, Scans limit parsed bytes records verdict := by
  induction size : bytes.length using Nat.strong_induction_on generalizing parsed bytes with
  | _ count ih =>
      rcases ends_or_record limit parsed bytes with ⟨verdict, stops⟩ | ⟨first, rest, rfl, fits⟩
      · exact ⟨[], verdict, .ends stops⟩
      · have shorter : rest.length < count := by
          have := first.text_length_pos
          rw [← size, List.length_append]
          omega
        obtain ⟨records, verdict, more⟩ := ih _ shorter (parsed + first.text.length) rest rfl
        exact ⟨first :: records, verdict, .record first fits more⟩

theorem reads_iff {limit : Nat} {content : Bytes} {records : List Record} {verdict : Verdict} :
    Reads limit content records verdict ↔ ∃ tail, Splits limit content records tail ∧
      Ends limit ((content.takeWhile isBlank).length + (recordsText records).length) tail verdict := by
  constructor
  · intro scans
    obtain ⟨tail, text, within, stops⟩ := Scans.split scans
    exact ⟨tail, ⟨text, within⟩, stops⟩
  · intro split
    obtain ⟨tail, ⟨text, within⟩, stops⟩ := split
    rw [Reads, text]
    exact Scans.join within stops

theorem reads_total (limit : Nat) (content : Bytes) :
    ∃ records verdict, Reads limit content records verdict :=
  scans_total _ _ _

end Dbss.Ssdb
