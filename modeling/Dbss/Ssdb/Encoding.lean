import Dbss.Data.Framing
import Dbss.Ssdb.Format

namespace Dbss.Ssdb

open Dbss.Data Dbss.Util

/-! Written packets are read back: the encoding of a packet gets the verdict
`complete` whatever follows it, and every part of it gets `notReady`. -/

/-- The packets that fit a receiver's limit. -/
def framing (limit : Nat) : Framing (List Bytes) UInt8 where
  encode := encode
  Legal packet := packet ≠ [] ∧ (encode packet).length ≤ limit
  encode_ne_nil _ := by simp [encode]

variable {limit parsed : Nat} {packet : List Bytes} {bytes part rest : Bytes}

theorem length_of_mem_encode {body : Bytes} (member : body ∈ packet) :
    body.length < (encode packet).length := by
  have inside : (encodeRecord body).length ≤ (packet.flatMap encodeRecord).length := by
    obtain ⟨front, back, rfl⟩ := List.append_of_mem member
    simp only [List.flatMap_append, List.flatMap_cons, List.length_append]
    omega
  simp only [encode, encodeRecord, List.length_append, List.length_cons] at inside ⊢
  omega

/-- A packet is written as records that are read back as its bodies. -/
theorem records_of_packet (packet : List Bytes) (short : ∀ body ∈ packet, body.length < 2147483648) :
    ∃ records, recordsText records = packet.flatMap encodeRecord ∧ bodies records = packet := by
  induction packet with
  | nil => exact ⟨[], rfl, rfl⟩
  | cons body rest ih =>
      obtain ⟨records, text, back⟩ := ih fun other member => short other (by simp [member])
      refine ⟨plainRecord body (short body (by simp)) :: records, ?_, ?_⟩
      · rw [recordsText_cons, plainRecord_text, text, List.flatMap_cons]
      · simpa [bodies, plainRecord] using back

theorem encode_head (nonempty : packet ≠ []) :
    ∃ first tail, encode packet = first :: tail ∧ isDigit first = true := by
  cases packet with
  | nil => exact absurd rfl nonempty
  | cons body rest =>
      obtain ⟨first, tail, text, digit⟩ := decimal_head_isDigit body.length
      exact ⟨first, _, by simp only [encode, List.flatMap_cons, encodeRecord, text, List.cons_append]; rfl, digit⟩

theorem reads_of_scans {records : List Record} {verdict : Verdict}
    (starts : ∀ first ∈ bytes.head?, isDigit first = true)
    (scans : Scans limit 0 bytes records verdict) : Reads limit bytes records verdict := by
  cases bytes with
  | nil => exact scans
  | cons first rest =>
      have blank := isBlank_of_isDigit (starts first rfl)
      simpa [Reads, blank] using scans

theorem head_of_part (nonempty : packet ≠ []) (within : part <+: encode packet) :
    ∀ first ∈ part.head?, isDigit first = true := by
  obtain ⟨first, tail, text, digit⟩ := encode_head nonempty
  intro byte isFirst
  cases part with
  | nil => simp at isFirst
  | cons head remains =>
      rw [text, List.cons_prefix_cons] at within
      cases isFirst
      rwa [within.1]

theorem reads_encode (nonempty : packet ≠ []) (fits : (encode packet).length ≤ limit)
    (small : limit < 2147483648) (rest : Bytes) :
    ∃ records, bodies records = packet ∧
      Reads limit (encode packet ++ rest) records (.complete (encode packet).length) := by
  obtain ⟨records, text, back⟩ := records_of_packet packet fun body member => by
    have := length_of_mem_encode member
    omega
  obtain ⟨first, tail, start, digit⟩ := encode_head nonempty
  refine ⟨records, back, reads_of_scans (by simp [start, digit]) ?_⟩
  have width : (encode packet).length = (recordsText records).length + 1 := by simp [encode, text]
  have whole : Scans limit 0 (recordsText records ++ ([10] ++ rest)) records _ :=
    .join (fun _ => by omega) (.close .lf)
  simpa [encode, text, width] using whole

theorem unended_part {ending after missing : Bytes} (ended : LineEnd ending)
    (cut : after ++ missing = ending) (nonempty : missing ≠ []) :
    ∀ other rest, LineEnd other → after ≠ other ++ rest := by
  intro other rest alike split
  subst split
  have same := ended.unique alike (show ending ++ [] = other ++ (rest ++ missing) by
    simpa using cut.symm)
  have none := same.2.symm
  simp only [List.append_eq_nil_iff] at none
  exact nonempty none.2

theorem unfinished_part {record : Record} {missing : Bytes} (cut : part ++ missing = record.text)
    (nonempty : missing ≠ []) : Unfinished part := by
  rcases List.append_eq_append_iff.mp cut with ⟨middle, line, _⟩ | ⟨more, rfl, tail⟩
  · refine .noLine fun found => record.header.noNewline ?_
    rw [line]
    exact List.mem_append_left _ found
  · cases more with
    | nil => exact .noLine (by simpa using record.header.noNewline)
    | cons newline more =>
        simp only [List.cons_append, List.cons.injEq] at tail
        obtain ⟨rfl, tail⟩ := tail
        rcases List.append_eq_append_iff.mp tail with ⟨after, rfl, ending⟩ | ⟨middle, body, _⟩
        · exact .noEnding record.header (unended_part record.ended ending.symm nonempty)
        · cases middle with
          | nil =>
              have expected : record.ending ≠ [] := fun none => by
                have := record.ended.length_le
                simp [none] at this
              have waits := Unfinished.noEnding record.header
                (unended_part record.ended (List.nil_append _) expected)
              simpa [body] using waits
          | cons byte middle => exact .shortBody record.header (by simp [body])

theorem scans_part {records : List Record} {missing : Bytes}
    (cut : part ++ missing = recordsText records ++ [10]) (nonempty : missing ≠ [])
    (within : parsed + (recordsText records).length ≤ limit) :
    ∃ read, Scans limit parsed part read .notReady := by
  induction records generalizing part parsed with
  | nil =>
      have empty : part = [] := by
        rcases List.append_eq_singleton_iff.mp cut with ⟨empty, _⟩ | ⟨_, none⟩
        · exact empty
        · exact absurd none nonempty
      subst empty
      exact ⟨[], .ends (.unfinished (.noLine (by simp)))⟩
  | cons first records ih =>
      rw [recordsText_cons, List.length_append] at within
      rw [recordsText_cons, List.append_assoc] at cut
      rcases List.append_eq_append_iff.mp cut with ⟨middle, text, rest⟩ | ⟨more, rfl, rest⟩
      · by_cases whole : middle = []
        · subst whole
          have rest : [] ++ missing = recordsText records ++ [10] := by simpa using rest
          obtain ⟨read, scans⟩ := ih rest (show parsed + first.text.length + _ ≤ limit by omega)
          refine ⟨first :: read, ?_⟩
          have scans := Scans.record first (by omega) scans
          simpa [text] using scans
        · exact ⟨[], .ends (.unfinished (unfinished_part text.symm whole))⟩
      · obtain ⟨read, scans⟩ := ih rest.symm (show parsed + first.text.length + _ ≤ limit by omega)
        exact ⟨first :: read, .record first (by omega) scans⟩

theorem reads_part (fits : (encode packet).length ≤ limit) (small : limit < 2147483648)
    (nonempty : packet ≠ []) (cut : (framing limit).Part part packet) :
    ∃ records, Reads limit part records .notReady := by
  obtain ⟨⟨missing, split⟩, different⟩ := cut
  obtain ⟨records, text, _⟩ := records_of_packet packet fun body member => by
    have := length_of_mem_encode member
    omega
  have whole : part ++ missing = recordsText records ++ [10] := by rw [text]; exact split
  have width : (encode packet).length = (recordsText records).length + 1 := by simp [encode, text]
  obtain ⟨read, scans⟩ := scans_part whole (fun none => different (by simpa [none] using split))
    (show 0 + (recordsText records).length ≤ limit by omega)
  exact ⟨read, reads_of_scans (head_of_part nonempty ⟨missing, split⟩) scans⟩

end Dbss.Ssdb
