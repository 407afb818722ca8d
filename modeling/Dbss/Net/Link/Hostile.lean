import Dbss.Net.Link.RoundTrip
import Dbss.Ssdb.Grammar

namespace Dbss.Net.Link

open Dbss.Data Dbss.Util Dbss.Ssdb

/-! What `Link::recv` makes of bytes that no well-behaved peer sends. -/

variable {link : Link} {errno : Errno} {records : List Record}

theorem recv_splits {ending rest : Bytes} (valid : link.input.WellFormed)
    (plain : PlainSsdb link.input.content) (nonempty : link.input.content ≠ [])
    (splits : Splits maxPacketSize link.input.content records (ending ++ rest))
    (ended : LineEnd ending) (errno : Errno) :
    (link.recv errno).value = some (bodies records) ∧
      (link.recv errno).link.input.content = rest := by
  have content := splits.content_eq
  rw [← List.append_assoc (recordsText records), ← List.append_assoc] at content
  have used : (link.input.content.takeWhile isBlank).length + (recordsText records).length +
      ending.length = (link.input.content.takeWhile isBlank ++ (recordsText records ++ ending)).length := by
    simp only [List.length_append]
    omega
  rw [recv_ssdb valid plain nonempty (reads_iff.mpr ⟨_, splits, .close ended⟩), used]
  exact ⟨rfl, (valid.decr_spec content).2⟩

theorem recv_waits (valid : link.input.WellFormed) (plain : PlainSsdb link.input.content)
    (nonempty : link.input.content ≠ []) (waits : Waits maxPacketSize link.input.content)
    (errno : Errno) :
    (link.recv errno).value = (if link.input.makeRoom.1 then some [] else none) ∧
      (link.recv errno).link.input.content = link.input.content := by
  obtain ⟨records, tail, splits, unfinished⟩ := waits
  rw [recv_ssdb valid plain nonempty (reads_iff.mpr ⟨_, splits, .unfinished unfinished⟩)]
  exact ⟨rfl, valid.makeRoom_spec.2.1⟩

theorem recv_cases (valid : link.input.WellFormed) (plain : PlainSsdb link.input.content)
    (nonempty : link.input.content ≠ []) (errno : Errno) :
    (link.recv errno).value = none ∨
      Waits maxPacketSize link.input.content ∧ (link.recv errno).value = some [] ∨
      ∃ records ending rest, LineEnd ending ∧ records ≠ [] ∧
        Splits maxPacketSize link.input.content records (ending ++ rest) ∧
        (link.recv errno).value = some (bodies records) ∧
        (link.recv errno).link.input.content = rest := by
  obtain ⟨records, verdict, reads⟩ := reads_total maxPacketSize link.input.content
  cases verdict with
  | null => exact .inl (by rw [recv_ssdb valid plain nonempty reads]; rfl)
  | notReady =>
      obtain ⟨tail, splits, stops⟩ := reads_iff.mp reads
      cases stops with
      | unfinished unfinished =>
          have waits : Waits maxPacketSize link.input.content := ⟨records, tail, splits, unfinished⟩
          have answer := (recv_waits valid plain nonempty waits errno).1
          split at answer
          · exact .inr (.inl ⟨waits, answer⟩)
          · exact .inl answer
  | complete used =>
      obtain ⟨ending, rest, ended, splits, some, _⟩ := reads.complete
      exact .inr (.inr ⟨records, ending, rest, ended, some, splits,
        recv_splits valid plain nonempty splits ended errno⟩)

theorem recv_nothing (valid : link.input.WellFormed) (empty : link.input.content = []) (errno : Errno) :
    (link.recv errno).value = some [] ∧ (link.recv errno).link.input.content = [] := by
  rw [recv_empty valid empty]
  exact ⟨rfl, empty⟩

/-! ### What is accepted -/

/-- The bytes taken for a packet are its text. -/
def AcceptsGrammar (link : Link) (errno : Errno) : Prop :=
  ∀ packet, (link.recv errno).value = some packet → packet ≠ [] →
    ∃ consumed, link.input.content = consumed ++ (link.recv errno).link.input.content ∧
      Grammatical packet consumed

/-- `recv` accepts only the grammar exactly when no header line of the packet
hides anything behind its leading digits and none overflows an `int`. -/
theorem acceptsGrammar_iff (valid : link.input.WellFormed) (plain : PlainSsdb link.input.content) :
    AcceptsGrammar link errno ↔ CleanHeaders maxPacketSize link.input.content := by
  constructor
  · intro accepts records ending rest splits ended record member
    have some : records ≠ [] := List.ne_nil_of_mem member
    have content := splits.content_eq
    have nonempty : link.input.content ≠ [] := by
      obtain ⟨first, more, starts, _⟩ := recordsText_starts some (ending ++ rest)
      rw [content, starts]
      simp
    obtain ⟨answer, after⟩ := recv_splits valid plain nonempty splits ended errno
    obtain ⟨consumed, split, grammatical⟩ := accepts _ answer (by simpa [bodies] using some)
    rw [after, content, ← List.append_assoc, ← List.append_assoc] at split
    rw [← List.append_cancel_right split, List.append_assoc,
      grammatical_iff (fun _ => List.mem_takeWhile_imp) some ended] at grammatical
    exact grammatical record member
  · intro clean packet answer nonempty
    by_cases empty : link.input.content = []
    · rw [(recv_nothing valid empty errno).1] at answer
      cases answer
      exact absurd rfl nonempty
    · rcases recv_cases valid plain empty errno with none | ⟨_, waiting⟩ |
        ⟨records, ending, rest, ended, some, splits, answered, after⟩
      · simp [none] at answer
      · rw [waiting] at answer
        cases answer
        exact absurd rfl nonempty
      · rw [answered] at answer
        cases answer
        refine ⟨link.input.content.takeWhile isBlank ++ (recordsText records ++ ending), ?_, ?_⟩
        · rw [after, List.append_assoc, List.append_assoc]
          exact splits.content_eq
        · rw [grammatical_iff (fun _ => List.mem_takeWhile_imp) some ended]
          exact clean records ending rest splits ended

/-- Two records, the second with the other line ends, and a byte of what follows. -/
def twoRecords : Bytes := ascii "2\nok\n1\r\na\r\n\n7"

theorem acceptsGrammar_iff_two :
    AcceptsGrammar (holding twoRecords 8) .success ∧
      CleanHeaders maxPacketSize (holding twoRecords 8).input.content := by
  have accepts : AcceptsGrammar (holding twoRecords 8) .success := by
    intro packet answer _
    have records : (recv (holding twoRecords 8) .success).value = some [ascii "ok", ascii "a"] := by decide
    cases records.symm.trans answer
    have first : Header (ascii "2") (ascii "ok").length := ⟨by decide, by decide, ⟨50, rfl, rfl⟩, by decide⟩
    have second : Header (ascii "1\r") (ascii "a").length := ⟨by decide, by decide, ⟨49, rfl, rfl⟩, by decide⟩
    have both : [⟨_, _, [10], first, .lf⟩, ⟨_, _, [13, 10], second, .crlf⟩] ≠ ([] : List Record) := by simp
    have clean : CleanHeader (ascii "2") ∧ CleanHeader (ascii "1\r") := by decide
    have plain := (grammatical_iff (List.forall_mem_nil _) both .lf).mpr (by simpa using clean)
    exact ⟨twoRecords.dropLast, by decide, plain⟩
  exact ⟨accepts, (acceptsGrammar_iff (Buffer.holding_wellFormed (by decide)) (by decide)).mp accepts⟩

/-- The header line `1x` is taken for a one: `atoi` stops at the `x`. -/
theorem not_acceptsGrammar_text : ¬ AcceptsGrammar (holding [49, 120, 10, 97, 10, 10] 8) .success := by
  intro accepts
  have header : Header [49, 120] [(97 : UInt8)].length :=
    ⟨by decide, by decide, ⟨49, rfl, rfl⟩, by decide⟩
  obtain ⟨consumed, split, grammatical⟩ := accepts [[97]] (by decide) (by decide)
  have after : (recv (holding [49, 120, 10, 97, 10, 10] 8) .success).link.input.content = [] := by
    decide
  rw [after, List.append_nil] at split
  subst split
  have line : [⟨_, _, [10], header, .lf⟩] ≠ ([] : List Record) := by simp
  have clean : CleanHeader [49, 120] :=
    (grammatical_iff (List.forall_mem_nil _) line .lf).mp grammatical _ (List.mem_singleton_self _)
  exact absurd clean (by decide)

/-! ### What is waited for -/

/-- `recv` is not ready only where more bytes can lead to a packet. -/
def ReportsMalformed (link : Link) (errno : Errno) : Prop :=
  (link.recv errno).value = some [] →
    ∃ extension, (link.input.content ++ extension).length < 2147483648 ∧
      ∀ extended : Link, extended.input.WellFormed →
        extended.input.content = link.input.content ++ extension →
        ∃ packet, packet ≠ [] ∧ (extended.recv errno).value = some packet

theorem plainSsdb_append {content extension : Bytes} (plain : PlainSsdb content)
    (nonempty : content ≠ []) : PlainSsdb (content ++ extension) := by
  cases content with
  | nil => exact absurd rfl nonempty
  | cons first rest => exact plain

theorem viable_of_reports (valid : link.input.WellFormed) (plain : PlainSsdb link.input.content)
    (nonempty : link.input.content ≠ []) (room : link.input.makeRoom.1 = true)
    (reports : ReportsMalformed link errno) : Viable maxPacketSize link.input.content := by
  intro records tail splits unfinished
  have answer := (recv_waits valid plain nonempty ⟨records, tail, splits, unfinished⟩ errno).1
  rw [if_pos room] at answer
  obtain ⟨extension, short, accepted⟩ := reports answer
  let extended : Link := holding (link.input.content ++ extension) 0
  have ready : extended.input.WellFormed := Buffer.holding_wellFormed (by omega)
  have content : extended.input.content = link.input.content ++ extension := Buffer.holding_content
  obtain ⟨packet, some, value⟩ := accepted extended ready content
  have alsoPlain : PlainSsdb extended.input.content := content ▸ plainSsdb_append plain nonempty
  rcases recv_cases ready alsoPlain (by simp [content, nonempty]) errno with none | ⟨_, waiting⟩ |
    ⟨others, ending, rest, ended, someOthers, whole, _⟩
  · simp [none] at value
  · rw [waiting] at value
    cases value
    exact absurd rfl some
  · exact splits.completable unfinished (content ▸ whole) someOthers ended

/-- `recv` waits in vain exactly where the unfinished bytes are no beginning of
an empty line or of a record that stays within the limit. -/
theorem reportsMalformed_iff (valid : link.input.WellFormed) (plain : PlainSsdb link.input.content)
    (nonempty : link.input.content ≠ []) (allocates : link.input.Allocates)
    (short : link.input.content.length < 536870912) :
    ReportsMalformed link errno ↔ Viable maxPacketSize link.input.content := by
  constructor
  · exact viable_of_reports valid plain nonempty (valid.makeRoom_succeeds allocates short).1
  · intro viable answer
    rcases recv_cases valid plain nonempty errno with none | ⟨⟨records, tail, splits, unfinished⟩, _⟩ |
      ⟨records, ending, rest, _, some, _, answered, _⟩
    · simp [none] at answer
    · obtain ⟨extension, others, ending, ended, some, whole⟩ :=
        splits.completes (viable records tail splits unfinished)
      refine ⟨extension, ?_, fun extended ready content => ⟨bodies others, by simpa [bodies] using some, ?_⟩⟩
      · have within := whole.2 some
        have width := congrArg List.length whole.content_eq
        have := ended.length_le
        simp only [maxPacketSize, List.length_append] at within width ⊢
        omega
      · have alsoPlain : PlainSsdb extended.input.content := content ▸ plainSsdb_append plain nonempty
        rw [← content, ← List.append_nil ending] at whole
        exact (recv_splits ready alsoPlain (by simp [content, nonempty]) whole ended errno).1
    · rw [answered] at answer
      simp [bodies] at answer
      exact absurd answer some

theorem reportsMalformed_iff_two :
    (recv (holding (ascii "2\nok\n1\na") 8) .success).value = some [] ∧
      ReportsMalformed (holding (ascii "2\nok\n1\na") 8) .success ∧
      Viable maxPacketSize (holding (ascii "2\nok\n1\na") 8).input.content := by
  have reports : ReportsMalformed (holding (ascii "2\nok\n1\na") 8) .success := by
    refine fun _ => ⟨ascii "\n\n", by decide, fun extended valid content => ?_⟩
    have here : extended.input.content = encode [ascii "ok", ascii "a"] ++ [] := content.trans (by decide)
    exact ⟨_, List.cons_ne_nil _ _, by rw [recv_packet valid (List.cons_ne_nil _ _) (by decide) here]⟩
  exact ⟨by decide, reports, (reportsMalformed_iff (Buffer.holding_wellFormed (by decide)) (by decide) (by decide)
    (by decide) (by decide)).mp reports⟩

/-- Behind the body `a` stands a `b`: no packet can come of this any more. -/
theorem not_reportsMalformed_wrongByte : ¬ ReportsMalformed (holding [49, 10, 97, 98] 8) .success := by
  intro reports
  have viable := viable_of_reports (Buffer.holding_wellFormed (by decide)) (by decide) (by decide)
    (by decide) reports
  have header : Header [49] [(97 : UInt8)].length := ⟨by decide, by decide, ⟨49, rfl, rfl⟩, by decide⟩
  have waits : Unfinished [49, 10, 97, 98] := by
    refine .noEnding header (show ∀ ending rest, LineEnd ending → [98] ≠ ending ++ rest from ?_)
    rintro _ rest (_ | _) same <;> simp at same
  have can := viable [] [49, 10, 97, 98] ⟨by decide, by simp⟩ waits
  rcases can.completes with ⟨begun, _⟩ | ⟨record, missing, text, _⟩
  · exact begun rfl
  · obtain ⟨line, after⟩ := line_unique record.header.noNewline (show 10 ∉ [49] by decide) text
    have width : record.body.length = [(97 : UInt8)].length :=
      record.header.length_unique (line ▸ header)
    obtain ⟨_, ending⟩ := List.append_inj (show _ = [97] ++ 98 :: missing from after) width
    have ended := record.ended
    rw [ending] at ended
    cases ended

/-! ### How much is held -/

/-- No packet takes, and no unfinished packet is allowed to hold, much more
than `MAX_PACKET_SIZE` bytes. -/
def HoldsBounded (link : Link) (errno : Errno) : Prop :=
  (∀ packet, (link.recv errno).value = some packet → packet ≠ [] →
    ∃ consumed, link.input.content = consumed ++ (link.recv errno).link.input.content ∧
      consumed.length ≤ maxPacketSize + 2) ∧
  ((link.recv errno).value = some [] →
    (link.recv errno).link.input.content.length ≤ maxPacketSize + 20)

/-- The bound is kept exactly as long as a content beyond it is not waited on. -/
theorem holdsBounded_iff (valid : link.input.WellFormed) (plain : PlainSsdb link.input.content) :
    HoldsBounded link errno ↔
      link.input.content.length ≤ maxPacketSize + 20 ∨ ¬ Waits maxPacketSize link.input.content ∨
        link.input.makeRoom.1 = false := by
  constructor
  · intro bounded
    obtain ⟨_, held⟩ := bounded
    by_contra! beyond
    obtain ⟨long, waits, room⟩ := beyond
    have nonempty : link.input.content ≠ [] := List.ne_nil_of_length_pos (by omega)
    obtain ⟨answer, same⟩ := recv_waits valid plain nonempty waits errno
    rw [if_pos (by simpa using room)] at answer
    have := held answer
    rw [same] at this
    omega
  · intro within
    by_cases empty : link.input.content = []
    · obtain ⟨answer, after⟩ := recv_nothing valid empty errno
      refine ⟨fun packet value some => ?_, fun _ => by simp [after]⟩
      rw [answer] at value
      cases value
      exact absurd rfl some
    · rcases recv_cases valid plain empty errno with none | ⟨waits, waiting⟩ |
        ⟨records, ending, rest, ended, some, splits, answered, after⟩
      · exact ⟨fun packet value => by simp [none] at value, fun value => by simp [none] at value⟩
      · refine ⟨fun packet value some => ?_, fun _ => ?_⟩
        · rw [waiting] at value
          cases value
          exact absurd rfl some
        · obtain ⟨answer, same⟩ := recv_waits valid plain empty waits errno
          rw [same]
          rcases within with short | noWait | noRoom
          · exact short
          · exact absurd waits noWait
          · simp [noRoom, waiting] at answer
      · refine ⟨fun packet _ _ => ?_, fun value => ?_⟩
        · refine ⟨link.input.content.takeWhile isBlank ++ (recordsText records ++ ending), ?_, ?_⟩
          · rw [after, List.append_assoc, List.append_assoc]
            exact splits.content_eq
          · have fits := splits.2 some
            have := ended.length_le
            simp only [List.length_append]
            omega
        · rw [answered] at value
          exact absurd (by simpa [bodies] using value) some

theorem holdsBounded_iff_two : HoldsBounded (holding (ascii "2\nok\n1\r\na") 8) .success :=
  (holdsBounded_iff (Buffer.holding_wellFormed (by decide)) (by decide)).mpr (.inl (by decide))

/-- Blank lines are waited on however many there are. -/
theorem not_holdsBounded_of_blank {blanks : Nat} (long : maxPacketSize + 20 < blanks)
    (bound : blanks + 8 < 2147483648) : ¬ HoldsBounded (holding (List.replicate blanks 10) 8) errno := by
  intro bounded
  obtain ⟨_, held⟩ := bounded
  have valid : (holding (List.replicate blanks 10) 8).input.WellFormed :=
    Buffer.holding_wellFormed (by rw [List.length_replicate]; exact bound)
  have content : (holding (List.replicate blanks 10) 8).input.content = List.replicate blanks 10 :=
    Buffer.holding_content
  have nonzero : blanks ≠ 0 := by omega
  have some : List.replicate blanks (10 : UInt8) ≠ [] := by simp [nonzero]
  have plain : PlainSsdb (List.replicate blanks 10) := by simp [PlainSsdb, List.head?_replicate, nonzero]
  have waits : Waits maxPacketSize (List.replicate blanks 10) :=
    ⟨[], [], ⟨by simp [recordsText, isBlank], by simp⟩, .noLine (by simp)⟩
  have space : (holding (List.replicate blanks 10) 8).input.space ≠ 0 := by
    rw [valid.space_eq]
    simp only [holding, Buffer.holding]
    omega
  rw [← content] at some plain waits
  obtain ⟨answer, same⟩ := recv_waits valid plain some waits errno
  rw [Buffer.makeRoom_of_space space, if_pos rfl] at answer
  have within := held answer
  rw [same, content, List.length_replicate] at within
  omega

theorem not_holdsBounded_blank :
    ¬ HoldsBounded (holding (List.replicate 33554453 10) 8) .success :=
  not_holdsBounded_of_blank (by decide) (by decide)

end Dbss.Net.Link
