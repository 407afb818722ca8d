import Dbss.Net.Link.Recv
import Dbss.Net.Link.Send
import Dbss.Ssdb.Encoding

namespace Dbss.Net.Link

open Dbss.Data Dbss.Util Dbss.Ssdb

/-! Packets go over the wire unchanged. -/

variable {link sender : Link} {packet : List Bytes} {errno : Errno} {rest : Bytes}

theorem plainSsdb_of_digit {bytes : Bytes} (starts : ∀ first ∈ bytes.head?, isDigit first = true) :
    PlainSsdb bytes := fun star => by
  have := starts 42 star
  simp [isDigit] at this

theorem recv_packet (valid : link.input.WellFormed) (nonempty : packet ≠ [])
    (fits : (encode packet).length ≤ maxPacketSize)
    (here : link.input.content = encode packet ++ rest) :
    link.recv errno =
      ⟨some packet, { link with input := link.input.decr (encode packet).length }, errno⟩ := by
  obtain ⟨first, tail, start, digit⟩ := encode_head nonempty
  obtain ⟨records, back, reads⟩ := reads_encode nonempty fits (by decide) rest
  rw [← here] at reads
  have plain : PlainSsdb link.input.content :=
    plainSsdb_of_digit (by simp [here, start, digit])
  have occupied : link.input.content ≠ [] := by simp [here, start]
  rw [recv_ssdb valid plain occupied reads, Received.of, back]

theorem recv_part (valid : link.input.WellFormed) (nonempty : packet ≠ [])
    (fits : (encode packet).length ≤ maxPacketSize)
    (cut : (framing maxPacketSize).Part link.input.content packet) :
    link.recv errno =
      if link.input.content = [] then ⟨some [], link, errno⟩
      else ⟨if link.input.makeRoom.1 then some [] else none,
        { link with input := link.input.makeRoom.2 }, errno⟩ := by
  split
  · next empty => exact recv_empty valid empty
  · next occupied =>
      obtain ⟨records, reads⟩ := reads_part fits (by decide) nonempty cut
      exact recv_ssdb valid (plainSsdb_of_digit (head_of_part nonempty cut.1)) occupied reads

theorem part_length_lt (fits : (encode packet).length ≤ maxPacketSize)
    (cut : (framing maxPacketSize).Part rest packet) : rest.length < 536870912 := by
  have := cut.1.length_le
  simp only [framing, maxPacketSize] at this fits
  omega

theorem sendable_of_fits (fits : (encode packet).length ≤ maxPacketSize) : Sendable packet :=
  fun record member => by
    have := length_of_mem_encode member
    simp only [maxPacketSize] at fits
    omega

/-- The bytes that `send` puts on an empty output are read back by `recv`,
whatever follows them; a strict beginning of them leaves `recv` waiting. -/
theorem send_recv_roundTrip (plain : sender.redis = none) (valid : sender.output.WellFormed)
    (empty : sender.output.content = []) (nonempty : packet ≠ [])
    (fits : (encode packet).length ≤ maxPacketSize) :
    ∃ sent, sender.send packet = some (0, sent) ∧ (sent.output.oom = false →
      sent.output.content = encode packet ∧
      (∀ (receiver : Link) (errno : Errno) (rest : Bytes), receiver.input.WellFormed →
        receiver.input.content = sent.output.content ++ rest →
        (receiver.recv errno).value = some packet ∧
          (receiver.recv errno).link.input.content = rest) ∧
      (∀ (receiver : Link) (errno : Errno) (missing : Bytes), receiver.input.WellFormed →
        receiver.input.Allocates → missing ≠ [] →
        receiver.input.content ++ missing = sent.output.content →
        (receiver.recv errno).value = some [] ∧
          (receiver.recv errno).link.input.content = receiver.input.content)) := by
  have appends := sendRecords_appends valid (sendable_of_fits fits)
  refine ⟨_, send_ssdb plain nonempty, fun alive => ?_⟩
  have wire : (sendRecords sender.output packet).content = encode packet := by
    simpa [empty] using appends.added alive
  constructor
  · exact wire
  · constructor
    · intro receiver errno rest ready here
      simp only [wire] at here
      rw [recv_packet ready nonempty fits here]
      exact ⟨rfl, (ready.decr_spec here).2⟩
    · intro receiver errno missing ready allocates some split
      simp only [wire] at split
      have cut : (framing maxPacketSize).Part receiver.input.content packet :=
        ⟨⟨missing, split⟩, fun whole => some (by simpa [whole, framing] using split)⟩
      rw [recv_part ready nonempty fits cut]
      by_cases nothing : receiver.input.content = []
      · rw [if_pos nothing]
        exact ⟨rfl, rfl⟩
      · obtain ⟨room, same, _⟩ := ready.makeRoom_spec
        obtain ⟨succeeds, _⟩ := ready.makeRoom_succeeds allocates (part_length_lt fits cut)
        rw [if_neg nothing, if_pos succeeds]
        exact ⟨rfl, same⟩

/-- A record that looks like a Redis request and an empty one, on a fresh link. -/
theorem send_recv_roundTrip_star :
    ∃ sent, (new (fun _ => 0) (fun _ => 0) [] []).send [[42, 10], []] = some (0, sent) ∧
      sent.output.content = [50, 10, 42, 10, 10, 48, 10, 10, 10] ∧
      (Link.recv { sent with input := sent.output } .success).value = some [[42, 10], []] := by
  have valid : (new (fun _ => 0) (fun _ => 0) [] []).output.WellFormed :=
    Buffer.new_wellFormed (by decide) (by decide)
  have fresh : (new (fun _ => 0) (fun _ => 0) [] []).redis = none := rfl
  have fits : (encode [[42, 10], []]).length ≤ maxPacketSize := by decide
  obtain ⟨sent, sending, law⟩ := send_recv_roundTrip fresh valid rfl (by decide) fits
  have result := sending
  rw [send_ssdb rfl (by decide)] at result
  cases result
  obtain ⟨wire, whole, _⟩ := law (by decide)
  have written := (sendRecords_appends valid (sendable_of_fits fits)).valid
  exact ⟨_, sending, wire, (whole _ .success [] written (by simp)).1⟩

end Dbss.Net.Link
