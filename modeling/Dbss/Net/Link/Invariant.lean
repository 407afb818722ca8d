import Dbss.Net.Link.Flush
import Dbss.Net.Link.Recv
import Dbss.Net.Link.Rounds
import Dbss.Net.Link.Send
import Dbss.Net.LinkRedis.Reply
import Dbss.Ssdb.Encoding
import Dbss.Ssdb.Grammar

namespace Dbss.Net.Link

open Dbss.Data Dbss.Util Dbss.Ssdb

/-! What holds of a link whatever its peer sends. -/

variable {link sent : Link} {host : Host} {input : Buffer} {errno : Errno} {resp : List Bytes} {ret : Int}
  {rounds : Nat}

/-- The buffers are well formed and a stored Redis request can be answered. -/
structure Sound (link : Link) : Prop where
  input : link.input.WellFormed
  output : link.output.WellFormed
  redis : ∀ redis ∈ link.redis, RedisLink.Stored redis

theorem recv_plain (valid : link.input.WellFormed) (plain : PlainSsdb link.input.content)
    (errno : Errno) :
    ∃ input, input.WellFormed ∧ (link.recv errno).link = { link with input } ∧
      ((link.recv errno).value = some [] → input.content = link.input.content) := by
  by_cases empty : link.input.content = []
  · rw [recv_empty valid empty]
    exact ⟨_, valid, rfl, fun _ => rfl⟩
  obtain ⟨records, verdict, reads⟩ := reads_total maxPacketSize link.input.content
  rw [recv_ssdb valid plain empty reads]
  cases verdict with
  | null => exact ⟨_, valid, rfl, fun _ => rfl⟩
  | notReady =>
      obtain ⟨room, same, _⟩ := valid.makeRoom_spec
      exact ⟨_, room, rfl, fun _ => same⟩
  | complete used =>
      obtain ⟨ending, rest, _, splits, some, rfl⟩ := reads.complete
      have content := splits.content_eq
      rw [← List.append_assoc (recordsText records), ← List.append_assoc] at content
      refine ⟨_, (valid.decr_spec content).1, rfl, fun none => ?_⟩
      simp [Received.of, bodies, some] at none

/-- Bytes that start with `*` go to the Redis link, which is made when there is none. -/
theorem recv_star (star : link.input.content.head? = some 42) (errno : Errno) :
    link.recv errno =
      ⟨((link.redis.getD .new).recvReq link.input errno).value,
        { link with
          redis := some ((link.redis.getD .new).recvReq link.input errno).link
          input := ((link.redis.getD .new).recvReq link.input errno).input },
        ((link.redis.getD .new).recvReq link.input errno).errno⟩ := by
  have occupied : link.input.empty ≠ true := fun empty => by
    have nothing : link.input.content = [] := by
      rw [Buffer.content, show link.input.size = 0 by simpa [Buffer.empty] using empty]
      rfl
    simp [nothing] at star
  rw [recv, if_neg occupied, if_pos (head_of_content star)]

theorem Sound.asked (sound : Sound link) : RedisLink.Stored (link.redis.getD .new) := by
  cases redis : link.redis with
  | none => exact fun _ stored => by simp [RedisLink.new] at stored
  | some redis' => exact sound.redis redis' redis

theorem Sound.recv (sound : Sound link) (errno : Errno) : Sound (link.recv errno).link := by
  by_cases star : link.input.content.head? = some 42
  · rw [recv_star star]
    obtain ⟨input, _⟩ := (link.redis.getD .new).recvReq_cases sound.input errno
    refine ⟨input, sound.output, fun redis same => ?_⟩
    cases same
    exact sound.asked.recvReq sound.input errno
  · obtain ⟨input, valid, same, _⟩ := recv_plain sound.input star errno
    rw [same]
    exact ⟨valid, sound.output, sound.redis⟩

theorem recv_output (sound : Sound link) (errno : Errno) :
    (link.recv errno).link.output = link.output := by
  by_cases star : link.input.content.head? = some 42
  · rw [recv_star star]
  · obtain ⟨input, _, same, _⟩ := recv_plain sound.input star errno
    rw [same]

/-! ### `send` -/

/-- Responses that neither format's `int`s are too small for. -/
def Fits (resp : List Bytes) : Prop :=
  resp.length < 2147483648 ∧ Sendable resp

instance (resp : List Bytes) : Decidable (Fits resp) :=
  inferInstanceAs (Decidable (resp.length < 2147483648 ∧ ∀ record ∈ resp, record.length ≤ 2147483630))

theorem Fits.sized (fits : Fits resp) : RedisLink.Sized resp :=
  ⟨fits.1, fun text member => by have := fits.2 text member; omega⟩

/-- What `send` appends depends on the Redis link alone, and a Redis reply is
never an SSDB encoding. -/
theorem send_cases (sound : Sound link) (nonempty : resp ≠ []) (fits : Fits resp)
    (sends : link.send resp = some (ret, sent)) :
    ∃ output text, sent = { link with output } ∧ Buffer.Appends link.output output text ∧
      (link.redis = none ∧ text = encode resp ∨
        text ≠ encode resp ∧ ∃ redis pieces, link.redis = some redis ∧
          redis.respPieces resp = some pieces ∧ text = pieces.flatten) := by
  rcases Option.eq_none_or_eq_some link.redis with redis | ⟨stored, redis⟩
  · rw [send_ssdb redis nonempty] at sends
    cases sends
    exact ⟨_, _, rfl, sendRecords_appends sound.output fits.2, .inl ⟨redis, rfl⟩⟩
  · rw [Link.send, if_neg nonempty, redis] at sends
    rcases RedisLink.respPieces_cases (sound.redis stored redis) nonempty fits.sized with
      ⟨undefined, _⟩ | ⟨pieces, text, reply, replies, _⟩
    · simp [RedisLink.sendResp, undefined] at sends
    · obtain ⟨output, written, appends⟩ := RedisLink.sendResp_appends sound.output reply replies.toWrites
      simp only [written, Option.map_some, Option.some.injEq, Prod.mk.injEq] at sends
      refine ⟨output, text, by rw [redis, ← sends.2], appends,
        .inr ⟨?_, stored, pieces, redis, reply, replies.flatten.symm⟩⟩
      intro same
      subst same
      obtain ⟨mark, others, start, other⟩ := replies.marked
      obtain ⟨first, tail, headed, digit⟩ := encode_head nonempty
      rw [headed] at start
      cases start
      simp [digit] at other

theorem Sound.send (sound : Sound link) (nonempty : resp ≠ []) (fits : Fits resp)
    (sends : link.send resp = some (ret, sent)) : Sound sent := by
  obtain ⟨output, text, rfl, appends, _⟩ := send_cases sound nonempty fits sends
  exact ⟨sound.input, appends.valid, sound.redis⟩

/-! ### `read`, `flush` and `response` -/

theorem Sound.read (sound : Sound link) {call : Call Int} (done : link.read host = .done call) :
    Sound call.link := by
  obtain ⟨input, _, same, fetched⟩ := read_fetched sound.input done
  rw [same]
  exact ⟨fetched.valid, sound.output, sound.redis⟩

theorem Sound.write (sound : Sound link) {call : Call Int} (done : link.write host = .done call) :
    Sound call.link := by
  obtain ⟨drains, _⟩ := write_drains sound.output done
  exact ⟨by rw [drains.input]; exact sound.input, drains.valid, by rw [drains.redis]; exact sound.redis⟩

theorem Sound.flush (sound : Sound link) {call : Call Int} (done : link.flush host = .done call) :
    Sound call.link := by
  obtain ⟨drains, _⟩ := flush_drains sound.output done
  exact ⟨by rw [drains.input]; exact sound.input, drains.valid, by rw [drains.redis]; exact sound.redis⟩

theorem responseLoop_sound (sound : Sound link) {call : Call (Option (List Bytes))}
    (done : responseLoop rounds link host = .done call) : Sound call.link := by
  induction rounds generalizing link host with
  | zero => cases done
  | succ rounds ih =>
      have received := sound.recv host.errno
      unfold responseLoop at done
      simp only at done
      split at done
      · cases done
        exact received
      · obtain ⟨reading, happened, next⟩ := Run.bind_eq_done.mp done
        split at next
        · cases next
          exact received.read happened
        · exact ih (received.read happened) next
      · cases done
        exact received

end Dbss.Net.Link
