import Dbss.Data.Runs
import Dbss.Net.Link.Operations
import Dbss.Net.Link.Safety

namespace Dbss.Util.Buffer

open Dbss.Data

/-! Which bytes of its block the calls on a buffer leave alone. -/

variable {buffer before middle after : Buffer} {address : Nat}

/-- The address is not that of an unread byte. -/
def Apart (buffer : Buffer) (address : Nat) : Prop :=
  (address : Int) < buffer.data ∨ buffer.slot ≤ address

/-- The block has been enlarged, which may have moved it, or what was written to
it is unread now. -/
def WritesUnread (before after : Buffer) : Prop :=
  before.total < after.total ∨
    after.total = before.total ∧ ∀ address, after.Apart address → after.buf address = before.buf address

theorem store_frame {block : Block} {start : Nat} {bytes : Bytes}
    (outside : address < start ∨ start + bytes.length ≤ address) :
    block.store start bytes address = block address := by
  unfold Block.store
  split
  · rw [List.getElem?_eq_none (by omega), Option.getD_none]
  · rfl

theorem nice_buf (buffer : Buffer) : buffer.nice.buf =
    if buffer.data > buffer.total / 2 then buffer.buf.store 0 (buffer.buf.slice buffer.data.toNat buffer.size.toNat)
    else buffer.buf := by
  unfold nice
  split <;> rfl

theorem writesUnread_same (total : after.total = before.total) (same : after.buf = before.buf) :
    WritesUnread before after :=
  .inr ⟨total, fun _ _ => by rw [same]⟩

theorem WellFormed.nice_writes (valid : buffer.WellFormed) : WritesUnread buffer buffer.nice := by
  have := valid.sizeNonneg
  refine .inr ⟨valid.nice_spec.2.2.1, fun address apart => ?_⟩
  rw [nice_buf]
  split
  · next moves =>
      refine store_frame (.inr ?_)
      rw [Block.slice_length]
      rw [Apart, nice, if_pos moves] at apart
      simp only [slot, write] at apart
      omega
  · rfl

theorem grow_buf (buffer : Buffer) : buffer.grow.2.buf = buffer.buf := by
  unfold grow
  simp only
  split <;> rfl

/-- A call that starts from the same bytes in a block at least as large. -/
theorem WritesUnread.since (writes : WritesUnread middle after) (larger : before.total ≤ middle.total)
    (same : middle.buf = before.buf) : WritesUnread before after := by
  rcases writes with grown | ⟨total, kept⟩
  · exact .inl (by omega)
  · by_cases grows : before.total < middle.total
    · exact .inl (by omega)
    · exact .inr ⟨by omega, same ▸ kept⟩

theorem WritesUnread.grow (writes : WritesUnread before middle) (valid : middle.WellFormed) :
    WritesUnread before middle.grow.2 := by
  have larger := valid.grow_total
  obtain ⟨_, data, size⟩ := middle.grow_keeps
  rcases writes with grown | ⟨total, kept⟩
  · exact .inl (by omega)
  · by_cases grows : middle.total < middle.grow.2.total
    · exact .inl (by omega)
    · refine .inr ⟨by omega, fun address apart => ?_⟩
      rw [Apart, slot, data, size] at apart
      rw [grow_buf, kept address apart]

theorem WellFormed.makeRoom_writes (valid : buffer.WellFormed) : WritesUnread buffer buffer.makeRoom.2 := by
  unfold makeRoom
  split
  · simp only
    split
    · exact valid.nice_writes.grow valid.nice_spec.1
    · exact valid.nice_writes
  · exact writesUnread_same rfl rfl

/-- Bytes have been put behind the unread ones. -/
structure Fills (before after : Buffer) : Prop where
  total : after.total = before.total
  data : after.data = before.data
  slot : before.slot ≤ after.slot
  kept : ∀ address : Nat, (address : Int) < before.slot ∨ after.slot ≤ address → after.buf address = before.buf address

theorem Fills.refl (buffer : Buffer) : Fills buffer buffer :=
  ⟨rfl, rfl, le_refl _, fun _ _ => rfl⟩

theorem Fills.trans (first : Fills before middle) (second : Fills middle after) : Fills before after := by
  have := first.slot
  have := second.slot
  refine ⟨second.total.trans first.total, second.data.trans first.data, by omega, fun address outside => ?_⟩
  rw [second.kept address (by omega), first.kept address (by omega)]

theorem WellFormed.fill_fills {bytes : Bytes} (valid : buffer.WellFormed) (room : (bytes.length : Int) ≤ buffer.space) :
    Fills buffer ((buffer.write buffer.slot bytes).incr bytes.length) := by
  have := valid.dataNonneg
  have := valid.sizeNonneg
  have := valid.inside
  have := valid.totalBound
  rw [valid.space_eq] at room
  have sized : wrap32 (buffer.size + bytes.length) = buffer.size + bytes.length := wrap32_of_range (by omega) (by omega)
  refine ⟨rfl, rfl, ?_, fun address outside => store_frame ?_⟩
  · simp only [slot, write, incr, sized]
    omega
  · simp only [slot, write, incr, sized] at outside ⊢
    omega

theorem WritesUnread.fills (writes : WritesUnread before middle) (fills : Fills middle after)
    (valid : middle.WellFormed) : WritesUnread before after := by
  have := fills.data
  have := fills.slot
  have := fills.total
  have := valid.sizeNonneg
  rcases writes with grown | ⟨total, kept⟩
  · exact .inl (by omega)
  · refine .inr ⟨by omega, fun address apart => ?_⟩
    simp only [Apart] at apart
    have behind : middle.data ≤ middle.slot := by rw [slot]; omega
    rw [fills.kept address (by omega), kept address (by rw [Apart]; omega)]

end Dbss.Util.Buffer

namespace Dbss.Net

open Dbss.Data Dbss.Util Dbss.Ssdb

def Run.returned {α : Type} : Run α → Option α
  | .done value => some value
  | .waiting | .undefined => none

theorem Run.returned_eq_some {α : Type} {run : Run α} {value : α} : run.returned = some value ↔ run = .done value := by
  cases run <;> simp [returned]

namespace Link

variable {link next last : Link} {host : Host} {input : Buffer} {errno : Errno} {noblock : Bool}
  {reads : List ReadOutcome} {ret : Int} {rounds : Nat} {packet : List Bytes}

theorem rounds_fill {before after : Buffer × Host} (rounds : Relation.ReflTransGen ReadRound before after)
    (valid : before.1.WellFormed) : Buffer.Fills before.1 after.1 := by
  induction rounds with
  | refl => exact .refl _
  | tail earlier round ih =>
      obtain ⟨_, fetched⟩ := rounds_fetched earlier valid
      cases round with
      | idle => exact ih
      | store schedule some fits => exact ih.trans (fetched.valid.fill_fills fits)

theorem begun_buf (buffer : Buffer) : (begun buffer).buf = buffer.buf := by
  unfold begun
  split
  · exact buffer.grow_buf
  · rfl

theorem read_writes (valid : link.input.WellFormed) {call : Call Int} (done : link.read host = .done call) :
    Buffer.WritesUnread link.input call.link.input := by
  obtain ⟨input, rounds, same⟩ := read_rounds done
  obtain ⟨begins, _, larger⟩ := begun_spec valid
  have ready := begins.nice_spec.1
  rw [same]
  exact (begins.nice_writes.since larger (begun_buf _)).fills (rounds_fill rounds ready) ready

theorem recvReq_writes (redis : RedisLink) (valid : input.WellFormed) (errno : Errno) :
    Buffer.WritesUnread input (redis.recvReq input errno).input := by
  obtain ⟨still, _⟩ := redis.parseReq_bounds valid errno
  have parsed : (redis.parseReq input errno).input.total = input.total ∧
      (redis.parseReq input errno).input.buf = input.buf := by
    unfold RedisLink.parseReq
    split
    · exact ⟨rfl, rfl⟩
    · split <;> exact ⟨rfl, rfl⟩
  unfold RedisLink.recvReq
  simp only
  generalize redis.parseReq input errno = request at *
  split
  · exact Buffer.writesUnread_same parsed.1 parsed.2
  · split
    · split <;> exact still.makeRoom_writes.since parsed.1.ge parsed.2
    · exact Buffer.writesUnread_same parsed.1 parsed.2

theorem recv_writes (valid : link.input.WellFormed) (errno : Errno) :
    Buffer.WritesUnread link.input (link.recv errno).link.input := by
  unfold recv
  split
  · exact Buffer.writesUnread_same rfl rfl
  · split
    · exact recvReq_writes _ valid errno
    · simp only
      split
      · exact Buffer.writesUnread_same rfl rfl
      · exact Buffer.writesUnread_same rfl rfl
      · exact valid.makeRoom_writes

theorem recv_input (valid : link.input.WellFormed) (errno : Errno) : (link.recv errno).link.input.WellFormed := by
  by_cases star : link.input.content.head? = some 42
  · rw [recv_star star]
    exact ((link.redis.getD .new).recvReq_cases valid errno).1
  · obtain ⟨input, still, same, _⟩ := recv_plain valid star errno
    rwa [same]

theorem write_input {call : Call Int} (done : link.write host = .done call) : call.link.input = link.input := by
  obtain ⟨written, _, same⟩ := Run.bind_eq_done.mp done
  split at same <;> cases same <;> rfl

theorem flushLoop_input {len : Int} {call : Call Int} (done : flushLoop rounds link host len = .done call) :
    call.link.input = link.input := by
  induction rounds generalizing link host len with
  | zero => cases done
  | succ rounds ih =>
      rw [flushLoop] at done
      split at done
      · cases done
        rfl
      · obtain ⟨written, wrote, next⟩ := Run.bind_eq_done.mp done
        have before := write_input wrote
        split at next
        · cases next
          exact before
        · exact (ih next).trans before

theorem send_input {resp : List Bytes} (sends : link.send resp = some (ret, next)) : next.input = link.input := by
  unfold send at sends
  split at sends
  · cases sends
    rfl
  · split at sends
    · obtain ⟨sent, _, same⟩ := Option.map_eq_some_iff.mp sends
      cases same
      rfl
    · cases sends
      rfl

/-- A call of `recv` that returns a packet leaves its ranges behind the unread bytes. -/
theorem recv_leaves (valid : link.input.WellFormed) (plain : PlainSsdb link.input.content) (nonempty : packet ≠ [])
    (received : (link.recv errno).value = some packet) :
    ∃ ranges parsed, checkedRecv link.input = some (ranges, .packet parsed) ∧
      ranges.map (Range.text (link.recv errno).link.input.buf) = packet ∧
      (link.recv errno).link.input.total = link.input.total ∧
      link.input.data ≤ (link.recv errno).link.input.data ∧
      ∀ range ∈ ranges, 0 ≤ range.start ∧ range.stop ≤ (link.recv errno).link.input.data := by
  obtain ⟨ranges, exit, checked, result, safe⟩ := checkedRecv_spec valid plain errno
  rw [result] at received ⊢
  cases exit with
  | empty => exact absurd (Option.some.inj received).symm nonempty
  | null => cases received
  | notReady =>
      simp only [Exit.received] at received
      split at received
      · exact absurd (Option.some.inj received).symm nonempty
      · cases received
  | packet parsed =>
      obtain ⟨positive, _, within, _⟩ := safe.packet parsed rfl
      have := valid.dataNonneg
      refine ⟨ranges, parsed, checked, Option.some.inj received, rfl, ?_, fun range member => ?_⟩
      · simp only [Exit.received, Buffer.decr]
        omega
      · obtain ⟨lower, _, upper⟩ := within range member
        exact ⟨by omega, upper⟩

/-- So does one that returns a Redis request. -/
theorem recvReq_packet (redis : RedisLink) (nonempty : packet ≠ [])
    (received : (redis.recvReq input errno).value = some packet) :
    (redis.recvReq input errno).input.total = input.total ∧ input.data ≤ (redis.recvReq input errno).input.data := by
  have parsed : (redis.parseReq input errno).input.total = input.total ∧
      input.data ≤ (redis.parseReq input errno).input.data := by
    unfold RedisLink.parseReq
    split
    · exact ⟨rfl, le_refl _⟩
    · split
      · exact ⟨rfl, le_refl _⟩
      · exact ⟨rfl, le_refl _⟩
      · next done =>
          have used := (RedisLink.parseLoop_bounds done).2.2.1
          exact ⟨rfl, by simp only [Buffer.decr]; omega⟩
  unfold RedisLink.recvReq at *
  simp only at received ⊢
  split at received
  · cases received
  · split at received
    · split at received
      · exact absurd (Option.some.inj received).symm nonempty
      · cases received
    · split
      · exact parsed
      · simpa using parsed

/-! ### Runs after a packet -/

end Link

/-- A call on a link, with what the system does during it. -/
inductive LinkCall where
  | recv (errno : Errno)
  | send (resp : List Bytes)
  | write (host : Host)
  | flush (host : Host)
  | read (host : Host)

namespace LinkCall

/-- The link after a call that returns. -/
def step (link : Link) : LinkCall → Option Link
  | recv errno => some (link.recv errno).link
  | send resp => (link.send resp).map Prod.snd
  | write host => (link.write host).returned.map Call.link
  | flush host => (link.flush host).returned.map Call.link
  | read host => (link.read host).returned.map Call.link

/-- A call that does not read, and if it is `recv`, returns a packet. -/
def Quiet (link : Link) : LinkCall → Prop
  | recv errno => ∃ packet, packet ≠ [] ∧ (link.recv errno).value = some packet
  | read _ => False
  | _ => True

variable {link next : Link} {call : LinkCall}

theorem step_writes (valid : link.input.WellFormed) (done : call.step link = some next) :
    next.input.WellFormed ∧ Buffer.WritesUnread link.input next.input := by
  have idle (same : next.input = link.input) :
      next.input.WellFormed ∧ Buffer.WritesUnread link.input next.input := by
    rw [same]
    exact ⟨valid, Buffer.writesUnread_same rfl rfl⟩
  cases call with
  | recv errno =>
      cases done
      exact ⟨Link.recv_input valid errno, Link.recv_writes valid errno⟩
  | send resp =>
      obtain ⟨⟨ret, sent⟩, sends, rfl⟩ := Option.map_eq_some_iff.mp done
      exact idle (Link.send_input sends)
  | write host =>
      obtain ⟨call, returned, rfl⟩ := Option.map_eq_some_iff.mp done
      exact idle (Link.write_input (Run.returned_eq_some.mp returned))
  | flush host =>
      obtain ⟨call, returned, rfl⟩ := Option.map_eq_some_iff.mp done
      exact idle (Link.flushLoop_input (Run.returned_eq_some.mp returned))
  | read host =>
      obtain ⟨call, returned, rfl⟩ := Option.map_eq_some_iff.mp done
      have finished := Run.returned_eq_some.mp returned
      obtain ⟨input, _, same, fetched⟩ := Link.read_fetched valid finished
      exact ⟨by rw [same]; exact fetched.valid, Link.read_writes valid finished⟩

theorem Quiet.keeps (quiet : call.Quiet link) (valid : link.input.WellFormed) (done : call.step link = some next) :
    next.input.total = link.input.total ∧ link.input.data ≤ next.input.data := by
  cases call with
  | recv errno =>
      cases done
      obtain ⟨packet, nonempty, received⟩ := quiet
      by_cases star : link.input.content.head? = some 42
      · rw [Link.recv_star star] at received ⊢
        exact Link.recvReq_packet _ nonempty received
      · obtain ⟨_, _, _, _, total, moves, _⟩ := Link.recv_leaves valid star nonempty received
        exact ⟨total, moves⟩
  | read host => exact quiet.elim
  | send resp =>
      obtain ⟨⟨ret, sent⟩, sends, rfl⟩ := Option.map_eq_some_iff.mp done
      simp [Link.send_input sends]
  | write host =>
      obtain ⟨call, returned, rfl⟩ := Option.map_eq_some_iff.mp done
      simp [Link.write_input (Run.returned_eq_some.mp returned)]
  | flush host =>
      obtain ⟨call, returned, rfl⟩ := Option.map_eq_some_iff.mp done
      simp [Link.flushLoop_input (Run.returned_eq_some.mp returned)]

end LinkCall

namespace Link

variable {link next last : Link} {calls : List LinkCall} {range : Range} {errno : Errno} {packet : List Bytes}

/-- No unread byte lies in the range. -/
def Range.Clear (range : Range) (buffer : Buffer) : Prop :=
  range.stop ≤ buffer.data ∨ buffer.slot ≤ range.start

theorem Range.Clear.text_eq {before after : Buffer} (clear : range.Clear after) (nonneg : 0 ≤ range.start)
    (writes : Buffer.WritesUnread before after) (total : after.total = before.total) :
    range.text after.buf = range.text before.buf := by
  obtain ⟨_, kept⟩ := writes.resolve_left (by omega)
  refine Block.slice_congr fun address lower upper => kept address ?_
  rw [Range.Clear, Range.stop] at clear
  rw [Buffer.Apart]
  omega

theorem ran_valid (valid : link.input.WellFormed) (done : ran LinkCall.step link calls = some last) :
    last.input.WellFormed := by
  induction calls using List.reverseRecOn generalizing last with
  | nil =>
      cases done
      exact valid
  | append_singleton front call ih =>
      obtain ⟨before, earlier, stepped⟩ := ran_append_singleton.mp done
      exact (LinkCall.step_writes (ih earlier) stepped).1

/-- As long as the block is not enlarged and no unread byte comes to lie in the
range, it keeps its bytes. -/
theorem text_lasts (valid : link.input.WellFormed) (nonneg : 0 ≤ range.start)
    (done : ran LinkCall.step link calls = some last)
    (clear : Throughout LinkCall.step link
      (fun _ link' => link'.input.total = link.input.total ∧ range.Clear link'.input) calls) :
    range.text last.input.buf = range.text link.input.buf := by
  induction calls using List.reverseRecOn generalizing last with
  | nil =>
      cases done
      rfl
  | append_singleton front call ih =>
      obtain ⟨before, earlier, stepped⟩ := ran_append_singleton.mp done
      obtain ⟨total, apart⟩ := clear _ [] last (by simp) done
      have same := (clear front [call] before rfl earlier).1
      have writes := (LinkCall.step_writes (ran_valid valid earlier) stepped).2
      rw [apart.text_eq nonneg writes (by omega)]
      refine ih earlier fun front back state split reached => clear front (back ++ [call]) state ?_ reached
      rw [split, List.append_assoc]

theorem quiet_behind (valid : link.input.WellFormed) (before : range.stop ≤ link.input.data)
    (quiet : EachStep LinkCall.step link (fun _ link' call => call.Quiet link') calls) :
    Throughout LinkCall.step link
      (fun _ link' => link'.input.total = link.input.total ∧ range.stop ≤ link'.input.data) calls := by
  refine throughout_of_eachStep ⟨rfl, before⟩ ?_ quiet
  rintro front link' call next reached ⟨total, behind⟩ stepped quiet
  obtain ⟨same, moves⟩ := quiet.keeps (ran_valid valid reached) stepped
  exact ⟨same.trans total, behind.trans moves⟩

/-- The `Bytes` of a packet are ranges of the input block.  Whatever is called on
the link after `recv` has returned them, they hold the packet as long as the
block is not enlarged and no unread byte comes to lie there; so they do as long
as nothing is read and each further `recv` returns a packet. -/
theorem packet_lasts (valid : link.input.WellFormed) (plain : PlainSsdb link.input.content) (nonempty : packet ≠ [])
    (received : (link.recv errno).value = some packet) :
    ∃ ranges parsed, checkedRecv link.input = some (ranges, .packet parsed) ∧
      ∀ calls last, ran LinkCall.step (link.recv errno).link calls = some last →
        (Throughout LinkCall.step (link.recv errno).link
            (fun _ link' => link'.input.total = link.input.total ∧ ∀ range ∈ ranges, range.Clear link'.input) calls ∨
          EachStep LinkCall.step (link.recv errno).link (fun _ link' call => call.Quiet link') calls) →
        ranges.map (Range.text last.input.buf) = packet := by
  obtain ⟨ranges, parsed, checked, texts, total, _, behind⟩ := recv_leaves valid plain nonempty received
  refine ⟨ranges, parsed, checked, fun calls last done undisturbed => ?_⟩
  have still := recv_input valid errno
  rw [← texts]
  refine List.map_congr_left fun range member => ?_
  obtain ⟨nonneg, before⟩ := behind range member
  refine text_lasts still nonneg done ?_
  rcases undisturbed with clear | quiet
  · intro front back state split reached
    obtain ⟨same, apart⟩ := clear front back state split reached
    exact ⟨same.trans total.symm, apart range member⟩
  · intro front back state split reached
    obtain ⟨same, apart⟩ := quiet_behind still before quiet front back state split reached
    exact ⟨same, .inl apart⟩

/-- Two requests have arrived at once. -/
def pipelined : Link :=
  .holding (encode [ascii "get", ascii "a"] ++ encode [ascii "get", ascii "b"]) 0

theorem packet_lasts_pipelined : ∃ ranges parsed, checkedRecv pipelined.input = some (ranges, .packet parsed) ∧
    ranges.map (Range.text ((pipelined.recv .success).link.recv .success).link.input.buf) =
      [ascii "get", ascii "a"] := by
  have first : (pipelined.recv .success).value = some [ascii "get", ascii "a"] := by decide +kernel
  have second : ((pipelined.recv .success).link.recv .success).value = some [ascii "get", ascii "b"] := by
    decide +kernel
  obtain ⟨ranges, parsed, checked, lasts⟩ :=
    packet_lasts (Buffer.holding_wellFormed (by decide)) (by decide) (by simp) first
  refine ⟨ranges, parsed, checked, lasts [.recv .success] _ rfl (.inr ?_)⟩
  intro front call back before after split reached _
  cases front with
  | nil =>
      cases reached
      cases split
      exact ⟨_, by simp, second⟩
  | cons first rest => simp at split

end Link

end Dbss.Net
