import Dbss.Net.Link.Rounds
import Dbss.Net.Link.RoundTrip

namespace Dbss.Net

open Dbss.Data Dbss.Util Dbss.Ssdb

/-! `Link::response` on a blocking socket: what it returns depends on the bytes
the peer sends and not on how they are cut into reads. -/

namespace Link

/-- An input buffer that can go on receiving. -/
structure Receiving (input : Buffer) : Prop where
  valid : input.WellFormed
  allocates : input.Allocates
  positive : 0 < input.total

/-- `read` will find room in the buffer, if need be by moving its content. -/
def HasRoom (input : Buffer) : Prop :=
  0 < input.space ∨ input.content = []

/-- What receiving leaves alone. -/
structure Frame (link : Link) (host : Host) (link' : Link) (host' : Host) : Prop where
  noblock : link'.noblock = link.noblock
  redis : link'.redis = link.redis
  output : link'.output = link.output
  peer : host'.peer = host.peer
  accepted : host'.accepted = host.accepted
  writes : host'.writes = host.writes
  reads : host'.reads <:+ host.reads
  delivered : host.delivered ≤ (host.peer host.accepted).length →
    host'.delivered ≤ (host'.peer host'.accepted).length
  asked : (∀ want ∈ host.asked, 0 < want) → ∀ want ∈ host'.asked, 0 < want
  supply : host.delivered + host.reads.countP ReadOutcome.delivers ≤
    host'.delivered + host'.reads.countP ReadOutcome.delivers

/-- Bytes have moved from the socket into the buffer, and nothing else. -/
structure Moves (link : Link) (host : Host) (link' : Link) (host' : Host) : Prop
    extends Frame link host link' host' where
  receiving : Receiving link'.input
  ahead : link'.input.content ++ host'.inflight = link.input.content ++ host.inflight

variable {link link' link'' : Link} {host host' host'' : Host} {input : Buffer}
  {packets : List (List Bytes)} {rounds : Nat} {reads : List ReadOutcome}

theorem Frame.trans (first : Frame link host link' host') (second : Frame link' host' link'' host'') :
    Frame link host link'' host'' :=
  ⟨second.noblock.trans first.noblock, second.redis.trans first.redis,
    second.output.trans first.output, second.peer.trans first.peer,
    second.accepted.trans first.accepted, second.writes.trans first.writes,
    second.reads.trans first.reads, second.delivered ∘ first.delivered, second.asked ∘ first.asked,
    first.supply.trans second.supply⟩

theorem Moves.refl (receiving : Receiving link.input) : Moves link host link host :=
  ⟨⟨rfl, rfl, rfl, rfl, rfl, rfl, List.suffix_rfl, id, id, le_refl _⟩, receiving, rfl⟩

theorem Moves.trans (first : Moves link host link' host') (second : Moves link' host' link'' host'') :
    Moves link host link'' host'' :=
  ⟨first.toFrame.trans second.toFrame, second.receiving, second.ahead.trans first.ahead⟩

/-! ### `read` -/

theorem ReadRound.frame {before after : Buffer × Host} (round : ReadRound before after) (link : Link) :
    Frame { link with input := before.1 } before.2 { link with input := after.1 } after.2 := by
  have supply := round.supplies
  have asks {asked : List Int} {space : Int} (room : 0 < space) (positive : ∀ want ∈ asked, 0 < want) :
      ∀ want ∈ asked ++ [space], 0 < want :=
    List.forall_mem_append.mpr ⟨positive, List.forall_mem_singleton.mpr room⟩
  cases round with
  | @idle _ _ outcome _ _ schedule _ room =>
      exact ⟨rfl, rfl, rfl, rfl, rfl, rfl, ⟨[outcome], schedule.symm⟩, id, asks room, supply⟩
  | @store _ host more _ bytes _ schedule some fits arrived =>
      have positive := List.length_pos_iff.mpr some
      have fromPeer := congrArg List.length arrived
      simp only [Host.inflight, List.length_drop, List.length_append] at fromPeer
      exact ⟨rfl, rfl, rfl, rfl, rfl, rfl, ⟨[.deliver more], schedule.symm⟩, fun within => by simp only; omega,
        asks (by omega), supply⟩

theorem ReadRound.moves {before after : Buffer × Host} (round : ReadRound before after) (link : Link)
    (receiving : Receiving before.1) :
    Moves { link with input := before.1 } before.2 { link with input := after.1 } after.2 := by
  have frame := round.frame link
  cases round with
  | idle => exact ⟨frame, receiving, rfl⟩
  | store schedule some fits arrived =>
      obtain ⟨valid, content⟩ := receiving.valid.write_incr_spec fits
      refine ⟨frame, ⟨valid, receiving.allocates, receiving.positive⟩, ?_⟩
      simp only
      rw [show (stored _ _).content = _ from content, arrived, ← Host.inflight_drop arrived, List.append_assoc]
      rfl

/-- Whatever `read` comes back with, bytes have only moved. -/
theorem readLoop_moves (link : Link) (receiving : Receiving link.input) {noblock : Bool} {ret : Int}
    {result : Int × Buffer × Host} (done : readLoop noblock host.reads link.input host ret = .done result) :
    Moves link host { link with input := result.2.1 } result.2.2 := by
  have rounds := readLoop_rounds rfl done
  generalize result.2 = after at rounds ⊢
  induction rounds with
  | refl => exact .refl receiving
  | tail _ round ih => exact ih.trans (round.moves link ih.receiving)

theorem readLoop_deliver (reads : List ReadOutcome) (host : Host) (room : 0 < input.space) (more : Nat) :
    host.inflight = [] ∧ readLoop false (.deliver more :: reads) input host 0 = .waiting ∨
      ∃ bytes rest, bytes ≠ [] ∧ host.inflight = bytes ++ rest ∧ bytes.length ≤ input.space ∧
        readLoop false (.deliver more :: reads) input host 0 =
          .done (bytes.length, stored input bytes, { host with
            reads := reads, asked := host.asked ++ [input.space]
            delivered := host.delivered + bytes.length }) := by
  rw [readLoop, if_pos room]
  let count := min (more + 1) input.space.toNat
  have positive : count ≠ 0 := by
    simp only [count]
    omega
  by_cases nothing : host.inflight = []
  · refine .inl ⟨nothing, if_pos ?_⟩
    exact (congrArg (List.take count) nothing).trans (by simp)
  · have some : host.inflight.take count ≠ [] := by simp [positive, nothing]
    refine .inr ⟨host.inflight.take count, host.inflight.drop count, some,
      (List.take_append_drop _ _).symm, ?_, ?_⟩
    · have := List.length_take_le count host.inflight
      simp only [count] at this ⊢
      omega
    · simp only [Int.zero_add]
      exact if_neg some

theorem readLoop_arrives (room : 0 < input.space) (passes : ∀ outcome ∈ reads, outcome.Passes)
    (some : 0 < reads.countP ReadOutcome.delivers) (waiting : host.inflight ≠ []) :
    ∃ result, readLoop false reads input host 0 = .done result ∧ 0 < result.1 ∧
      result.2.2.inflight.length < host.inflight.length ∧
      reads.countP ReadOutcome.delivers ≤ result.2.2.reads.countP ReadOutcome.delivers + 1 := by
  induction reads generalizing host with
  | nil => simp at some
  | cons outcome reads ih =>
      have later : ∀ other ∈ reads, other.Passes := fun other member => passes other (by simp [member])
      cases outcome with
      | eof => exact (passes .eof (by simp)).elim
      | fail code =>
          have retry : code = .eintr := passes (.fail code) (by simp)
          have interrupted : Host.inflight { host with
              reads := reads, asked := host.asked ++ [input.space], errno := code } ≠ [] := waiting
          obtain ⟨result, done, positive, fewer, left⟩ :=
            ih later (by simpa [ReadOutcome.delivers] using some) interrupted
          refine ⟨result, ?_, positive, fewer, by simpa [ReadOutcome.delivers] using left⟩
          rw [readLoop, if_pos room]
          simp only [retry, if_pos] at done ⊢
          exact done
      | deliver more =>
          rcases readLoop_deliver reads host room more with
            ⟨nothing, _⟩ | ⟨bytes, rest, some, split, _, delivered⟩
          · exact absurd nothing waiting
          · have positive := List.length_pos_iff.mpr some
            refine ⟨_, delivered, by simp only; omega, ?_,
              (List.countP_cons_of_pos rfl).le⟩
            have left : Host.inflight { host with
                reads := reads, asked := host.asked ++ [input.space]
                delivered := host.delivered + bytes.length } = rest := Host.inflight_drop split
            rw [left, split, List.length_append]
            omega

theorem Receiving.nice (receiving : Receiving input) (room : HasRoom input) :
    Receiving input.nice ∧ 0 < input.nice.space ∧ input.nice.content = input.content := by
  obtain ⟨valid, allocates, positive⟩ := receiving
  obtain ⟨niceValid, content, total, size, reallocs, _, low⟩ := valid.nice_spec
  have back := Buffer.nice_data_le valid.dataNonneg
  refine ⟨⟨niceValid, by rwa [Buffer.Allocates, reallocs], by omega⟩, ?_, content⟩
  rw [niceValid.space_eq, total, size]
  rcases room with space | empty
  · rw [valid.space_eq] at space
    omega
  · have := valid.size_eq
    simp only [empty, List.length_nil] at this
    omega

theorem Receiving.grow (receiving : Receiving input) (room : HasRoom input)
    (small : input.total = zeroBufferSize) :
    Receiving input.grow.2 ∧ HasRoom input.grow.2 ∧ input.grow.2.content = input.content := by
  obtain ⟨valid, allocates, positive⟩ := receiving
  obtain ⟨grownValid, content, data, size, _⟩ := valid.grow_spec
  obtain ⟨_, later, _, total⟩ := valid.grow_succeeds allocates (by rw [small]; decide)
  have larger : Buffer.grownTotal input.total = 8192 := by rw [small]; decide
  rw [larger] at total
  refine ⟨⟨grownValid, later, by omega⟩, ?_, content⟩
  rcases room with space | empty
  · rw [valid.space_eq, small, zeroBufferSize] at space
    apply Or.inl
    rw [grownValid.space_eq, total, data, size]
    omega
  · exact .inr (content.trans empty)

theorem read_eq (host : Host) (receiving : Receiving link.input) (room : HasRoom link.input)
    (blocking : link.noblock = false) :
    ∃ input, Receiving input ∧ 0 < input.space ∧ input.content = link.input.content ∧
      link.read host = (readLoop false host.reads input host 0).bind fun stored =>
        .done ⟨stored.1, { link with input := stored.2.1 }, stored.2.2⟩ := by
  unfold read
  rw [blocking]
  by_cases small : link.input.total = zeroBufferSize
  · obtain ⟨grown, roomy, content⟩ := receiving.grow room small
    obtain ⟨ready, space, same⟩ := grown.nice roomy
    simp only [if_pos small]
    exact ⟨_, ready, space, same.trans content, rfl⟩
  · obtain ⟨ready, space, same⟩ := receiving.nice room
    simp only [if_neg small]
    exact ⟨_, ready, space, same, rfl⟩

theorem read_moves (link : Link) (receiving : Receiving link.input) (room : HasRoom link.input)
    (blocking : link.noblock = false) {call : Call Int} (done : link.read host = .done call) :
    Moves link host call.link call.host ∧
      Spent ReadOutcome.Passes host.reads call.host.reads (0 < call.value) ∧
      call.host.reads.length < host.reads.length := by
  obtain ⟨input, ready, space, content, reading⟩ := read_eq host receiving room blocking
  rw [reading] at done
  obtain ⟨result, finished, same⟩ := Run.bind_eq_done.mp done
  cases same
  have moves := readLoop_moves { link with input } ready finished
  exact ⟨⟨⟨moves.noblock, moves.redis, moves.output, moves.peer, moves.accepted, moves.writes,
    moves.reads, moves.delivered, moves.asked, moves.supply⟩, moves.receiving, moves.ahead.trans (by rw [content])⟩,
    readLoop_spent space rfl finished⟩

theorem read_arrives (link : Link) (receiving : Receiving link.input) (room : HasRoom link.input)
    (blocking : link.noblock = false) (passes : ∀ outcome ∈ host.reads, outcome.Passes)
    (some : 0 < host.reads.countP ReadOutcome.delivers) (waiting : host.inflight ≠ []) :
    ∃ call, link.read host = .done call ∧ 0 < call.value ∧
      call.host.inflight.length < host.inflight.length ∧
      host.reads.countP ReadOutcome.delivers ≤ call.host.reads.countP ReadOutcome.delivers + 1 := by
  obtain ⟨input, _, space, _, reading⟩ := read_eq host receiving room blocking
  obtain ⟨result, done, arrived⟩ := readLoop_arrives space passes some waiting
  exact ⟨_, by rw [reading, done]; rfl, arrived⟩

/-! ### `response` -/

/-- At the front of a stream `recv` takes a packet, or makes room for more of it. -/
theorem recv_stream (receiving : Receiving link.input)
    (legal : ∀ packet ∈ packets, (framing maxPacketSize).Legal packet) {more : Bytes}
    (split : link.input.content ++ more = (framing maxPacketSize).stream packets) (errno : Errno) :
    (∃ packet left input, packets = packet :: left ∧ packet ≠ [] ∧
      link.recv errno = ⟨some packet, { link with input }, errno⟩ ∧ Receiving input ∧
      input.content ++ more = (framing maxPacketSize).stream left) ∨
    (∃ input, link.recv errno = ⟨some [], { link with input }, errno⟩ ∧ Receiving input ∧
      HasRoom input ∧ input.content = link.input.content ∧
      ∀ packet ∈ packets.head?, (framing maxPacketSize).Part link.input.content packet) := by
  obtain ⟨valid, allocates, positive⟩ := receiving
  cases packets with
  | nil =>
      have nothing := (List.append_eq_nil_iff.mp split).1
      exact .inr ⟨_, recv_empty valid nothing, ⟨valid, allocates, positive⟩, .inr nothing, rfl, by simp⟩
  | cons packet left =>
      obtain ⟨nonempty, fits⟩ := legal packet (by simp)
      rcases (framing maxPacketSize).held_cases split with ⟨extra, here, rest⟩ | part
      · obtain ⟨still, content⟩ := valid.decr_spec here
        refine .inl ⟨packet, left, _, rfl, nonempty, recv_packet valid nonempty fits here,
          ⟨still, allocates, positive⟩, ?_⟩
        exact (congrArg (· ++ more) content).trans rest
      · apply Or.inr
        rw [recv_part valid nonempty fits part]
        by_cases nothing : link.input.content = []
        · rw [if_pos nothing]
          exact ⟨_, rfl, ⟨valid, allocates, positive⟩, .inr nothing, rfl, by simpa using part⟩
        · obtain ⟨room, same, space⟩ := valid.makeRoom_spec
          obtain ⟨succeeds, later, _⟩ := valid.makeRoom_succeeds allocates (part_length_lt fits part)
          rw [if_neg nothing, if_pos succeeds]
          have total := valid.makeRoom_total
          exact ⟨_, rfl, ⟨room, later, by omega⟩, .inl (space succeeds), same, by simpa using part⟩

theorem responseLoop_notReady (received : link.recv host.errno = ⟨some [], link', host.errno⟩) :
    responseLoop (rounds + 1) link host = (link'.read host).bind fun call =>
      if call.value ≤ 0 then .done ⟨none, call.link, call.host⟩
      else responseLoop rounds call.link call.host := by
  rw [responseLoop, received]

/-- A response is the packet in front; only an outcome that `read` gives up on
leads to NULL, and then the stream is left as it is. -/
theorem responseLoop_done (receiving : Receiving link.input) (blocking : link.noblock = false)
    (legal : ∀ packet ∈ packets, (framing maxPacketSize).Legal packet)
    (split : link.input.content ++ host.inflight = (framing maxPacketSize).stream packets)
    {call : Call (Option (List Bytes))} (done : responseLoop rounds link host = .done call) :
    Frame link host call.link call.host ∧ Receiving call.link.input ∧
      Spent ReadOutcome.Passes host.reads call.host.reads (call.value ≠ none) ∧
      ∃ left, packets = call.value.toList ++ left ∧
        call.link.input.content ++ call.host.inflight = (framing maxPacketSize).stream left := by
  induction rounds generalizing link host with
  | zero => cases done
  | succ rounds ih =>
      rcases recv_stream receiving legal split host.errno with
        ⟨packet, left, input, front, nonempty, received, ready, rest⟩ | ⟨input, received, ready, room, content, _⟩
      · obtain ⟨first, others, rfl⟩ := List.exists_cons_of_ne_nil nonempty
        rw [responseLoop, received] at done
        cases done
        exact ⟨⟨rfl, rfl, rfl, rfl, rfl, rfl, List.suffix_rfl, id, id, le_refl _⟩, ready, .nothing (by simp),
          left, front, rest⟩
      · rw [responseLoop_notReady received] at done
        obtain ⟨reading, happened, next⟩ := Run.bind_eq_done.mp done
        obtain ⟨moves, spent, _⟩ := read_moves { link with input } ready room blocking happened
        have frame : Frame link host reading.link reading.host :=
          ⟨moves.noblock, moves.redis, moves.output, moves.peer, moves.accepted, moves.writes,
            moves.reads, moves.delivered, moves.asked, moves.supply⟩
        have ahead : reading.link.input.content ++ reading.host.inflight = _ := moves.ahead
        rw [show ({ link with input } : Link).input.content = _ from content, split] at ahead
        split at next
        · next nothing =>
            cases next
            exact ⟨frame, moves.receiving, spent.congr (by simpa using nothing), packets, rfl, ahead⟩
        · next something =>
            obtain ⟨later, receivingEnd, rest, left⟩ :=
              ih moves.receiving (moves.noblock.trans blocking) ahead next
            exact ⟨frame.trans later, receivingEnd, (spent.congr (by simpa using something)).trans rest, left⟩

theorem responseLoop_answers {packet : List Bytes} (receiving : Receiving link.input)
    (blocking : link.noblock = false)
    (legal : ∀ other ∈ packet :: packets, (framing maxPacketSize).Legal other)
    (split : link.input.content ++ host.inflight = (framing maxPacketSize).stream (packet :: packets))
    (passes : ∀ outcome ∈ host.reads, outcome.Passes)
    {call : Call (Option (List Bytes))} (done : responseLoop rounds link host = .done call) :
    call.value = some packet ∧ Frame link host call.link call.host ∧ Receiving call.link.input ∧
      call.link.input.content ++ call.host.inflight = (framing maxPacketSize).stream packets := by
  obtain ⟨frame, ready, spent, left, front, rest⟩ := responseLoop_done receiving blocking legal split done
  cases value : call.value with
  | none =>
      obtain ⟨outcome, member, bad⟩ := spent.failed (by simp [value])
      exact absurd (passes outcome member) bad
  | some other =>
      rw [value] at front
      cases front
      exact ⟨rfl, frame, ready, rest⟩

/-- Where a packet is on its way and every outcome passes, the response comes. -/
theorem responseLoop_arrives (receiving : Receiving link.input) (blocking : link.noblock = false)
    (legal : ∀ packet ∈ packets, (framing maxPacketSize).Legal packet) (some : packets ≠ [])
    (split : link.input.content ++ host.inflight = (framing maxPacketSize).stream packets)
    (passes : ∀ outcome ∈ host.reads, outcome.Passes)
    (enough : host.inflight.length ≤ host.reads.countP ReadOutcome.delivers)
    (rounds_enough : host.reads.length < rounds) :
    ∃ call, responseLoop rounds link host = .done call ∧
      call.host.inflight.length ≤ call.host.reads.countP ReadOutcome.delivers := by
  induction rounds generalizing link host with
  | zero => omega
  | succ rounds ih =>
      rcases recv_stream receiving legal split host.errno with
        ⟨packet, left, input, _, nonempty, received, _, _⟩ | ⟨input, received, ready, room, content, part⟩
      · obtain ⟨first, others, rfl⟩ := List.exists_cons_of_ne_nil nonempty
        rw [responseLoop, received]
        exact ⟨_, rfl, enough⟩
      · -- what is missing of the packet is in flight
        have waiting : host.inflight ≠ [] := fun none => by
          obtain ⟨packet, others, rfl⟩ := List.exists_cons_of_ne_nil some
          obtain ⟨⟨missing, cut⟩, different⟩ := part packet rfl
          rw [none, List.append_nil, Framing.stream_cons] at split
          have lengths := congrArg List.length split
          have cutLengths := congrArg List.length cut
          simp only [List.length_append] at lengths cutLengths
          have nothing : missing = [] := List.eq_nil_of_length_eq_zero (by omega)
          exact different (by simpa [nothing] using cut)
        have some := List.length_pos_iff.mpr waiting
        obtain ⟨reading, happened, positive, fewer, counted⟩ :=
          read_arrives { link with input } ready room blocking passes (by omega) waiting
        obtain ⟨moves, _, shorter⟩ :=
          read_moves { link with input } ready room blocking happened
        obtain ⟨call, done, left⟩ := ih moves.receiving (moves.noblock.trans blocking)
          (moves.ahead.trans (by rw [content]; exact split))
          (fun outcome member => passes outcome (moves.reads.subset member)) (by omega) (by omega)
        refine ⟨call, ?_, left⟩
        rw [responseLoop_notReady received, happened, Run.bind_done, if_neg (by omega), done]

def responses : Nat → Link → Host → Run (List (Option (List Bytes)) × Link × Host)
  | 0, link, host => .done ([], link, host)
  | count + 1, link, host =>
      (link.response host).bind fun call =>
        (responses count call.link call.host).bind fun later =>
          .done (call.value :: later.1, later.2)

variable {count : Nat}

/-- Calls that return bring the packets in order, and none of their reads asks
for nothing. -/
theorem responses_done (receiving : Receiving link.input) (blocking : link.noblock = false)
    (legal : ∀ packet ∈ packets, (framing maxPacketSize).Legal packet)
    (sent : link.input.content ++ host.inflight = (framing maxPacketSize).stream packets)
    (passes : ∀ outcome ∈ host.reads, outcome.Passes) (within : count ≤ packets.length)
    {result : List (Option (List Bytes)) × Link × Host} (done : responses count link host = .done result) :
    result.1 = (packets.take count).map some ∧
      ((∀ want ∈ host.asked, 0 < want) → ∀ want ∈ result.2.2.asked, 0 < want) := by
  induction count generalizing packets link host result with
  | zero =>
      cases done
      exact ⟨rfl, id⟩
  | succ count ih =>
      cases packets with
      | nil => simp at within
      | cons packet others =>
          obtain ⟨call, answered, next⟩ := Run.bind_eq_done.mp done
          obtain ⟨later, rest, same⟩ := Run.bind_eq_done.mp next
          cases same
          obtain ⟨value, frame, ready, left⟩ :=
            responseLoop_answers receiving blocking legal sent passes answered
          obtain ⟨values, asked⟩ := ih ready (frame.noblock.trans blocking)
            (fun other member => legal other (by simp [member])) left
            (fun outcome member => passes outcome (frame.reads.subset member))
            (by simpa using within) rest
          exact ⟨by simp [value, values], asked ∘ frame.asked⟩

theorem responses_arrive (receiving : Receiving link.input) (blocking : link.noblock = false)
    (legal : ∀ packet ∈ packets, (framing maxPacketSize).Legal packet)
    (sent : link.input.content ++ host.inflight = (framing maxPacketSize).stream packets)
    (passes : ∀ outcome ∈ host.reads, outcome.Passes) (within : count ≤ packets.length)
    (enough : host.inflight.length ≤ host.reads.countP ReadOutcome.delivers) :
    ∃ result, responses count link host = .done result := by
  induction count generalizing packets link host with
  | zero => exact ⟨_, rfl⟩
  | succ count ih =>
      cases packets with
      | nil => simp at within
      | cons packet others =>
          obtain ⟨call, answered, left⟩ := responseLoop_arrives receiving blocking legal (by simp) sent
            passes enough (Nat.lt_succ_self _)
          obtain ⟨_, frame, ready, stream⟩ :=
            responseLoop_answers receiving blocking legal sent passes answered
          obtain ⟨later, rest⟩ := ih ready (frame.noblock.trans blocking)
            (fun other member => legal other (by simp [member])) stream
            (fun outcome member => passes outcome (frame.reads.subset member))
            (by simpa using within) left
          have answered : link.response host = .done call := answered
          exact ⟨_, by rw [responses, answered, Run.bind_done, rest, Run.bind_done]⟩

theorem new_receiving {inputBlock outputBlock : Block} {inputReallocs outputReallocs : List Bool}
    (allocates : ∀ granted ∈ inputReallocs, granted = true) :
    Receiving (new inputBlock outputBlock inputReallocs outputReallocs).input :=
  ⟨Buffer.new_wellFormed (by decide) (by decide), allocates, by simp [new, Buffer.new, zeroBufferSize]⟩

/-- A fresh blocking link returns the packets of the stream in order, however
the stream is cut into reads: no call comes back with anything else, none asks
for nothing, and they do come back once as many reads deliver as there are
bytes. -/
theorem responses_deliver (inputBlock outputBlock : Block) {inputReallocs : List Bool}
    (outputReallocs : List Bool)
    (allocates : ∀ granted ∈ inputReallocs, granted = true)
    (legal : ∀ packet ∈ packets, packet ≠ [] ∧ (encode packet).length ≤ maxPacketSize)
    (sent : host.inflight = packets.flatMap encode) (fresh : host.asked = [])
    (passes : ∀ outcome ∈ host.reads, outcome.Passes) (within : count ≤ packets.length) :
    (∀ result, responses count (new inputBlock outputBlock inputReallocs outputReallocs) host = .done result →
      result.1 = (packets.take count).map some ∧ ∀ want ∈ result.2.2.asked, 0 < want) ∧
    ((packets.flatMap encode).length ≤ host.reads.countP ReadOutcome.delivers →
      ∃ result, responses count (new inputBlock outputBlock inputReallocs outputReallocs) host =
        .done result) := by
  have receiving : Receiving (new inputBlock outputBlock inputReallocs outputReallocs).input :=
    new_receiving allocates
  constructor
  · intro result done
    obtain ⟨values, asked⟩ := responses_done receiving rfl legal sent passes within done
    exact ⟨values, asked (by simp [fresh])⟩
  · intro enough
    exact responses_arrive receiving rfl legal sent passes within (by rwa [sent])

/-- Two packets, a single byte first, then an interrupted read, then as much as fits. -/
theorem responses_deliver_two : ∃ result,
    responses 2 (new (fun _ => 0) (fun _ => 0) [] [])
      (.sending (encode [[97]] ++ encode [[98], []])
        (.deliver 0 :: .fail .eintr :: List.replicate 13 (.deliver 100))) = .done result ∧
      result.1 = [some [[97]], some [[98], []]] := by
  have sent : Host.inflight (.sending (encode [[97]] ++ encode [[98], []])
      (.deliver 0 :: .fail .eintr :: List.replicate 13 (.deliver 100))) =
        [[[97]], [[98], []]].flatMap encode := by
    decide
  obtain ⟨safe, live⟩ := responses_deliver (fun _ => 0) (fun _ => 0) [] (List.forall_mem_nil _)
    (by decide) sent rfl (by simp [Host.sending, ReadOutcome.Passes]) (show 2 ≤ 2 by decide)
  obtain ⟨result, done⟩ := live (by decide)
  exact ⟨result, done, (safe result done).1⟩

end Link

end Dbss.Net
