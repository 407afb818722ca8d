import Dbss.Net.Exchange
import Dbss.Net.Link.Operations
import Dbss.Net.Link.Response

namespace Dbss.Net.Exchange

open Dbss.Data Dbss.Util Dbss.Ssdb Dbss.Net.Link

/-! No state of an exchange is a dead end: whatever has happened so far, the
calls that are left can bring every reply to the client. -/

variable {answer : List (List Bytes) → List Bytes → List Bytes} {state next last : Exchange}
  {action : Action} {actions : List Action} {link : Link} {wire : Bytes} {input output : Buffer} {host : Host}
  {packet : List Bytes} {line : Line UInt8} {put got : List (List Bytes)} {link' : Link} {wire' : Bytes}
  {reads : List ReadOutcome} {writes : List WriteOutcome}

/-! ### One call -/

theorem writeLoop_all (valid : output.WellFormed) (noblock : Bool) (host : Host) :
    ∃ ret after host',
      writeLoop noblock [.accept output.content.length] output host 0 = .done (some ret, after, host') ∧
      host'.accepted = host.accepted ++ output.content ∧ after.WellFormed ∧ after.content = [] ∧
      after.oom = output.oom := by
  have size := valid.size_eq
  rw [writeLoop]
  by_cases occupied : output.size > 0
  · have all : min output.content.length output.size.toNat = output.content.length := by omega
    obtain ⟨still, left⟩ := valid.decr_spec (List.append_nil output.content).symm
    have emptied : ¬ (output.decr output.content.length).size > 0 := by
      have := still.size_eq
      rw [left] at this
      simp [this]
    rw [if_pos occupied]
    simp only [all, List.take_length]
    rw [if_neg (show output.content.length ≠ 0 by omega)]
    cases noblock with
    | false => exact ⟨_, _, _, rfl, rfl, still, left, rfl⟩
    | true =>
        rw [if_pos rfl, writeLoop, if_neg emptied]
        exact ⟨_, _, _, rfl, rfl, still, left, rfl⟩
  · rw [if_neg occupied]
    have nothing : output.content = [] := List.eq_nil_of_length_eq_zero (by omega)
    exact ⟨_, _, _, rfl, by simp [nothing], valid, nothing, rfl⟩

/-- A socket that takes everything leaves an empty output in the lower half of its block. -/
theorem writeTo_all (granted : link.output.Granted) (wire : Bytes) :
    ∃ output, writeTo link wire [.accept link.output.content.length] =
        some ({ link with output }, wire ++ link.output.content) ∧
      output.WellFormed ∧ output.content = [] ∧ output.data ≤ output.total / 2 ∧ output.oom = link.output.oom := by
  obtain ⟨begins, content, _⟩ := begun_spec granted.valid
  obtain ⟨ret, after, host', looped, accepted, still, empty, alive⟩ := writeLoop_all begins link.noblock
    { errno := .success, peer := fun _ => [], accepted := wire, delivered := 0, reads := []
      writes := [.accept link.output.content.length], asked := [] }
  obtain ⟨niceValid, niceContent, total, _, _, niceOom, low⟩ := still.nice_spec
  rw [content] at looped accepted
  refine ⟨after.nice, ?_, niceValid, niceContent.trans empty, by rw [total]; exact low,
    niceOom.trans (alive.trans (begun_oom granted))⟩
  rw [writeTo, write_begun]
  simp only [looped, Run.bind_done, accepted]

/-- `read` begins with room in the buffer. -/
theorem read_ready (host : Host) (receiving : Receiving link.input) (room : HasRoom link.input) :
    ∃ input, Receiving input ∧ 0 < input.space ∧ input.content = link.input.content ∧
      link.read host = (readLoop link.noblock host.reads input host 0).bind fun stored =>
        .done ⟨stored.1, { link with input := stored.2.1 }, stored.2.2⟩ := by
  have content := (begun_spec receiving.valid).2.1
  obtain ⟨begins, roomy⟩ : Receiving (begun link.input) ∧ HasRoom (begun link.input) := by
    by_cases small : link.input.total = zeroBufferSize
    · obtain ⟨grown, roomy, _⟩ := receiving.grow room small
      rw [begun, if_pos small]
      exact ⟨grown, roomy⟩
    · rw [begun, if_neg small]
      exact ⟨receiving, room⟩
  obtain ⟨ready, space, same⟩ := begins.nice roomy
  exact ⟨_, ready, space, same.trans content, rfl⟩

theorem readLoop_some (host : Host) (noblock : Bool) (more : Nat) (room : 0 < input.space) (some : host.inflight ≠ []) :
    ∃ result, readLoop noblock [.deliver more, .fail .ewouldblock] input host 0 = .done result ∧
      result.2.2.inflight.length < host.inflight.length := by
  rw [readLoop, if_pos room]
  simp only
  generalize taken : List.take _ _ = bytes
  obtain ⟨rest, split⟩ : bytes <+: host.inflight := taken ▸ List.take_prefix _ _
  have nonempty : bytes ≠ [] := by
    rw [← taken]
    simp only [ne_eq, List.take_eq_nil_iff, not_or]
    exact ⟨by omega, some⟩
  have left : ((host.peer host.accepted).drop (host.delivered + bytes.length)).length < host.inflight.length := by
    have positive := List.length_pos_iff.mpr nonempty
    rw [Host.inflight_drop split.symm, ← split, List.length_append]
    omega
  rw [if_neg nonempty]
  cases noblock with
  | false => exact ⟨_, rfl, left⟩
  | true =>
      rw [if_pos rfl, readLoop]
      split
      · exact ⟨_, rfl, left⟩
      · exact ⟨_, rfl, left⟩

/-- Where bytes are on the way and there is room, a call of `read` brings some. -/
theorem readFrom_some (link : Link) (receiving : Receiving link.input) (room : HasRoom link.input) (some : wire ≠ []) :
    ∃ link' wire', readFrom link wire [.deliver wire.length, .fail .ewouldblock] = Option.some (link', wire') ∧
      wire'.length < wire.length := by
  obtain ⟨input, ready, space, _, reading⟩ :=
    read_ready (.sending wire [.deliver wire.length, .fail .ewouldblock]) receiving room
  obtain ⟨result, looped, fewer⟩ := readLoop_some (.sending wire [.deliver wire.length, .fail .ewouldblock])
    link.noblock wire.length space some
  have called : link.read (.sending wire [.deliver wire.length, .fail .ewouldblock]) =
      .done ⟨result.1, { link with input := result.2.1 }, result.2.2⟩ :=
    reading.trans (congrArg (Run.bind · _) looped)
  refine ⟨{ link with input := result.2.1 }, _, ?_, fewer⟩
  unfold readFrom
  rw [called]

/-- At the front of a line `recv` takes a packet, or it makes room for more of
the line; where all of the line has arrived it takes one unless there is none. -/
theorem recv_or_room (link : Link) (receiving : Receiving link.input) (held : line.held = link.input.content)
    (carries : line.Carries (framing maxPacketSize) put got) (legal : ∀ packet ∈ put, Legal packet) (errno : Errno) :
    (∃ packet input, packetOf (link.recv errno) = [packet] ∧ (link.recv errno).link = { link with input } ∧
      input.content.length < link.input.content.length) ∨
    packetOf (link.recv errno) = [] ∧ (line.flight = [] → line.queued = [] → got = put) ∧
      ∃ input, (link.recv errno).link = { link with input } ∧ Receiving input ∧ HasRoom input ∧
        input.content = link.input.content := by
  obtain ⟨left, split, bytes⟩ := carries
  have rest : ∀ packet ∈ left, (framing maxPacketSize).Legal packet :=
    fun packet member => legal packet (by simp [split, member])
  have stream := bytes
  rw [Line.bytes, held] at stream
  rcases recv_stream receiving rest stream errno with
    ⟨packet, later, input, front, nonempty, received, _, remains⟩ | ⟨input, received, ready, room, content, part⟩
  · refine .inl ⟨packet, input, ?_, by rw [received], ?_⟩
    · simp [packetOf, received, nonempty]
    · have positive := List.length_pos_iff.mpr ((framing maxPacketSize).encode_ne_nil (rest packet (by simp [front])))
      have lengths := congrArg List.length stream
      rw [front, Framing.stream_cons, ← remains] at lengths
      simp only [List.length_append] at lengths
      omega
  · refine .inr ⟨by simp [packetOf, received], fun flight queued => ?_, input, by rw [received], ready, room, content⟩
    refine Line.Carries.drained ⟨left, split, bytes⟩ queued flight fun other same _ packet first => ?_
    rw [held]
    exact part packet (by rwa [List.append_cancel_left (split.symm.trans same)])

/-! ### Memory -/

theorem readFrom_granted (granted : link.input.Granted) (done : readFrom link wire reads = some (link', wire')) :
    link'.input.Granted ∧ link'.output = link.output := by
  obtain ⟨_, _, same, _⟩ := readFrom_spec _ granted.valid done
  refine ⟨?_, by rw [same]⟩
  unfold readFrom at done
  split at done
  · next call happened =>
      cases done
      exact (read_leads happened).granted granted
  all_goals cases done

theorem writeTo_granted (granted : link.output.Granted) (done : writeTo link wire writes = some (link', wire')) :
    link'.output.Granted ∧ link'.input = link.input := by
  obtain ⟨_, _, same, _⟩ := writeTo_spec granted.valid done
  refine ⟨?_, by rw [same]⟩
  unfold writeTo at done
  split at done
  · next call happened =>
      cases done
      exact (write_leads happened).granted granted
  all_goals cases done

theorem send_granted (granted : link.output.Granted) (plain : link.redis = none) (legal : Legal packet) {ret : Int}
    (sends : link.send packet = some (ret, link')) : link'.output.Granted ∧ link'.input = link.input := by
  rw [send_ssdb plain legal.1] at sends
  cases sends
  exact ⟨(sendRecords_leads _ legal.fits.2).granted granted, rfl⟩

theorem carries_plain (carries : line.Carries (framing maxPacketSize) put got) (legal : ∀ packet ∈ put, Legal packet) :
    PlainSsdb line.held := by
  obtain ⟨left, split, bytes⟩ := carries
  cases left with
  | nil =>
      rw [(List.append_eq_nil_iff.mp bytes).1]
      exact nofun
  | cons packet later =>
      obtain ⟨first, tail, text, digit⟩ := encode_head (legal packet (by simp [split])).1
      refine plainSsdb_of_digit fun byte head => ?_
      obtain ⟨rest, held⟩ := List.head?_eq_some_iff.mp head
      rw [Line.bytes, held, Framing.stream_cons, show (framing maxPacketSize).encode packet = _ from text] at bytes
      simp only [List.cons_append, List.cons.injEq] at bytes
      rw [bytes.1]
      exact digit

theorem recv_granted (sound : Sound link) (granted : link.input.Granted) (plain : PlainSsdb link.input.content)
    (errno : Errno) :
    (link.recv errno).link.input.Granted ∧ (link.recv errno).link.output = link.output :=
  ⟨(recv_leads granted.valid plain errno).granted granted, recv_output sound errno⟩

/-- The allocator answers every call for the four blocks. -/
structure Supplied (state : Exchange) : Prop where
  clientInput : state.client.input.Granted
  clientOutput : state.client.output.Granted
  serverInput : state.server.input.Granted
  serverOutput : state.server.output.Granted

theorem Supplied.step (supplied : state.Supplied) (linked : Linked answer state) (alive : state.Alive)
    (replies : ∀ earlier request, Legal (answer earlier request))
    (asks : ∀ request, action = .ask request → Legal request) (done : step answer state action = some next) :
    next.Supplied := by
  have matched := linked.matched alive
  obtain ⟨clientInput, clientOutput, serverInput, serverOutput⟩ := supplied
  cases action with
  | ask request =>
      obtain ⟨⟨ret, link⟩, sends, rfl⟩ := Option.map_eq_some_iff.mp done
      obtain ⟨output, input⟩ := send_granted clientOutput matched.clientPlain (asks request rfl) sends
      exact ⟨input ▸ clientInput, output, serverInput, serverOutput⟩
  | clientWrites writes =>
      obtain ⟨⟨link, wire⟩, written, rfl⟩ := Option.map_eq_some_iff.mp done
      obtain ⟨output, input⟩ := writeTo_granted clientOutput written
      exact ⟨input ▸ clientInput, output, serverInput, serverOutput⟩
  | serverReads reads =>
      obtain ⟨⟨link, wire⟩, read, rfl⟩ := Option.map_eq_some_iff.mp done
      obtain ⟨input, output⟩ := readFrom_granted serverInput read
      exact ⟨clientInput, clientOutput, input, output ▸ serverOutput⟩
  | serverRecvs errno =>
      cases done
      obtain ⟨input, output⟩ :=
        recv_granted linked.server serverInput (carries_plain matched.requests matched.asked) errno
      exact ⟨clientInput, clientOutput, input, output ▸ serverOutput⟩
  | serverSends =>
      obtain ⟨request, _, later⟩ := Option.bind_eq_some_iff.mp done
      obtain ⟨⟨ret, link⟩, sends, rfl⟩ := Option.map_eq_some_iff.mp later
      obtain ⟨output, input⟩ := send_granted serverOutput matched.serverPlain (replies _ _) sends
      exact ⟨clientInput, clientOutput, input ▸ serverInput, output⟩
  | serverWrites writes =>
      obtain ⟨⟨link, wire⟩, written, rfl⟩ := Option.map_eq_some_iff.mp done
      obtain ⟨output, input⟩ := writeTo_granted serverOutput written
      exact ⟨clientInput, clientOutput, input ▸ serverInput, output⟩
  | clientReads reads =>
      obtain ⟨⟨link, wire⟩, read, rfl⟩ := Option.map_eq_some_iff.mp done
      obtain ⟨input, output⟩ := readFrom_granted clientInput read
      exact ⟨input, output ▸ clientOutput, serverInput, serverOutput⟩
  | clientRecvs errno =>
      cases done
      obtain ⟨input, output⟩ :=
        recv_granted linked.client clientInput (carries_plain matched.replies matched.given) errno
      exact ⟨input, output ▸ clientOutput, serverInput, serverOutput⟩

structure Able (answer : List (List Bytes) → List Bytes → List Bytes) (state : Exchange) : Prop where
  linked : Linked answer state
  alive : state.Alive
  supplied : state.Supplied

theorem Able.run (linked : Linked answer state) (supplied : state.Supplied)
    (replies : ∀ earlier request, Legal (answer earlier request))
    (asks : ∀ request, .ask request ∈ actions → Legal request) (ran : run answer state actions = some last)
    (alive : last.Alive) : Able answer last := by
  induction actions generalizing state with
  | nil =>
      cases ran
      exact ⟨linked, alive, supplied⟩
  | cons action actions ih =>
      obtain ⟨next, done, rest⟩ := Option.bind_eq_some_iff.mp ran
      have later : ∀ request, .ask request ∈ actions → Legal request := fun request member =>
        asks request (by simp [member])
      have first : ∀ request, action = .ask request → Legal request := fun request same => asks request (by simp [same])
      obtain ⟨between, before⟩ := linked.step replies first done
      have working := before ((between.run replies later rest).2 alive)
      exact ih between (supplied.step linked working replies first done) later rest

/-! ### What is left to do -/

/-- A byte that the sender still has is to be written, read and taken. -/
def cost (line : Line UInt8) : Nat :=
  3 * line.queued.length + 2 * line.flight.length + line.held.length

/-- The cost of the replies to `later`, which come after `earlier`. -/
def owed (answer : List (List Bytes) → List Bytes → List Bytes) (earlier : List (List Bytes)) :
    List (List Bytes) → Nat
  | [] => 0
  | request :: later => 3 * (encode (answer earlier request)).length + 1 + owed answer (earlier ++ [request]) later

def remaining (answer : List (List Bytes) → List Bytes → List Bytes) (state : Exchange) : Nat :=
  cost state.upward + cost state.downward +
    owed answer (state.history.asked.take state.history.given.length)
      (state.history.asked.drop state.history.given.length)

theorem owed_split (answer : List (List Bytes) → List Bytes → List Bytes) {requests : List (List Bytes)}
    {count : Nat} {request : List Bytes} (turn : requests[count]? = some request) :
    owed answer (requests.take count) (requests.drop count) =
      3 * (encode (answer (requests.take count) request)).length + 1 +
        owed answer (requests.take (count + 1)) (requests.drop (count + 1)) := by
  obtain ⟨bound, here⟩ := List.getElem?_eq_some_iff.mp turn
  rw [List.drop_eq_getElem_cons bound, here, owed, List.take_add_one, turn]
  rfl

/-- Every request has been answered and every reply has come. -/
structure Finished (state : Exchange) : Prop where
  taken : state.history.taken = state.history.asked
  given : state.history.given.length = state.history.taken.length
  received : state.history.received = state.history.given

/-- Some calls, none of which asks anything new, lead on to a state with less to do. -/
def Advances (answer : List (List Bytes) → List Bytes → List Bytes) (state : Exchange) : Prop :=
  ∃ actions next, (∀ request, .ask request ∉ actions) ∧ run answer state actions = some next ∧ next.Alive ∧
    next.history.asked = state.history.asked ∧ remaining answer next < remaining answer state

theorem advances_once (action : Action) (done : step answer state action = some next)
    (quiet : ∀ request, action ≠ .ask request)
    (alive : next.Alive) (asked : next.history.asked = state.history.asked)
    (less : remaining answer next < remaining answer state) : Advances answer state :=
  ⟨[action], next, by simpa using fun request => (quiet request).symm, by simp [run, done], alive, asked, less⟩

theorem advances_twice {middle : Exchange} {second : Action} (done : step answer state action = some middle)
    (later : step answer middle second = some next) (quiet : ∀ request, action ≠ .ask request ∧ second ≠ .ask request)
    (alive : next.Alive) (asked : next.history.asked = state.history.asked)
    (less : remaining answer next < remaining answer state) : Advances answer state :=
  ⟨[action, second], next, by simpa using fun request => ⟨(quiet request).1.symm, (quiet request).2.symm⟩,
    by simp [run, done, later], alive, asked, less⟩

theorem advances_clientWrites (able : Able answer state) (some : state.client.output.content ≠ []) :
    Advances answer state := by
  obtain ⟨output, written, _, empty, _, alive⟩ := writeTo_all able.supplied.clientOutput state.up
  have done : step answer state (.clientWrites [.accept state.client.output.content.length]) = Option.some { state with
      client := { state.client with output }, up := state.up ++ state.client.output.content } := by
    rw [step, written]
    rfl
  refine advances_once _ done (by simp) ⟨alive.trans able.alive.1, able.alive.2⟩ rfl ?_
  have positive := List.length_pos_iff.mpr some
  simp only [remaining, cost, upward, downward, empty, List.length_append, List.length_nil]
  omega

theorem advances_serverWrites (able : Able answer state) (some : state.server.output.content ≠ []) :
    Advances answer state := by
  obtain ⟨output, written, _, empty, _, alive⟩ := writeTo_all able.supplied.serverOutput state.down
  have done : step answer state (.serverWrites [.accept state.server.output.content.length]) = Option.some { state with
      server := { state.server with output }, down := state.down ++ state.server.output.content } := by
    rw [step, written]
    rfl
  refine advances_once _ done (by simp) ⟨able.alive.1, alive.trans able.alive.2⟩ rfl ?_
  have positive := List.length_pos_iff.mpr some
  simp only [remaining, cost, upward, downward, empty, List.length_append, List.length_nil]
  omega

theorem granted_receiving (granted : input.Granted) : Receiving input :=
  ⟨granted.valid, granted.allocates, by have := granted.capacity.bounds; omega⟩

theorem advances_serverReads (able : Able answer state) (queued : state.client.output.content = [])
    (untaken : state.history.taken ≠ state.history.asked) : Advances answer state := by
  have matched := able.linked.matched able.alive
  rcases recv_or_room state.server (granted_receiving able.supplied.serverInput) rfl matched.requests
      matched.asked .success with
    ⟨packet, input, _, same, shorter⟩ | ⟨nothing, drained, input, same, ready, room, content⟩
  · refine advances_once (.serverRecvs .success) rfl (by simp)
      ⟨able.alive.1, by simp only [same]; exact able.alive.2⟩ rfl ?_
    simp only [remaining, cost, upward, downward, same]
    omega
  · have wire : state.up ≠ [] := fun arrived => untaken (drained arrived queued)
    obtain ⟨link', wire', read, fewer⟩ := readFrom_some { state.server with input } ready room wire
    obtain ⟨stored, _, rfl, whole⟩ := readFrom_spec { state.server with input } ready.valid read
    have received : step answer state (.serverRecvs .success) =
        some { state with server := { state.server with input } } := by
      simp only [step, same, nothing, List.append_nil]
    have arrives : step answer { state with server := { state.server with input } }
        (.serverReads [.deliver state.up.length, .fail .ewouldblock]) =
        some { state with server := { state.server with input := stored }, up := wire' } := by
      rw [step, read]
      rfl
    refine advances_twice received arrives (by simp) able.alive rfl ?_
    have lengths := congrArg List.length whole
    simp only [content, List.length_append] at lengths
    simp only [remaining, cost, upward, downward]
    omega

theorem advances_clientReads (able : Able answer state) (queued : state.server.output.content = [])
    (unreceived : state.history.received ≠ state.history.given) : Advances answer state := by
  have matched := able.linked.matched able.alive
  rcases recv_or_room state.client (granted_receiving able.supplied.clientInput) rfl matched.replies
      matched.given .success with
    ⟨packet, input, _, same, shorter⟩ | ⟨nothing, drained, input, same, ready, room, content⟩
  · refine advances_once (.clientRecvs .success) rfl (by simp)
      ⟨by simp only [same]; exact able.alive.1, able.alive.2⟩ rfl ?_
    simp only [remaining, cost, upward, downward, same]
    omega
  · have wire : state.down ≠ [] := fun arrived => unreceived (drained arrived queued)
    obtain ⟨link', wire', read, fewer⟩ := readFrom_some { state.client with input } ready room wire
    obtain ⟨stored, _, rfl, whole⟩ := readFrom_spec { state.client with input } ready.valid read
    have received : step answer state (.clientRecvs .success) =
        some { state with client := { state.client with input } } := by
      simp only [step, same, nothing, List.append_nil]
    have arrives : step answer { state with client := { state.client with input } }
        (.clientReads [.deliver state.down.length, .fail .ewouldblock]) =
        some { state with client := { state.client with input := stored }, down := wire' } := by
      rw [step, read]
      rfl
    refine advances_twice received arrives (by simp) able.alive rfl ?_
    have lengths := congrArg List.length whole
    simp only [content, List.length_append] at lengths
    simp only [remaining, cost, upward, downward]
    omega

/-- The output is written first, which makes room for the reply. -/
theorem advances_serverSends (able : Able answer state) (replies : ∀ earlier request, Legal (answer earlier request))
    (due : state.history.given.length < state.history.taken.length) : Advances answer state := by
  have matched := able.linked.matched able.alive
  obtain ⟨output, written, valid, empty, low, alive⟩ := writeTo_all able.supplied.serverOutput state.down
  have granted := (writeTo_granted able.supplied.serverOutput written).1
  obtain ⟨untaken, front⟩ := matched.order.taken
  obtain ⟨request, turn⟩ : ∃ request, state.history.taken[state.history.given.length]? = some request :=
    ⟨_, List.getElem?_eq_getElem due⟩
  have legal := replies (state.history.taken.take state.history.given.length) request
  have roomy : Buffer.Roomy output := ⟨granted, alive.trans able.alive.2, low⟩
  obtain ⟨after, sends, working⟩ := send_alive { state.server with output } roomy matched.serverPlain empty legal
  have writes : step answer state (.serverWrites [.accept state.server.output.content.length]) = some { state with
      server := { state.server with output }, down := state.down ++ state.server.output.content } := by
    rw [step, written]
    rfl
  have gives : step answer { state with
      server := { state.server with output }, down := state.down ++ state.server.output.content } .serverSends =
      some { state with
        server := { state.server with output := after }, down := state.down ++ state.server.output.content
        history := { state.history with given := state.history.given ++
          [answer (state.history.taken.take state.history.given.length) request] } } := by
    rw [step]
    simp only [turn, Option.bind_some, sends, Option.map_some]
  refine advances_twice writes gives (by simp) ⟨able.alive.1, working⟩ rfl ?_
  have sound : Sound { state.server with output } := ⟨able.linked.server.input, valid, able.linked.server.redis⟩
  have added := (send_carries sound legal sends).2.2.2.2 working matched.serverPlain
  have asked : state.history.asked[state.history.given.length]? = some request := by
    rw [← front, List.getElem?_append_left due, turn]
  have split := owed_split answer asked
  have same :
      state.history.asked.take state.history.given.length = state.history.taken.take state.history.given.length := by
    rw [← front, List.take_append_of_le_length due.le]
  rw [same] at split
  simp only [remaining, cost, upward, downward, List.length_append, List.length_singleton, same, split, added, empty,
    List.nil_append]
  omega

theorem advances (able : Able answer state) (replies : ∀ earlier request, Legal (answer earlier request))
    (unfinished : ¬ state.Finished) : Advances answer state := by
  have within := (able.linked.matched able.alive).order.within
  by_cases clientWrote : state.client.output.content = []
  · by_cases taken : state.history.taken = state.history.asked
    · by_cases given : state.history.given.length = state.history.taken.length
      · by_cases serverWrote : state.server.output.content = []
        · exact advances_clientReads able serverWrote fun received => unfinished ⟨taken, given, received⟩
        · exact advances_serverWrites able serverWrote
      · exact advances_serverSends able replies (by omega)
    · exact advances_serverReads able clientWrote taken
  · exact advances_clientWrites able clientWrote

theorem run_append {before after : List Action} {middle : Exchange} (first : run answer state before = some middle)
    (second : run answer middle after = some last) : run answer state (before ++ after) = some last := by
  induction before generalizing state with
  | nil =>
      cases first
      exact second
  | cons action before ih =>
      obtain ⟨next, done, rest⟩ := Option.bind_eq_some_iff.mp first
      exact Option.bind_eq_some_iff.mpr ⟨next, done, ih rest⟩

theorem able_finishes (able : Able answer state) (replies : ∀ earlier request, Legal (answer earlier request)) :
    ∃ actions last, (∀ request, .ask request ∉ actions) ∧ run answer state actions = some last ∧
      Able answer last ∧ last.Finished ∧ last.history.asked = state.history.asked := by
  induction work : remaining answer state using Nat.strong_induction_on generalizing state with
  | _ work ih =>
      by_cases finished : state.Finished
      · exact ⟨[], state, by simp, rfl, able, finished, rfl⟩
      · obtain ⟨actions, next, quiet, ran, alive, asked, less⟩ := advances able replies finished
        have between := Able.run able.linked able.supplied replies (fun request member => absurd member (quiet request))
          ran alive
        obtain ⟨later, last, still, runs, final, done, same⟩ := ih _ (work ▸ less) between rfl
        exact ⟨actions ++ later, last, by simpa [not_or] using fun request => ⟨quiet request, still request⟩,
          run_append ran runs, final, done, same.trans asked⟩

/-- From every state that an exchange can come to, some calls bring the client
the replies to all it has asked, without asking anything more: full buffers,
cut packets and calls that failed never leave the two waiting for each other. -/
theorem can_finish {start : Exchange} (fresh : start.Fresh) (supplied : start.Supplied)
    (ran : run answer start actions = some last) (asks : ∀ request, .ask request ∈ actions → Legal request)
    (replies : ∀ earlier request, Legal (answer earlier request)) (alive : last.Alive) :
    ∃ more final, (∀ request, .ask request ∉ more) ∧ run answer last more = some final ∧
      final.history.asked = last.history.asked ∧
      final.history.received.length = last.history.asked.length ∧
      ∀ earlier request later, last.history.asked = earlier ++ request :: later →
        final.history.received[earlier.length]? = some (answer earlier request) := by
  have able := Able.run fresh.linked supplied replies asks ran alive
  obtain ⟨more, final, quiet, runs, still, ⟨taken, given, received⟩, asked⟩ := able_finishes able replies
  have all : final.history.received.length = last.history.asked.length := by
    rw [received, given, taken, asked]
  have matched := still.linked.matched still.alive
  refine ⟨more, final, quiet, runs, asked, all, fun earlier request later split => ?_⟩
  have bound : earlier.length < final.history.received.length := by
    rw [all, split]
    simp
  rw [List.getElem?_eq_getElem bound]
  exact congrArg some (matched.order.replies.2 (asked.trans split) _ (List.getElem?_eq_getElem bound))

theorem fresh_supplied : fresh.Supplied :=
  ⟨Buffer.new_granted _ (by simp), Buffer.new_granted _ (by simp), Buffer.new_granted _ (by simp),
    Buffer.new_granted _ (by simp)⟩

/-- After eight calls the second request is cut and nothing has been answered. -/
theorem can_finish_pipelined : ∃ last more final, run parity fresh (pipelined.take 8) = some last ∧
    (∀ request, .ask request ∉ more) ∧ run parity last more = some final ∧
    final.history.asked = last.history.asked ∧
    final.history.received.length = last.history.asked.length ∧
    ∀ earlier request later, last.history.asked = earlier ++ request :: later →
      final.history.received[earlier.length]? = some (parity earlier request) := by
  have ran : ((run parity fresh (pipelined.take 8)).map fun last => decide last.Alive) = some true := by decide +kernel
  obtain ⟨last, same, shown⟩ := Option.map_eq_some_iff.mp ran
  obtain ⟨more, final, finishes⟩ := can_finish fresh_isFresh fresh_supplied same
    (fun request member => pipelined_legal request (List.mem_of_mem_take member)) parity_legal (of_decide_eq_true shown)
  exact ⟨last, more, final, same, finishes⟩

end Dbss.Net.Exchange
