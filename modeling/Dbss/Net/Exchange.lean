import Dbss.Data.Dialogue
import Dbss.Net.Link.Invariant
import Dbss.Net.Link.RoundTrip

namespace Dbss.Net

open Dbss.Data Dbss.Util Dbss.Ssdb Dbss.Net.Link

/-! Two `Link`s at the ends of one connection.  One sends requests; the other
answers each packet that `recv` returns with one `send`.  The calls of the two
interleave in any way, and the bytes are cut as the sockets please. -/

/-- `up` and `down` are the bytes on the way to the server and to the client. -/
structure Exchange where
  client : Link
  server : Link
  up : Bytes
  down : Bytes
  history : Dialogue (List Bytes) (List Bytes)

namespace Exchange

/-- A call by one of the two; the schedules are those of its `read` or `write`. -/
inductive Action where
  | ask (request : List Bytes)
  | clientWrites (writes : List WriteOutcome)
  | serverReads (reads : List ReadOutcome)
  | serverRecvs (errno : Errno)
  | serverSends
  | serverWrites (writes : List WriteOutcome)
  | clientReads (reads : List ReadOutcome)
  | clientRecvs (errno : Errno)
deriving DecidableEq, Repr

/-- A call of `write` where `wire` is on the way already; `none` if it does not return. -/
def writeTo (link : Link) (wire : Bytes) (writes : List WriteOutcome) : Option (Link × Bytes) :=
  match link.write { errno := .success, peer := fun _ => [], accepted := wire, delivered := 0, reads := []
                     writes, asked := [] } with
  | .done call => some (call.link, call.host.accepted)
  | .waiting | .undefined => none

/-- A call of `read` where `wire` is on the way, and what then still is. -/
def readFrom (link : Link) (wire : Bytes) (reads : List ReadOutcome) : Option (Link × Bytes) :=
  match link.read (.sending wire reads) with
  | .done call => some (call.link, call.host.inflight)
  | .waiting | .undefined => none

/-- The packet that `recv` returned, if it returned one. -/
def packetOf (received : Received) : List (List Bytes) :=
  (received.value.filter (· ≠ [])).toList

section

variable (answer : List (List Bytes) → List Bytes → List Bytes)

/-- `answer earlier request` is what the server sends for `request`. -/
def step (state : Exchange) : Action → Option Exchange
  | .ask request =>
      (state.client.send request).map fun sent =>
        { state with client := sent.2
                     history := { state.history with asked := state.history.asked ++ [request] } }
  | .clientWrites writes =>
      (writeTo state.client state.up writes).map fun written =>
        { state with client := written.1, up := written.2 }
  | .serverReads reads =>
      (readFrom state.server state.up reads).map fun read =>
        { state with server := read.1, up := read.2 }
  | .serverRecvs errno =>
      let received := state.server.recv errno
      some { state with
        server := received.link
        history := { state.history with taken := state.history.taken ++ packetOf received } }
  | .serverSends =>
      let given := state.history.given
      state.history.taken[given.length]?.bind fun request =>
        let reply := answer (state.history.taken.take given.length) request
        (state.server.send reply).map fun sent =>
          { state with server := sent.2, history := { state.history with given := given ++ [reply] } }
  | .serverWrites writes =>
      (writeTo state.server state.down writes).map fun written =>
        { state with server := written.1, down := written.2 }
  | .clientReads reads =>
      (readFrom state.client state.down reads).map fun read =>
        { state with client := read.1, down := read.2 }
  | .clientRecvs errno =>
      let received := state.client.recv errno
      some { state with
        client := received.link
        history := { state.history with received := state.history.received ++ packetOf received } }

def run (state : Exchange) : List Action → Option Exchange
  | [] => some state
  | action :: actions => (step answer state action).bind fun next => run next actions

end

/-- Two new links, each blocking or not, and nothing sent yet. -/
structure Fresh (state : Exchange) : Prop where
  client : ∃ inputBlock outputBlock inputReallocs outputReallocs noblock,
    state.client = { Link.new inputBlock outputBlock inputReallocs outputReallocs with noblock }
  server : ∃ inputBlock outputBlock inputReallocs outputReallocs noblock,
    state.server = { Link.new inputBlock outputBlock inputReallocs outputReallocs with noblock }
  up : state.up = []
  down : state.down = []
  history : state.history = .start

/-- No allocation for an output buffer has failed. -/
def Alive (state : Exchange) : Prop :=
  state.client.output.oom = false ∧ state.server.output.oom = false

instance (state : Exchange) : Decidable state.Alive :=
  inferInstanceAs (Decidable (_ ∧ _))

def upward (state : Exchange) : Line UInt8 :=
  ⟨state.client.output.content, state.up, state.server.input.content⟩

def downward (state : Exchange) : Line UInt8 :=
  ⟨state.server.output.content, state.down, state.client.input.content⟩

def Legal (packet : List Bytes) : Prop :=
  (framing maxPacketSize).Legal packet

variable {answer : List (List Bytes) → List Bytes → List Bytes} {state next last : Exchange}
  {action : Action} {actions : List Action} {link link' : Link} {wire wire' : Bytes}
  {writes : List WriteOutcome} {reads : List ReadOutcome} {input : Buffer} {host : Host}
  {packet request : List Bytes} {line : Line UInt8} {put got : List (List Bytes)}

/-! ### The calls -/

theorem readFrom_spec (link : Link) (valid : link.input.WellFormed)
    (done : readFrom link wire reads = some (link', wire')) :
    ∃ input, input.WellFormed ∧ link' = { link with input } ∧
      input.content ++ wire' = link.input.content ++ wire := by
  unfold readFrom at done
  split at done
  · next call happened =>
      cases done
      obtain ⟨input, bytes, same, fetched⟩ := read_fetched valid happened
      have whole : wire = bytes ++ call.host.inflight := fetched.inflight
      exact ⟨input, fetched.valid, same, by rw [show input.content = _ from fetched.content, whole, List.append_assoc]⟩
  all_goals cases done

theorem writeTo_spec (valid : link.output.WellFormed) (done : writeTo link wire writes = some (link', wire')) :
    ∃ output, output.WellFormed ∧ link' = { link with output } ∧
      (link.output.oom = true → output.oom = true) ∧ wire' ++ output.content = wire ++ link.output.content := by
  unfold writeTo at done
  split at done
  · next call happened =>
      cases done
      obtain ⟨drains, _⟩ := write_drains valid happened
      obtain ⟨noblock, redis, input, _, _, _, still, oom, _, whole⟩ := drains
      refine ⟨call.link.output, still, ?_, oom, whole⟩
      rw [← noblock, ← redis, ← input]
  all_goals cases done

/-- At the front of a line `recv` takes the next message or leaves the line as it is. -/
theorem recv_carries (link : Link) (valid : link.input.WellFormed) (held : line.held = link.input.content)
    (carries : line.Carries (framing maxPacketSize) put got) (legal : ∀ packet ∈ put, Legal packet)
    (errno : Errno) :
    ∃ input, input.WellFormed ∧ (link.recv errno).link = { link with input } ∧
      (packetOf (link.recv errno) = [] ∧ input.content = link.input.content ∨
        ∃ packet later, packetOf (link.recv errno) = [packet] ∧ put = got ++ packet :: later ∧
          Line.Carries (framing maxPacketSize) { line with held := input.content } put (got ++ [packet])) := by
  obtain ⟨left, split, bytes⟩ := carries
  rw [Line.bytes, held] at bytes
  cases left with
  | nil =>
      rw [recv_empty valid (List.append_eq_nil_iff.mp bytes).1]
      exact ⟨_, valid, rfl, .inl ⟨rfl, rfl⟩⟩
  | cons packet later =>
      obtain ⟨nonempty, fits⟩ := legal packet (by simp [split])
      rcases (framing maxPacketSize).held_cases bytes with ⟨extra, here, rest⟩ | part
      · obtain ⟨still, content⟩ := valid.decr_spec here
        rw [recv_packet valid nonempty fits here]
        refine ⟨_, still, rfl, .inr ⟨packet, later, by simp [packetOf, nonempty], split, later, ?_, ?_⟩⟩
        · rw [split, List.append_assoc, List.singleton_append]
        · rw [Line.bytes, content]
          exact rest
      · rw [recv_part valid nonempty fits part]
        by_cases nothing : link.input.content = []
        · rw [if_pos nothing]
          exact ⟨_, valid, rfl, .inl ⟨rfl, rfl⟩⟩
        · obtain ⟨room, same, _⟩ := valid.makeRoom_spec
          rw [if_neg nothing]
          refine ⟨_, room, rfl, .inl ⟨?_, same⟩⟩
          cases link.input.makeRoom.1 <;> rfl

theorem Legal.fits (legal : Legal packet) : Fits packet := by
  obtain ⟨-, short⟩ := legal
  have each : packet.length ≤ (packet.flatMap encodeRecord).length := by
    clear short
    induction packet with
    | nil => exact Nat.le_refl _
    | cons record rest ih =>
        simp only [List.flatMap_cons, encodeRecord, List.length_append, List.length_cons] at ih ⊢
        omega
  have bound : (encode packet).length ≤ 33554432 := short
  rw [encode, List.length_append] at bound
  exact ⟨by omega, sendable_of_fits short⟩

/-! ### One step -/

/-- What holds as long as no allocation for an output buffer has failed. -/
structure Matched (answer : List (List Bytes) → List Bytes → List Bytes) (state : Exchange) : Prop where
  clientPlain : state.client.redis = none
  serverPlain : state.server.redis = none
  asked : ∀ request ∈ state.history.asked, Legal request
  given : ∀ reply ∈ state.history.given, Legal reply
  requests : state.upward.Carries (framing maxPacketSize) state.history.asked state.history.taken
  replies : state.downward.Carries (framing maxPacketSize) state.history.given state.history.received
  order : state.history.InOrder answer

structure Linked (answer : List (List Bytes) → List Bytes → List Bytes) (state : Exchange) : Prop where
  client : Sound state.client
  server : Sound state.server
  matched : state.Alive → Matched answer state

theorem Fresh.linked (fresh : state.Fresh) : Linked answer state := by
  obtain ⟨⟨_, _, _, _, _, client⟩, ⟨_, _, _, _, _, server⟩, up, down, history⟩ := fresh
  have sound : ∀ inputBlock outputBlock inputReallocs outputReallocs noblock,
      Sound { Link.new inputBlock outputBlock inputReallocs outputReallocs with noblock } :=
    fun _ _ _ _ _ => ⟨Buffer.new_wellFormed (by decide) (by decide), Buffer.new_wellFormed (by decide) (by decide),
      by simp [Link.new]⟩
  refine ⟨by rw [client]; exact sound .., by rw [server]; exact sound .., fun _ => ?_⟩
  cases state
  subst client server up down history
  exact ⟨rfl, rfl, by simp [Dialogue.start], by simp [Dialogue.start], Line.carries_start, Line.carries_start,
    Dialogue.start_inOrder⟩

/-- A legal message is put on the line behind what is there. -/
theorem send_carries (sound : Sound link) (legal : Legal packet) {ret : Int}
    (sends : link.send packet = some (ret, link')) :
    Sound link' ∧ link'.redis = link.redis ∧ link'.input = link.input ∧
      (link.output.oom = true → link'.output.oom = true) ∧
      (link'.output.oom = false → link.redis = none →
        link'.output.content = link.output.content ++ encode packet) := by
  have still := sound.send legal.1 legal.fits sends
  obtain ⟨output, text, rfl, appends, format⟩ := send_cases sound legal.1 legal.fits sends
  refine ⟨still, rfl, rfl, appends.outOfMemory, fun alive plain => ?_⟩
  rcases format with ⟨_, rfl⟩ | ⟨_, redis, _, stored, _⟩
  · exact appends.added alive
  · rw [plain] at stored
    cases stored

theorem alive_before {before after : Buffer} (oom : before.oom = true → after.oom = true)
    (alive : after.oom = false) : before.oom = false :=
  Bool.eq_false_iff.mpr fun gone => by simp [oom gone] at alive

/-- The links stay matched, and memory that has run out stays so. -/
def Follows (answer : List (List Bytes) → List Bytes → List Bytes) (state next : Exchange) : Prop :=
  Linked answer next ∧ (next.Alive → state.Alive)

theorem Linked.goes (linked : Linked answer state) (client : Sound next.client) (server : Sound next.server)
    (before : next.Alive → state.Alive) (matched : next.Alive → Matched answer state → Matched answer next) :
    Follows answer state next :=
  ⟨⟨client, server, fun alive => matched alive (linked.matched (before alive))⟩, before⟩

theorem Linked.ask (linked : Linked answer state) (legal : Legal request)
    (done : step answer state (.ask request) = some next) : Follows answer state next := by
  obtain ⟨⟨ret, link⟩, sends, rfl⟩ := Option.map_eq_some_iff.mp done
  obtain ⟨still, redis, input, oom, added⟩ := send_carries linked.client legal sends
  refine linked.goes still linked.server (fun alive => ⟨alive_before oom alive.1, alive.2⟩) fun alive was => ?_
  refine ⟨redis.trans was.clientPlain, was.serverPlain, fun other member => ?_, was.given,
    was.requests.puts request ?_, was.replies.move ?_, was.order.step (.ask request)⟩
  · rcases List.mem_append.mp member with earlier | new
    · exact was.asked other earlier
    · rwa [List.mem_singleton.mp new]
  · simp [Line.bytes, upward, added alive.1 was.clientPlain, framing]
  · simp [Line.bytes, downward, input]

theorem Linked.serverSends (linked : Linked answer state) (legal : ∀ earlier request, Legal (answer earlier request))
    (done : step answer state .serverSends = some next) : Follows answer state next := by
  obtain ⟨request, turn, later⟩ := Option.bind_eq_some_iff.mp done
  obtain ⟨⟨ret, link⟩, sends, rfl⟩ := Option.map_eq_some_iff.mp later
  obtain ⟨still, redis, input, oom, added⟩ := send_carries linked.server (legal _ _) sends
  refine linked.goes linked.client still (fun alive => ⟨alive.1, alive_before oom alive.2⟩) fun alive was => ?_
  obtain ⟨bound, here⟩ := List.getElem?_eq_some_iff.mp turn
  have split : state.history.taken = state.history.taken.take state.history.given.length ++
      request :: state.history.taken.drop (state.history.given.length + 1) := by
    rw [← here, List.getElem_cons_drop, List.take_append_drop]
  refine ⟨was.clientPlain, redis.trans was.serverPlain, was.asked, fun other member => ?_, was.requests.move ?_,
    was.replies.puts _ ?_, was.order.step (.give split (by rw [List.length_take]; omega))⟩
  · rcases List.mem_append.mp member with earlier | new
    · exact was.given other earlier
    · rw [List.mem_singleton.mp new]
      exact legal _ _
  · simp [Line.bytes, upward, input]
  · simp [Line.bytes, downward, added alive.2 was.serverPlain, framing]

theorem Linked.clientWrites (linked : Linked answer state)
    (done : step answer state (.clientWrites writes) = some next) : Follows answer state next := by
  obtain ⟨⟨link, wire⟩, written, rfl⟩ := Option.map_eq_some_iff.mp done
  obtain ⟨output, valid, rfl, oom, whole⟩ := writeTo_spec linked.client.output written
  refine linked.goes ⟨linked.client.input, valid, linked.client.redis⟩ linked.server
    (fun alive => ⟨alive_before oom alive.1, alive.2⟩) fun _ was => ?_
  exact ⟨was.clientPlain, was.serverPlain, was.asked, was.given,
    was.requests.move (congrArg (state.server.input.content ++ ·) whole), was.replies, was.order⟩

theorem Linked.serverWrites (linked : Linked answer state)
    (done : step answer state (.serverWrites writes) = some next) : Follows answer state next := by
  obtain ⟨⟨link, wire⟩, written, rfl⟩ := Option.map_eq_some_iff.mp done
  obtain ⟨output, valid, rfl, oom, whole⟩ := writeTo_spec linked.server.output written
  refine linked.goes linked.client ⟨linked.server.input, valid, linked.server.redis⟩
    (fun alive => ⟨alive.1, alive_before oom alive.2⟩) fun _ was => ?_
  exact ⟨was.clientPlain, was.serverPlain, was.asked, was.given, was.requests,
    was.replies.move (congrArg (state.client.input.content ++ ·) whole), was.order⟩

theorem Linked.serverReads (linked : Linked answer state)
    (done : step answer state (.serverReads reads) = some next) : Follows answer state next := by
  obtain ⟨⟨link, wire⟩, read, rfl⟩ := Option.map_eq_some_iff.mp done
  obtain ⟨input, valid, rfl, whole⟩ := readFrom_spec _ linked.server.input read
  refine linked.goes linked.client ⟨valid, linked.server.output, linked.server.redis⟩ id fun _ was => ?_
  refine ⟨was.clientPlain, was.serverPlain, was.asked, was.given, was.requests.move ?_, was.replies, was.order⟩
  simpa [Line.bytes, upward] using congrArg (· ++ state.client.output.content) whole

theorem Linked.clientReads (linked : Linked answer state)
    (done : step answer state (.clientReads reads) = some next) : Follows answer state next := by
  obtain ⟨⟨link, wire⟩, read, rfl⟩ := Option.map_eq_some_iff.mp done
  obtain ⟨input, valid, rfl, whole⟩ := readFrom_spec _ linked.client.input read
  refine linked.goes ⟨valid, linked.client.output, linked.client.redis⟩ linked.server id fun _ was => ?_
  refine ⟨was.clientPlain, was.serverPlain, was.asked, was.given, was.requests, was.replies.move ?_, was.order⟩
  simpa [Line.bytes, downward] using congrArg (· ++ state.server.output.content) whole

theorem Linked.serverRecvs (linked : Linked answer state) {errno : Errno}
    (done : step answer state (.serverRecvs errno) = some next) : Follows answer state next := by
  cases done
  have output := recv_output linked.server errno
  refine linked.goes linked.client (linked.server.recv errno)
    (fun alive => ⟨alive.1, by rw [← output]; exact alive.2⟩) fun _ was => ?_
  obtain ⟨input, _, same, nothing | ⟨packet, later, took, turn, carries⟩⟩ :=
    recv_carries state.server linked.server.input rfl was.requests was.asked errno
  · refine ⟨was.clientPlain, by simp only [same]; exact was.serverPlain, was.asked, was.given, ?_, ?_, ?_⟩
    · simpa [nothing.1] using was.requests.move (by simp [Line.bytes, upward, same, nothing.2])
    · exact was.replies.move (by simp [Line.bytes, downward, same])
    · simpa [nothing.1] using was.order
  · refine ⟨was.clientPlain, by simp only [same]; exact was.serverPlain, was.asked, was.given, ?_, ?_, ?_⟩
    · simpa [took] using carries.move (by simp [Line.bytes, upward, same])
    · exact was.replies.move (by simp [Line.bytes, downward, same])
    · simpa [took] using was.order.step (.take turn)

theorem Linked.clientRecvs (linked : Linked answer state) {errno : Errno}
    (done : step answer state (.clientRecvs errno) = some next) : Follows answer state next := by
  cases done
  have output := recv_output linked.client errno
  refine linked.goes (linked.client.recv errno) linked.server
    (fun alive => ⟨by rw [← output]; exact alive.1, alive.2⟩) fun _ was => ?_
  obtain ⟨input, _, same, nothing | ⟨packet, later, took, turn, carries⟩⟩ :=
    recv_carries state.client linked.client.input rfl was.replies was.given errno
  · refine ⟨by simp only [same]; exact was.clientPlain, was.serverPlain, was.asked, was.given, ?_, ?_, ?_⟩
    · exact was.requests.move (by simp [Line.bytes, upward, same])
    · simpa [nothing.1] using was.replies.move (by simp [Line.bytes, downward, same, nothing.2])
    · simpa [nothing.1] using was.order
  · refine ⟨by simp only [same]; exact was.clientPlain, was.serverPlain, was.asked, was.given, ?_, ?_, ?_⟩
    · exact was.requests.move (by simp [Line.bytes, upward, same])
    · simpa [took] using carries.move (by simp [Line.bytes, downward, same])
    · simpa [took] using was.order.step (.receive turn)

theorem Linked.step (linked : Linked answer state) (replies : ∀ earlier request, Legal (answer earlier request))
    (asks : ∀ request, action = .ask request → Legal request) (done : step answer state action = some next) :
    Follows answer state next := by
  cases action with
  | ask request => exact linked.ask (asks request rfl) done
  | clientWrites writes => exact linked.clientWrites done
  | serverReads reads => exact linked.serverReads done
  | serverRecvs errno => exact linked.serverRecvs done
  | serverSends => exact linked.serverSends replies done
  | serverWrites writes => exact linked.serverWrites done
  | clientReads reads => exact linked.clientReads done
  | clientRecvs errno => exact linked.clientRecvs done

/-! ### Whole runs -/

theorem Linked.run (linked : Linked answer state) (replies : ∀ earlier request, Legal (answer earlier request))
    (asks : ∀ request, .ask request ∈ actions → Legal request) (ran : run answer state actions = some last) :
    Follows answer state last := by
  induction actions generalizing state with
  | nil =>
      cases ran
      exact ⟨linked, id⟩
  | cons action actions ih =>
      obtain ⟨next, done, rest⟩ := Option.bind_eq_some_iff.mp ran
      obtain ⟨between, before⟩ := linked.step replies (fun request same => asks request (by simp [same])) done
      obtain ⟨final, later⟩ := ih between (fun request member => asks request (by simp [member])) rest
      exact ⟨final, before ∘ later⟩

theorem carries_pending (carries : line.Carries (framing maxPacketSize) put got) :
    line.bytes = (put.drop got.length).flatMap encode := by
  obtain ⟨left, split, bytes⟩ := carries
  rw [bytes, split, List.drop_left]
  rfl

/-- However the calls of the two interleave and however the bytes are cut, the
server takes the requests in the order of asking, the replies the client has
received are those to its first requests, in order, and what is on the way is
the requests not taken yet and the replies not received yet, and nothing else. -/
theorem replies_in_order {start : Exchange} (fresh : start.Fresh) (ran : run answer start actions = some last)
    (asks : ∀ request, .ask request ∈ actions → Legal request)
    (replies : ∀ earlier request, Legal (answer earlier request)) (alive : last.Alive) :
    last.history.taken <+: last.history.asked ∧
      last.history.received.length ≤ last.history.asked.length ∧
      (∀ earlier request later, last.history.asked = earlier ++ request :: later →
        ∀ reply ∈ last.history.received[earlier.length]?, reply = answer earlier request) ∧
      last.upward.bytes = (last.history.asked.drop last.history.taken.length).flatMap encode ∧
      last.downward.bytes = (last.history.given.drop last.history.received.length).flatMap encode := by
  have matched := (fresh.linked.run replies asks ran).1.matched alive
  obtain ⟨few, right⟩ := matched.order.replies
  exact ⟨matched.order.taken, few, fun earlier request later split => right split,
    carries_pending matched.requests, carries_pending matched.replies⟩

/-- A server that says whether it has answered an even number of requests before. -/
def parity (earlier : List (List Bytes)) (_ : List Bytes) : List Bytes :=
  [if earlier.length % 2 = 0 then ascii "even" else ascii "odd"]

theorem parity_legal (earlier : List (List Bytes)) (request : List Bytes) : Legal (parity earlier request) := by
  rcases Nat.mod_two_eq_zero_or_one earlier.length with even | odd
  · rw [parity, if_pos even]
    exact ⟨by simp, by decide +kernel⟩
  · rw [parity, if_neg (by omega)]
    exact ⟨by simp, by decide +kernel⟩

def fresh : Exchange :=
  ⟨.new (fun _ => 0) (fun _ => 0) [] [], .new (fun _ => 0) (fun _ => 0) [] [], [], [], .start⟩

theorem fresh_isFresh : fresh.Fresh :=
  ⟨⟨_, _, _, _, false, rfl⟩, ⟨_, _, _, _, false, rfl⟩, rfl, rfl, rfl⟩

/-- Two requests are sent before the first is answered, and reads and writes cut them. -/
def pipelined : List Action :=
  [.ask [ascii "get", ascii "a"], .clientWrites [.accept 100], .ask [ascii "del"], .serverReads [.deliver 3],
    .serverRecvs .success, .clientWrites [.fail .eintr, .accept 100], .serverReads [.deliver 100],
    .serverRecvs .success, .serverRecvs .success, .serverSends, .serverSends, .serverWrites [.accept 8],
    .clientReads [.deliver 100], .clientRecvs .success, .serverWrites [.accept 100],
    .clientReads [.deliver 100], .clientRecvs .success, .clientRecvs .success]

theorem pipelined_runs : ∃ last, run parity fresh pipelined = some last ∧ last.Alive ∧
    last.history.asked = [[ascii "get", ascii "a"], [ascii "del"]] ∧
    last.history.received = [[ascii "even"], [ascii "odd"]] := by
  have ran : ((run parity fresh pipelined).map fun last =>
      (decide last.Alive, last.history.asked, last.history.received)) =
      some (true, [[ascii "get", ascii "a"], [ascii "del"]], [[ascii "even"], [ascii "odd"]]) := by decide +kernel
  obtain ⟨last, same, shown⟩ := Option.map_eq_some_iff.mp ran
  simp only [Prod.mk.injEq, decide_eq_true_eq] at shown
  exact ⟨last, same, shown⟩

theorem pipelined_legal : ∀ request, .ask request ∈ pipelined → Legal request := by
  intro request member
  simp only [pipelined, List.mem_cons, Action.ask.injEq, reduceCtorEq, false_or, or_false,
    List.not_mem_nil] at member
  rcases member with rfl | rfl
  · exact ⟨by simp, by decide +kernel⟩
  · exact ⟨by simp, by decide +kernel⟩

theorem replies_in_order_pipelined : ∃ last, run parity fresh pipelined = some last ∧
    last.history.received = [[ascii "even"], [ascii "odd"]] ∧
    last.history.taken <+: last.history.asked ∧
    last.history.received.length ≤ last.history.asked.length ∧
    (∀ earlier request later, last.history.asked = earlier ++ request :: later →
      ∀ reply ∈ last.history.received[earlier.length]?, reply = parity earlier request) ∧
    last.upward.bytes = (last.history.asked.drop last.history.taken.length).flatMap encode ∧
    last.downward.bytes = (last.history.given.drop last.history.received.length).flatMap encode := by
  obtain ⟨last, ran, alive, _, received⟩ := pipelined_runs
  exact ⟨last, ran, received, replies_in_order fresh_isFresh ran pipelined_legal parity_legal alive⟩

end Exchange

end Dbss.Net
