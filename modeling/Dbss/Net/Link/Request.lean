import Dbss.Client.Encoding

namespace Dbss.Net.Link

open Dbss.Data Dbss.Util Dbss.Ssdb

/-! The `send` and `request` methods that take `Bytes`.  They never look at the
Redis link, so what the server sends does not change what they write. -/

/-- `send(const std::vector<Bytes> &)`, and `send(const Bytes &, ...)` for one to five. -/
def sendBytes (link : Link) (resp : List Bytes) : Int × Link :=
  (0, { link with output := sendRecords link.output resp })

/-- `request(const Bytes &, ...)` -/
def request (link : Link) (req : List Bytes) (host : Host) : Run (Call (Option (List Bytes))) :=
  let sent := link.sendBytes req
  if sent.1 = -1 then
    .done ⟨none, sent.2, host⟩
  else
    (sent.2.flush host).bind fun flushed =>
      if flushed.value = -1 then .done ⟨none, flushed.link, flushed.host⟩
      else flushed.link.response flushed.host

/-- A call of `request` in a run. -/
structure Asked where
  link : Link
  host : Host
  req : List Bytes

namespace Asked

def run (asked : Asked) : Run (Call (Option (List Bytes))) :=
  asked.link.request asked.req asked.host

/-- The link once the request is in its output. -/
def sent (asked : Asked) : Link :=
  (asked.link.sendBytes asked.req).2

/-- Memory does not run out while the call appends to the output. -/
def Allocates (asked : Asked) : Prop :=
  asked.sent.output.oom = false

instance (asked : Asked) : Decidable asked.Allocates :=
  inferInstanceAs (Decidable (_ = _))

end Asked

/-- The calls a program makes one after the other.  One that does not return is the last. -/
def requests (link : Link) (host : Host) : List (List Bytes) → List Asked
  | [] => []
  | req :: later =>
      ⟨link, host, req⟩ ::
        match link.request req host with
        | .done call => requests call.link call.host later
        | .waiting | .undefined => []

variable {link : Link} {host : Host} {req : List Bytes} {input : Buffer} {reads : List ReadOutcome} {noblock : Bool}
  {ret : Int} {rounds : Nat} {reqs sent : List (List Bytes)} {asked : Asked} {earlier later : List Asked}

/-! ### What a call leaves alone -/

/-- Receiving touches neither the output nor what has been written. -/
theorem responseLoop_keeps (sound : Sound link) {call : Call (Option (List Bytes))}
    (done : responseLoop rounds link host = .done call) :
    call.link.output = link.output ∧ call.host.accepted = host.accepted := by
  induction rounds generalizing link host with
  | zero => cases done
  | succ rounds ih =>
      have received := sound.recv host.errno
      have output := recv_output sound host.errno
      unfold responseLoop at done
      simp only at done
      split at done
      · cases done
        exact ⟨output, rfl⟩
      · obtain ⟨reading, happened, next⟩ := Run.bind_eq_done.mp done
        obtain ⟨_, _, same, fetched⟩ := read_fetched received.input happened
        have still : reading.link.output = link.output := by rw [same, ← output]
        have accepted : reading.host.accepted = host.accepted := fetched.accepted
        split at next
        · cases next
          exact ⟨still, accepted⟩
        · obtain ⟨left, written⟩ := ih (received.read happened) next
          exact ⟨left.trans still, written.trans accepted⟩
      · cases done
        exact ⟨output, rfl⟩

/-- What the socket has taken and what is still to be written, together. -/
def written (link : Link) (host : Host) : Bytes :=
  host.accepted ++ link.output.content

theorem Sound.sendBytes (sound : Sound link) (sendable : Sendable req) : Sound (link.sendBytes req).2 :=
  ⟨sound.input, (sendRecords_appends sound.output sendable).valid, sound.redis⟩

theorem sendBytes_written (sound : Sound link) (sendable : Sendable req)
    (alive : (link.sendBytes req).2.output.oom = false) (host : Host) :
    written (link.sendBytes req).2 host = written link host ++ encode req := by
  have added := (sendRecords_appends sound.output sendable).added alive
  rw [written, show (link.sendBytes req).2.output.content = _ from added, ← List.append_assoc]
  rfl

/-- However the call ends, it has written or will write its request, and no more. -/
theorem request_written (sound : Sound link) (sendable : Sendable req)
    (alive : (link.sendBytes req).2.output.oom = false) {call : Call (Option (List Bytes))}
    (done : link.request req host = .done call) :
    Sound call.link ∧ written call.link call.host = written link host ++ encode req := by
  have ready := sound.sendBytes sendable
  rw [← sendBytes_written sound sendable alive host]
  unfold request at done
  simp only at done
  split at done
  · cases done
    exact ⟨ready, rfl⟩
  · obtain ⟨flushed, happened, next⟩ := Run.bind_eq_done.mp done
    obtain ⟨drains, _⟩ := flush_drains ready.output happened
    have after := ready.flush happened
    split at next
    · cases next
      exact ⟨after, drains.whole⟩
    · obtain ⟨output, accepted⟩ := responseLoop_keeps after next
      exact ⟨responseLoop_sound after next, by rw [written, output, accepted]; exact drains.whole⟩

/-! ### Runs -/

theorem requests_written (sound : Sound link) (sendable : ∀ req ∈ reqs, Sendable req)
    (split : requests link host reqs = earlier ++ asked :: later)
    (alive : ∀ call ∈ earlier ++ [asked], call.Allocates) :
    written asked.sent asked.host = written link host ++ (reqs.take (earlier.length + 1)).flatMap encode ∧
      ∀ call, asked.run = .done call →
        written call.link call.host = written link host ++ (reqs.take (earlier.length + 1)).flatMap encode := by
  induction reqs generalizing link host earlier with
  | nil => simp [requests] at split
  | cons req reqs ih =>
      have first := sendable req (by simp)
      cases earlier with
      | nil =>
          rw [requests, List.nil_append, List.cons.injEq] at split
          obtain ⟨rfl, _⟩ := split
          have appending : Asked.Allocates ⟨link, host, req⟩ := alive _ (by simp)
          refine ⟨?_, fun call done => ?_⟩
          · simpa [Asked.sent] using sendBytes_written sound first appending host
          · simpa using (request_written sound first appending done).2
      | cons before earlier =>
          rw [requests, List.cons_append, List.cons.injEq] at split
          obtain ⟨rfl, split⟩ := split
          have appending : Asked.Allocates ⟨link, host, req⟩ := alive _ (by simp)
          split at split
          · next call done =>
              obtain ⟨after, wrote⟩ := request_written sound first appending done
              have rest := ih after (fun req member => sendable req (by simp [member])) split
                fun call member => alive call (by simp [member])
              simpa [wrote, List.append_assoc] using rest
          · simp at split
          · simp at split

/-- Over any run of `Link::request` on a fresh connection, whatever the server
sends and however the calls end: what the socket has taken and what is still to
be written are the SSDB encodings of the requests made so far, in order. -/
theorem requests_on_wire (inputBlock outputBlock : Block) (inputReallocs outputReallocs : List Bool)
    (fresh : host.accepted = []) (sendable : ∀ req ∈ reqs, Sendable req)
    (split : requests (.new inputBlock outputBlock inputReallocs outputReallocs) host reqs = earlier ++ asked :: later)
    (alive : ∀ call ∈ earlier ++ [asked], call.Allocates) :
    written asked.sent asked.host = (reqs.take (earlier.length + 1)).flatMap encode ∧
      ∀ call, asked.run = .done call →
        written call.link call.host = (reqs.take (earlier.length + 1)).flatMap encode := by
  have sound := connected_sound inputBlock outputBlock inputReallocs outputReallocs
  have nothing : written (.new inputBlock outputBlock inputReallocs outputReallocs) host = [] := by
    rw [written, fresh]
    rfl
  simpa [nothing] using requests_written sound sendable split alive

/-- The server answers with a Redis request. -/
def redisServer : Host :=
  { Host.sending (ascii "*1\r\n$1\r\nx\r\n") [.deliver 100, .deliver 100] with
    writes := [.accept 100, .fail .eintr, .accept 2, .accept 100] }

theorem requests_on_wire_redis : ∃ first second,
    requests (.new (fun _ => 0) (fun _ => 0) [] []) redisServer [[ascii "get", ascii "a"], [ascii "get", ascii "b"]] =
        [first, second] ∧
      second.link.redis ≠ none ∧
      written second.sent second.host = encode [ascii "get", ascii "a"] ++ encode [ascii "get", ascii "b"] := by
  have ran : (requests (.new (fun _ => 0) (fun _ => 0) [] []) redisServer
      [[ascii "get", ascii "a"], [ascii "get", ascii "b"]]).map (fun call =>
        (decide call.Allocates, call.link.redis.isSome)) = [(true, false), (true, true)] := by decide +kernel
  obtain ⟨first, rest, same, one, others⟩ := List.map_eq_cons_iff.mp ran
  obtain ⟨second, none, rfl, two, nothing⟩ := List.map_eq_cons_iff.mp others
  cases List.map_eq_nil_iff.mp nothing
  simp only [Prod.mk.injEq, decide_eq_true_eq] at one two
  refine ⟨first, second, same, ?_, ?_⟩
  · intro absent
    simp [absent] at two
  · have wire := requests_on_wire _ _ _ _ (show redisServer.accepted = [] from rfl) (by simp [Sendable, ascii])
      (show _ = [first] ++ second :: [] from same) (by simp [one.1, two.1])
    simpa using wire.1

end Dbss.Net.Link
