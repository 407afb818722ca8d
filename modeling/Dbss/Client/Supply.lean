import Dbss.Client.Pairing
import Dbss.Net.Link.Operations

namespace Dbss

open Dbss.Data Dbss.Util Dbss.Ssdb Dbss.Net Dbss.Net.Link

/-! Calls of `request` that come back: the socket neither fails nor runs dry. -/

variable {server : Server} {sent taken later : List (List Bytes)} {req : List Bytes} {client : ClientImpl}
  {link link' : Link} {host host' : Host}

/-- No call of `read` or `write` fails, apart from those that are tried again,
and over the whole of `requests` as many of them deliver or accept a byte as
there are bytes of answers and of requests. -/
structure Net.Host.Supports (host : Host) (server : Server) (requests : List (List Bytes)) : Prop where
  readsPass : ∀ outcome ∈ host.reads, outcome.Passes
  writesPass : ∀ outcome ∈ host.writes, outcome.Passes
  reads : ((framing maxPacketSize).stream (server.answers requests)).length ≤
    host.delivered + host.reads.countP ReadOutcome.delivers
  writes : ((framing server.limit).stream requests).length ≤
    host.accepted.length + host.writes.countP WriteOutcome.accepts

/-- Requests that the server takes and that are no longer than a packet. -/
def Server.Accepts (server : Server) (req : List Bytes) : Prop :=
  (encode req).length ≤ server.limit ∧ (encode req).length ≤ maxPacketSize

instance (server : Server) (req : List Bytes) : Decidable (server.Accepts req) :=
  inferInstanceAs (Decidable ((encode req).length ≤ server.limit ∧ (encode req).length ≤ maxPacketSize))

/-- All requests have left and all answers have been returned, and there is room for the next request. -/
structure Settled (server : Server) (sent : List (List Bytes)) (link : Link) (host : Host) : Prop
    extends Engaged server sent (server.answers sent) link host where
  roomy : link.output.Roomy
  empty : link.output.content = []

namespace Net.Host.Supports

variable {requests : List (List Bytes)}

theorem errno (supports : host.Supports server requests) (errno : Errno) :
    Host.Supports { host with errno } server requests :=
  ⟨supports.readsPass, supports.writesPass, supports.reads, supports.writes⟩

theorem response (supports : host.Supports server requests) (frame : Frame link host link' host') :
    host'.Supports server requests where
  readsPass := fun outcome member => supports.readsPass outcome (frame.reads.subset member)
  writesPass := by
    rw [frame.writes]
    exact supports.writesPass
  reads := supports.reads.trans frame.supply
  writes := by
    rw [frame.writes, frame.accepted]
    exact supports.writes

/-- The socket takes what has been put on the output. -/
theorem enough_writes (supports : host.Supports server (sent ++ later))
    (engaged : Engaged server sent taken link host) :
    link.output.content.length ≤ host.writes.countP WriteOutcome.accepts := by
  have written := congrArg List.length engaged.written
  have bound := supports.writes
  rw [Framing.stream_append] at bound
  simp only [List.length_append] at written bound
  omega

/-- The socket delivers the answers to what has left. -/
theorem enough_reads (supports : host.Supports server (sent ++ later)) (engaged : Engaged server sent taken link host)
    (received : server.received host.accepted = sent) :
    host.inflight.length ≤ host.reads.countP ReadOutcome.delivers := by
  have bound := supports.reads
  rw [Server.answers_append, Framing.stream_append, List.length_append] at bound
  rw [Host.inflight, List.length_drop, engaged.peer, Server.peer, received]
  omega

end Net.Host.Supports

theorem Engaged.received (engaged : Engaged server sent taken link host)
    (legal : ∀ request ∈ sent, (framing server.limit).Legal request) (empty : link.output.content = []) :
    server.received host.accepted = sent := by
  have received := server.receives legal (.inl rfl)
  rwa [List.append_nil, ← engaged.written, empty, List.append_nil] at received

/-- When all answers have been returned, an undisturbed call returns the next one. -/
theorem Engaged.answered {client : ClientImpl} {req : List Bytes}
    (engaged : Engaged server sent (server.answers sent) link host) (installed : client.link = some link)
    (legal : ∀ request ∈ sent, (framing server.limit).Legal request) (nonempty : req ≠ []) (takes : server.Takes req)
    (alive : Made.Allocates ⟨client, host, req⟩) (undisturbed : Made.undisturbed ⟨client, host, req⟩ = true) :
    ∃ call after, client.request req host = .done call ∧ call.value = some (server.answer sent req) ∧
      call.client.link = some after ∧
      Engaged server (sent ++ [req]) (server.answers (sent ++ [req])) after call.host := by
  have single : [req].filter (· ≠ []) = [req] := by simp [nonempty]
  have all : ∀ request ∈ sent ++ [req], (framing server.limit).Legal request := by
    refine List.forall_mem_append.mpr ⟨legal, ?_⟩
    simpa using ⟨nonempty, takes.1⟩
  cases done : client.request req host with
  | waiting => simp [Made.undisturbed, Made.run, done] at undisturbed
  | undefined => simp [Made.undisturbed, Made.run, done] at undisturbed
  | done call =>
      obtain ⟨after, link, engaged, empty, told⟩ := engaged.request installed (by rwa [single]) takes.2 alive done
      obtain ⟨packet, value⟩ := Option.ne_none_iff_exists'.mp (told.mpr undisturbed)
      rw [single, value] at engaged
      -- the whole request has left, so the server has it and has answered it
      have received := engaged.received all (empty (by simp [value]))
      obtain ⟨left, answers, _⟩ := engaged.arriving
      rw [received, Server.answers_append, List.append_assoc] at answers
      obtain ⟨rfl, _⟩ := List.cons.inj (List.append_cancel_left answers)
      refine ⟨call, after, rfl, value, link, ?_⟩
      rwa [Server.answers_append]

/-- Once its request has been put on the output, a call comes back and leaves
the output as it found it. -/
theorem Engaged.returns (engaged : Engaged server (sent ++ [req]) (server.answers sent) link host)
    (granted : link.output.Granted) (alive : link.output.oom = false) (occupied : link.output.content ≠ [])
    (legal : ∀ request ∈ sent ++ [req], (framing server.limit).Legal request)
    (supports : host.Supports server (sent ++ [req] ++ later)) :
    ∃ flushed answered, link.flush host = .done flushed ∧ flushed.value ≠ -1 ∧
      flushed.link.response flushed.host = .done answered ∧ answered.link.output.Roomy ∧
      answered.link.output.content = [] ∧ answered.host.Supports server (sent ++ [req] ++ later) := by
  obtain ⟨flushed, happened, passed, supply⟩ :=
    flush_returns engaged.output engaged.blocking supports.writesPass (supports.enough_writes engaged)
  obtain ⟨drains, spent, drained⟩ := flush_drains engaged.output happened
  have flushing := engaged.drains legal drains
  have empty := drained passed
  have still : flushed.host.Supports server (sent ++ [req] ++ later) :=
    ⟨by rw [drains.reads]; exact supports.readsPass,
      fun outcome member => supports.writesPass outcome (spent.suffix.subset member),
      by rw [drains.reads, drains.delivered]; exact supports.reads, supports.writes.trans supply⟩
  have received := flushing.received legal empty
  -- the answer to this request is still to come
  obtain ⟨left, answers, stream⟩ := flushing.arriving
  rw [received, Server.answers_append] at answers
  have due := List.append_cancel_left answers
  have packets : ∀ packet ∈ left, (framing maxPacketSize).Legal packet := by
    rw [← due]
    exact server.answersAfter_legal sent [req]
  obtain ⟨answered, came, _⟩ := responseLoop_arrives flushing.receiving flushing.blocking packets
    (by rw [← due]; exact nofun) stream still.readsPass (still.enough_reads flushing received) (Nat.lt_succ_self _)
  obtain ⟨_, frame, _⟩ := flushing.response came
  refine ⟨flushed, answered, happened, passed, came, ?_, ?_, still.response frame⟩
  · rw [frame.output]
    exact flush_roomy granted alive occupied happened passed
  · rw [frame.output, empty]

theorem undisturbed_of_passes (supports : host.Supports server (sent ++ later)) {call : ClientCall}
    (done : client.request req host = .done call) : Made.undisturbed ⟨client, host, req⟩ = true := by
  have before {ε : Type} (early late : List ε) : ∀ outcome ∈ used early late, outcome ∈ early :=
    fun outcome member => List.mem_of_mem_take member
  simp only [Made.undisturbed, Made.run, done, Bool.and_eq_true, List.all_eq_true, decide_eq_true_eq]
  exact ⟨fun outcome member => supports.readsPass outcome (before _ _ outcome member),
    fun outcome member => supports.writesPass outcome (before _ _ outcome member)⟩

/-- The request of a call on a settled connection is put on the output. -/
theorem Settled.sends (settled : Settled server sent link host) (legal : (framing maxPacketSize).Legal req) :
    ∃ output, link.send req = some (0, { link with output }) ∧ output.oom = false ∧ output.Granted ∧
      output.content ≠ [] ∧ Engaged server (sent ++ [req]) (server.answers sent) { link with output } host := by
  have sendable := sendable_of_fits legal.2
  obtain ⟨output, sends, alive⟩ := send_alive link settled.roomy settled.plain settled.empty legal
  obtain rfl : sendRecords link.output req = output := by
    have plain := send_ssdb settled.plain legal.1
    rw [sends] at plain
    cases plain
    rfl
  have added := (sendRecords_appends settled.output sendable).added alive
  rw [settled.empty, List.nil_append] at added
  obtain ⟨after, same, sending⟩ := settled.toEngaged.send sendable (by simpa [sends] using alive)
  rw [sends] at same
  cases same
  refine ⟨_, sends, alive, (sendRecords_leads link.output sendable).granted settled.roomy.granted, ?_, ?_⟩
  · rw [added]
    exact (framing maxPacketSize).encode_ne_nil legal
  · simpa [legal.1] using sending

/-- A call on a settled connection comes back with the answer, and settles it again. -/
theorem Settled.request (settled : Settled server sent link host) (installed : client.link = some link)
    (legal : ∀ request ∈ sent ++ [req], (framing server.limit).Legal request)
    (short : (encode req).length ≤ maxPacketSize) (supports : host.Supports server (sent ++ [req] ++ later)) :
    ∃ call after, client.request req host = .done call ∧ call.value = some (server.answer sent req) ∧
      call.client.link = some after ∧ Settled server (sent ++ [req]) after call.host ∧
      call.host.Supports server (sent ++ [req] ++ later) := by
  have last := legal req (by simp)
  obtain ⟨output, sends, alive, granted, occupied, sending⟩ := settled.sends ⟨last.1, short⟩
  obtain ⟨flushed, answered, happened, passed, came, roomy, empty, still⟩ :=
    sending.returns granted alive occupied legal supports
  have called : ∃ call, client.request req host = .done call ∧ call.client.link = some answered.link ∧
      call.host = answered.host := by
    rw [ClientImpl.request, installed]
    simp only [sends, happened, Run.bind_done, if_neg passed, came]
    rw [if_neg (by decide)]
    cases answered.value with
    | none => exact ⟨_, rfl, rfl, rfl⟩
    | some packet => exact ⟨_, rfl, rfl, rfl⟩
  obtain ⟨call, done, after, same⟩ := called
  have allocates : Made.Allocates ⟨client, host, req⟩ := fun other here => by
    cases installed.symm.trans here
    simpa [sends] using alive
  obtain ⟨again, link', finished, value, kept, engaged⟩ := settled.toEngaged.answered installed
    (fun request member => legal request (by simp [member])) last.1 ⟨last.2, sendable_of_fits short⟩ allocates
    (undisturbed_of_passes supports done)
  cases done.symm.trans finished
  cases after.symm.trans kept
  exact ⟨call, answered.link, done, value, after, ⟨engaged, roomy, empty⟩, same ▸ still⟩

theorem connected_settled (server : Server) (inputBlock outputBlock : Block) {inputReallocs outputReallocs : List Bool}
    (inputGranted : ∀ granted ∈ inputReallocs, granted = true)
    (outputGranted : ∀ granted ∈ outputReallocs, granted = true)
    (peer : host.peer = server.peer) (accepted : host.accepted = []) (delivered : host.delivered = 0) :
    Settled server [] (.new inputBlock outputBlock inputReallocs outputReallocs) host :=
  ⟨connected_engaged server inputBlock outputBlock outputReallocs inputGranted peer accepted delivered,
    Buffer.new_roomy outputBlock outputGranted, rfl⟩

end Dbss
