import Dbss.Client
import Dbss.Client.Server
import Dbss.Net.Link.Flush
import Dbss.Net.Link.Response

namespace Dbss

open Dbss.Data Dbss.Util Dbss.Ssdb Dbss.Net Dbss.Net.Link

/-! Which answer a call of `request` takes for its own. -/

variable {server : Server} {sent taken requests : List (List Bytes)} {req : List Bytes}
  {client : ClientImpl} {link link' : Link} {host host' : Host} {made : Made} {earlier later : List Made}

/-- The state between a client and its server: the requests sent are partly
with the server and partly in the output, and of the answers so far `taken` have
been returned and the others are on their way. -/
structure Engaged (server : Server) (sent taken : List (List Bytes)) (link : Link) (host : Host) : Prop where
  blocking : link.noblock = false
  plain : link.redis = none
  receiving : Receiving link.input
  output : link.output.WellFormed
  peer : host.peer = server.peer
  delivered : host.delivered ≤ (host.peer host.accepted).length
  written : host.accepted ++ link.output.content = (framing server.limit).stream sent
  arriving : ∃ left, server.answers (server.received host.accepted) = taken ++ left ∧
    link.input.content ++ host.inflight = (framing maxPacketSize).stream left

/-! ### The parts of a call -/

theorem Engaged.send (engaged : Engaged server sent taken link host) (sendable : Sendable req)
    (alive : ∀ result ∈ link.send req, result.2.output.oom = false) :
    ∃ after, link.send req = some (0, after) ∧
      Engaged server (sent ++ [req].filter (· ≠ [])) taken after host := by
  by_cases empty : req = []
  · exact ⟨link, by rw [Link.send, if_pos empty], by simpa [empty] using engaged⟩
  have sends := send_ssdb engaged.plain empty
  have appends := sendRecords_appends engaged.output sendable
  refine ⟨_, sends, engaged.blocking, engaged.plain, engaged.receiving, appends.valid, engaged.peer,
    engaged.delivered, ?_, engaged.arriving⟩
  rw [appends.added (alive _ sends), ← List.append_assoc, engaged.written, Framing.stream_append]
  simp [empty, framing]

theorem Engaged.drains (engaged : Engaged server sent taken link host)
    (legal : ∀ request ∈ sent, (framing server.limit).Legal request)
    (drains : Drains link host link' host') : Engaged server sent taken link' host' := by
  obtain ⟨extra, accepted⟩ := drains.progress
  have whole := drains.whole.trans engaged.written
  obtain ⟨left, answers, stream⟩ := engaged.arriving
  obtain ⟨more, received⟩ := server.received_grows legal
    (show host.accepted ++ (extra ++ link'.output.content) = _ by rw [← List.append_assoc, accepted, whole])
  have delivered := engaged.delivered
  -- the server has only sent more
  have longer : host'.peer host'.accepted = host.peer host.accepted ++
      (framing maxPacketSize).stream (server.answersAfter (server.received host.accepted) more) := by
    rw [drains.peer, engaged.peer, ← accepted, Server.peer, received, Server.answers_append,
      Framing.stream_append]
    rfl
  refine ⟨drains.noblock.trans engaged.blocking, drains.redis.trans engaged.plain, ?_, drains.valid,
    drains.peer.trans engaged.peer, ?_, whole, left ++ server.answersAfter (server.received host.accepted) more, ?_, ?_⟩
  · rw [drains.input]
    exact engaged.receiving
  · rw [longer, drains.delivered, List.length_append]
    omega
  · rw [← accepted, received, Server.answers_append, answers, List.append_assoc]
  · have inflight : host'.inflight = host.inflight ++
        (framing maxPacketSize).stream (server.answersAfter (server.received host.accepted) more) := by
      rw [Host.inflight, longer, drains.delivered, List.drop_append_of_le_length delivered]
      rfl
    rw [drains.input, inflight, ← List.append_assoc, stream, Framing.stream_append]

theorem Engaged.response (engaged : Engaged server sent taken link host)
    {call : Call (Option (List Bytes))} (done : link.response host = .done call) :
    Engaged server sent (taken ++ call.value.toList) call.link call.host ∧ Frame link host call.link call.host ∧
      Spent ReadOutcome.Passes host.reads call.host.reads (call.value ≠ none) := by
  obtain ⟨left, answers, stream⟩ := engaged.arriving
  have legal : ∀ packet ∈ left, (framing maxPacketSize).Legal packet := fun packet member =>
    server.answersAfter_legal [] (server.received host.accepted) packet
      (by rw [show server.answersAfter [] _ = _ from answers]; exact List.mem_append_right _ member)
  obtain ⟨frame, ready, spent, rest, front, remains⟩ :=
    responseLoop_done engaged.receiving engaged.blocking legal stream done
  refine ⟨⟨frame.noblock.trans engaged.blocking, frame.redis.trans engaged.plain, ready, ?_,
    frame.peer.trans engaged.peer, frame.delivered engaged.delivered, ?_, rest, ?_, remains⟩, frame, spent⟩
  · rw [frame.output]
    exact engaged.output
  · rw [frame.accepted, frame.output]
    exact engaged.written
  · rw [frame.accepted, answers, front, List.append_assoc]

/-! ### A whole call -/

/-- What the call returned, if it did and it was not NULL. -/
def Made.value (made : Made) : Option (List Bytes) :=
  match made.run with
  | .done call => call.value
  | .waiting | .undefined => none

/-- The call came back, and every `read` and `write` it made handed bytes over
or was simply tried again. -/
def Made.undisturbed (made : Made) : Bool :=
  match made.run with
  | .done call =>
      (used made.host.reads call.host.reads).all (fun outcome => decide outcome.Passes) &&
        (used made.host.writes call.host.writes).all (fun outcome => decide outcome.Passes)
  | .waiting | .undefined => false

/-- A call that comes back has taken the next answer, unless it was disturbed. -/
theorem Engaged.request (engaged : Engaged server sent taken link host)
    (installed : client.link = some link)
    (legal : ∀ request ∈ sent ++ [req].filter (· ≠ []), (framing server.limit).Legal request)
    (sendable : Sendable req) (alive : Made.Allocates ⟨client, host, req⟩) {call : ClientCall}
    (done : client.request req host = .done call) :
    ∃ after, call.client.link = some after ∧
      Engaged server (sent ++ [req].filter (· ≠ [])) (taken ++ call.value.toList) after call.host ∧
      (call.value ≠ none → after.output.content = []) ∧
      (call.value ≠ none ↔ Made.undisturbed ⟨client, host, req⟩ = true) := by
  have told : Made.undisturbed ⟨client, host, req⟩ = true ↔
      (∀ outcome ∈ used host.reads call.host.reads, outcome.Passes) ∧
        ∀ outcome ∈ used host.writes call.host.writes, outcome.Passes := by
    simp [Made.undisturbed, Made.run, done]
  rw [told]
  obtain ⟨after, sends, sending⟩ := engaged.send sendable (alive link installed)
  rw [ClientImpl.request, installed] at done
  simp only [sends] at done
  rw [if_neg (by decide)] at done
  obtain ⟨flushed, happened, next⟩ := Run.bind_eq_done.mp done
  obtain ⟨drains, spent, empty⟩ := flush_drains sending.output happened
  have flushing := sending.drains legal drains
  split at next
  · next failed =>
      cases next
      refine ⟨_, rfl, by simpa using flushing, by simp, ?_⟩
      rw [← spent.iff_used]
      simp [failed]
  · next passed =>
      obtain ⟨answered, came, last⟩ := Run.bind_eq_done.mp next
      obtain ⟨answering, frame, reading⟩ := flushing.response came
      have all : answered.value ≠ none ↔
          (∀ outcome ∈ used host.reads answered.host.reads, outcome.Passes) ∧
            ∀ outcome ∈ used host.writes answered.host.writes, outcome.Passes := by
        rw [frame.writes, ← spent.iff_used, ← drains.reads, ← reading.iff_used]
        simp [passed]
      have sentAll := empty passed
      rw [← frame.output] at sentAll
      split at last <;> cases last
      · next none => exact ⟨_, rfl, by simpa [none] using answering, by simp, by simpa [none] using all⟩
      · next packet some =>
          exact ⟨_, rfl, by simpa [some] using answering, fun _ => sentAll, by simpa [some] using all⟩

/-! ### Whole runs -/

/-- The requests that a run of calls hands to the server: an empty vector is not sent. -/
def sentBy (calls : List Made) : List (List Bytes) :=
  (calls.map Made.req).filter (· ≠ [])

/-- Requests that the server takes, with elements that `append_record` can write. -/
def Server.Takes (server : Server) (req : List Bytes) : Prop :=
  (encode req).length ≤ server.limit ∧ Sendable req

theorem sentBy_cons (call : Made) (calls : List Made) :
    sentBy (call :: calls) = [call.req].filter (· ≠ []) ++ sentBy calls := by
  rw [sentBy, List.map_cons, ← List.singleton_append, List.filter_append]
  rfl

theorem responses_cons (call : Made) (calls : List Made) :
    (call :: calls).filterMap Made.value = call.value.toList ++ calls.filterMap Made.value := by
  cases value : call.value <;> simp [value]

/-- Before every call of a run, the responses returned are the first answers,
one for each call that was not disturbed. -/
theorem converse_engaged (split : converse client host requests = earlier ++ made :: later)
    (engaged : Engaged server sent taken link host) (installed : client.link = some link)
    (legal : ∀ request ∈ sent, (framing server.limit).Legal request)
    (takes : ∀ req ∈ requests, server.Takes req)
    (alive : ∀ made ∈ converse client host requests, made.Allocates) :
    (∀ request ∈ sent ++ sentBy (earlier ++ [made]), (framing server.limit).Legal request) ∧
      Sendable made.req ∧
      (∀ call ∈ earlier, call.value ≠ none ↔ call.undisturbed = true) ∧
      ∃ link, made.client.link = some link ∧
        Engaged server (sent ++ sentBy earlier) (taken ++ earlier.filterMap Made.value) link made.host := by
  induction requests generalizing client host sent taken link earlier with
  | nil => simp [converse] at split
  | cons req others ih =>
      have first := takes req (by simp)
      have legal : ∀ request ∈ sent ++ [req].filter (· ≠ []), (framing server.limit).Legal request := by
        refine List.forall_mem_append.mpr ⟨legal, fun request member => ?_⟩
        simp only [List.mem_filter, List.mem_singleton, decide_eq_true_eq] at member
        obtain ⟨rfl, nonempty⟩ := member
        exact ⟨nonempty, first.1⟩
      cases earlier with
      | nil =>
          rw [converse, List.nil_append, List.cons.injEq] at split
          obtain ⟨rfl, _⟩ := split
          exact ⟨legal, first.2, by simp, link, installed, by simpa [sentBy] using engaged⟩
      | cons call earlier =>
          rw [converse, List.cons_append, List.cons.injEq] at split
          obtain ⟨rfl, split⟩ := split
          rw [converse, List.forall_mem_cons] at alive
          cases done : client.request req host with
          | waiting => simp [done] at split
          | undefined => simp [done] at split
          | done result =>
              obtain ⟨after, installed, engaged, _, told⟩ :=
                engaged.request installed legal first.2 alive.1 done
              have value : Made.value ⟨client, host, req⟩ = result.value := by
                simp [Made.value, Made.run, done]
              rw [done] at split alive
              obtain ⟨legal, sendable, undisturbed, link, here, engaged⟩ := ih split engaged installed legal
                (fun other member => takes other (by simp [member])) alive.2
              rw [List.cons_append, sentBy_cons, sentBy_cons, responses_cons, value, ← List.append_assoc,
                ← List.append_assoc, ← List.append_assoc]
              exact ⟨legal, sendable, List.forall_mem_cons.mpr ⟨by rwa [value], undisturbed⟩, link, here, engaged⟩

theorem connected_engaged (server : Server) (inputBlock outputBlock : Block) {inputReallocs : List Bool}
    (outputReallocs : List Bool) (allocates : ∀ granted ∈ inputReallocs, granted = true)
    (peer : host.peer = server.peer) (accepted : host.accepted = []) (delivered : host.delivered = 0) :
    Engaged server [] [] (.new inputBlock outputBlock inputReallocs outputReallocs) host := by
  have nothing : server.received [] = [] := server.receives (List.forall_mem_nil _) (.inl rfl)
  refine ⟨rfl, rfl, new_receiving allocates, Buffer.new_wellFormed (by decide) (by decide), peer,
    by omega, by rw [accepted]; rfl, [], by rw [accepted, nothing]; rfl, ?_⟩
  rw [Host.inflight, peer, accepted, Server.peer, nothing, delivered]
  rfl

theorem due_iff {before responses left : List (List Bytes)} {answer packet : List Bytes}
    (all : before ++ [answer] = responses ++ [packet] ++ left) :
    packet = answer ↔ responses.length = before.length ∨ before[responses.length]? = some answer := by
  have here : (before ++ [answer])[responses.length]? = some packet := by simp [all]
  have inside := (List.getElem?_eq_some_iff.mp here).1
  rw [List.length_append, List.length_singleton] at inside
  by_cases last : responses.length = before.length
  · rw [last, List.getElem?_append_right (Nat.le_refl _), Nat.sub_self] at here
    exact iff_of_true (Option.some.inj here).symm (.inl last)
  · rw [List.getElem?_append_left (by omega)] at here
    simp [last, here]

/-- A call that returns a response returns the answer to its own request exactly
when as many of the calls before it went undisturbed as sent a request, or the
answer that was due instead happens to be the same. -/
theorem response_answers_iff (server : Server) (inputBlock outputBlock : Block)
    {inputReallocs : List Bool} (outputReallocs : List Bool)
    (allocates : ∀ granted ∈ inputReallocs, granted = true)
    (peer : host.peer = server.peer) (accepted : host.accepted = []) (delivered : host.delivered = 0)
    (takes : ∀ req ∈ requests, server.Takes req)
    (split : converse (.connected inputBlock outputBlock inputReallocs outputReallocs) host requests =
      earlier ++ made :: later)
    (alive : ∀ made ∈ converse (.connected inputBlock outputBlock inputReallocs outputReallocs) host requests,
      made.Allocates)
    (nonempty : made.req ≠ []) {packet : List Bytes} (returned : made.value = some packet) :
    packet = server.answer (sentBy earlier) made.req ↔
      earlier.countP Made.undisturbed = (sentBy earlier).length ∨
        (server.answers (sentBy earlier))[earlier.countP Made.undisturbed]? =
          some (server.answer (sentBy earlier) made.req) := by
  obtain ⟨legal, sendable, told, link, installed, engaged⟩ := converse_engaged split
    (connected_engaged server inputBlock outputBlock outputReallocs allocates peer accepted delivered) rfl
    (List.forall_mem_nil _) takes alive
  have last : sentBy (earlier ++ [made]) = sentBy earlier ++ [made.req] := by simp [sentBy, nonempty]
  rw [last] at legal
  have counted : earlier.countP Made.undisturbed = (earlier.filterMap Made.value).length := by
    rw [List.length_filterMap_eq_countP]
    refine List.countP_congr fun call member => ?_
    rw [← told call member, Option.isSome_iff_ne_none]
  cases done : made.run with
  | waiting => simp [Made.value, done] at returned
  | undefined => simp [Made.value, done] at returned
  | done call =>
      have value : call.value = some packet := by simpa [Made.value, done] using returned
      have single : [made.req].filter (· ≠ []) = [made.req] := by simp [nonempty]
      obtain ⟨after, _, engaged, empty, _⟩ := engaged.request installed (by rwa [single]) sendable
        (alive made (by rw [split]; simp)) done
      obtain ⟨left, answers, _⟩ := engaged.arriving
      have written := engaged.written
      rw [empty (by simp [value]), List.append_nil, single, List.nil_append] at written
      rw [List.nil_append] at legal
      have received := server.receives legal (.inl rfl)
      rw [List.append_nil, ← written] at received
      rw [received, Server.answers_append, value] at answers
      rw [counted, ← server.answersAfter_length [] (sentBy earlier)]
      exact due_iff answers

/-- Two calls on a fresh connection to the server that sends every request back. -/
def echoHost (reads : List ReadOutcome) : Host :=
  { errno := .success, peer := Server.echo.peer, accepted := [], delivered := 0, reads
    writes := [.accept 100, .accept 100], asked := [] }

def echoCalls (reads : List ReadOutcome) : List Made :=
  converse (.connected (fun _ => 0) (fun _ => 0) [] []) (echoHost reads) [[ascii "a"], [ascii "b"]]

theorem echo_takes : ∀ req ∈ [[ascii "a"], [ascii "b"]], Server.echo.Takes req := by
  intro req member
  rcases List.mem_pair.mp member with rfl | rfl <;>
    exact ⟨by decide, by simp [Sendable, ascii]⟩

theorem two_calls {calls : List Made} {value : Option (List Bytes)} {early late : List Bytes}
    (values : calls.map Made.req = [early, late]) (last : calls.getLast?.bind Made.value = value) :
    ∃ first second, calls = [first] ++ second :: [] ∧ first.req = early ∧ second.req = late ∧
      second.value = value := by
  obtain ⟨first, others, rfl, same, rest⟩ := List.map_eq_cons_iff.mp values
  obtain ⟨second, rfl, also⟩ := List.map_eq_singleton_iff.mp rest
  exact ⟨first, second, rfl, same, also, by simpa using last⟩

theorem response_answers_iff_echo :
    ∃ first second, echoCalls [.deliver 100, .deliver 100] = [first] ++ second :: [] ∧
      second.value = some [ascii "b"] ∧
      ([ascii "b"] = Server.echo.answer (sentBy [first]) second.req ↔
        [first].countP Made.undisturbed = (sentBy [first]).length ∨
          (Server.echo.answers (sentBy [first]))[[first].countP Made.undisturbed]? =
            some (Server.echo.answer (sentBy [first]) second.req)) := by
  obtain ⟨first, second, split, _, request, value⟩ :=
    @two_calls (echoCalls [.deliver 100, .deliver 100]) (some [ascii "b"]) [ascii "a"] [ascii "b"]
      (by decide +kernel) (by decide +kernel)
  exact ⟨first, second, split, value, response_answers_iff Server.echo _ _ _ (List.forall_mem_nil _)
    rfl rfl rfl echo_takes split (by decide +kernel) (by rw [request]; decide) value⟩

/-- A read that fails once leaves an answer behind, and the next call takes it for its own. -/
theorem not_response_answers :
    ¬ ∀ (server : Server) (host : Host) (requests : List (List Bytes)) (earlier later : List Made)
      (made : Made) (packet : List Bytes),
      host.peer = server.peer → host.accepted = [] → host.delivered = 0 →
      (∀ req ∈ requests, server.Takes req) →
      converse (.connected (fun _ => 0) (fun _ => 0) [] []) host requests = earlier ++ made :: later →
      (∀ made ∈ converse (.connected (fun _ => 0) (fun _ => 0) [] []) host requests, made.Allocates) →
      made.req ≠ [] → made.value = some packet →
      packet = server.answer (sentBy earlier) made.req := by
  intro paired
  obtain ⟨first, second, split, early, late, value⟩ :=
    @two_calls (echoCalls [.fail (.other 105), .deliver 100]) (some [ascii "a"]) [ascii "a"] [ascii "b"]
      (by decide +kernel) (by decide +kernel)
  have taken := paired Server.echo _ _ _ _ _ _ rfl rfl rfl echo_takes split (by decide +kernel)
    (by rw [late]; decide) value
  rw [late, Server.echo_answer ⟨by decide, by decide⟩] at taken
  exact absurd taken (by decide)

end Dbss
