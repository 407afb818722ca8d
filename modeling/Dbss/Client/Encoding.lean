import Dbss.Client
import Dbss.Net.Link.Invariant

namespace Dbss

open Dbss.Data Dbss.Util Dbss.Ssdb Dbss.Net Dbss.Net.Link

/-! What a client puts on the wire depends on what its server has sent. -/

variable {client : ClientImpl} {host : Host} {link : Link} {req : List Bytes}
  {requests : List (List Bytes)} {made : Made}

/-- The call appends the SSDB encoding of its request to the output, and nothing else. -/
def Made.Encodes (made : Made) : Prop :=
  ∃ link ret sent, made.client.link = some link ∧ link.send made.req = some (ret, sent) ∧
    sent.output.content = link.output.content ++ encode made.req

/-- No `recv` on this client has met a content that starts with `*`. -/
def Made.Plain (made : Made) : Prop :=
  ∀ link ∈ made.client.link, link.redis = none

instance (made : Made) : Decidable made.Plain :=
  inferInstanceAs (Decidable (∀ link ∈ made.client.link, link.redis = none))

theorem connected_sound (inputBlock outputBlock : Block) (inputReallocs outputReallocs : List Bool) :
    Sound (.new inputBlock outputBlock inputReallocs outputReallocs) :=
  ⟨Buffer.new_wellFormed (by decide) (by decide), Buffer.new_wellFormed (by decide) (by decide),
    by simp [Link.new]⟩

theorem request_sound (installed : client.link = some link) (sound : Sound link) (nonempty : req ≠ [])
    (fits : Fits req) {call : ClientCall} (done : client.request req host = .done call) :
    ∃ after, call.client.link = some after ∧ Sound after := by
  rw [ClientImpl.request, installed] at done
  simp only at done
  split at done
  · cases done
  · next ret sent sends =>
      have sound := sound.send nonempty fits sends
      split at done
      · cases done
        exact ⟨sent, rfl, sound⟩
      · obtain ⟨flushed, happened, next⟩ := Run.bind_eq_done.mp done
        have sound := sound.flush happened
        split at next
        · cases next
          exact ⟨_, rfl, sound⟩
        · obtain ⟨answered, happened, last⟩ := Run.bind_eq_done.mp next
          have sound := responseLoop_sound sound happened
          split at last <;> cases last <;> exact ⟨_, rfl, sound⟩

/-- Every call of a run is made on a sound link. -/
theorem converse_sound (installed : client.link = some link) (sound : Sound link)
    (legal : ∀ req ∈ requests, req ≠ [] ∧ Fits req) :
    ∀ made ∈ converse client host requests, made.req ∈ requests ∧
      ∃ link, made.client.link = some link ∧ Sound link := by
  induction requests generalizing client host link with
  | nil => simp [converse]
  | cons req later ih =>
      have first := legal req (by simp)
      intro made member
      rcases List.mem_cons.mp member with rfl | member
      · exact ⟨by simp, link, installed, sound⟩
      · split at member
        · next call done =>
            obtain ⟨after, still, soundAfter⟩ := request_sound installed sound first.1 first.2 done
            obtain ⟨request, rest⟩ := ih still soundAfter (fun req member => legal req (by simp [member]))
              made member
            exact ⟨List.mem_cons_of_mem _ request, rest⟩
        · simp at member
        · simp at member

theorem encodes_iff (installed : made.client.link = some link) (sound : Sound link)
    (nonempty : made.req ≠ []) (fits : Fits made.req) (alive : made.Allocates) :
    made.Encodes ↔ made.Plain := by
  constructor
  · intro encodes other member
    obtain ⟨link, ret, sent, same, sends, added⟩ := encodes
    rw [installed] at same
    cases same
    rw [Option.mem_def, installed] at member
    cases member
    obtain ⟨output, text, rfl, appends, format⟩ := send_cases sound nonempty fits sends
    have content := appends.added (alive _ installed _ sends)
    rw [show output.content = _ from added, List.append_cancel_left_eq] at content
    rcases format with ⟨none, _⟩ | ⟨different, _⟩
    · exact none
    · exact absurd content.symm different
  · intro plain
    have sends := send_ssdb (plain link installed) nonempty
    have appends := sendRecords_appends sound.output fits.2
    exact ⟨link, _, _, installed, sends, appends.added (alive _ installed _ sends)⟩

/-! ### What `recv` finds -/

/-- The contents of the input at the calls of `recv` in the loop of `response`. -/
def contentsAtRecv : Nat → Link → Host → List Bytes
  | 0, _, _ => []
  | rounds + 1, link, host =>
      let received := link.recv host.errno
      link.input.content ::
        match received.value, received.link.read { host with errno := received.errno } with
        | some [], .done call => if call.value ≤ 0 then [] else contentsAtRecv rounds call.link call.host
        | _, _ => []

/-- The contents that `recv` finds in the call, if it comes to that. -/
def Made.contentsAtRecv (made : Made) : List Bytes :=
  match made.client.link.bind (·.send made.req) with
  | none => []
  | some (ret, link) =>
      match link.flush made.host with
      | .done flushed =>
          if ret = -1 ∨ flushed.value = -1 then []
          else Dbss.contentsAtRecv (flushed.host.reads.length + 1) flushed.link flushed.host
      | .waiting | .undefined => []

/-- A Redis link is installed where a `*` is in front, and nothing removes it. -/
theorem recv_redis (sound : Sound link) (errno : Errno) :
    (link.recv errno).link.redis = none ↔ link.redis = none ∧ PlainSsdb link.input.content := by
  by_cases star : link.input.content.head? = some 42
  · simp [recv_star star, PlainSsdb, star]
  · obtain ⟨input, _, same, _⟩ := recv_plain sound.input star errno
    rw [same]
    exact (and_iff_left star).symm

theorem responseLoop_redis {rounds : Nat} (sound : Sound link) {call : Call (Option (List Bytes))}
    (done : responseLoop rounds link host = .done call) :
    call.link.redis = none ↔ link.redis = none ∧ ∀ content ∈ contentsAtRecv rounds link host, PlainSsdb content := by
  induction rounds generalizing link host with
  | zero => cases done
  | succ rounds ih =>
      have first := recv_redis sound host.errno
      have received := sound.recv host.errno
      unfold responseLoop at done
      simp only [contentsAtRecv, List.forall_mem_cons, ← and_assoc, ← first] at done ⊢
      split at done
      · next nothing =>
          cases done
          simp [nothing]
      · next waits =>
          obtain ⟨reading, happened, next⟩ := Run.bind_eq_done.mp done
          obtain ⟨input, _, same, _⟩ := read_fetched received.input happened
          have redis : reading.link.redis = (link.recv host.errno).link.redis := by rw [same]
          simp only [waits, happened]
          split at next
          · next stops =>
              cases next
              simp [stops, redis]
          · next goes =>
              rw [ih (received.read happened) next, if_neg goes, redis]
      · next returned =>
          cases done
          simp [returned]

/-- A call installs a Redis link exactly if its `recv` finds a `*` in front. -/
theorem request_redis (installed : made.client.link = some link) (sound : Sound link) (nonempty : made.req ≠ [])
    (fits : Fits made.req) {call : ClientCall} (done : made.run = .done call) :
    ∃ after, call.client.link = some after ∧
      (after.redis = none ↔ link.redis = none ∧ ∀ content ∈ made.contentsAtRecv, PlainSsdb content) := by
  rw [Made.run, ClientImpl.request, installed] at done
  simp only [Made.contentsAtRecv, installed, Option.bind_some] at done ⊢
  cases sends : link.send made.req with
  | none =>
      rw [sends] at done
      cases done
  | some result =>
      obtain ⟨ret, sent⟩ := result
      simp only [sends] at done
      have same : sent.redis = link.redis := by
        obtain ⟨output, _, rfl, _⟩ := send_cases sound nonempty fits sends
        rfl
      have sound := sound.send nonempty fits sends
      simp only [← same]
      split at done
      · next refused =>
          cases done
          refine ⟨sent, rfl, ?_⟩
          cases sent.flush made.host <;> simp [refused]
      · next accepted =>
          obtain ⟨flushed, happened, next⟩ := Run.bind_eq_done.mp done
          obtain ⟨drains, _⟩ := flush_drains sound.output happened
          have sound := sound.flush happened
          simp only [happened, accepted, false_or, ← drains.redis]
          split at next
          · next failed =>
              cases next
              exact ⟨_, rfl, by simp [failed]⟩
          · next written =>
              obtain ⟨answered, happened, last⟩ := Run.bind_eq_done.mp next
              have redis := responseLoop_redis sound happened
              rw [if_neg written]
              split at last <;> cases last <;> exact ⟨_, rfl, redis⟩

/-- In a run a call is made on a plain client exactly if no `recv` of an earlier
call has found a `*` in front. -/
theorem plain_iff_contents (installed : client.link = some link) (sound : Sound link)
    (legal : ∀ req ∈ requests, req ≠ [] ∧ Fits req) {earlier later : List Made}
    (run : converse client host requests = earlier ++ made :: later) :
    made.Plain ↔ link.redis = none ∧ ∀ call ∈ earlier, ∀ content ∈ call.contentsAtRecv, PlainSsdb content := by
  induction requests generalizing client host link earlier with
  | nil => simp [converse] at run
  | cons req requests ih =>
      have first := legal req (by simp)
      cases earlier with
      | nil =>
          obtain ⟨rfl, _⟩ := List.cons.inj run
          simp [Made.Plain, installed]
      | cons call earlier =>
          obtain ⟨rfl, rest⟩ := List.cons.inj run
          split at rest
          · next call done =>
              obtain ⟨after, still, redis⟩ :=
                request_redis (show (Made.mk client host req).client.link = some link from installed) sound first.1
                  first.2 done
              obtain ⟨same, still', soundAfter⟩ := request_sound installed sound first.1 first.2 done
              cases still.symm.trans still'
              have others : ∀ req ∈ requests, req ≠ [] ∧ Fits req := fun req member => legal req (by simp [member])
              rw [ih still soundAfter others rest, redis, List.forall_mem_cons, and_assoc]
          · simp at rest
          · simp at rest

/-- Over any run of calls and whatever the server sends: the calls all append
the SSDB encodings of their requests if and only if each of them is made while
no Redis link has been installed, that is, if no `recv` of a call before it has
found a `*` in front of the received bytes. -/
theorem converse_encodes_iff (inputBlock outputBlock : Block) (inputReallocs outputReallocs : List Bool)
    (host : Host) (legal : ∀ req ∈ requests, req ≠ [] ∧ Fits req)
    (alive : ∀ made ∈ converse (.connected inputBlock outputBlock inputReallocs outputReallocs) host requests,
      made.Allocates) :
    ((∀ made ∈ converse (.connected inputBlock outputBlock inputReallocs outputReallocs) host requests,
      made.Encodes) ↔
    ∀ made ∈ converse (.connected inputBlock outputBlock inputReallocs outputReallocs) host requests,
      made.Plain) ∧
    ∀ earlier made later,
      converse (.connected inputBlock outputBlock inputReallocs outputReallocs) host requests =
        earlier ++ made :: later →
      (made.Plain ↔ ∀ call ∈ earlier, ∀ content ∈ call.contentsAtRecv, PlainSsdb content) := by
  have sound := connected_sound inputBlock outputBlock inputReallocs outputReallocs
  constructor
  · refine forall₂_congr fun made member => ?_
    obtain ⟨request, link, installed, sound⟩ := converse_sound rfl sound legal made member
    exact encodes_iff installed sound (legal _ request).1 (legal _ request).2 (alive made member)
  · intro earlier made later run
    rw [plain_iff_contents rfl sound legal run]
    exact and_iff_right rfl

/-- The server's bytes come in two parts at least. -/
def twoHost (bytes : Bytes) : Host :=
  { Host.sending bytes [.deliver 3, .fail .eintr, .deliver 100, .deliver 100] with
    writes := [.accept 5, .accept 100, .accept 100] }

def twoCalls (bytes : Bytes) : List Made :=
  converse (.connected (fun _ => 0) (fun _ => 0) [] []) (twoHost bytes)
    [[ascii "get", ascii "a"], [ascii "get", ascii "b"]]

theorem twoCalls_legal : ∀ req ∈ [[ascii "get", ascii "a"], [ascii "get", ascii "b"]], req ≠ [] ∧ Fits req := by
  simp [Fits, Sendable, ascii]

theorem converse_encodes_iff_two :
    (twoCalls (encode [ascii "ok", []] ++ encode [ascii "ok", []])).length = 2 ∧
      ∀ made ∈ twoCalls (encode [ascii "ok", []] ++ encode [ascii "ok", []]), made.Encodes := by
  have run := converse_encodes_iff (fun _ => 0) (fun _ => 0) [] []
    (twoHost (encode [ascii "ok", []] ++ encode [ascii "ok", []])) twoCalls_legal (by decide +kernel)
  exact ⟨by decide +kernel, run.1.mpr (by decide +kernel)⟩

/-- After a Redis request from the server, the next request goes out as a Redis reply. -/
theorem not_converse_encodes :
    ¬ ∀ (inputBlock outputBlock : Block) (inputReallocs outputReallocs : List Bool) (host : Host)
      (requests : List (List Bytes)), (∀ req ∈ requests, req ≠ [] ∧ Fits req) →
      (∀ made ∈ converse (.connected inputBlock outputBlock inputReallocs outputReallocs) host requests,
        made.Allocates) →
      ∀ made ∈ converse (.connected inputBlock outputBlock inputReallocs outputReallocs) host requests,
        made.Encodes := by
  intro encodes
  have alive : ∀ made ∈ twoCalls (ascii "*1\r\n$1\r\nx\r\n"), made.Allocates := by decide +kernel
  have plain : ∀ made ∈ twoCalls (ascii "*1\r\n$1\r\nx\r\n"), made.Plain := by
    intro made member
    obtain ⟨request, link, installed, sound⟩ := converse_sound rfl (connected_sound ..) twoCalls_legal made member
    obtain ⟨some, fits⟩ := twoCalls_legal _ request
    exact (encodes_iff installed sound some fits (alive made member)).mp
      (encodes _ _ _ _ _ _ twoCalls_legal alive made member)
  exact absurd plain (by decide +kernel)

end Dbss
