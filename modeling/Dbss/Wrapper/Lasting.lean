import Dbss.Client.Supply
import Dbss.Data.Keeping
import Dbss.Wrapper.Session

namespace Dbss

open Dbss.Data Dbss.Util Dbss.Ssdb Dbss.Net Dbss.Net.Link

/-! Sessions on a connection that lasts: every call comes back, with the
answer to its own request. -/

variable {server : Server} {sent : List (List Bytes)} {host : Host} {this : DBSS} {api : Api} {calls : List Api}
  {made : ApiCall} {earlier later : List ApiCall}

def requestsOf (calls : List Api) : List (List Bytes) :=
  calls.flatMap fun api => api.operation.requests

theorem requestsOf_cons (api : Api) (calls : List Api) :
    requestsOf (api :: calls) = api.operation.requests ++ requestsOf calls := rfl

theorem requestsOf_append (front back : List Api) :
    requestsOf (front ++ back) = requestsOf front ++ requestsOf back :=
  List.flatMap_append

/-- A new object on a fresh connection to the server, for these calls: memory is
granted, the server takes every request, and the socket supports them all. -/
structure Lasting (server : Server) (this : DBSS) (host : Host) (calls : List Api) : Prop where
  connected : ∃ inputBlock outputBlock inputReallocs outputReallocs,
    this = .new (some (.new inputBlock outputBlock inputReallocs outputReallocs)) ∧
      (∀ granted ∈ inputReallocs, granted = true) ∧ ∀ granted ∈ outputReallocs, granted = true
  peer : host.peer = server.peer
  accepted : host.accepted = []
  delivered : host.delivered = 0
  accepts : ∀ req ∈ requestsOf calls, server.Accepts req
  supports : host.Supports server (requestsOf calls)

/-- Between two calls: the requests so far have been answered, and the
connection lasts for the calls to come. -/
structure Ready (server : Server) (sent : List (List Bytes)) (this : DBSS) (host : Host) (calls : List Api) : Prop where
  settled : ∃ link, this.client.link = some link ∧ Settled server sent link host
  legal : ∀ request ∈ sent, (framing server.limit).Legal request
  accepts : ∀ req ∈ requestsOf calls, server.Accepts req
  supports : host.Supports server (sent ++ requestsOf calls)

theorem Lasting.ready (lasting : Lasting server this host calls) : Ready server [] this host calls := by
  obtain ⟨⟨inputBlock, outputBlock, inputReallocs, outputReallocs, rfl, inputGranted, outputGranted⟩, peer, accepted,
    delivered, accepts, supports⟩ := lasting
  exact ⟨⟨_, rfl, connected_settled server inputBlock outputBlock inputGranted outputGranted peer accepted delivered⟩,
    List.forall_mem_nil _, accepts, supports⟩

theorem ListOp.asks_something (op : ListOp) : [] ∉ op.operation.requests := by
  cases op with
  | keys _ _ first last | scan _ _ first last | rscan _ _ first last | zkeys first last
  | zscan first last | zrscan first last =>
      cases first <;> cases last <;> exact nofun
  | hkeys name _ _ first last | hscan name _ _ first last | hrscan name _ _ first last =>
      cases name <;> cases first <;> cases last <;> exact nofun
  | hgetall name | zrange name | zrrange name => cases name <;> exact nofun
  | multiGet | multiHget | multiZget | qslice => exact nofun

theorem Api.asks_something (api : Api) : [] ∉ api.operation.requests := by
  cases api with
  | list op => exact op.asks_something
  | _ => exact nofun

theorem Settled.errno {link : Link} (settled : Settled server sent link host) (errno : Errno) :
    Settled server sent link { host with errno } :=
  ⟨⟨settled.blocking, settled.plain, settled.receiving, settled.output, settled.peer, settled.delivered,
    settled.written, settled.arriving⟩, settled.roomy, settled.empty⟩

/-- A call comes back and works on the answer to its own request, if it makes one. -/
theorem Ready.perform (ready : Ready server sent this host (api :: calls)) :
    ∃ call errno, api.operation.perform this host = .done call ∧
      call.returned = api.operation.result this.s errno (api.operation.requests.head?.map (server.answer sent)) ∧
      Ready server (sent ++ api.operation.requests) call.this call.host calls := by
  have something := api.asks_something
  obtain ⟨⟨link, installed, settled⟩, legal, accepts, supports⟩ := ready
  rw [requestsOf_cons] at accepts supports
  rw [List.forall_mem_append] at accepts
  generalize api.operation = operation at *
  cases operation with
  | thrown finish =>
      refine ⟨_, host.errno, rfl, rfl, ⟨link, installed, ?_⟩, ?_, accepts.2, ?_⟩
      · simpa [Operation.requests] using settled.errno _
      · simpa [Operation.requests] using legal
      · simpa [Operation.requests] using supports.errno _
  | request req finish =>
      simp only [Operation.requests, List.mem_singleton, forall_eq] at something accepts supports ⊢
      have more : ∀ request ∈ sent ++ [req], (framing server.limit).Legal request :=
        List.forall_mem_append.mpr ⟨legal, List.forall_mem_singleton.mpr ⟨Ne.symm something, accepts.1.1⟩⟩
      rw [← List.append_assoc] at supports
      obtain ⟨call, after, done, value, link, settled, supports⟩ := settled.request installed more accepts.1.2 supports
      refine ⟨_, call.host.errno, by rw [Operation.perform, done, Run.bind_done], ?_,
        ⟨after, link, settled.errno _⟩, more, accepts.2, supports.errno _⟩
      simp [Operation.result, value]

/-- Before each call of a session the connection is ready for it and those after it. -/
theorem Ready.session (ready : Ready server sent this host calls)
    (split : this.session host calls = earlier ++ made :: later) :
    ∃ rest, calls = earlier.map ApiCall.api ++ made.api :: rest ∧
      Ready server (sent ++ requestsOf (earlier.map ApiCall.api)) made.this made.host (made.api :: rest) := by
  induction calls generalizing this host sent earlier with
  | nil => simp [DBSS.session] at split
  | cons api others ih =>
      cases earlier with
      | nil =>
          rw [DBSS.session, List.nil_append, List.cons.injEq] at split
          obtain ⟨rfl, _⟩ := split
          exact ⟨others, rfl, by simpa [requestsOf] using ready⟩
      | cons call earlier =>
          rw [DBSS.session, List.cons_append, List.cons.injEq] at split
          obtain ⟨rfl, split⟩ := split
          obtain ⟨call, _, done, _, next⟩ := ready.perform
          rw [done] at split
          obtain ⟨rest, rfl, last⟩ := ih next split
          refine ⟨rest, rfl, ?_⟩
          rwa [List.map_cons, requestsOf_cons, ← List.append_assoc]

theorem Ready.makes_all (ready : Ready server sent this host calls) :
    (this.session host calls).map ApiCall.api = calls := by
  induction calls generalizing this host sent with
  | nil => rfl
  | cons api others ih =>
      obtain ⟨call, _, done, _, next⟩ := ready.perform
      rw [DBSS.session, done, List.map_cons]
      exact congrArg _ (ih next)

/-- All calls are made, and each works on the server's answer to its own request. -/
theorem Lasting.served (lasting : Lasting server this host calls)
    (split : this.session host calls = earlier ++ made :: later) :
    ∃ call errno, made.run = .done call ∧
      call.returned = made.api.operation.result made.this.s errno
        (made.api.operation.requests.head?.map (server.answer (requestsOf (earlier.map ApiCall.api)))) := by
  obtain ⟨rest, _, ready⟩ := lasting.ready.session split
  obtain ⟨call, errno, done, returned, _⟩ := ready.perform
  exact ⟨call, errno, done, returned⟩

section Keeps

variable {σ : Type} {act : σ → List Bytes → σ} {answers : σ → List Bytes → List Bytes → Prop} {start : σ}

/-- Where the server's answers follow a state, so does what a call works on. -/
theorem Lasting.keeps (lasting : Lasting server this host calls)
    (keeps : Keeps act answers server.answer start [] (requestsOf calls))
    (split : this.session host calls = earlier ++ made :: later) {request : List Bytes}
    (asked : made.api.operation.requests = [request]) :
    ∃ call s errno reply, made.run = .done call ∧ call.returned = made.api.operation.result s errno (some reply) ∧
      answers ((requestsOf (earlier.map ApiCall.api)).foldl act start) request reply := by
  obtain ⟨call, errno, done, returned⟩ := lasting.served split
  obtain ⟨rest, rfl, _⟩ := lasting.ready.session split
  rw [requestsOf_append, requestsOf_cons, asked] at keeps
  rw [asked] at returned
  exact ⟨call, made.this.s, errno, _, done, returned, keeps.later.1⟩

end Keeps

/-- What a program may take a server's state for: each call changes the view as
its requests change the state, and keeps it sound. -/
structure View (σ δ : Type) (act : σ → List Bytes → σ) where
  state : δ → σ
  after : δ → Api → δ
  Sound : δ → Prop
  On : Api → Prop
  asks_once {api : Api} (on : On api) : ∃ request, api.operation.requests = [request]
  sound_after {view : δ} {api : Api} (sound : Sound view) (on : On api) : Sound (after view api)
  state_after {view : δ} {api : Api} (sound : Sound view) (on : On api) :
    api.operation.requests.foldl act (state view) = state (after view api)

namespace View

variable {σ δ : Type} {act : σ → List Bytes → σ} {answers : σ → List Bytes → List Bytes → Prop} (view : View σ δ act)
  {start : δ}

theorem after_all (sound : view.Sound start) (on : ∀ api ∈ calls, view.On api) :
    view.Sound (calls.foldl view.after start) ∧
      (requestsOf calls).foldl act (view.state start) = view.state (calls.foldl view.after start) := by
  induction calls generalizing start with
  | nil => exact ⟨sound, rfl⟩
  | cons api calls ih =>
      have here := on api (by simp)
      rw [requestsOf_cons, List.foldl_append, view.state_after sound here]
      exact ih (view.sound_after sound here) fun api member => on api (by simp [member])

/-- Where the server's answers follow its state, each call gets the answer for
what the calls before it have made of the view. -/
theorem answered (lasting : Lasting server this host calls) (sound : view.Sound start)
    (on : ∀ api ∈ calls, view.On api)
    (keeps : Keeps act answers server.answer (view.state start) [] (requestsOf calls))
    (split : this.session host calls = earlier ++ made :: later) :
    ∃ call s errno request reply, made.run = .done call ∧ made.api.operation.requests = [request] ∧
      call.returned = made.api.operation.result s errno (some reply) ∧
      view.Sound ((earlier.map ApiCall.api).foldl view.after start) ∧ view.On made.api ∧
      answers (view.state ((earlier.map ApiCall.api).foldl view.after start)) request reply := by
  obtain ⟨rest, same, _⟩ := lasting.ready.session split
  have here : view.On made.api := on made.api (by simp [same])
  obtain ⟨request, asked⟩ := view.asks_once here
  obtain ⟨call, s, errno, reply, done, returned, answers⟩ := lasting.keeps keeps split asked
  obtain ⟨sound, state⟩ := view.after_all sound fun api member =>
    on api (by rw [same]; exact List.mem_append_left _ member)
  rw [state] at answers
  exact ⟨call, s, errno, request, reply, done, asked, returned, sound, here, answers⟩

end View

end Dbss
