import Dbss.Net.Link.Invariant
import Dbss.Net.Link.RoundTrip
import Dbss.Net.LinkRedis.Request

namespace Dbss.Net

open Dbss.Data Dbss.Util Dbss.Ssdb Dbss.Resp

/-! A server's link on which requests of both formats arrive. -/

/-- A complete request: the packet `recv` returns, or the arguments of the
Redis request that it returns converted. -/
inductive Request where
  | ssdb (packet : List Bytes)
  | redis (args : List Bytes)
deriving DecidableEq, Repr

def Request.isRedis : Request → Bool
  | .ssdb _ => false
  | .redis _ => true

/-- The reply in the format of the request, where `send_resp` gives one. -/
def Request.reply (resp : List Bytes) : Request → Option Bytes
  | .ssdb _ => some (encode resp)
  | .redis args => ((RedisLink.serving args).respPieces resp).map List.flatten

/-- A request, the response the server sends for it, and the bytes this appends. -/
structure Turn where
  request : Request
  resp : List Bytes
  appended : Bytes
deriving DecidableEq, Repr

def Turn.Right (turn : Turn) : Prop :=
  turn.request.reply turn.resp = some turn.appended

namespace Link

variable {link sent last : Link} {host : Host} {errno : Errno} {request : Request} {resp args packet : List Bytes}
  {appended rest : Bytes} {turns : List Turn} {ret : Int}

/-- The complete request that `recv` returns on this link, if it returns one. -/
def nextRequest (link : Link) (errno : Errno) : Option Request :=
  match (link.recv errno).value with
  | none | some [] => none
  | some packet =>
      if link.input.content.head? = some 42 then
        some (.redis ((link.redis.getD .new).parseReq link.input errno).link.recvBytes)
      else
        some (.ssdb packet)

/-- The runs of a server's link: bytes arrive and leave, `recv` finds nothing
complete, or it returns a request and one response to it is sent. -/
inductive Serves : Link → List Turn → Link → Prop
  | stop {link : Link} : Serves link [] link
  | transfer {link link' last : Link} {turns : List Turn} :
      link'.redis = link.redis →
      link'.input.WellFormed →
      link'.output.WellFormed →
      link.input.content <+: link'.input.content →
      Serves link' turns last →
      Serves link turns last
  | wait {link last : Link} {errno : Errno} {turns : List Turn} :
      (link.recv errno).value = some [] →
      Serves (link.recv errno).link turns last →
      Serves link turns last
  | turn {link sent last : Link} {errno : Errno} {request : Request} {resp : List Bytes}
      {appended : Bytes} {ret : Int} {turns : List Turn} :
      link.nextRequest errno = some request →
      resp ≠ [] →
      (link.recv errno).link.send resp = some (ret, sent) →
      sent.output.oom = false →
      sent.output.content = link.output.content ++ appended →
      Serves sent turns last →
      Serves link (⟨request, resp, appended⟩ :: turns) last

/-! ### One step -/

theorem Serves.read (sound : Sound link) {call : Call Int} (done : link.read host = .done call)
    (run : Serves call.link turns last) : Serves link turns last := by
  obtain ⟨input, bytes, same, fetched⟩ := read_fetched sound.input done
  rw [same] at run
  exact @Serves.transfer link { link with input } _ _ rfl fetched.valid sound.output ⟨bytes, fetched.content.symm⟩ run

theorem Serves.write (sound : Sound link) {call : Call Int} (done : link.write host = .done call)
    (run : Serves call.link turns last) : Serves link turns last := by
  obtain ⟨drains, _⟩ := write_drains sound.output done
  exact .transfer drains.redis (by rw [drains.input]; exact sound.input) drains.valid
    (by rw [drains.input]) run

theorem nextRequest_cases (took : link.nextRequest errno = some request) :
    (PlainSsdb link.input.content ∧ ∃ packet, request = .ssdb packet) ∨
      ∃ returned, link.input.content.head? = some 42 ∧ (link.recv errno).value = some returned ∧
        returned ≠ [] ∧
        request = .redis ((link.redis.getD .new).parseReq link.input errno).link.recvBytes := by
  unfold nextRequest at took
  split at took
  · simp at took
  · simp at took
  · next packet some value =>
      split at took
      · next star => exact .inr ⟨packet, star, value, some, (Option.some.inj took).symm⟩
      · next plain => exact .inl ⟨plain, packet, (Option.some.inj took).symm⟩

theorem turn_right_iff (sound : Sound link) (took : link.nextRequest errno = some request)
    (nonempty : resp ≠ []) (fits : Fits resp)
    (sends : (link.recv errno).link.send resp = some (ret, sent)) (alive : sent.output.oom = false)
    (added : sent.output.content = link.output.content ++ appended) :
    (sent.redis ≠ none ↔ link.redis ≠ none ∨ request.isRedis = true) ∧
      (request.reply resp = some appended ↔ (link.redis ≠ none → request.isRedis = true)) := by
  obtain ⟨output, text, rfl, appends, format⟩ := send_cases (sound.recv errno) nonempty fits sends
  have content := appends.added alive
  rw [added, recv_output sound, List.append_cancel_left_eq] at content
  subst content
  rcases nextRequest_cases took with ⟨plain, packet, rfl⟩ | ⟨returned, star, value, some, rfl⟩
  · obtain ⟨input, _, same, _⟩ := recv_plain sound.input plain errno
    rw [same] at format ⊢
    rcases format with ⟨none, rfl⟩ | ⟨different, redis, _, installed, _⟩
    · simp [show link.redis = Option.none from none, Request.isRedis, Request.reply]
    · simp [show link.redis = Option.some redis from installed, Request.isRedis, Request.reply, Ne.symm different]
  · rw [recv_star star] at value format ⊢
    rcases format with ⟨none, _⟩ | ⟨_, redis, pieces, installed, reply, rfl⟩
    · simp at none
    · cases installed
      obtain ⟨desc, request⟩ := RedisLink.recvReq_serving _ _ _ some value
      simp [Request.isRedis, Request.reply, ← RedisLink.respPieces_congr desc request, reply]

theorem Serves.starts_redis (run : Serves link turns last) (sound : Sound link)
    (star : link.input.content.head? = some 42) : ∀ turn ∈ turns.head?, turn.request.isRedis = true := by
  induction run with
  | stop => simp
  | transfer redis input output arrived _ ih =>
      obtain ⟨more, content⟩ := arrived
      apply ih ⟨input, output, by rw [redis]; exact sound.redis⟩
      rw [← content, List.head?_append, star]
      rfl
  | @wait link _ errno _ value _ ih =>
      apply ih (sound.recv _)
      rw [recv_star star] at value ⊢
      rw [RedisLink.recvReq_waits _ sound.input value, star]
  | turn took =>
      rcases nextRequest_cases took with ⟨plain, _⟩ | ⟨_, _, _, _, rfl⟩
      · exact absurd star plain
      · simp [Request.isRedis]

/-! ### Whole runs -/

theorem all_redis (first : ∀ turn ∈ turns.head?, turn.request.isRedis = true)
    (ordered : turns.Pairwise fun earlier later => earlier.request.isRedis → later.request.isRedis) :
    ∀ turn ∈ turns, turn.request.isRedis = true := by
  cases turns with
  | nil => simp
  | cons turn rest =>
      have kind := first turn rfl
      rw [List.pairwise_cons] at ordered
      exact List.forall_mem_cons.mpr ⟨kind, fun later member => ordered.1 later member kind⟩

theorem Serves.right_iff (run : Serves link turns last) (sound : Sound link)
    (fits : ∀ turn ∈ turns, Fits turn.resp) :
    (∀ turn ∈ turns, turn.Right) ↔
      (link.redis ≠ none → ∀ turn ∈ turns, turn.request.isRedis = true) ∧
        turns.Pairwise fun earlier later => earlier.request.isRedis → later.request.isRedis := by
  induction run with
  | stop => simp
  | transfer redis input output _ _ ih =>
      rw [← redis]
      exact ih ⟨input, output, by rw [redis]; exact sound.redis⟩ fits
  | @wait link last errno turns value later ih =>
      rw [ih (sound.recv errno) fits]
      by_cases star : link.input.content.head? = some 42
      · have first := (Serves.wait value later).starts_redis sound star
        exact and_congr_left fun ordered => iff_of_true (fun _ => all_redis first ordered)
          (fun _ => all_redis first ordered)
      · obtain ⟨input, _, same, _⟩ := recv_plain sound.input star errno
        rw [same]
  | @turn link sent last errno request resp appended ret turns took nonempty sends alive added later ih =>
      rw [List.forall_mem_cons] at fits
      obtain ⟨installed, right⟩ := turn_right_iff sound took nonempty fits.1 sends alive added
      have rest := ih ((sound.recv _).send nonempty fits.1 sends) fits.2
      have this : Turn.Right ⟨request, resp, appended⟩ ↔ _ := right
      simp only [List.forall_mem_cons, List.pairwise_cons, this, rest, installed]
      by_cases stored : link.redis = none <;> cases kind : request.isRedis <;> simp [stored]

/-- From a link without a Redis link, each reply comes out in the format of its
request if and only if no SSDB request comes after a Redis request.  For a Redis
request that format is what `send_resp` gives on a link that holds just this
request, whether it is one well-formed value or not. -/
theorem replies_right_iff (run : Serves link turns last) (sound : Sound link)
    (fresh : link.redis = none) (fits : ∀ turn ∈ turns, Fits turn.resp) :
    (∀ turn ∈ turns, turn.Right) ↔
      turns.Pairwise fun earlier later => earlier.request.isRedis → later.request.isRedis := by
  rw [run.right_iff sound fits]
  simp [fresh]

/-- The calls that a server makes on its link. -/
inductive Serving where
  | read (host : Host)
  | write (host : Host)
  | wait
  | answer (resp : List Bytes)

/-- The requests that were answered in a sequence of calls; `none` where one
does not return, or finds or brings something else than it says. -/
def serve (link : Link) : List Serving → Option (List Turn × Link)
  | [] => some ([], link)
  | .read host :: later =>
      match link.read host with
      | .done call => serve call.link later
      | .waiting | .undefined => none
  | .write host :: later =>
      match link.write host with
      | .done call => serve call.link later
      | .waiting | .undefined => none
  | .wait :: later =>
      if (link.recv .success).value = some [] then serve (link.recv .success).link later else none
  | .answer resp :: later =>
      match link.nextRequest .success, (link.recv .success).link.send resp with
      | some request, some (_, sent) =>
          let held := link.output.content
          if resp ≠ [] ∧ Fits resp ∧ sent.output.oom = false ∧ sent.output.content.take held.length = held then
            (serve sent later).map fun rest =>
              (⟨request, resp, sent.output.content.drop held.length⟩ :: rest.1, rest.2)
          else
            none
      | _, _ => none

/-- Whatever calls a server makes, it is a run of its link. -/
theorem serve_serves {calls : List Serving} (sound : Sound link) (served : serve link calls = some (turns, last)) :
    Serves link turns last ∧ ∀ turn ∈ turns, Fits turn.resp := by
  induction calls generalizing link turns with
  | nil =>
      cases served
      exact ⟨.stop, by simp⟩
  | cons call later ih =>
      cases call with
      | read host =>
          rw [serve] at served
          cases done : link.read host with
          | done call =>
              rw [done] at served
              obtain ⟨run, fits⟩ := ih (sound.read done) served
              exact ⟨.read sound done run, fits⟩
          | waiting | undefined => simp [done] at served
      | write host =>
          rw [serve] at served
          cases done : link.write host with
          | done call =>
              rw [done] at served
              obtain ⟨run, fits⟩ := ih (sound.write done) served
              exact ⟨.write sound done run, fits⟩
          | waiting | undefined => simp [done] at served
      | wait =>
          rw [serve] at served
          split at served
          · next nothing =>
              obtain ⟨run, fits⟩ := ih (sound.recv _) served
              exact ⟨.wait nothing run, fits⟩
          · simp at served
      | answer resp =>
          rw [serve] at served
          split at served
          · next request ret sent took sends =>
              simp only at served
              split at served
              · next checks =>
                  obtain ⟨nonempty, short, alive, kept⟩ := checks
                  obtain ⟨rest, run, same⟩ := Option.map_eq_some_iff.mp served
                  cases same
                  obtain ⟨run, fits⟩ := ih ((sound.recv _).send nonempty short sends) run
                  have added := List.take_append_drop link.output.content.length sent.output.content
                  rw [kept] at added
                  exact ⟨.turn took nonempty sends alive added.symm run, List.forall_mem_cons.mpr ⟨short, fits⟩⟩
              · simp at served
          · simp at served

/-- A request that arrives in two reads, the second of which is cut off, and
one that arrives after the reply to the first has been written. -/
def pings (redisFirst : Bool) : List Serving :=
  let early := if redisFirst then requestText [ascii "ping"] else encode [ascii "ping"]
  let late := if redisFirst then encode [ascii "ping"] else requestText [ascii "ping"]
  [.read (.sending (early.take 4) [.deliver 100]), .wait, .read (.sending (early.drop 4) [.fail .eintr, .deliver 100]),
    .answer [ascii "ok"], .write { Host.sending [] [] with writes := [.accept 100] },
    .read (.sending late [.deliver 100]), .answer [ascii "ok"]]

def redisPing : Turn :=
  ⟨.redis [ascii "ping"], [ascii "ok"], ascii "+PONG" ++ crlf⟩

def ssdbPing (appended : Bytes) : Turn :=
  ⟨.ssdb [ascii "ping"], [ascii "ok"], appended⟩

def listening : Link :=
  .holding [] 8

theorem listening_sound : Sound listening :=
  ⟨Buffer.holding_wellFormed (by decide), Buffer.holding_wellFormed (by decide), by simp [listening, holding]⟩

theorem serves_pings (redisFirst : Bool) :
    ∃ last, Serves listening
      (if redisFirst then [redisPing, ssdbPing (ascii "+PONG" ++ crlf)]
      else [ssdbPing (encode [ascii "ok"]), redisPing]) last := by
  have served : (serve listening (pings redisFirst)).map (·.1) =
      some (if redisFirst then [redisPing, ssdbPing (ascii "+PONG" ++ crlf)]
        else [ssdbPing (encode [ascii "ok"]), redisPing]) := by
    cases redisFirst <;> decide +kernel
  obtain ⟨⟨turns, last⟩, run, same⟩ := Option.map_eq_some_iff.mp served
  exact ⟨last, by rw [← same]; exact (serve_serves listening_sound run).1⟩

theorem replies_right_iff_ssdb_first :
    (∀ turn ∈ [ssdbPing (encode [ascii "ok"]), redisPing], turn.Right) ↔
      [ssdbPing (encode [ascii "ok"]), redisPing].Pairwise fun earlier later =>
        earlier.request.isRedis → later.request.isRedis := by
  obtain ⟨last, run⟩ := serves_pings false
  exact replies_right_iff run listening_sound rfl
    (by simp [ssdbPing, redisPing, Fits, Sendable, ascii])

/-- After a Redis request, an SSDB request gets a Redis reply. -/
theorem not_replies_right :
    ¬ ∀ (link last : Link) (turns : List Turn), Sound link → link.redis = none →
      (∀ turn ∈ turns, Fits turn.resp) → Serves link turns last → ∀ turn ∈ turns, turn.Right := by
  intro right
  obtain ⟨last, run⟩ := serves_pings true
  have second := right _ last _ listening_sound rfl
    (by simp [ssdbPing, redisPing, Fits, Sendable, ascii]) run (ssdbPing (ascii "+PONG" ++ crlf)) (by simp)
  exact absurd second (by unfold Turn.Right; decide)

end Link

end Dbss.Net
