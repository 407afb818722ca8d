import Dbss.Net.Exchange
import Dbss.Net.LinkRedis.Leftover
import Dbss.Resp.Stream

namespace Dbss.Net

open Dbss.Data Dbss.Util Dbss.Ssdb Dbss.Resp Dbss.Net.Link Dbss.Net.Exchange

/-! A server's `Link` and a Redis client that sends requests without waiting
for the replies. -/

/-- `up` is on the way to the server, and `down` is all that the server has
written.  `taken` are the requests that `recv` has returned. -/
structure RedisExchange where
  server : Link
  up : Bytes
  down : Bytes
  asked : List (List Bytes)
  taken : List (List Bytes)

namespace RedisExchange

inductive Action where
  | ask (args : List Bytes)
  | reads (reads : List ReadOutcome)
  | serves (errno : Errno)
  | writes (writes : List WriteOutcome)
deriving DecidableEq, Repr

section

variable (answer : List (List Bytes) → List Bytes → List Bytes)

/-- `serves` is a call of `recv` and, if it returns a request, one of `send`. -/
def step (state : RedisExchange) : Action → Option RedisExchange
  | .ask args => some { state with up := state.up ++ requestText args, asked := state.asked ++ [args] }
  | .reads reads =>
      (readFrom state.server state.up reads).map fun read =>
        { state with server := read.1, up := read.2 }
  | .serves errno =>
      let received := state.server.recv errno
      match packetOf received with
      | [] => some { state with server := received.link }
      | request :: _ =>
          (received.link.send (answer state.taken request)).map fun sent =>
            { state with server := sent.2, taken := state.taken ++ [request] }
  | .writes writes =>
      (writeTo state.server state.down writes).map fun written =>
        { state with server := written.1, down := written.2 }

def run (state : RedisExchange) : List Action → Option RedisExchange
  | [] => some state
  | action :: actions => (step answer state action).bind fun next => run next actions

/-- What `recv` returns for the Redis request `args`. -/
def converted (args : List Bytes) : List Bytes :=
  (RedisLink.serving args).recvString

/-- The reply to `args` after the requests `earlier`, where `send_resp` gives one. -/
def replyTo (earlier : List (List Bytes)) (args : List Bytes) : Option Bytes :=
  ((RedisLink.serving args).respPieces (answer earlier (converted args))).map List.flatten

def replies (earlier : List (List Bytes)) : List (List Bytes) → List (Option Bytes)
  | [] => []
  | args :: later => replyTo answer earlier args :: replies (earlier ++ [converted args]) later

/-- The server's responses have the shape that the reply types need. -/
structure Responds : Prop where
  nonempty : ∀ earlier request, answer earlier request ≠ []
  fits : ∀ earlier request, Fits (answer earlier request)
  answerable : ∀ earlier args, RedisLink.requests.Legal args →
    RedisLink.Answerable (RedisLink.serving args) (answer earlier (converted args))
  clean : ∀ earlier args, RedisLink.PrintsText (RedisLink.serving args) (answer earlier (converted args)) →
    ∀ text ∈ (answer earlier (converted args))[1]?, Clean text

end

variable {answer : List (List Bytes) → List Bytes → List Bytes} {state next last : RedisExchange}
  {action : Action} {actions : List Action} {link sent : Link} {args resp : List Bytes} {errno : Errno}
  {left earlier : List (List Bytes)} {more : Bytes} {stored : RedisLink} {ret : Int}

theorem replies_snoc (front : List (List Bytes)) :
    replies answer earlier (front ++ [args]) =
      replies answer earlier front ++ [replyTo answer (earlier ++ front.map converted) args] := by
  induction front generalizing earlier with
  | nil => simp [replies]
  | cons first front ih => simp [replies, ih]

/-! ### One request -/

/-- The Redis link holds the request `args`. -/
def Holding (stored : RedisLink) (args : List Bytes) : Prop :=
  stored.reqDesc = (RedisLink.serving args).reqDesc ∧ stored.recvString = (RedisLink.serving args).recvString

theorem recvReq_request (link : RedisLink) {input : Buffer} {rest : Bytes} (valid : input.WellFormed) (some : args ≠ [])
    (here : input.content = requestText args ++ rest) (ready : errno ≠ .einval) :
    (link.recvReq input errno).value = Option.some (converted args) ∧
      Holding (link.recvReq input errno).link args ∧
      (link.recvReq input errno).input = input.decr (requestText args).length := by
  have parse := RedisLink.parseReq_complete link valid (isRequest_requestText some) here ready
  obtain ⟨first, others, rfl⟩ := List.exists_cons_of_ne_nil some
  have value : (link.recvReq input errno).value = Option.some (link.recvReq input errno).link.recvString := by
    simp [RedisLink.recvReq, parse]
  have nonempty : (link.recvReq input errno).link.recvString ≠ [] := by
    simpa [RedisLink.recvReq, parse] using (RedisLink.convertReq_recvString
      { link with cmd := strToLower first, recvBytes := first :: others } errno).1
  obtain ⟨desc, request⟩ := RedisLink.recvReq_serving link input errno nonempty value
  rw [parse] at desc request
  exact ⟨by rw [value, request]; rfl, ⟨desc, request⟩, by simp [RedisLink.recvReq, parse]⟩

theorem recvReq_part (link : RedisLink) {input : Buffer} {missing : Bytes} (valid : input.WellFormed)
    (some : input.content ≠ []) (cut : input.content ++ missing = requestText args) (more : missing ≠ [])
    (bound : (requestText args).length < 2147483648) (ready : errno ≠ .einval) :
    ((link.recvReq input errno).value = none ∨ (link.recvReq input errno).value = Option.some []) ∧
      (link.recvReq input errno).input = input.makeRoom.2 := by
  have parse := RedisLink.parseReq_part link valid some more cut bound ready
  rw [RedisLink.recvReq, parse]
  by_cases room : input.makeRoom.1 = true
  · simp [room]
  · simp [room]

/-- With EINVAL in `errno` nothing is taken. -/
theorem recvReq_einval (link : RedisLink) {input : Buffer} {missing rest : Bytes} (valid : input.WellFormed)
    (star : input.content.head? = some 42) (split : input.content ++ missing = requestText args ++ rest)
    (bound : (requestText args).length < 2147483648) :
    ((link.recvReq input .einval).value = none ∨ (link.recvReq input .einval).value = Option.some []) ∧
      (link.recvReq input .einval).input.content = input.content := by
  rw [requestText, List.append_assoc] at split
  rcases cut_cases split with ⟨extra, here, _⟩ | ⟨more, unfinished, beginning⟩
  · have counted := (requestText_bounds bound).1
    obtain ⟨refused, _, same⟩ := link.parseReq_einval valid (.canonical 42 args.length) counted here
    rw [RedisLink.recvReq]
    simp [refused, same]
  · have parse : link.parseReq input .einval = ⟨0, { link with recvBytes := [] }, input, .einval⟩ := by
      rw [RedisLink.parseReq, if_neg (by simp [RedisLink.first_of_star star]),
        RedisLink.parseLoop_beginning beginning unfinished (by decide) (RedisLink.At.content valid)]
    obtain ⟨_, same, _⟩ := valid.makeRoom_spec
    rw [RedisLink.recvReq, parse]
    by_cases room : input.makeRoom.1 = true <;> simp [room, same]

/-- At the front of a stream of requests `recv` takes the next one and stores
it, or it leaves the stream as it is. -/
theorem recv_request (valid : link.input.WellFormed)
    (split : link.input.content ++ more = RedisLink.requests.stream left)
    (legal : ∀ args ∈ left, RedisLink.requests.Legal args) (errno : Errno) :
    packetOf (link.recv errno) = [] ∧ (link.recv errno).link.input.content = link.input.content ∨
      ∃ args later stored, left = args :: later ∧ packetOf (link.recv errno) = [converted args] ∧
        (link.recv errno).link.redis = some stored ∧ Holding stored args ∧
        (link.recv errno).link.input.content ++ more = RedisLink.requests.stream later := by
  by_cases nothing : link.input.content = []
  · rw [recv_empty valid nothing]
    exact .inl ⟨rfl, rfl⟩
  cases left with
  | nil => exact absurd (List.append_eq_nil_iff.mp split).1 nothing
  | cons args later =>
      obtain ⟨some, bound⟩ := legal args (by simp)
      have star : link.input.content.head? = Option.some 42 := by
        obtain ⟨first, others, content⟩ := List.exists_cons_of_ne_nil nothing
        rw [content] at split ⊢
        exact congrArg Option.some (List.cons.inj split).1
      rw [recv_star star]
      by_cases invalid : errno = .einval
      · rw [invalid]
        obtain ⟨value, same⟩ := recvReq_einval (link.redis.getD .new) valid star split bound
        refine .inl ⟨?_, same⟩
        rcases value with value | value <;> simp [packetOf, value]
      rcases RedisLink.requests.held_cases split with ⟨extra, here, rest⟩ | ⟨⟨missing, cut⟩, whole⟩
      · obtain ⟨value, holding, input⟩ := recvReq_request (link.redis.getD .new) valid some here invalid
        have consumed : (link.input.decr (requestText args).length).content = extra := (valid.decr_spec here).2
        have nonempty : converted args ≠ [] := (RedisLink.convertReq_recvString _ _).1
        refine .inr ⟨args, later, _, rfl, by simp [packetOf, value, nonempty], rfl, holding, ?_⟩
        rw [show Buffer.content _ = extra by rw [input]; exact consumed]
        exact rest
      · obtain ⟨value, input⟩ := recvReq_part (link.redis.getD .new) valid nothing cut
          (fun none => whole (by simpa [none] using cut)) bound invalid
        refine .inl ⟨?_, by simp only [input]; exact valid.makeRoom_spec.2.1⟩
        rcases value with value | value <;> simp [packetOf, value]

/-! ### One reply -/

theorem Holding.answerable (holding : Holding stored args) :
    RedisLink.Answerable stored resp ↔ RedisLink.Answerable (RedisLink.serving args) resp := by
  rw [RedisLink.Answerable, RedisLink.Answerable, holding.1, holding.2]

theorem Holding.printsText (holding : Holding stored args) :
    RedisLink.PrintsText stored resp ↔ RedisLink.PrintsText (RedisLink.serving args) resp := by
  rw [RedisLink.PrintsText, RedisLink.PrintsText, holding.1]

/-- What `send` adds for a stored request is the reply to it, one value. -/
theorem send_reply (sound : Sound link) (redis : link.redis = some stored) (holding : Holding stored args)
    (responds : Responds answer) (legal : RedisLink.requests.Legal args)
    (sends : link.send (answer earlier (converted args)) = some (ret, sent)) (alive : sent.output.oom = false) :
    ∃ text, replyTo answer earlier args = some text ∧ RespValue text ∧
      sent.output.content = link.output.content ++ text := by
  have nonempty := responds.nonempty earlier (converted args)
  have fits := responds.fits earlier (converted args)
  obtain ⟨output, text, rfl, appends, ⟨plain, _⟩ | ⟨_, same, pieces, installed, reply, rfl⟩⟩ :=
    send_cases sound nonempty fits sends
  · rw [redis] at plain
    cases plain
  · cases redis.symm.trans installed
    refine ⟨pieces.flatten, ?_, ?_, appends.added alive⟩
    · rw [replyTo, ← RedisLink.respPieces_congr holding.1 holding.2, reply]
      rfl
    · rcases RedisLink.respPieces_cases (sound.redis _ redis) nonempty fits.sized with
        ⟨undefined, _⟩ | ⟨others, text, written, replies, value⟩
      · rw [reply] at undefined
        cases undefined
      · cases reply.symm.trans written
        rw [replies.flatten]
        exact (value fun prints => responds.clean _ _ (holding.printsText.mp prints)).mpr
          (holding.answerable.mpr (responds.answerable _ _ legal))

/-! ### Whole runs -/

/-- What holds as long as no allocation for the output has failed. -/
structure Matched (answer : List (List Bytes) → List Bytes → List Bytes) (state : RedisExchange) : Prop where
  legal : ∀ args ∈ state.asked, RedisLink.requests.Legal args
  matched : ∃ (done left : List (List Bytes)) (texts : List Bytes),
    state.asked = done ++ left ∧ state.taken = done.map converted ∧
    texts.map some = replies answer [] done ∧ (∀ text ∈ texts, RespValue text) ∧
    state.server.input.content ++ state.up = RedisLink.requests.stream left ∧
    state.down ++ state.server.output.content = texts.flatten

structure Served (answer : List (List Bytes) → List Bytes → List Bytes) (state : RedisExchange) : Prop where
  sound : Sound state.server
  matched : state.server.output.oom = false → Matched answer state

/-- A call of `recv`, and the reply to what it returns. -/
theorem Served.serves (served : Served answer state) (responds : Responds answer)
    (done : step answer state (.serves errno) = some next) : Served answer next := by
  obtain ⟨sound, matched⟩ := served
  have output := recv_output sound errno
  simp only [step] at done
  split at done
  · next nothing =>
      cases done
      refine ⟨sound.recv errno, fun alive => ?_⟩
      obtain ⟨legal, front, left, texts, asked, taken, same, values, ahead, sent⟩ :=
        matched (by rw [← output]; exact alive)
      refine ⟨legal, front, left, texts, asked, taken, same, values, ?_, by rw [output]; exact sent⟩
      rcases recv_request sound.input ahead (fun args member => legal args (by simp [asked, member])) errno with
        ⟨_, content⟩ | ⟨_, _, _, _, took, _⟩
      · exact (congrArg (· ++ state.up) content).trans ahead
      · rw [nothing] at took
        cases took
  · next request others took =>
      obtain ⟨⟨ret, link⟩, sends, rfl⟩ := Option.map_eq_some_iff.mp done
      have nonempty := responds.nonempty state.taken request
      have fits := responds.fits state.taken request
      have received := sound.recv errno
      refine ⟨received.send nonempty fits sends, fun alive => ?_⟩
      obtain ⟨after, text, rfl, appends, _⟩ := send_cases received nonempty fits sends
      obtain ⟨legal, front, left, texts, asked, taken, same, values, ahead, sent⟩ :=
        matched (by rw [← output]; exact alive_before appends.outOfMemory alive)
      rcases recv_request sound.input ahead (fun args member => legal args (by simp [asked, member])) errno with
        ⟨nothing, _⟩ | ⟨args, later, stored, rfl, returned, redis, holding, rest⟩
      · rw [nothing] at took
        cases took
      · cases took.symm.trans returned
        rw [taken] at sends
        obtain ⟨text, reply, value, added⟩ :=
          send_reply received redis holding responds (legal args (by simp [asked])) sends alive
        refine ⟨legal, front ++ [args], later, texts ++ [text], by simp [asked], by simp [taken], ?_, ?_, rest, ?_⟩
        · rw [List.map_append, same, replies_snoc]
          simp [reply]
        · exact fun other member => by
            rcases List.mem_append.mp member with earlier | new
            · exact values other earlier
            · rwa [List.mem_singleton.mp new]
        · rw [added, output, ← List.append_assoc, sent]
          simp

theorem Served.step (served : Served answer state) (responds : Responds answer)
    (asks : ∀ args, action = .ask args → RedisLink.requests.Legal args)
    (done : step answer state action = some next) :
    Served answer next := by
  obtain ⟨sound, matched⟩ := served
  cases action with
  | ask args =>
      cases done
      refine ⟨sound, fun alive => ?_⟩
      obtain ⟨legal, front, left, texts, asked, taken, same, values, ahead, sent⟩ := matched alive
      refine ⟨fun other member => ?_, front, left ++ [args], texts, by rw [asked, List.append_assoc], taken, same,
        values, ?_, sent⟩
      · rcases List.mem_append.mp member with earlier | new
        · exact legal other earlier
        · rw [List.mem_singleton.mp new]
          exact asks args rfl
      · rw [Framing.stream_append, ← ahead, List.append_assoc]
        simp [RedisLink.requests]
  | reads reads =>
      obtain ⟨⟨link, wire⟩, read, rfl⟩ := Option.map_eq_some_iff.mp done
      obtain ⟨input, valid, rfl, whole⟩ := readFrom_spec _ sound.input read
      refine ⟨⟨valid, sound.output, sound.redis⟩, fun alive => ?_⟩
      obtain ⟨legal, front, left, texts, asked, taken, same, values, ahead, sent⟩ := matched alive
      exact ⟨legal, front, left, texts, asked, taken, same, values, whole.trans ahead, sent⟩
  | writes writes =>
      obtain ⟨⟨link, wire⟩, written, rfl⟩ := Option.map_eq_some_iff.mp done
      obtain ⟨output, valid, rfl, oom, whole⟩ := writeTo_spec sound.output written
      refine ⟨⟨sound.input, valid, sound.redis⟩, fun alive => ?_⟩
      obtain ⟨legal, front, left, texts, asked, taken, same, values, ahead, sent⟩ := matched (alive_before oom alive)
      exact ⟨legal, front, left, texts, asked, taken, same, values, ahead, whole.trans sent⟩
  | serves errno => exact Served.serves ⟨sound, matched⟩ responds done

theorem Served.run (served : Served answer state) (responds : Responds answer)
    (asks : ∀ args, .ask args ∈ actions → RedisLink.requests.Legal args)
    (ran : run answer state actions = some last) :
    Served answer last := by
  induction actions generalizing state with
  | nil =>
      cases ran
      exact served
  | cons action actions ih =>
      obtain ⟨next, done, rest⟩ := Option.bind_eq_some_iff.mp ran
      exact ih (served.step responds (fun args same => asks args (by simp [same])) done)
        (fun args member => asks args (by simp [member])) rest

def fresh (inputBlock outputBlock : Block) (inputReallocs outputReallocs : List Bool) (noblock : Bool) :
    RedisExchange :=
  ⟨{ Link.new inputBlock outputBlock inputReallocs outputReallocs with noblock }, [], [], [], []⟩

theorem fresh_served (inputBlock outputBlock : Block) (inputReallocs outputReallocs : List Bool) (noblock : Bool) :
    Served answer (fresh inputBlock outputBlock inputReallocs outputReallocs noblock) :=
  ⟨⟨Buffer.new_wellFormed (by decide) (by decide), Buffer.new_wellFormed (by decide) (by decide),
    by simp [fresh, Link.new]⟩, fun _ => ⟨by simp [fresh], [], [], [], rfl, rfl, rfl, by simp, rfl, rfl⟩⟩

/-- However a client's requests are cut, the server takes the first of them in
order, and what it has written and is about to write are the replies to these.
A client that reads values off what has been written can only read these replies. -/
theorem redis_replies_in_order (inputBlock outputBlock : Block) (inputReallocs outputReallocs : List Bool)
    (noblock : Bool)
    (ran : run answer (fresh inputBlock outputBlock inputReallocs outputReallocs noblock) actions = some last)
    (responds : Responds answer) (asks : ∀ args, .ask args ∈ actions → RedisLink.requests.Legal args)
    (alive : last.server.output.oom = false) :
    ∃ (done left : List (List Bytes)) (texts : List Bytes), last.asked = done ++ left ∧
      last.taken = done.map converted ∧ texts.map some = replies answer [] done ∧
      last.server.input.content ++ last.up = left.flatMap requestText ∧
      last.down ++ last.server.output.content = texts.flatten ∧
      ∀ values rest, (∀ value ∈ values, RespValue value) → values.flatten ++ rest = last.down → values <+: texts := by
  have served := (fresh_served inputBlock outputBlock inputReallocs outputReallocs noblock).run responds asks ran
  obtain ⟨_, front, left, texts, asked, taken, same, replied, ahead, sent⟩ := served.matched alive
  refine ⟨front, left, texts, asked, taken, same, ahead, sent, fun values rest read whole => ?_⟩
  have stream : values.flatten ++ (rest ++ last.server.output.content) = texts.flatten := by
    rw [← sent, ← whole, List.append_assoc]
  exact respValues_front read replied stream

theorem serving_row {desc : RedisRequestDesc} (installed : (RedisLink.serving args).reqDesc = some desc) :
    desc ∈ cmdsRaw ∧ (RedisLink.serving args).recvString.head? = some desc.ssdbCmd := by
  unfold RedisLink.serving RedisLink.convertReq at *
  split at *
  · cases installed
  · next row found =>
      cases installed
      exact ⟨List.mem_reverse.mp (List.mem_of_find?_eq_some found), rfl⟩

/-- A server that knows `get` only, and gives the last digit of the number of requests before. -/
def tally (earlier : List (List Bytes)) (request : List Bytes) : List Bytes :=
  if request.head? = some (ascii "get") then [ascii "ok", decimal (earlier.length % 10)]
  else [ascii "error", ascii "only get"]

theorem tally_cases (earlier : List (List Bytes)) (request : List Bytes) :
    request.head? = some (ascii "get") ∧ (∃ digit < 10, tally earlier request = [ascii "ok", decimal digit]) ∨
      tally earlier request = [ascii "error", ascii "only get"] := by
  by_cases get : request.head? = some (ascii "get")
  · exact .inl ⟨get, _, Nat.mod_lt _ (by decide), if_pos get⟩
  · exact .inr (if_neg get)

theorem get_answered {desc : RedisRequestDesc} (installed : (RedisLink.serving args).reqDesc = some desc)
    (get : (converted args).head? = some (ascii "get")) : desc.replyType = .bulk ∧ desc.strategy = .auto := by
  have rows : ∀ desc ∈ cmdsRaw, desc.ssdbCmd = ascii "get" → desc.replyType = .bulk ∧ desc.strategy = .auto := by
    decide +kernel
  obtain ⟨row, named⟩ := serving_row installed
  exact rows desc row (Option.some.inj (named.symm.trans get))

theorem tally_responds : Responds tally := by
  have digits : ∀ digit < 10, Fits [ascii "ok", decimal digit] ∧ Clean (decimal digit) := by
    unfold Fits Sendable
    decide
  have error : Fits [ascii "error", ascii "only get"] := by
    unfold Fits Sendable
    decide
  refine ⟨fun earlier request => ?_, fun earlier request => ?_, fun earlier args _ => ?_, fun earlier args _ => ?_⟩
  · rcases tally_cases earlier request with ⟨_, digit, _, same⟩ | same <;> simp [same]
  · rcases tally_cases earlier request with ⟨_, digit, small, same⟩ | same
    · exact same ▸ (digits digit small).1
    · exact same ▸ error
  · rcases tally_cases earlier (converted args) with ⟨get, digit, _, same⟩ | same
    · rw [same]
      intro _ desc installed
      obtain ⟨bulk, auto⟩ := get_answered installed get
      simp [RedisLink.AnswersOk, bulk, auto]
    · rw [same]
      exact RedisLink.answerable_of_not_ok (by decide)
  · rcases tally_cases earlier (converted args) with ⟨_, digit, small, same⟩ | same
    · rw [same]
      simpa using (digits digit small).2
    · rw [same]
      decide

/-- The second request comes in two parts, and the server looks at a part of it. -/
def twoRequests : List Action :=
  [.ask [ascii "GET", ascii "a"], .ask [ascii "get", ascii "b"], .reads [.deliver 25], .serves .success,
    .serves .success, .reads [.deliver 99], .serves .einval, .serves .success, .writes [.accept 3],
    .writes [.accept 99]]

/-- Two values: no request before the first, one before the second. -/
def twoReplies : Bytes :=
  (ascii "$1" ++ (crlf ++ (ascii "0" ++ crlf))) ++ (ascii "$1" ++ (crlf ++ (ascii "1" ++ crlf)))

theorem twoRequests_run : ∃ last, run tally (fresh (fun _ => 0) (fun _ => 0) [] [] false) twoRequests = some last ∧
    last.server.output.oom = false ∧ last.taken = [[ascii "get", ascii "a"], [ascii "get", ascii "b"]] ∧
    last.down = twoReplies := by
  have ran : ((run tally (fresh (fun _ => 0) (fun _ => 0) [] [] false) twoRequests).map fun last =>
      (last.server.output.oom, last.taken, last.down)) =
      some (false, [[ascii "get", ascii "a"], [ascii "get", ascii "b"]], twoReplies) := by decide +kernel
  obtain ⟨last, same, shown⟩ := Option.map_eq_some_iff.mp ran
  simp only [Prod.mk.injEq] at shown
  exact ⟨last, same, shown⟩

theorem redis_replies_in_order_two :
    ∃ last, run tally (fresh (fun _ => 0) (fun _ => 0) [] [] false) twoRequests = some last ∧
      last.down = twoReplies ∧
      ∃ (done left : List (List Bytes)) (texts : List Bytes), last.asked = done ++ left ∧
        last.taken = done.map converted ∧ texts.map some = replies tally [] done ∧
        last.server.input.content ++ last.up = left.flatMap requestText ∧
        last.down ++ last.server.output.content = texts.flatten ∧
        ∀ values rest, (∀ value ∈ values, RespValue value) → values.flatten ++ rest = last.down →
          values <+: texts := by
  obtain ⟨last, ran, alive, _, down⟩ := twoRequests_run
  refine ⟨last, ran, down, redis_replies_in_order _ _ _ _ _ ran tally_responds ?_ alive⟩
  intro args member
  simp only [twoRequests, List.mem_cons, Action.ask.injEq, reduceCtorEq, or_false, List.not_mem_nil] at member
  rcases member with rfl | rfl <;> exact ⟨by simp, by decide +kernel⟩

end RedisExchange

end Dbss.Net
