import Dbss.Net.LinkRedis.State
import Dbss.Resp.Format

namespace Dbss.Net.RedisLink

open Dbss.Data Dbss.Util Dbss.Resp

/-! `send_resp` writes one value of the Redis format, or fails to. -/

variable {link : RedisLink} {output : Buffer} {resp pieces recvString keys pairs texts : List Bytes}
  {text val : Bytes} {desc : RedisRequestDesc}

/-! ### Pieces -/

/-- Replies whose lengths are `int`s. -/
def Sized (resp : List Bytes) : Prop :=
  resp.length < 2147483648 ∧ ∀ text ∈ resp, text.length < 2147483648

/-- The appends `pieces` write `text`, and each of them is one `append` can make. -/
structure Writes (pieces : List Bytes) (text : Bytes) : Prop where
  flatten : pieces.flatten = text
  short : ∀ piece ∈ pieces, piece.length < 2147483648

theorem Writes.append {more : List Bytes} {after : Bytes} (first : Writes pieces text)
    (second : Writes more after) : Writes (pieces ++ more) (text ++ after) :=
  ⟨by rw [List.flatten_append, first.flatten, second.flatten], fun piece member => by
    rcases List.mem_append.mp member with early | late
    · exact first.short piece early
    · exact second.short piece late⟩

theorem single_writes (short : text.length < 2147483648) : Writes [text] text :=
  ⟨by simp, by simpa using short⟩

theorem lengthLine_length_lt {mark : UInt8} {length : Nat} (bound : length < 2147483648) :
    (lengthLine mark length).length < 2147483648 := by
  have digits : (decimal length).length ≤ 10 := decimal_length_le (by decide) (by omega)
  rw [lengthLine_length]
  omega

theorem countLine_writes {count : Nat} (bound : count < 2147483648) :
    Writes [countLine count] (lengthLine 42 count) := by
  have text : countLine count = lengthLine 42 count := by
    rw [countLine, str_natCast]
    rfl
  rw [text]
  exact single_writes (lengthLine_length_lt bound)

theorem bulkPieces_writes (short : val.length < 2147483648) :
    Writes (bulkPieces val) (bulkText val) := by
  have pieces : bulkPieces val = [lengthLine 36 val.length, val, crlf] := by
    rw [bulkPieces, size_of_short short, str_natCast]
    rfl
  rw [pieces]
  refine ⟨by simp [bulkText], fun piece member => ?_⟩
  simp only [List.mem_cons, List.not_mem_nil, or_false] at member
  rcases member with rfl | rfl | rfl
  · exact lengthLine_length_lt short
  · exact short
  · decide

theorem nilBulk_writes : Writes [nilBulk] (ascii "$-1" ++ crlf) :=
  ⟨by simp [nilBulk], by simp [nilBulk, ascii, crlf]⟩

theorem mergePieces_writes (keys : List Bytes) (sized : ∀ text ∈ pairs, text.length < 2147483648) :
    ∃ values : List Bytes, Writes (mergePieces keys pairs) values.flatten ∧
      values.length = keys.length ∧ ∀ value ∈ values, Bulk value := by
  fun_induction mergePieces keys pairs with
  | case1 => exact ⟨[], ⟨rfl, by simp⟩, rfl, by simp⟩
  | case2 key keys respKey val more different ih =>
      obtain ⟨values, writes, count, bulks⟩ := ih sized
      refine ⟨_ :: values, nilBulk_writes.append writes, by simp [count], ?_⟩
      simpa using ⟨.nil, bulks⟩
  | case3 key keys respKey val more different ih =>
      obtain ⟨values, writes, count, bulks⟩ := ih fun text member => sized text (by simp [member])
      refine ⟨_ :: values, (bulkPieces_writes (sized val (by simp))).append writes, by simp [count], ?_⟩
      simpa using ⟨.val val, bulks⟩
  | case4 key keys pairs _ ih =>
      obtain ⟨values, writes, count, bulks⟩ := ih sized
      refine ⟨_ :: values, nilBulk_writes.append writes, by simp [count], ?_⟩
      simpa using ⟨.nil, bulks⟩

theorem bulks_writes (sized : ∀ text ∈ texts, text.length < 2147483648) :
    Writes (texts.flatMap bulkPieces) (texts.map bulkText).flatten := by
  induction texts with
  | nil => exact ⟨rfl, by simp⟩
  | cons text others ih =>
      exact (bulkPieces_writes (sized text (by simp))).append
        (ih fun other member => sized other (by simp [member]))

theorem everyOther_length (texts : List Bytes) : (everyOther texts).length = (texts.length + 1) / 2 := by
  fun_induction everyOther texts with
  | case1 => rfl
  | case2 => simp
  | case3 val _ rest ih => simp only [List.length_cons, ih]; omega

theorem everyOther_subset (texts : List Bytes) : everyOther texts ⊆ texts := by
  fun_induction everyOther texts with
  | case1 => simp
  | case2 => simp
  | case3 val skipped rest ih =>
      exact List.cons_subset_cons _ fun text member => List.mem_cons_of_mem _ (ih member)

/-- The appends of a whole reply: what they write starts with a mark. -/
structure Replies (pieces : List Bytes) (text : Bytes) : Prop extends Writes pieces text where
  marked : ∃ mark others, text = mark :: others ∧ isDigit mark = false

/-! ### One value or not -/

/-- When the reply to a successful request comes out as one value: pairs have to
come in full, a single value has to be there, and where every second element is
left out their number has to be even. -/
def AnswersOk (desc : RedisRequestDesc) (recvString resp : List Bytes) : Prop :=
  if desc.strategy = .ping ∨ desc.replyType = .status then True
  else if desc.strategy = .mget then resp.length % 2 = 1
  else if desc.strategy = .hmget then resp.length % 2 = 1 ∧ 2 ≤ recvString.length
  else if desc.replyType = .multiBulk then
    withScores desc.strategy recvString = true ∨ resp.length % 2 = 1
  else 2 ≤ resp.length

theorem mgetPieces_odd {skip : Nat} (sized : Sized resp) (bounded : recvString.length < 2147483648)
    (odd : resp.length % 2 = 1) (present : skip ≤ recvString.length) :
    ∃ pieces text, mgetPieces recvString skip resp = some pieces ∧ Replies pieces text ∧
      RespValue text := by
  obtain ⟨values, writes, count, bulks⟩ := mergePieces_writes (recvString.drop skip)
    fun text (member : text ∈ resp.tail) => sized.2 text (List.mem_of_mem_tail member)
  have number : wrap32 (wrap32 (recvString.length : Int) - skip) = ((recvString.drop skip).length : Nat) := by
    rw [List.length_drop]
    unfold wrap32
    omega
  refine ⟨[countLine (recvString.drop skip).length] ++ mergePieces (recvString.drop skip) resp.tail, _,
    by rw [mgetPieces, if_neg (by simpa using odd), if_neg (by omega), number]; rfl,
    ⟨(countLine_writes ?_).append writes, _, _, rfl, rfl⟩, ?_⟩
  · rw [List.length_drop]
    omega
  · rw [← count]
    exact .multi bulks

theorem mgetPieces_even (recvString : List Bytes) {skip : Nat} (even : resp.length % 2 ≠ 1) :
    ∃ pieces text, mgetPieces recvString skip resp = some pieces ∧ Replies pieces text ∧
      ¬ RespValue text := by
  refine ⟨_, _, if_pos even, ⟨single_writes (by decide), _, _, rfl, rfl⟩, fun reply => ?_⟩
  exact absurd reply.has_cr (by decide)

theorem mgetPieces_cases (skip : Nat) (sized : Sized resp) (bounded : recvString.length < 2147483648) :
    mgetPieces recvString skip resp = none ∧ ¬ (resp.length % 2 = 1 ∧ skip ≤ recvString.length) ∨
      ∃ pieces text, mgetPieces recvString skip resp = some pieces ∧ Replies pieces text ∧
        (RespValue text ↔ resp.length % 2 = 1 ∧ skip ≤ recvString.length) := by
  by_cases odd : resp.length % 2 = 1
  · by_cases present : skip ≤ recvString.length
    · obtain ⟨pieces, text, reply, replies, value⟩ := mgetPieces_odd sized bounded odd present
      exact .inr ⟨pieces, text, reply, replies, iff_of_true value ⟨odd, present⟩⟩
    · refine .inl ⟨?_, fun both => present both.2⟩
      rw [mgetPieces, if_neg (by simpa using odd), if_pos (by omega)]
  · obtain ⟨pieces, text, reply, replies, broken⟩ := mgetPieces_even recvString odd
    exact .inr ⟨pieces, text, reply, replies, iff_of_false broken fun both => odd both.1⟩

theorem mem_map_bulkText {value : Bytes} (member : value ∈ texts.map bulkText) : Bulk value := by
  obtain ⟨val, _, rfl⟩ := List.mem_map.mp member
  exact .val val

/-- The count that is announced is right exactly where all elements are listed,
or where every second one is left out of an even number. -/
theorem multiBulkPieces_iff {withscores : Bool} (sized : Sized resp) (nonempty : resp ≠ []) :
    ∃ pieces text, multiBulkPieces withscores resp = some pieces ∧ Replies pieces text ∧
      (RespValue text ↔ withscores = true ∨ resp.length % 2 = 1) := by
  obtain ⟨code, rest, rfl⟩ := List.exists_cons_of_ne_nil nonempty
  obtain ⟨length, short⟩ := sized
  rw [List.length_cons] at length
  have addressed : ¬ int32Max < ((code :: rest).length : Int) := by
    rw [List.length_cons, int32Max]
    omega
  have count : ((code :: rest).length : Int) - 1 = (rest.length : Nat) := by simp
  have half : (rest.length : Int) / 2 = ((rest.length / 2 : Nat) : Int) := by omega
  have each : ∀ text ∈ rest, text.length < 2147483648 := fun text member => short text (by simp [member])
  unfold multiBulkPieces
  rw [if_neg addressed]
  simp only [count, half, List.tail_cons]
  cases withscores with
  | true =>
      refine ⟨_, _, rfl, ⟨(countLine_writes (by omega)).append (bulks_writes each), _, _, rfl, rfl⟩, ?_⟩
      refine iff_of_true ?_ (.inl rfl)
      rw [show rest.length = (rest.map bulkText).length by simp]
      exact .multi fun value => mem_map_bulkText
  | false =>
      refine ⟨_, _, rfl, ⟨(countLine_writes (by omega)).append
        (bulks_writes fun text member => each text (everyOther_subset rest member)), _, _, rfl, rfl⟩, ?_⟩
      have listed : ((everyOther rest).map bulkText).length = (rest.length + 1) / 2 := by
        rw [List.length_map, everyOther_length]
      constructor
      · intro reply
        have announced := reply.multi_length fun value => mem_map_bulkText
        rw [listed] at announced
        apply Or.inr
        rw [List.length_cons]
        omega
      · intro even
        have odd := even.resolve_left (by decide)
        rw [List.length_cons] at odd
        rw [show rest.length / 2 = ((everyOther rest).map bulkText).length by omega]
        exact .multi fun value => mem_map_bulkText

theorem replyOk_cases (desc : RedisRequestDesc) (sized : Sized resp) (nonempty : resp ≠ [])
    (bounded : recvString.length < 2147483648) (occupied : recvString ≠ []) :
    replyOk desc recvString resp = none ∧ ¬ AnswersOk desc recvString resp ∨
      ∃ pieces text, replyOk desc recvString resp = some pieces ∧ Replies pieces text ∧
        ((desc.replyType = .int → ∀ text ∈ resp[1]?, Clean text) →
          (RespValue text ↔ AnswersOk desc recvString resp)) := by
  have first : 1 ≤ recvString.length := List.length_pos_iff.mpr occupied
  unfold replyOk AnswersOk
  by_cases ping : desc.strategy = .ping
  · rw [if_pos ping, if_pos (.inl ping)]
    exact .inr ⟨_, _, rfl, ⟨single_writes (by decide), _, _, rfl, rfl⟩, fun _ =>
      iff_of_true (.line 43 (ascii "PONG") (.inl rfl) (by decide)) trivial⟩
  by_cases status : desc.replyType = .status
  · rw [if_neg ping, if_pos status, if_pos (.inr status)]
    exact .inr ⟨_, _, rfl, ⟨single_writes (by decide), _, _, rfl, rfl⟩, fun _ =>
      iff_of_true (.line 43 (ascii "OK") (.inl rfl) (by decide)) trivial⟩
  rw [if_neg ping, if_neg status, if_neg (not_or.mpr ⟨ping, status⟩)]
  by_cases mget : desc.strategy = .mget
  · have cases := mgetPieces_cases 1 sized bounded
    rw [and_iff_left first] at cases
    rw [if_pos mget, if_pos mget]
    rcases cases with none | ⟨pieces, text, reply, replies, value⟩
    · exact .inl none
    · exact .inr ⟨pieces, text, reply, replies, fun _ => value⟩
  rw [if_neg mget, if_neg mget]
  by_cases hmget : desc.strategy = .hmget
  · rw [if_pos hmget, if_pos hmget]
    rcases mgetPieces_cases 2 sized bounded with none | ⟨pieces, text, reply, replies, value⟩
    · exact .inl none
    · exact .inr ⟨pieces, text, reply, replies, fun _ => value⟩
  rw [if_neg hmget, if_neg hmget]
  obtain ⟨code, rest, rfl⟩ := List.exists_cons_of_ne_nil nonempty
  have missing : Replies [ascii "$0" ++ crlf] (ascii "$0" ++ crlf) :=
    ⟨single_writes (by decide), _, _, rfl, rfl⟩
  cases kind : desc.replyType with
  | status => exact absurd kind status
  | multiBulk =>
      rw [if_pos rfl]
      obtain ⟨pieces, text, reply, replies, value⟩ := multiBulkPieces_iff sized nonempty
      exact .inr ⟨pieces, text, reply, replies, fun _ => value⟩
  | bulk =>
      rw [if_neg (by simp)]
      cases rest with
      | nil => exact .inr ⟨_, _, rfl, missing, fun _ => iff_of_false not_respValue_dollar (by simp)⟩
      | cons val more =>
          exact .inr ⟨_, _, rfl, ⟨bulkPieces_writes (sized.2 val (by simp)), _, _, rfl, rfl⟩,
            fun _ => iff_of_true (.bulk (.val val)) (by simp)⟩
  | int =>
      rw [if_neg (by simp)]
      cases rest with
      | nil => exact .inr ⟨_, _, rfl, missing, fun _ => iff_of_false not_respValue_dollar (by simp)⟩
      | cons val more =>
          have writes : Writes [ascii ":", val, crlf] (ascii ":" ++ (val ++ crlf)) :=
            (single_writes (by decide)).append
              ((single_writes (sized.2 val (by simp))).append (single_writes (by decide)))
          exact .inr ⟨_, _, rfl, ⟨writes, _, _, rfl, rfl⟩, fun clean => iff_of_true
            (.line 58 val (.inr (.inr rfl)) (clean rfl val (by simp))) (by simp)⟩

/-! ### `send_resp` -/

/-- The second element of the response is printed as error or integer text. -/
def PrintsText (link : RedisLink) (resp : List Bytes) : Prop :=
  resp.head? = some (ascii "error") ∨ resp.head? = some (ascii "fail") ∨
    resp.head? = some (ascii "client_error") ∨ resp.head? = some (ascii "noauth") ∨
    resp.head? = some (ascii "ok") ∧ ∃ desc, link.reqDesc = some desc ∧ desc.replyType = .int

/-- When the reply comes out as one value. -/
def Answerable (link : RedisLink) (resp : List Bytes) : Prop :=
  resp.head? = some (ascii "ok") → ∀ desc, link.reqDesc = some desc →
    AnswersOk desc link.recvString resp

theorem errorLine_replies (start : Bytes) {rest : List Bytes} (short : start.length < 2147483648)
    (marked : ∃ others, start = 45 :: others ∧ Clean others)
    (sized : ∀ text ∈ rest, text.length < 2147483648) :
    ∃ text, Replies (start :: (rest.take 1 ++ [crlf])) text ∧
      ((∀ text ∈ rest[0]?, Clean text) → RespValue text) := by
  obtain ⟨others, rfl, startClean⟩ := marked
  cases rest with
  | nil =>
      exact ⟨_, ⟨(single_writes short).append (single_writes (by decide)), _, _, rfl, rfl⟩,
        fun _ => .line 45 others (.inr (.inl rfl)) startClean⟩
  | cons text more =>
      refine ⟨_, ⟨(single_writes short).append ((single_writes (sized text (by simp))).append
        (single_writes (show crlf.length < _ by decide))), _, _, rfl, rfl⟩, fun clean => ?_⟩
      have textClean := clean text (by simp)
      have whole : RespValue (45 :: ((others ++ text) ++ crlf)) :=
        .line 45 _ (.inr (.inl rfl)) ⟨by simp [startClean.1, textClean.1], by simp [startClean.2, textClean.2]⟩
      simpa using whole

theorem answerable_of_not_ok {code : Bytes} {rest : List Bytes} (other : code ≠ ascii "ok") :
    Answerable link (code :: rest) := fun ok => absurd (Option.some.inj ok) other

theorem respPieces_cases (stored : Stored link) (nonempty : resp ≠ []) (sized : Sized resp) :
    link.respPieces resp = none ∧ ¬ Answerable link resp ∨
      ∃ pieces text, link.respPieces resp = some pieces ∧ Replies pieces text ∧
        ((PrintsText link resp → ∀ text ∈ resp[1]?, Clean text) →
          (RespValue text ↔ Answerable link resp)) := by
  obtain ⟨code, rest, rfl⟩ := List.exists_cons_of_ne_nil nonempty
  have sizes : ∀ text ∈ rest, text.length < 2147483648 := fun text member => sized.2 text (by simp [member])
  unfold respPieces
  simp only
  by_cases error : code = ascii "error" ∨ code = ascii "fail" ∨ code = ascii "client_error"
  · have printed : PrintsText link (code :: rest) := by
      rcases error with rfl | rfl | rfl <;> simp [PrintsText]
    obtain ⟨text, replies, value⟩ := errorLine_replies (ascii "-ERR ") (by decide)
      ⟨ascii "ERR ", rfl, by decide⟩ sizes
    rw [if_pos error]
    refine .inr ⟨_, text, rfl, replies, fun clean =>
      iff_of_true (value (clean printed)) (answerable_of_not_ok ?_)⟩
    rcases error with rfl | rfl | rfl <;> decide
  rw [if_neg error]
  by_cases noauth : code = ascii "noauth"
  · have printed : PrintsText link (code :: rest) := by simp [PrintsText, noauth]
    obtain ⟨text, replies, value⟩ := errorLine_replies (ascii "-NOAUTH ") (by decide)
      ⟨ascii "NOAUTH ", rfl, by decide⟩ sizes
    rw [if_pos noauth]
    exact .inr ⟨_, text, rfl, replies, fun clean =>
      iff_of_true (value (clean printed)) (answerable_of_not_ok (by rw [noauth]; decide))⟩
  rw [if_neg noauth]
  by_cases notFound : code = ascii "not_found"
  · rw [if_pos notFound]
    exact .inr ⟨_, _, rfl, ⟨nilBulk_writes, _, _, rfl, rfl⟩, fun _ =>
      iff_of_true (.bulk .nil) (answerable_of_not_ok (by rw [notFound]; decide))⟩
  rw [if_neg notFound]
  by_cases ok : code = ascii "ok"
  · rw [if_neg (by simpa using ok)]
    cases desc : link.reqDesc with
    | none =>
        refine .inr ⟨_, _, rfl, ⟨single_writes (by decide), _, _, rfl, rfl⟩, fun _ => iff_of_true
          (.line 43 (ascii "OK") (.inl rfl) (by decide)) fun _ other found => ?_⟩
        simp [desc] at found
    | some found =>
        have answers : AnswersOk found link.recvString (code :: rest) ↔ Answerable link (code :: rest) := by
          simp [Answerable, ok, desc]
        have printed : found.replyType = .int → PrintsText link (code :: rest) := fun int => by
          simp [PrintsText, ok, desc, int]
        rw [← answers]
        obtain ⟨occupied, bounded⟩ := stored found desc
        rcases replyOk_cases found sized nonempty bounded occupied with
          none | ⟨pieces, text, reply, replies, value⟩
        · exact .inl none
        · exact .inr ⟨pieces, text, reply, replies, fun clean => value (clean ∘ printed)⟩
  · rw [if_pos ok]
    exact .inr ⟨_, _, rfl, ⟨single_writes (by decide), _, _, rfl, rfl⟩, fun _ => iff_of_true
      (.line 45 (ascii "ERR server error") (.inr (.inl rfl)) (by decide))
      (answerable_of_not_ok ok)⟩

def Sends (link : RedisLink) (output : Buffer) (resp : List Bytes) (text : Bytes) : Prop :=
  ∃ after, link.sendResp output resp = some (0, after) ∧ after.content = output.content ++ text

theorem sendResp_appends (valid : output.WellFormed) (reply : link.respPieces resp = some pieces)
    (writes : Writes pieces text) :
    ∃ after, link.sendResp output resp = some (0, after) ∧ Buffer.Appends output after text := by
  refine ⟨_, by rw [sendResp, reply]; rfl, ?_⟩
  rw [← writes.flatten, ← List.flatMap_id']
  exact valid.foldl_appends fun piece member before ready =>
    ready.append_appends (writes.short piece member)

/-- The reply to a complete request is exactly one value as long as the response
has the shape that the request's reply type needs. -/
theorem sendResp_respValue_iff (reached : Reached link) (nonempty : resp ≠ []) (sized : Sized resp)
    (clean : PrintsText link resp → ∀ text ∈ resp[1]?, Clean text) (valid : output.WellFormed)
    (alive : ∀ sent, link.sendResp output resp = some sent → sent.2.oom = false) :
    (∃ text, RespValue text ∧ Sends link output resp text) ↔ Answerable link resp := by
  rcases respPieces_cases reached.stored nonempty sized with
    ⟨undefined, broken⟩ | ⟨pieces, written, reply, replies, value⟩
  · refine iff_of_false ?_ broken
    intro replied
    obtain ⟨text, _, after, sent, _⟩ := replied
    rw [sendResp, undefined] at sent
    simp at sent
  · obtain ⟨after, sent, appends⟩ := sendResp_appends valid reply replies.toWrites
    have content := appends.added (alive _ sent)
    rw [← value clean]
    constructor
    · intro replied
      obtain ⟨text, respValue, other, alsoSent, added⟩ := replied
      rw [sent] at alsoSent
      cases alsoSent
      rw [content] at added
      rwa [List.append_cancel_left added]
    · exact fun respValue => ⟨written, respValue, after, sent, content⟩

def afterMget : Reading (Option (List Bytes)) :=
  RedisLink.new.recvReq (.holding (requestText [ascii "mget", ascii "k"]) 8) .success

theorem afterMget_reached : Reached afterMget.link :=
  ⟨.new, .holding (requestText [ascii "mget", ascii "k"]) 8, .success, [ascii "multi_get", ascii "k"],
    Buffer.holding_wellFormed (by decide), by decide, by decide, rfl⟩

theorem sendResp_respValue_iff_mget :
    (∃ text, RespValue text ∧
      Sends afterMget.link (.holding [] 64) [ascii "ok", ascii "k", ascii "v"] text) ↔
      Answerable afterMget.link [ascii "ok", ascii "k", ascii "v"] := by
  refine sendResp_respValue_iff afterMget_reached (by decide) ⟨by decide, by decide⟩
    (fun _ => by decide) (Buffer.holding_wellFormed (by decide)) fun sent done => ?_
  have alive : (afterMget.link.sendResp (.holding [] 64) [ascii "ok", ascii "k", ascii "v"]).map
      (·.2.oom) = some false := by decide
  rw [done] at alive
  simpa using alive

/-- A response that ends within a pair is answered with `*0` and no line end. -/
theorem not_sendResp_respValue_mget :
    afterMget.value = some [ascii "multi_get", ascii "k"] ∧
      ¬ ∃ text, RespValue text ∧ Sends afterMget.link (.holding [] 64) [ascii "ok", ascii "k"] text := by
  refine ⟨by decide, ?_⟩
  intro replied
  obtain ⟨text, value, after, sent, added⟩ := replied
  have content : (afterMget.link.sendResp (.holding [] 64) [ascii "ok", ascii "k"]).map
      (·.2.content) = some (ascii "*0") := by decide
  rw [sent] at content
  simp only [Option.map_some, Option.some.injEq, added, Buffer.holding_content, List.nil_append] at content
  have present := value.has_cr
  rw [content] at present
  exact absurd present (by decide)

end Dbss.Net.RedisLink
