import Dbss.Net.LinkRedis.Reply
import Dbss.Ssdb.Store

namespace Dbss.Net.RedisLink

open Dbss.Data Dbss.Util Dbss.Resp Dbss.Ssdb

/-! MGET and HMGET: the reply has one entry for each requested key, in order. -/

inductive MultiGet where
  | mget
  | hmget (name : Bytes)

namespace MultiGet

def redisCmd : MultiGet → Bytes
  | mget => ascii "mget"
  | hmget _ => ascii "hmget"

def desc : MultiGet → RedisRequestDesc
  | mget => ⟨.mget, ascii "mget", ascii "multi_get", .multiBulk⟩
  | hmget _ => ⟨.hmget, ascii "hmget", ascii "multi_hget", .multiBulk⟩

def args (keys : List Bytes) : MultiGet → List Bytes
  | mget => keys
  | hmget name => name :: keys

end MultiGet

variable {link : RedisLink} {input output : Buffer} {errno : Errno} {values : Bytes → Option Bytes}
  {keys : List Bytes} {command : MultiGet} {word : Bytes}

def entryText : Option Bytes → Bytes
  | some value => bulkText value
  | none => ascii "$-1" ++ crlf

/-- `*n` and an entry for each requested key. -/
def alignedText (values : Bytes → Option Bytes) (keys : List Bytes) : Bytes :=
  lengthLine 42 keys.length ++ keys.flatMap fun key => entryText (values key)

theorem foundPairs_cons (values : Bytes → Option Bytes) (key : Bytes) (keys : List Bytes) :
    Store.foundPairs values (key :: keys) =
      ((values key).map fun value => [key, value]).getD [] ++ Store.foundPairs values keys := rfl

theorem foundPairs_even (values : Bytes → Option Bytes) (keys : List Bytes) :
    (Store.foundPairs values keys).length % 2 = 0 := by
  induction keys with
  | nil => rfl
  | cons key rest ih =>
      rw [foundPairs_cons, List.length_append]
      cases values key with
      | none => simpa using ih
      | some value =>
          simp only [Option.map_some, Option.getD_some, List.length_cons, List.length_nil]
          omega

theorem foundPairs_head (values : Bytes → Option Bytes) (keys : List Bytes) :
    Store.foundPairs values keys = [] ∨ ∃ key value more,
      Store.foundPairs values keys = key :: value :: more ∧ values key = some value := by
  induction keys with
  | nil => exact .inl rfl
  | cons key rest ih =>
      rw [foundPairs_cons]
      cases found : values key with
      | none => simpa using ih
      | some value => exact .inr ⟨key, value, Store.foundPairs values rest, by simp, found⟩

theorem mergePieces_missing {key : Bytes} (missing : values key = none) (rest : List Bytes) :
    mergePieces (key :: rest) (Store.foundPairs values keys) =
      nilBulk :: mergePieces rest (Store.foundPairs values keys) := by
  rcases foundPairs_head values keys with empty | ⟨found, value, more, pairs, present⟩
  · rw [empty]
    rfl
  · have different : key ≠ found := by
      rintro rfl
      simp [missing] at present
    rw [pairs, mergePieces, if_pos different]

/-- The one-pass merge gives every key its own value: a pair that is not yet
used belongs to a key that is still to come. -/
theorem mergePieces_aligned
    (sized : ∀ key ∈ keys, ∀ value ∈ values key, value.length < 2147483648) :
    Writes (mergePieces keys (Store.foundPairs values keys))
      (keys.flatMap fun key => entryText (values key)) := by
  induction keys with
  | nil => exact ⟨rfl, by simp [mergePieces]⟩
  | cons key rest ih =>
      have later := ih fun other member => sized other (List.mem_cons_of_mem _ member)
      rw [foundPairs_cons, List.flatMap_cons]
      cases found : values key with
      | none =>
          rw [Option.map_none, Option.getD_none, List.nil_append, mergePieces_missing found]
          exact nilBulk_writes.append later
      | some value =>
          have merged : mergePieces (key :: rest) ([key, value] ++ Store.foundPairs values rest) =
              bulkPieces value ++ mergePieces rest (Store.foundPairs values rest) := by
            rw [List.cons_append, List.cons_append, mergePieces, if_neg (by simp)]
            rfl
          rw [Option.map_some, Option.getD_some, merged]
          exact (bulkPieces_writes (sized key List.mem_cons_self value found)).append later

/-! ### Received requests -/

theorem convertReq_multiGet (cmd : link.cmd = command.redisCmd)
    (args : link.recvBytes = word :: command.args keys) (errno : Errno) :
    (convertReq link errno).1.reqDesc = some command.desc ∧
      (convertReq link errno).1.recvString = command.desc.ssdbCmd :: command.args keys := by
  rw [convertReq, cmd, args]
  cases command <;> exact ⟨rfl, rfl⟩

theorem recvReq_multiGet (complete : (link.parseReq input errno).value = 1)
    (received : (link.parseReq input errno).link.recvBytes = word :: command.args keys)
    (named : strToLower word = command.redisCmd) :
    (link.recvReq input errno).link.reqDesc = some command.desc ∧
      (link.recvReq input errno).link.recvString = command.desc.ssdbCmd :: command.args keys := by
  unfold recvReq
  generalize link.parseReq input errno = request at *
  rw [if_neg (by rw [complete]; decide), received]
  exact convertReq_multiGet (show RedisLink.cmd { request.link with cmd := strToLower word } = _ from named)
    received request.errno

theorem respPieces_multiGet {pairs : List Bytes} (desc : link.reqDesc = some command.desc)
    (request : link.recvString = command.desc.ssdbCmd :: command.args keys)
    (bound : link.recvString.length < 2147483648) (even : pairs.length % 2 = 0) :
    link.respPieces (ascii "ok" :: pairs) =
      some (countLine keys.length :: mergePieces keys pairs) := by
  have odd : (ascii "ok" :: pairs).length % 2 = 1 := by
    rw [List.length_cons]
    omega
  have count {skip : Nat} (whole : link.recvString.length = keys.length + skip) :
      wrap32 (wrap32 (link.recvString.length : Int) - skip) = keys.length := by
    unfold wrap32
    omega
  have reply : link.respPieces (ascii "ok" :: pairs) = replyOk command.desc link.recvString (ascii "ok" :: pairs) := by
    simp only [respPieces, desc]
    rfl
  rw [reply]
  cases command with
  | mget =>
      have whole : link.recvString.length = keys.length + 1 := by simp [request, MultiGet.args]
      have merged : replyOk MultiGet.mget.desc link.recvString (ascii "ok" :: pairs) =
          mgetPieces link.recvString 1 (ascii "ok" :: pairs) := rfl
      rw [merged, mgetPieces, if_neg (not_not.mpr odd), if_neg (by omega), count whole, request]
      rfl
  | hmget name =>
      have whole : link.recvString.length = keys.length + 2 := by simp [request, MultiGet.args]
      have merged : replyOk (MultiGet.hmget name).desc link.recvString (ascii "ok" :: pairs) =
          mgetPieces link.recvString 2 (ascii "ok" :: pairs) := rfl
      rw [merged, mgetPieces, if_neg (not_not.mpr odd), if_neg (by omega), count whole, request]
      rfl

/-- The reply to `keys`, if the keys with a value in `values` are those found,
is `*n` and an entry for each key; appending it may run out of memory. -/
def LinesUp (link : RedisLink) (output : Buffer) (values : Bytes → Option Bytes) (keys : List Bytes) : Prop :=
  ∃ sent, link.sendResp output (ascii "ok" :: Store.foundPairs values keys) = some (0, sent) ∧
    Buffer.Appends output sent (alignedText values keys)

/-- Values line up with the keys they were requested by, as long as their
lengths are `int`s. -/
theorem multiGet_linesUp (command : MultiGet) (valid : input.WellFormed)
    (complete : (link.parseReq input errno).value = 1)
    (received : (link.parseReq input errno).link.recvBytes = word :: command.args keys)
    (named : strToLower word = command.redisCmd) (ready : output.WellFormed)
    (sized : ∀ key ∈ keys, ∀ value ∈ values key, value.length < 2147483648) :
    LinesUp (link.recvReq input errno).link output values keys := by
  obtain ⟨desc, request⟩ := recvReq_multiGet complete received named
  have bound := (link.parseReq_bounds valid errno).2.2.1 (by rw [complete]; decide)
  rw [received] at bound
  have counted : keys.length ≤ (command.args keys).length := by cases command <;> simp [MultiGet.args]
  have reply := respPieces_multiGet desc request (by rw [request]; exact bound) (foundPairs_even values keys)
  rw [List.length_cons] at bound
  exact sendResp_appends ready reply
    ((countLine_writes (by omega)).append (mergePieces_aligned sized))

/-- A server that knows the key `a` only. -/
def onlyA (key : Bytes) : Option Bytes :=
  if key = ascii "a" then some (ascii "1") else none

theorem multiGet_linesUp_repeated :
    LinesUp (RedisLink.new.recvReq
      (.holding (requestText [ascii "MGET", ascii "b", ascii "a", ascii "a"]) 8) .success).link
      (.holding [] 64) onlyA [ascii "b", ascii "a", ascii "a"] :=
  multiGet_linesUp .mget (Buffer.holding_wellFormed (by decide)) (by decide)
    (show _ = ascii "MGET" :: _ by decide) (by decide) (Buffer.holding_wellFormed (by decide)) (by decide)

theorem foldl_append_congr {first second : Bytes} (size : Bytes.size first = Bytes.size second)
    (front : first.take (Bytes.size first).toNat = second.take (Bytes.size second).toNat)
    (output : Buffer) (before after : List Bytes) :
    (before ++ first :: after).foldl (fun output piece => (output.append piece).2) output =
      (before ++ second :: after).foldl (fun output piece => (output.append piece).2) output := by
  have same (output : Buffer) : output.append first = output.append second := by
    unfold Buffer.append
    rw [size] at front
    simp only [size, front]
  simp only [List.foldl_append, List.foldl_cons, same]

/-- What the output holds once `send_resp` has taken a value of `2^32 + 1` bytes for one byte. -/
def narrowedReply : Buffer :=
  [countLine 1, 36 :: str 1 ++ crlf, [97], crlf].foldl
    (fun output piece => (output.append piece).2) (.holding [] 64)

theorem narrowedReply_short : narrowedReply.oom = false ∧ narrowedReply.content.length ≤ 11 := by
  decide

theorem respPieces_mget_value (value : Bytes) :
    afterMget.link.respPieces (ascii "ok" :: Store.foundPairs (fun _ => some value) [ascii "k"]) =
      some [countLine 1, 36 :: str (Bytes.size value) ++ crlf, value, crlf] :=
  have desc : afterMget.link.reqDesc = some MultiGet.mget.desc := by decide
  have request : afterMget.link.recvString = MultiGet.mget.desc.ssdbCmd :: MultiGet.mget.args [ascii "k"] := by
    decide
  respPieces_multiGet desc request (by decide) (foundPairs_even _ _)

theorem sendResp_narrowed {value : Bytes} (size : Bytes.size value = 1) (front : value.take 1 = [97]) :
    afterMget.link.sendResp (.holding [] 64)
      (ascii "ok" :: Store.foundPairs (fun _ => some value) [ascii "k"]) = some (0, narrowedReply) := by
  have one : Bytes.size [97] = 1 := by decide
  have narrowed := foldl_append_congr (size.trans one.symm) (by rw [size, one]; exact front)
    (.holding [] 64) [countLine 1, 36 :: str 1 ++ crlf] [crlf]
  rw [sendResp, respPieces_mget_value, size]
  exact congrArg (fun sent => some (0, sent)) narrowed

theorem not_linesUp_of_narrowed {value : Bytes} (long : 11 < value.length) (size : Bytes.size value = 1)
    (front : value.take 1 = [97]) :
    ¬ LinesUp afterMget.link (.holding [] 64) (fun _ => some value) [ascii "k"] := by
  rintro ⟨sent, done, appends⟩
  rw [sendResp_narrowed size front] at done
  obtain rfl : narrowedReply = sent := (Prod.mk.inj (Option.some.inj done)).2
  obtain ⟨alive, short⟩ := narrowedReply_short
  have added := congrArg List.length (appends.added alive)
  simp only [alignedText, entryText, bulkText, List.flatMap_cons, List.flatMap_nil, List.length_append] at added
  omega

/-- The length line announces what the `int` makes of the size. -/
theorem mget_long_value :
    ¬ LinesUp afterMget.link (.holding [] 64) (fun _ => some (List.replicate 4294967297 97)) [ascii "k"] := by
  have length : (List.replicate 4294967297 (97 : UInt8)).length = 4294967297 := List.length_replicate
  refine not_linesUp_of_narrowed (by rw [length]; decide) ?_ ?_
  · rw [Bytes.size, length]
    decide
  · rw [List.take_replicate, Nat.min_eq_left (by decide)]
    rfl

end Dbss.Net.RedisLink
