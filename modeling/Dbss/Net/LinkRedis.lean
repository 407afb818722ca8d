import Dbss.Util.Buffer

namespace Dbss.Net

open Dbss.Data Dbss.Util

/-! `RedisLink` of `net/link_redis.h` and `net/link_redis.cpp`: the Redis
protocol seen by a link, translated to and from SSDB requests and replies. -/

inductive Reply where
  | bulk
  | multiBulk
  | int
  | status
deriving DecidableEq, Repr

inductive Strategy where
  | auto
  | ping
  | mget
  | hmget
  | hgetall
  | hkeys
  | hvals
  | setex
  | zrange
  | zrevrange
  | zrangebyscore
  | zrevrangebyscore
  | zadd
  | zincrby
  | remrangebyrank
  | remrangebyscore
deriving DecidableEq, Repr

structure RedisRequestDesc where
  strategy : Strategy
  redisCmd : Bytes
  ssdbCmd : Bytes
  replyType : Reply
deriving DecidableEq, Repr

private def command (strategy : Strategy) (redisCmd ssdbCmd : String) (replyType : Reply) :
    RedisRequestDesc :=
  ⟨strategy, ascii redisCmd, ascii ssdbCmd, replyType⟩

/-- `cmds_raw`, without the row of NULLs that ends it. -/
def cmdsRaw : List RedisRequestDesc := [
  command .ping "ping" "ping" .status,

  command .auto "get" "get" .bulk,
  command .auto "getset" "getset" .bulk,
  command .auto "set" "set" .status,
  command .auto "setnx" "setnx" .int,
  command .auto "exists" "exists" .int,
  command .auto "incr" "incr" .int,
  command .auto "decr" "decr" .int,
  command .auto "ttl" "ttl" .int,
  command .auto "expire" "expire" .int,
  command .auto "getbit" "getbit" .int,
  command .auto "setbit" "setbit" .int,
  command .auto "strlen" "strlen" .int,
  command .auto "bitcount" "redis_bitcount" .int,
  command .auto "substr" "getrange" .bulk,
  command .auto "getrange" "getrange" .bulk,
  command .auto "keys" "keys" .multiBulk,

  command .auto "hset" "hset" .int,
  command .auto "hget" "hget" .bulk,
  command .auto "hexists" "hexists" .int,

  command .auto "del" "multi_del" .int,
  command .auto "mset" "multi_set" .status,
  command .auto "incrby" "incr" .int,
  command .auto "decrby" "decr" .int,

  command .auto "hmset" "multi_hset" .status,
  command .auto "hdel" "multi_hdel" .int,
  command .auto "hmdel" "multi_hdel" .int,
  command .auto "hlen" "hsize" .int,
  command .auto "hincrby" "hincr" .int,

  command .auto "zcard" "zsize" .int,
  command .auto "zscore" "zget" .bulk,
  command .auto "zrem" "multi_zdel" .int,
  command .auto "zrank" "zrank" .int,
  command .auto "zrevrank" "zrrank" .int,
  command .auto "zcount" "zcount" .int,
  command .remrangebyrank "zremrangebyrank" "zremrangebyrank" .int,
  command .remrangebyscore "zremrangebyscore" "zremrangebyscore" .int,

  command .mget "mget" "multi_get" .multiBulk,
  command .hmget "hmget" "multi_hget" .multiBulk,

  command .hgetall "hgetall" "hgetall" .multiBulk,
  command .hkeys "hkeys" "hkeys" .multiBulk,
  command .hvals "hvals" "hvals" .multiBulk,
  command .setex "setex" "setx" .status,
  command .zrange "zrange" "zrange" .multiBulk,
  command .zrevrange "zrevrange" "zrrange" .multiBulk,
  command .zadd "zadd" "multi_zset" .int,
  command .zincrby "zincrby" "zincr" .bulk,
  command .zrangebyscore "zrangebyscore" "zscan" .multiBulk,
  command .zrevrangebyscore "zrevrangebyscore" "zrscan" .multiBulk,

  command .auto "lpush" "qpush_front" .int,
  command .auto "rpush" "qpush_back" .int,
  command .auto "lpop" "qpop_front" .bulk,
  command .auto "rpop" "qpop_back" .bulk,
  command .auto "llen" "qsize" .int,
  command .auto "lsize" "qsize" .int,
  command .auto "lindex" "qget" .bulk,
  command .auto "lset" "qset" .status,
  command .auto "lrange" "qslice" .multiBulk,

  command .auto "dbsize" "dbsize" .int]

/-- `cmd_table.find(cmd)`: the map holds the last row written for a name. -/
def cmdTable (cmd : Bytes) : Option RedisRequestDesc :=
  cmdsRaw.reverse.find? fun desc => desc.redisCmd == cmd

structure RedisLink where
  cmd : Bytes
  reqDesc : Option RedisRequestDesc
  recvBytes : List Bytes
  recvString : List Bytes
deriving DecidableEq, Repr

namespace RedisLink

def new : RedisLink :=
  { cmd := [], reqDesc := none, recvBytes := [], recvString := [] }

/-! ### `convert_req` -/

/-- `recv_bytes[index]`; every use is behind a test of the length. -/
def arg (args : List Bytes) (index : Nat) : Bytes :=
  args.getD index []

/-- STRATEGY_HKEYS and STRATEGY_HVALS. -/
def convertHkeys (args : List Bytes) : List Bytes :=
  if args.length = 2 then [arg args 1, [], [], ascii "2000000000"] else []

/-- STRATEGY_SETEX and STRATEGY_ZINCRBY: the last two arguments are swapped. -/
def convertSwapped (args : List Bytes) : List Bytes :=
  if args.length = 4 then [arg args 1, arg args 3, arg args 2] else []

/-- The loop of STRATEGY_ZADD from `i` on: `i <= recv_bytes.size() - 2` with
an unsigned difference, which the test around the loop keeps from wrapping. -/
def zaddPairs : List Bytes → List Bytes
  | score :: member :: rest => member :: score :: zaddPairs rest
  | _ => []

def convertZadd (args : List Bytes) : List Bytes :=
  if args.length ≥ 2 then arg args 1 :: zaddPairs (args.drop 2) else []

/-- STRATEGY_REMRANGEBYRANK and STRATEGY_REMRANGEBYSCORE. -/
def convertRemrange (args : List Bytes) : List Bytes :=
  if args.length ≥ 4 then [arg args 1, arg args 2, arg args 3] else []

/-- STRATEGY_ZRANGE and STRATEGY_ZREVRANGE.  The source's inner test for
STRATEGY_REMRANGEBYSCORE cannot hold here. -/
def convertZrange (args : List Bytes) (errno : Errno) : List Bytes × Errno :=
  let withscores := if args.length > 4 then [strToLower (arg args 4)] else []
  if args.length ≥ 4 then
    let start := strToInt64 (arg args 2) errno
    let stop := strToInt64 (arg args 3) start.2
    let range :=
      if (start.1 ≥ 0 ∧ stop.1 ≥ 0) ∨ stop.1 = -1 then
        let size := if stop.1 = -1 then -1 else wrap64 (wrap64 (stop.1 - start.1) + 1)
        [arg args 1, arg args 2, str size]
      else
        []
    (range ++ withscores, stop.2)
  else
    (withscores, errno)

/-- The variables of the clause scan of STRATEGY_ZRANGEBYSCORE. -/
structure Clauses where
  withscores : Bytes
  offset : Bytes
  count : Bytes
  afterLimit : Bool
deriving DecidableEq, Repr

def Clauses.read (clauses : Clauses) (word : Bytes) : Clauses :=
  let taken :=
    if clauses.afterLimit then
      if clauses.offset = [] then { clauses with offset := word }
      else { clauses with count := word, afterLimit := false }
    else
      clauses
  let lower := strToLower word
  if lower = ascii "withscores" then { taken with withscores := lower }
  else if lower = ascii "limit" then { taken with afterLimit := true }
  else taken

/-- One score bound.  An exclusive bound `(n` is moved by `shift` in `int`
arithmetic; both infinities become the empty text. -/
def scoreBound (bound : Bytes) (shift : Int) (errno : Errno) : Bytes × Errno :=
  if bound = ascii "-inf" ∨ bound = ascii "+inf" then
    ([], errno)
  else if bound.head? = some 40 then
    let number := strToInt bound.tail errno
    (str (wrap32 (number.1 + shift)), number.2)
  else
    (bound, errno)

/-- STRATEGY_ZRANGEBYSCORE and STRATEGY_ZREVRANGEBYSCORE. -/
def convertZrangebyscore (strategy : Strategy) (args : List Bytes) (errno : Errno) :
    List Bytes × Errno :=
  let long := args.length ≥ 4
  let name := if long then arg args 1 else []
  let smin := if long then arg args 2 else []
  let smax := if long then arg args 3 else []
  let clauses := (args.drop 4).foldl Clauses.read ⟨[], [], [], false⟩
  if smin = [] ∨ smax = [] then
    ([], errno)
  else
    let shift := if strategy = .zrangebyscore then 1 else -1
    let low := scoreBound smin shift errno
    let high := scoreBound smax (-shift) low.2
    ([name, [], low.1, high.1,
      if clauses.offset = [] then ascii "0" else clauses.offset,
      if clauses.count = [] then ascii "2000000000" else clauses.count,
      clauses.withscores], high.2)

/-- The arguments that follow the SSDB command in the converted request. -/
def convertArgs (strategy : Strategy) (args : List Bytes) (errno : Errno) : List Bytes × Errno :=
  match strategy with
  | .hkeys | .hvals => (convertHkeys args, errno)
  | .setex | .zincrby => (convertSwapped args, errno)
  | .zadd => (convertZadd args, errno)
  | .remrangebyrank | .remrangebyscore => (convertRemrange args, errno)
  | .zrange | .zrevrange => convertZrange args errno
  | .zrangebyscore | .zrevrangebyscore => convertZrangebyscore strategy args errno
  | .auto | .ping | .mget | .hmget | .hgetall => (args.tail, errno)

/-- `convert_req`, which fills the empty `recv_string` from `cmd` and `recv_bytes`. -/
def convertReq (link : RedisLink) (errno : Errno) : RedisLink × Errno :=
  match cmdTable link.cmd with
  | none => ({ link with reqDesc := none, recvString := link.cmd :: link.recvBytes.tail }, errno)
  | some desc =>
      let converted := convertArgs desc.strategy link.recvBytes errno
      ({ link with reqDesc := some desc, recvString := desc.ssdbCmd :: converted.1 }, converted.2)

/-! ### `parse_req` -/

/-- How the loop of `parse_req` ends, with `recv_bytes` as it stands then. -/
inductive Parsed where
  | error (args : List Bytes)
  | incomplete
  | complete (args : List Bytes) (parsed : Int)
deriving DecidableEq, Repr

/-- The loop of `parse_req`.  `strtol` is not told where the content ends: it
reads on from `ptr + 1` to the end of the block.  The tests made on the way
keep every `int` in range.  Each round moves `ptr` forward, so `fuel` rounds
are enough as soon as `fuel` exceeds `size`. -/
def parseLoop (input : Buffer) : Nat → (ptr size parsed numArgs : Int) → List Bytes → Errno →
    Parsed × Errno
  | 0, _, _, _, _, _, errno => (.incomplete, errno)
  | fuel + 1, ptr, size, parsed, numArgs, args, errno =>
      if size > 0 then
        match input.buf.memchr ptr.toNat 10 size.toNat with
        | none => (.incomplete, errno)
        | some found =>
            let lf := ptr + found + 1
            let size := size - (lf - ptr)
            let parsed := parsed + (lf - ptr)
            let text := input.buf.slice (ptr + 1).toNat (input.total - (ptr + 1)).toNat
            let number := strtol text errno
            let len := wrap32 number.value
            if number.errno = .einval then (.error args, number.errno)
            else if len < 0 then (.error args, number.errno)
            else if numArgs = 0 then
              if len ≤ 0 then (.error args, number.errno)
              else parseLoop input fuel lf size parsed len args number.errno
            else if len > size - 2 then (.incomplete, number.errno)
            else
              let args := args ++ [input.buf.slice lf.toNat len.toNat]
              if numArgs - 1 = 0 then (.complete args (parsed + (len + 2)), number.errno)
              else
                parseLoop input fuel (lf + (len + 2)) (size - (len + 2)) (parsed + (len + 2))
                  (numArgs - 1) args number.errno
      else
        (.incomplete, errno)

structure Reading (α : Type) where
  value : α
  link : RedisLink
  input : Buffer
  errno : Errno

/-- `parse_req`.  The first byte is read without a test for an empty buffer. -/
def parseReq (link : RedisLink) (input : Buffer) (errno : Errno) : Reading Int :=
  if input.buf input.data.toNat ≠ 42 then
    ⟨-1, { link with recvBytes := [] }, input, errno⟩
  else
    match parseLoop input (input.size.toNat + 1) input.data input.size 0 0 [] errno with
    | (.error args, errno) => ⟨-1, { link with recvBytes := args }, input, errno⟩
    | (.incomplete, errno) => ⟨0, { link with recvBytes := [] }, input, errno⟩
    | (.complete args parsed, errno) =>
        ⟨1, { link with recvBytes := args }, input.decr parsed, errno⟩

/-- `recv_req`; `none` is its NULL. -/
def recvReq (link : RedisLink) (input : Buffer) (errno : Errno) : Reading (Option (List Bytes)) :=
  let request := link.parseReq input errno
  if request.value = -1 then
    ⟨none, request.link, request.input, request.errno⟩
  else
    match request.link.recvBytes with
    | [] =>
        let room := request.input.makeRoom
        if room.1 then ⟨some [], request.link, room.2, request.errno⟩
        else ⟨none, request.link, room.2, request.errno⟩
    | first :: _ =>
        let converted := convertReq { request.link with cmd := strToLower first } request.errno
        let link := { converted.1 with recvBytes := converted.1.recvString }
        ⟨some link.recvBytes, link, request.input, converted.2⟩

/-! ### `send_resp` -/

/-- `"*%d\r\n"`. -/
def countLine (count : Int) : Bytes :=
  42 :: str count ++ crlf

/-- The three appends of a bulk value. -/
def bulkPieces (val : Bytes) : List Bytes :=
  [36 :: str (Bytes.size val) ++ crlf, val, crlf]

def nilBulk : Bytes := ascii "$-1" ++ crlf

/-- The loop of STRATEGY_MGET and STRATEGY_HMGET over the requested keys and
the key, value pairs of the reply.  The reply has been tested to hold whole
pairs, so a list without two elements is at its end. -/
def mergePieces : List Bytes → List Bytes → List Bytes
  | [], _ => []
  | reqKey :: reqKeys, respKey :: val :: more =>
      if reqKey ≠ respKey then nilBulk :: mergePieces reqKeys (respKey :: val :: more)
      else bulkPieces val ++ mergePieces reqKeys more
  | _ :: reqKeys, rest => nilBulk :: mergePieces reqKeys rest

/-- The elements the last loop of `send_resp` visits when it skips scores. -/
def everyOther : List Bytes → List Bytes
  | [] => []
  | [last] => [last]
  | val :: _ :: rest => val :: everyOther rest

/-- STRATEGY_MGET and STRATEGY_HMGET; `skip` is the offset of the first key in
`recv_string`.  An iterator started beyond the end never meets it: `none`. -/
def mgetPieces (recvString : List Bytes) (skip : Nat) (resp : List Bytes) : Option (List Bytes) :=
  if resp.length % 2 ≠ 1 then
    some [ascii "*0"]
  else if recvString.length < skip then
    none
  else
    some (countLine (wrap32 (wrap32 recvString.length - skip)) ::
      mergePieces (recvString.drop skip) resp.tail)

/-- Whether the elements after each listed one are left out. -/
def withScores (strategy : Strategy) (recvString : List Bytes) : Bool :=
  if strategy = .zrange ∨ strategy = .zrevrange then
    recvString[4]? == some (ascii "withscores")
  else if strategy = .zrangebyscore ∨ strategy = .zrevrangebyscore then
    recvString.getLast? == some (ascii "withscores")
  else
    true

/-- REPLY_MULTI_BULK.  The counter of the loop is an `int`: `none` where it
would overflow. -/
def multiBulkPieces (withscores : Bool) (resp : List Bytes) : Option (List Bytes) :=
  if int32Max < resp.length then
    none
  else
    let count : Int := resp.length - 1
    if withscores then some (countLine count :: resp.tail.flatMap bulkPieces)
    else some (countLine (count / 2) :: (everyOther resp.tail).flatMap bulkPieces)

/-- REPLY_BULK and REPLY_INT print `resp[1]`, or `$0` when there is none. -/
def replyOk (desc : RedisRequestDesc) (recvString resp : List Bytes) : Option (List Bytes) :=
  if desc.strategy = .ping then
    some [ascii "+PONG" ++ crlf]
  else if desc.replyType = .status then
    some [ascii "+OK" ++ crlf]
  else if desc.strategy = .mget then
    mgetPieces recvString 1 resp
  else if desc.strategy = .hmget then
    mgetPieces recvString 2 resp
  else
    match desc.replyType, resp with
    | .bulk, _ :: val :: _ => some (bulkPieces val)
    | .int, _ :: val :: _ => some [ascii ":", val, crlf]
    | .bulk, _ | .int, _ => some [ascii "$0" ++ crlf]
    | .multiBulk, _ => multiBulkPieces (withScores desc.strategy recvString) resp
    | .status, _ => some [ascii "-ERR server error" ++ crlf]

/-- The arguments of the calls of `output->append` that `send_resp` makes, in
order; no branch looks at `output`. -/
def respPieces (link : RedisLink) (resp : List Bytes) : Option (List Bytes) :=
  match resp with
  | [] => some []
  | code :: rest =>
      if code = ascii "error" ∨ code = ascii "fail" ∨ code = ascii "client_error" then
        some (ascii "-ERR " :: (rest.take 1 ++ [crlf]))
      else if code = ascii "noauth" then
        some (ascii "-NOAUTH " :: (rest.take 1 ++ [crlf]))
      else if code = ascii "not_found" then
        some [nilBulk]
      else if code ≠ ascii "ok" then
        some [ascii "-ERR server error" ++ crlf]
      else
        match link.reqDesc with
        | none => some [ascii "+OK" ++ crlf]
        | some desc => replyOk desc link.recvString resp

/-- `send_resp`; the results of the appends are ignored. -/
def sendResp (link : RedisLink) (output : Buffer) (resp : List Bytes) : Option (Int × Buffer) :=
  (link.respPieces resp).map fun pieces =>
    (0, pieces.foldl (fun output piece => (output.append piece).2) output)

end RedisLink

end Dbss.Net
