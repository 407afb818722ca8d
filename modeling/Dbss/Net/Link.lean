import Dbss.Net.Host
import Dbss.Net.LinkRedis

namespace Dbss.Net

open Dbss.Data Dbss.Util

/-! `Link` of `net/link.h` and `net/link.cpp`: the receiving and the sending
half of a connection. -/

def maxPacketSize : Nat := 32 * 1024 * 1024

def zeroBufferSize : Int := 8

/-- A connected `Link`.  `recv_data` is returned by value. -/
structure Link where
  noblock : Bool
  redis : Option RedisLink
  input : Buffer
  output : Buffer

structure Call (α : Type) where
  value : α
  link : Link
  host : Host

namespace Link

/-- `Link()` of a client: two blocks of eight bytes. -/
def new (inputBlock outputBlock : Block) (inputReallocs outputReallocs : List Bool) : Link :=
  { noblock := false
    redis := none
    input := .new inputBlock inputReallocs zeroBufferSize
    output := .new outputBlock outputReallocs zeroBufferSize }

/-- A link whose input holds `bytes` and has room for `room` more. -/
def holding (bytes : Bytes) (room : Nat) : Link :=
  { noblock := false, redis := none, input := .holding bytes room, output := .holding [] 8 }

/-! ### `recv` -/

/-- The variables `head` (as an offset into the block), `size` and `parsed`. -/
structure Cursor where
  head : Int
  size : Int
  parsed : Int
deriving DecidableEq, Repr

def Cursor.advance (cursor : Cursor) (count : Int) : Cursor :=
  ⟨cursor.head + count, cursor.size - count, cursor.parsed + count⟩

/-- "ignore leading empty lines" -/
def skipBlank (block : Block) : Nat → Cursor → Cursor
  | 0, cursor => cursor
  | fuel + 1, cursor =>
      if cursor.size > 0 ∧ (block cursor.head.toNat = 10 ∨ block cursor.head.toNat = 13) then
        skipBlank block fuel (cursor.advance 1)
      else
        cursor

/-- How the parse ends: `return NULL`, the exits to "not ready", or a packet
and the number of bytes it took. -/
inductive Scan where
  | null
  | notReady
  | packet (data : List Bytes) (parsed : Int)
deriving DecidableEq, Repr

def recordEnd (block : Block) (cursor : Cursor) : Option Int :=
  if cursor.size > 0 ∧ block cursor.head.toNat = 10 then some 1
  else if cursor.size > 1 ∧ block cursor.head.toNat = 13 ∧ block (cursor.head + 1).toNat = 10 then some 2
  else none

/-- The record loop.  Each round moves `head` forward, so `fuel` rounds are
enough as soon as `fuel` exceeds `size`. -/
def recvLoop (block : Block) : Nat → Cursor → List Bytes → Scan
  | 0, _, _ => .notReady
  | fuel + 1, cursor, data =>
      if cursor.size > 0 then
        match block.memchr cursor.head.toNat 10 cursor.size.toNat with
        | none => .notReady
        | some found =>
            let body := cursor.head + found + 1
            let headLen := body - cursor.head
            let first := block cursor.head.toNat
            if headLen = 1 ∨ (headLen = 2 ∧ first = 13) then
              -- packet end
              .packet data (cursor.parsed + headLen)
            else if first < 48 ∨ 57 < first then
              .null
            else if headLen > 20 - 1 then
              .null
            else
              let bodyLen := atoi (block.slice cursor.head.toNat (headLen - 1).toNat)
              if bodyLen < 0 then
                .null
              else
                let used := wrap32 (headLen + bodyLen)
                let size := wrap32 (cursor.size - used)
                if size < 0 then
                  .notReady
                else
                  let data := data ++ [block.slice body.toNat bodyLen.toNat]
                  let after : Cursor := ⟨cursor.head + used, size, cursor.parsed + used⟩
                  match recordEnd block after with
                  | none => .notReady
                  | some ending =>
                      let next := after.advance ending
                      if next.parsed > maxPacketSize then .null
                      else recvLoop block fuel next data
      else
        .notReady

/-- What `recv` gives back and changes; the value `none` is its NULL. -/
structure Received where
  value : Option (List Bytes)
  link : Link
  errno : Errno

def recv (link : Link) (errno : Errno) : Received :=
  if link.input.empty then
    ⟨some [], link, errno⟩
  else if link.input.buf link.input.data.toNat = 42 then
    -- Redis protocol supports
    let reading := (link.redis.getD .new).recvReq link.input errno
    ⟨reading.value, { link with redis := some reading.link, input := reading.input }, reading.errno⟩
  else
    let fuel := link.input.size.toNat
    let start := skipBlank link.input.buf fuel ⟨link.input.data, link.input.size, 0⟩
    match recvLoop link.input.buf (fuel + 1) start [] with
    | .null => ⟨none, link, errno⟩
    | .packet data parsed => ⟨some data, { link with input := link.input.decr parsed }, errno⟩
    | .notReady =>
        let room := link.input.makeRoom
        ⟨if room.1 then some [] else none, { link with input := room.2 }, errno⟩

/-! ### `send` -/

/-- The loop of `send` and the final newline. -/
def sendRecords (output : Buffer) (resp : List Bytes) : Buffer :=
  ((resp.foldl (fun output record => (output.appendRecord record).2) output).append [10]).2

/-- `send(const std::vector<std::string> &)`; `none` where `send_resp` is undefined. -/
def send (link : Link) (resp : List Bytes) : Option (Int × Link) :=
  if resp = [] then
    some (0, link)
  else
    match link.redis with
    | some redis =>
        (redis.sendResp link.output resp).map fun sent => (sent.1, { link with output := sent.2 })
    | none => some (0, { link with output := sendRecords link.output resp })

/-! ### `read` and `response` -/

/-- The loop of `read` from a state where `ret` bytes have been stored.  A
blocking call with nothing to deliver does not return. -/
def readLoop (noblock : Bool) : List ReadOutcome → Buffer → Host → Int → Run (Int × Buffer × Host)
  | [], input, host, ret => if input.space > 0 then .waiting else .done (ret, input, host)
  | outcome :: reads, input, host, ret =>
      if input.space > 0 then
        let host := { host with reads := reads, asked := host.asked ++ [input.space] }
        match outcome with
        | .fail code =>
            let host := { host with errno := code }
            if code = .eintr then readLoop noblock reads input host ret
            else if code = .ewouldblock then .done (ret, input, host)
            else .done (-1, input, host)
        | .eof => .done (0, input, host)
        | .deliver more =>
            let bytes := host.inflight.take (min (more + 1) input.space.toNat)
            if bytes = [] then
              .waiting
            else
              let input := (input.write input.slot bytes).incr bytes.length
              let host := { host with delivered := host.delivered + bytes.length }
              let ret := ret + bytes.length
              if noblock then readLoop noblock reads input host ret else .done (ret, input, host)
      else
        .done (ret, input, host)

def read (link : Link) (host : Host) : Run (Call Int) :=
  let input := if link.input.total = zeroBufferSize then link.input.grow.2 else link.input
  (readLoop link.noblock host.reads input.nice host 0).bind fun stored =>
    .done ⟨stored.1, { link with input := stored.2.1 }, stored.2.2⟩

/-- The loop of `response`.  A round that does not return has used up at least
one outcome of the schedule, which bounds the rounds. -/
def responseLoop : Nat → Link → Host → Run (Call (Option (List Bytes)))
  | 0, _, _ => .waiting
  | rounds + 1, link, host =>
      let received := link.recv host.errno
      let host := { host with errno := received.errno }
      match received.value with
      | none => .done ⟨none, received.link, host⟩
      | some [] =>
          (received.link.read host).bind fun call =>
            if call.value ≤ 0 then .done ⟨none, call.link, call.host⟩
            else responseLoop rounds call.link call.host
      | some (first :: rest) => .done ⟨some (first :: rest), received.link, host⟩

def response (link : Link) (host : Host) : Run (Call (Option (List Bytes))) :=
  responseLoop (host.reads.length + 1) link host

/-! ### `write` and `flush` -/

/-- The loop of `write`; the value `none` is its `return -1`, which leaves
without `nice`. -/
def writeLoop (noblock : Bool) : List WriteOutcome → Buffer → Host → Int →
    Run (Option Int × Buffer × Host)
  | [], output, host, ret => if output.size > 0 then .waiting else .done (some ret, output, host)
  | outcome :: writes, output, host, ret =>
      if output.size > 0 then
        let host := { host with writes := writes }
        match outcome with
        | .fail code =>
            let host := { host with errno := code }
            if code = .eintr then writeLoop noblock writes output host ret
            else if code = .ewouldblock then .done (some ret, output, host)
            else .done (none, output, host)
        | .accept count =>
            let len := min count output.size.toNat
            if len = 0 then
              .done (some ret, output, host)
            else
              let host := { host with accepted := host.accepted ++ output.content.take len }
              let output := output.decr len
              let ret := ret + len
              if noblock then writeLoop noblock writes output host ret
              else .done (some ret, output, host)
      else
        .done (some ret, output, host)

def write (link : Link) (host : Host) : Run (Call Int) :=
  let output := if link.output.total = zeroBufferSize then link.output.grow.2 else link.output
  (writeLoop link.noblock host.writes output host 0).bind fun written =>
    match written.1 with
    | none => .done ⟨-1, { link with output := written.2.1 }, written.2.2⟩
    | some ret => .done ⟨ret, { link with output := written.2.1.nice }, written.2.2⟩

/-- The loop of `flush`.  Every `write` it makes uses up an outcome of the
schedule, which bounds the rounds. -/
def flushLoop : Nat → Link → Host → Int → Run (Call Int)
  | 0, _, _, _ => .waiting
  | rounds + 1, link, host, len =>
      if link.output.empty then
        .done ⟨len, link, host⟩
      else
        (link.write host).bind fun call =>
          if call.value = -1 then .done ⟨-1, call.link, call.host⟩
          else flushLoop rounds call.link call.host (len + call.value)

def flush (link : Link) (host : Host) : Run (Call Int) :=
  flushLoop (host.writes.length + 1) link host 0

end Link

end Dbss.Net
