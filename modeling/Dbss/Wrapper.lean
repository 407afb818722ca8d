import Dbss.Wrapper.Operation

namespace Dbss

open Dbss.Data Dbss.Util

/-! The methods of class `DBSS` and the `extern "C"` entries over them. -/

/-- `char const **keys` with its `size`, where an entry may be NULL.  Reading
stops at `size` or at a NULL, and one of the two comes before the memory ends.
No memory holds an array whose size a `uint64_t` cannot count. -/
structure KeyArray where
  entries : List (Option Bytes)
  size : Nat
  readable : size ≤ entries.length ∨ none ∈ entries

def KeyArray.collect : Nat → List (Option Bytes) → List Bytes
  | left + 1, some key :: rest => cString key :: collect left rest
  | _, _ => []

def KeyArray.keys (array : KeyArray) : List Bytes :=
  collect array.size array.entries

/-- `char const **kvs` with its `size`; an odd `size` still reads whole pairs. -/
structure KvArray where
  strings : List Bytes
  size : Nat
  readable : size + size % 2 ≤ strings.length

/-- The loop `for(i = 0; i < size; i += 2)` over keys and values. -/
def KvArray.collect : Nat → List Bytes → List (Bytes × Bytes)
  | left + 1, key :: val :: rest => (cString key, cString val) :: collect (left - 1) rest
  | _, _ => []

def KvArray.pairs (array : KvArray) : List (Bytes × Bytes) :=
  collect array.size array.strings

structure ScoreArray where
  entries : List (Bytes × Int)
  size : Nat
  readable : size ≤ entries.length

def ScoreArray.pairs (array : ScoreArray) : List (Bytes × Int) :=
  (array.entries.take array.size).map fun entry => (cString entry.1, entry.2)

def okResult (s : Status) : Int :=
  if s.ok then 1 else 0

def orDefault (value default : UInt64) : UInt64 :=
  if value = 0 then default else value

def statusMethod (command : Command Status) : Operation Returned :=
  command.thenDo fun errno s => { ret := okResult s, s, errno }

@[simp] theorem statusMethod_requests (command : Command Status) :
    (statusMethod command).requests = [command.req] := rfl

/-- The methods that also have `ClientImpl` store a number in `*ret`. -/
def int64Method (command : Command Int64Reply) : Operation Returned :=
  command.thenDo fun _ reply =>
    { ret := okResult reply.status, s := reply.status, errno := reply.errno, num := reply.ret }

/-- The methods that copy a list into a table of `table` bytes. -/
def listMethod (table : UInt64) (cellSize : Bytes → Nat) (command : Command ListReply) :
    Operation Returned :=
  command.thenDo fun errno reply =>
    { ret := okResult reply.status, s := reply.status, errno
      vec := some ((Vec.fresh (some table.toNat)).fill cellSize reply.ret) }

/-- The same inside a `try`, with no command where a NULL makes `std::string`
throw.  By then the table is allocated, and the `catch` block empties the list. -/
def tryListMethod (table : UInt64) (cellSize : Bytes → Nat) (command : Option (Command ListReply)) :
    Operation Returned :=
  match command with
  | some command => listMethod table cellSize command
  | none =>
      .thrown fun s errno =>
        { ret := okResult s, s, errno, vec := some (Vec.fresh (some table.toNat)) }

/-- A `try` with the defaults for `limit` and `vlen`, and cells of `vlen` bytes. -/
def vlenMethod (limit vlen : UInt64) (command : UInt64 → Option (Command ListReply)) :
    Operation Returned :=
  let limit := orDefault limit 10
  let vlen := orDefault vlen 128
  tryListMethod (limit * vlen) (fun _ => vlen.toNat) (command limit)

namespace DBSS

/-- `DBSS(ip, port)`: what `connect` returns is dropped, so the link may be NULL. -/
def new (link : Option Net.Link) : DBSS :=
  ⟨⟨link, []⟩, {}⟩

def set (key val : Bytes) : Operation Returned :=
  (ClientImpl.set (cString key) (cString val)).thenDo fun errno s =>
    { ret := if s.ok then 1 else -1, s, errno }

def setx (key val : Bytes) (ttl : Int) : Operation Returned :=
  (ClientImpl.setx (cString key) (cString val) ttl).thenDo fun errno s =>
    { ret := if s.ok then 1 else -1, s, errno }

def get (key : Bytes) : Operation Returned :=
  (ClientImpl.get (cString key)).thenDo fun errno reply =>
    let s := reply.status
    let v := reply.ret.getD []
    { ret := 1, s, errno
      writes :=
        if s.ok then [(v.length + 1, [0]), strcpy v]
        else if s.notFound then [strcpy []]
        else [] }

def keys (limit vlen : UInt64) (keyStart keyEnd : Option Bytes) : Operation Returned :=
  vlenMethod limit vlen fun limit => do
    return ClientImpl.keys (← stdString keyStart) (← stdString keyEnd) limit

def del (key : Bytes) : Operation Returned :=
  statusMethod (ClientImpl.del (cString key))

def scan (keyStart keyEnd : Option Bytes) (limit vlen : UInt64) : Operation Returned :=
  vlenMethod limit vlen fun limit => do
    return ClientImpl.scan (← stdString keyStart) (← stdString keyEnd) limit

def incr (key : Bytes) (incrby : Int) : Operation Returned :=
  int64Method (ClientImpl.incr (cString key) incrby)

def rscan (keyStart keyEnd : Option Bytes) (limit vlen : UInt64) : Operation Returned :=
  vlenMethod limit vlen fun limit => do
    return ClientImpl.rscan (← stdString keyStart) (← stdString keyEnd) limit

def multiGet (keys : KeyArray) (vlen : UInt64) : Operation Returned :=
  listMethod (UInt64.ofNat keys.size * vlen) strlen (ClientImpl.multiGet keys.keys)

def multiSet (kvs : KvArray) : Operation Returned :=
  (ClientImpl.multiSet (.ofPairs kvs.pairs)).thenDo fun errno s => { ret := 1, s, errno }

def multiDel (keys : KeyArray) : Operation Returned :=
  statusMethod (ClientImpl.multiDel keys.keys)

def hget (name key : Bytes) : Operation Returned :=
  (ClientImpl.hget (cString name) (cString key)).thenDo fun errno reply =>
    { ret := okResult reply.status, s := reply.status, errno
      writes := [strcpy (reply.ret.getD [])] }

def hset (name key val : Bytes) : Operation Returned :=
  statusMethod (ClientImpl.hset (cString name) (cString key) (cString val))

def hdel (name key : Bytes) : Operation Returned :=
  statusMethod (ClientImpl.hdel (cString name) (cString key))

def hincr (name key : Bytes) (incrby : Int) : Operation Returned :=
  int64Method (ClientImpl.hincr (cString name) (cString key) incrby)

def hsize (name : Bytes) : Operation Returned :=
  int64Method (ClientImpl.hsize (cString name))

def hclear (name : Bytes) : Operation Returned :=
  int64Method (ClientImpl.hclear (cString name))

def hkeys (name : Option Bytes) (limit vlen : UInt64) (keyStart keyEnd : Option Bytes) :
    Operation Returned :=
  tryListMethod (limit * vlen) strlen do
    return ClientImpl.hkeys (← stdString name) (← stdString keyStart) (← stdString keyEnd) limit

/-- The table is allocated after the reply, at 1000 bytes a string, so a NULL
`name` leaves `ptr` as it was. -/
def hgetall (name : Option Bytes) : Operation Returned :=
  match stdString name with
  | some name =>
      (ClientImpl.hgetall name).thenDo fun errno reply =>
        { ret := okResult reply.status, s := reply.status, errno
          vec := some ((Vec.fresh (some (UInt64.ofNat reply.ret.length * 1000).toNat)).fill strlen reply.ret) }
  | none => .thrown fun s errno => { ret := okResult s, s, errno, vec := some (Vec.fresh none) }

def hscan (name : Option Bytes) (limit vlen : UInt64) (keyStart keyEnd : Option Bytes) :
    Operation Returned :=
  tryListMethod (limit * vlen) strlen do
    return ClientImpl.hscan (← stdString name) (← stdString keyStart) (← stdString keyEnd) limit

def hrscan (name : Option Bytes) (limit vlen : UInt64) (keyStart keyEnd : Option Bytes) :
    Operation Returned :=
  tryListMethod (limit * vlen) strlen do
    return ClientImpl.hrscan (← stdString name) (← stdString keyStart) (← stdString keyEnd) limit

def multiHget (name : Bytes) (keys : KeyArray) (vlen : UInt64) : Operation Returned :=
  listMethod (UInt64.ofNat keys.size * vlen) strlen (ClientImpl.multiHget (cString name) keys.keys)

def multiHset (name : Bytes) (kvs : KvArray) : Operation Returned :=
  statusMethod (ClientImpl.multiHset (cString name) (.ofPairs kvs.pairs))

def multiHdel (name : Bytes) (keys : KeyArray) : Operation Returned :=
  statusMethod (ClientImpl.multiHdel (cString name) keys.keys)

def zget (name key : Bytes) : Operation Returned :=
  int64Method (ClientImpl.zget (cString name) (cString key))

def zset (name key : Bytes) (score : Int) : Operation Returned :=
  statusMethod (ClientImpl.zset (cString name) (cString key) score)

def zdel (name key : Bytes) : Operation Returned :=
  statusMethod (ClientImpl.zdel (cString name) (cString key))

def zincr (name key : Bytes) (incrby : Int) : Operation Returned :=
  int64Method (ClientImpl.zincr (cString name) (cString key) incrby)

def zsize (name : Bytes) : Operation Returned :=
  int64Method (ClientImpl.zsize (cString name))

def zclear (name : Bytes) : Operation Returned :=
  int64Method (ClientImpl.zclear (cString name))

def zrank (name key : Bytes) : Operation Returned :=
  int64Method (ClientImpl.zrank (cString name) (cString key))

def zrrank (name key : Bytes) : Operation Returned :=
  int64Method (ClientImpl.zrrank (cString name) (cString key))

def zrange (name : Option Bytes) (offset limit vlen : UInt64) : Operation Returned :=
  vlenMethod limit vlen fun limit => do
    return ClientImpl.zrange (← stdString name) offset limit

def zrrange (name : Option Bytes) (offset limit vlen : UInt64) : Operation Returned :=
  vlenMethod limit vlen fun limit => do
    return ClientImpl.zrrange (← stdString name) offset limit

def zkeys (name keyStart : Option Bytes) (scoreStart scoreEnd : Option Int) (limit vlen : UInt64) :
    Operation Returned :=
  vlenMethod limit vlen fun limit => do
    return ClientImpl.zkeys (← stdString name) (← stdString keyStart) scoreStart scoreEnd limit

def zscan (name keyStart : Option Bytes) (scoreStart scoreEnd : Option Int) (limit vlen : UInt64) :
    Operation Returned :=
  vlenMethod limit vlen fun limit => do
    return ClientImpl.zscan (← stdString name) (← stdString keyStart) scoreStart scoreEnd limit

def zrscan (name keyStart : Option Bytes) (scoreStart scoreEnd : Option Int) (limit vlen : UInt64) :
    Operation Returned :=
  vlenMethod limit vlen fun limit => do
    return ClientImpl.zrscan (← stdString name) (← stdString keyStart) scoreStart scoreEnd limit

def multiZget (name : Bytes) (keys : KeyArray) (vlen : UInt64) : Operation Returned :=
  listMethod (UInt64.ofNat keys.size * vlen) strlen (ClientImpl.multiZget (cString name) keys.keys)

def multiZset (name : Bytes) (kss : ScoreArray) : Operation Returned :=
  statusMethod (ClientImpl.multiZset (cString name) (.ofPairs kss.pairs))

def multiZdel (name : Bytes) (keys : KeyArray) : Operation Returned :=
  statusMethod (ClientImpl.multiZdel (cString name) keys.keys)

def qpush (key val : Bytes) : Operation Returned :=
  statusMethod (ClientImpl.qpush (cString key) (cString val))

def qpop (key : Bytes) : Operation Returned :=
  (ClientImpl.qpop (cString key)).thenDo fun errno reply =>
    { ret := okResult reply.status, s := reply.status, errno
      writes := [strcpy (reply.ret.getD [])] }

/-- The table has `v.size() * vlen` bytes; no `extern "C"` entry calls this. -/
def qslice (name : Bytes) (begin «end» : Int) (vlen : UInt64) : Operation Returned :=
  (ClientImpl.qslice (cString name) begin «end»).thenDo fun errno reply =>
    { ret := okResult reply.status, s := reply.status, errno
      vec := some ((Vec.fresh (some (UInt64.ofNat reply.ret.length * vlen).toNat)).fill strlen reply.ret) }

end DBSS

/-- The local `char val[255]` of `DBSS_get`. -/
def dbssGetBuffer : Nat := 255

/-- `DBSS_get`: `get` fills the local `val`, which then goes to the caller's
`v`, cleared over the size of `val` first.  The result is always 1. -/
def dbssGet (key : Bytes) : Operation Returned :=
  (DBSS.get key).map fun inner =>
    { inner with
      ret := 1
      writes := [(0, List.replicate dbssGetBuffer 0), strcpy (bufferText inner.writes)] }

def dbssSeti (key : Bytes) (val : Int) : Operation Returned :=
  DBSS.set key (str val)

def dbssSetxi (key : Bytes) (val ttl : Int) : Operation Returned :=
  DBSS.setx key (str val) ttl

end Dbss
