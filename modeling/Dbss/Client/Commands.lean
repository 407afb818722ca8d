import Dbss.Client
import Dbss.Data.OrderedMap

namespace Dbss

open Dbss.Data Dbss.Util

/-! The commands of `ClientImpl`.  Each builds a request, hands it to
`ClientImpl::request` and reads the reply; here a command is the request and
the reading. -/

/-- The code of a reply; the default is that of `Status()`. -/
structure Status where
  code : Bytes := []
deriving DecidableEq, Repr

namespace Status

def ok (s : Status) : Bool :=
  s.code == ascii "ok"

def notFound (s : Status) : Bool :=
  s.code == ascii "not_found"

/-- `Status(const std::vector<std::string> *)`, where NULL is `none`. -/
def ofResp : Option (List Bytes) → Status
  | some (code :: _) => ⟨code⟩
  | _ => ⟨ascii "error"⟩

end Status

/-- What `_read_list` returns and pushes onto an empty `ret`. -/
structure ListReply where
  status : Status
  ret : List Bytes
deriving DecidableEq, Repr

/-- What `_read_int64` returns and stores in `*ret`, with `errno` afterwards.
With `none` it leaves `*ret` as it was. -/
structure Int64Reply where
  status : Status
  ret : Option Int
  errno : Errno
deriving DecidableEq, Repr

structure StrReply where
  status : Status
  ret : Option Bytes
deriving DecidableEq, Repr

def readList (resp : Option (List Bytes)) : ListReply :=
  let s := Status.ofResp resp
  ⟨s, if s.ok then (resp.getD []).drop 1 else []⟩

def readInt64 (resp : Option (List Bytes)) (errno : Errno) : Int64Reply :=
  let s := Status.ofResp resp
  if s.ok then
    match (resp.getD [])[1]? with
    | some text =>
        let read := strToInt64 text errno
        ⟨s, some read.1, read.2⟩
    | none => ⟨⟨ascii "server_error"⟩, none, errno⟩
  else
    ⟨s, none, errno⟩

def readStr (resp : Option (List Bytes)) : StrReply :=
  let s := Status.ofResp resp
  if s.ok then
    match (resp.getD [])[1]? with
    | some text => ⟨s, some text⟩
    | none => ⟨⟨ascii "server_error"⟩, none⟩
  else
    ⟨s, none⟩

/-- A command: the request and how the reply to it is read.  Reading a number
starts from the `errno` at that moment. -/
structure Command (α : Type) where
  req : List Bytes
  read : Errno → Option (List Bytes) → α

namespace Command

def status (req : List Bytes) : Command Status :=
  ⟨req, fun _ resp => .ofResp resp⟩

@[simp] theorem status_req (req : List Bytes) : (status req).req = req := rfl

def list (req : List Bytes) : Command ListReply :=
  ⟨req, fun _ resp => readList resp⟩

def int64 (req : List Bytes) : Command Int64Reply :=
  ⟨req, fun errno resp => readInt64 resp errno⟩

def string (req : List Bytes) : Command StrReply :=
  ⟨req, fun _ resp => readStr resp⟩

end Command

/-- Bytes compare as unsigned numbers, as `char_traits<char>` compares them. -/
instance byteOrder : LinearOrder UInt8 where
  le_refl _ := UInt8.le_refl _
  le_trans _ _ _ := UInt8.le_trans
  le_antisymm _ _ := UInt8.le_antisymm
  le_total := UInt8.le_total
  lt_iff_le_not_ge _ _ := by simp only [UInt8.lt_iff_toNat_lt, UInt8.le_iff_toNat_le]; omega
  toDecidableLE := inferInstance
  toDecidableEq := inferInstance
  toDecidableLT := inferInstance

/-- The loop that turns a map into the tail of a request. -/
def flatten (entries : List (Bytes × Bytes)) : List Bytes :=
  entries.flatMap fun entry => [entry.1, entry.2]

def strUInt64 (value : UInt64) : Bytes :=
  decimal value.toNat

namespace ClientImpl

def get (key : Bytes) : Command StrReply :=
  .string [ascii "get", key]

def set (key val : Bytes) : Command Status :=
  .status [ascii "set", key, val]

def setx (key val : Bytes) (ttl : Int) : Command Status :=
  .status [ascii "setx", key, val, str ttl]

def del (key : Bytes) : Command Status :=
  .status [ascii "del", key]

def incr (key : Bytes) (incrby : Int) : Command Int64Reply :=
  .int64 [ascii "incr", key, str incrby]

def keys (keyStart keyEnd : Bytes) (limit : UInt64) : Command ListReply :=
  .list [ascii "keys", keyStart, keyEnd, strUInt64 limit]

def scan (keyStart keyEnd : Bytes) (limit : UInt64) : Command ListReply :=
  .list [ascii "scan", keyStart, keyEnd, strUInt64 limit]

def rscan (keyStart keyEnd : Bytes) (limit : UInt64) : Command ListReply :=
  .list [ascii "rscan", keyStart, keyEnd, strUInt64 limit]

def multiGet (keys : List Bytes) : Command ListReply :=
  .list (ascii "multi_get" :: keys)

def multiSet (kvs : OrderedMap Bytes Bytes) : Command Status :=
  .status (ascii "multi_set" :: flatten kvs.entries)

def multiDel (keys : List Bytes) : Command Status :=
  .status (ascii "multi_del" :: keys)

def hget (name key : Bytes) : Command StrReply :=
  .string [ascii "hget", name, key]

def hset (name key val : Bytes) : Command Status :=
  .status [ascii "hset", name, key, val]

def hdel (name key : Bytes) : Command Status :=
  .status [ascii "hdel", name, key]

def hincr (name key : Bytes) (incrby : Int) : Command Int64Reply :=
  .int64 [ascii "hincr", name, key, str incrby]

def hsize (name : Bytes) : Command Int64Reply :=
  .int64 [ascii "hsize", name]

def hclear (name : Bytes) : Command Int64Reply :=
  .int64 [ascii "hclear", name]

def hkeys (name keyStart keyEnd : Bytes) (limit : UInt64) : Command ListReply :=
  .list [ascii "hkeys", name, keyStart, keyEnd, strUInt64 limit]

def hgetall (name : Bytes) : Command ListReply :=
  .list [ascii "hgetall", name]

def hscan (name keyStart keyEnd : Bytes) (limit : UInt64) : Command ListReply :=
  .list [ascii "hscan", name, keyStart, keyEnd, strUInt64 limit]

def hrscan (name keyStart keyEnd : Bytes) (limit : UInt64) : Command ListReply :=
  .list [ascii "hrscan", name, keyStart, keyEnd, strUInt64 limit]

def multiHget (name : Bytes) (keys : List Bytes) : Command ListReply :=
  .list (ascii "multi_hget" :: name :: keys)

def multiHset (name : Bytes) (kvs : OrderedMap Bytes Bytes) : Command Status :=
  .status (ascii "multi_hset" :: name :: flatten kvs.entries)

def multiHdel (name : Bytes) (keys : List Bytes) : Command Status :=
  .status (ascii "multi_hdel" :: name :: keys)

def zget (name key : Bytes) : Command Int64Reply :=
  .int64 [ascii "zget", name, key]

def zset (name key : Bytes) (score : Int) : Command Status :=
  .status [ascii "zset", name, key, str score]

def zdel (name key : Bytes) : Command Status :=
  .status [ascii "zdel", name, key]

def zincr (name key : Bytes) (incrby : Int) : Command Int64Reply :=
  .int64 [ascii "zincr", name, key, str incrby]

def zsize (name : Bytes) : Command Int64Reply :=
  .int64 [ascii "zsize", name]

def zclear (name : Bytes) : Command Int64Reply :=
  .int64 [ascii "zclear", name]

def zrank (name key : Bytes) : Command Int64Reply :=
  .int64 [ascii "zrank", name, key]

def zrrank (name key : Bytes) : Command Int64Reply :=
  .int64 [ascii "zrrank", name, key]

def zrange (name : Bytes) (offset limit : UInt64) : Command ListReply :=
  .list [ascii "zrange", name, strUInt64 offset, strUInt64 limit]

def zrrange (name : Bytes) (offset limit : UInt64) : Command ListReply :=
  .list [ascii "zrrange", name, strUInt64 offset, strUInt64 limit]

def scoreText (score : Option Int) : Bytes :=
  (score.map str).getD []

def zkeys (name keyStart : Bytes) (scoreStart scoreEnd : Option Int) (limit : UInt64) :
    Command ListReply :=
  .list [ascii "zkeys", name, keyStart, scoreText scoreStart, scoreText scoreEnd, strUInt64 limit]

def zscan (name keyStart : Bytes) (scoreStart scoreEnd : Option Int) (limit : UInt64) :
    Command ListReply :=
  .list [ascii "zscan", name, keyStart, scoreText scoreStart, scoreText scoreEnd, strUInt64 limit]

def zrscan (name keyStart : Bytes) (scoreStart scoreEnd : Option Int) (limit : UInt64) :
    Command ListReply :=
  .list [ascii "zrscan", name, keyStart, scoreText scoreStart, scoreText scoreEnd, strUInt64 limit]

def multiZget (name : Bytes) (keys : List Bytes) : Command ListReply :=
  .list (ascii "multi_zget" :: name :: keys)

def multiZset (name : Bytes) (kss : OrderedMap Bytes Int) : Command Status :=
  .status (ascii "multi_zset" :: name ::
    flatten (kss.entries.map fun entry => (entry.1, str entry.2)))

def multiZdel (name : Bytes) (keys : List Bytes) : Command Status :=
  .status (ascii "multi_zdel" :: name :: keys)

def qpush (key val : Bytes) : Command Status :=
  .status [ascii "qpush", key, val]

def qpop (key : Bytes) : Command StrReply :=
  .string [ascii "qpop", key]

def qslice (name : Bytes) (begin «end» : Int) : Command ListReply :=
  .list [ascii "qslice", name, str begin, str «end»]

end ClientImpl

def Succeeded (resp : Option (List Bytes)) : Prop :=
  ∃ rest, resp = some (ascii "ok" :: rest)

theorem ofResp_ok {resp : Option (List Bytes)} : (Status.ofResp resp).ok = true ↔ Succeeded resp := by
  rcases resp with _ | _ | ⟨code, rest⟩
  · simp [Status.ofResp, Status.ok, Succeeded, show ascii "error" ≠ ascii "ok" by decide]
  · simp [Status.ofResp, Status.ok, Succeeded, show ascii "error" ≠ ascii "ok" by decide]
  · simp [Status.ofResp, Status.ok, Succeeded]

theorem readStr_failed {resp : Option (List Bytes)} (failed : ¬ Succeeded resp) :
    readStr resp = ⟨.ofResp resp, none⟩ := by
  simp [readStr, mt ofResp_ok.mp failed]

theorem readStr_empty : readStr (some [ascii "ok"]) = ⟨⟨ascii "server_error"⟩, none⟩ := by
  decide

theorem readStr_value (text : Bytes) (more : List Bytes) :
    readStr (some (ascii "ok" :: text :: more)) = ⟨⟨ascii "ok"⟩, some text⟩ := by
  simp [readStr, Status.ofResp, Status.ok]

/-- A reply that promises a value and has none counts as failed. -/
theorem readStr_ok {resp : Option (List Bytes)} :
    (readStr resp).status.ok = true ↔ Succeeded resp ∧ resp ≠ some [ascii "ok"] := by
  by_cases succeeded : Succeeded resp
  · obtain ⟨rest, rfl⟩ := id succeeded
    cases rest with
    | nil => simp [readStr_empty, Status.ok, show ascii "server_error" ≠ ascii "ok" by decide]
    | cons text more => simp [readStr_value, Status.ok, succeeded]
  · simp [readStr_failed succeeded, mt ofResp_ok.mp succeeded, succeeded]

theorem readInt64_status (resp : Option (List Bytes)) (errno : Errno) :
    (readInt64 resp errno).status = (readStr resp).status := by
  simp only [readInt64, readStr]
  split
  · cases (resp.getD [])[1]? <;> rfl
  · rfl

theorem readList_failed {resp : Option (List Bytes)} (failed : ¬ Succeeded resp) :
    readList resp = ⟨.ofResp resp, []⟩ := by
  simp [readList, mt ofResp_ok.mp failed]

theorem readList_ok (ret : List Bytes) :
    readList (some (ascii "ok" :: ret)) = ⟨⟨ascii "ok"⟩, ret⟩ := by
  simp [readList, Status.ofResp, Status.ok]

end Dbss
