import Dbss.Lua
import Dbss.Client.Numbers

namespace Dbss.Lua

open Dbss.Data Dbss.Util

/-! The other methods of `DB.lua`.  A number that goes to an `int64_t` is a
whole one of its range. -/

/-- What a method gives back: nothing, a value, a table with string keys, or a
list of strings or of pairs of strings. -/
inductive Outcome where
  | nothing
  | value (value : LuaValue)
  | table (tb : Table)
  | list (entries : List Bytes)
  | pairs (entries : List (Bytes × Bytes))

/-- `ffi.new("si_t*[?]", size, unpack(tmptb))` with `size`, in the order of `pairs(kvs)`. -/
def scoreArray (kvs : List (Bytes × Int)) : ScoreArray where
  entries := kvs.map fun kv => (pass kv.1, kv.2)
  size := kvs.length
  readable := by simp

namespace Mt

def multiDel (keys : List Bytes) : Operation Returned :=
  DBSS.multiDel (keyArray keys)

def hdel (name key : Bytes) : Operation Returned :=
  DBSS.hdel (pass name) (pass key)

def multiHdel (name : Bytes) (keys : List Bytes) : Operation Returned :=
  DBSS.multiHdel (pass name) (keyArray keys)

def zset (name key : Bytes) (score : Int) : Operation Returned :=
  DBSS.zset (pass name) (pass key) score

def zdel (name key : Bytes) : Operation Returned :=
  DBSS.zdel (pass name) (pass key)

def multiZset (name : Bytes) (kvs : List (Bytes × Int)) : Operation Returned :=
  DBSS.multiZset (pass name) (scoreArray kvs)

def multiZdel (name : Bytes) (keys : List Bytes) : Operation Returned :=
  DBSS.multiZdel (pass name) (keyArray keys)

def qpush (key val : Bytes) : Operation Returned :=
  DBSS.qpush (pass key) (pass val)

/-- `tonumber(r[0])` of a zeroed `int64_t[1]` -/
def number (returned : Returned) : LuaValue :=
  .number (toDouble (returned.num.getD 0))

def incr (key : Bytes) (num : Int) : Operation LuaValue :=
  (DBSS.incr (pass key) num).map number

def hincr (name key : Bytes) (num : Int) : Operation LuaValue :=
  (DBSS.hincr (pass name) (pass key) num).map number

/-- The one that reads its number out of a `uint64_t[1]`. -/
def hsize (name : Bytes) : Operation LuaValue :=
  (DBSS.hsize (pass name)).map fun returned =>
    .number (toDouble (returned.num.getD 0 % 18446744073709551616))

def hclear (name : Bytes) : Operation LuaValue :=
  (DBSS.hclear (pass name)).map number

def zincr (name key : Bytes) (num : Int) : Operation LuaValue :=
  (DBSS.zincr (pass name) (pass key) num).map number

def zsize (name : Bytes) : Operation LuaValue :=
  (DBSS.zsize (pass name)).map number

def zclear (name : Bytes) : Operation LuaValue :=
  (DBSS.zclear (pass name)).map number

def zrank (name key : Bytes) : Operation LuaValue :=
  (DBSS.zrank (pass name) (pass key)).map number

def zrrank (name key : Bytes) : Operation LuaValue :=
  (DBSS.zrrank (pass name) (pass key)).map number

/-- The loop `for i = 0, count - 1`.  It is `none` once it reads an entry that
the C++ side has not stored. -/
def readList (vec : Vec) (i : Nat) : Nat → Option (List Bytes)
  | 0 => some []
  | left + 1 =>
      match vec.cells[i]? with
      | none => none
      | some cell => (readList vec (i + 1) left).map (cell.text :: ·)

/-- The rounds of the loop `for i = 0, count - 1, 2`, which read two entries each. -/
def readPairs (vec : Vec) (i : Nat) : Nat → Option (List (Bytes × Bytes))
  | 0 => some []
  | rounds + 1 =>
      match vec.cells[i]?, vec.cells[i + 1]? with
      | some first, some second => (readPairs vec (i + 2) rounds).map ((first.text, second.text) :: ·)
      | _, _ => none

def listed (returned : Returned) : Option Outcome :=
  let vec := returned.vec.getD (.fresh none)
  (readList vec 0 vec.count).map .list

def paired (returned : Returned) : Option Outcome :=
  let vec := returned.vec.getD (.fresh none)
  (readPairs vec 0 ((vec.count + 1) / 2)).map .pairs

/-- A later pair with the same key replaces an earlier one. -/
def tableFrom (pairs : List (Bytes × Bytes)) : Table :=
  pairs.foldl (fun tb pair => tb.set pair.1 (.string pair.2)) .empty

def tabled (returned : Returned) : Option Outcome :=
  let vec := returned.vec.getD (.fresh none)
  (readPairs vec 0 ((vec.count + 1) / 2)).map fun pairs => .table (tableFrom pairs)

/-- A nil `name` is reported, and nothing is called. -/
def named (name : Option Bytes) (method : Bytes → Operation (Option Outcome)) : Operation (Option Outcome) :=
  match name with
  | some name => method name
  | none => .thrown fun _ _ => some .nothing

def keys (start endd : Option Bytes) (limit vlen : Option UInt64) : Operation (Option Outcome) :=
  (DBSS.keys (limit.getD 10) (vlen.getD 128) (start.map pass) (endd.map pass)).map listed

def scan (start endd : Option Bytes) (limit vlen : Option UInt64) : Operation (Option Outcome) :=
  (DBSS.scan (start.map pass) (endd.map pass) (limit.getD 10) (vlen.getD 128)).map paired

def rscan (start endd : Option Bytes) (limit vlen : Option UInt64) : Operation (Option Outcome) :=
  (DBSS.rscan (start.map pass) (endd.map pass) (limit.getD 10) (vlen.getD 128)).map paired

def hkeys (name start endd : Option Bytes) (limit vlen : Option UInt64) : Operation (Option Outcome) :=
  named name fun name =>
    (DBSS.hkeys (some (pass name)) (limit.getD 10) (vlen.getD 128) (start.map pass) (endd.map pass)).map listed

def hgetall (name : Option Bytes) : Operation (Option Outcome) :=
  named name fun name => (DBSS.hgetall (some (pass name))).map tabled

def hscan (name start endd : Option Bytes) (limit vlen : Option UInt64) : Operation (Option Outcome) :=
  named name fun name =>
    (DBSS.hscan (some (pass name)) (limit.getD 10) (vlen.getD 128) (start.map pass) (endd.map pass)).map paired

def hrscan (name start endd : Option Bytes) (limit vlen : Option UInt64) : Operation (Option Outcome) :=
  named name fun name =>
    (DBSS.hrscan (some (pass name)) (limit.getD 10) (vlen.getD 128) (start.map pass) (endd.map pass)).map paired

def zrange (name : Option Bytes) (offset : UInt64) (limit vlen : Option UInt64) : Operation (Option Outcome) :=
  (DBSS.zrange (name.map pass) offset (limit.getD 10) (vlen.getD 128)).map paired

def zrrange (name : Option Bytes) (offset : UInt64) (limit vlen : Option UInt64) : Operation (Option Outcome) :=
  (DBSS.zrrange (name.map pass) offset (limit.getD 10) (vlen.getD 128)).map paired

def zkeys (name keyStart : Option Bytes) (scoreStart scoreEnd : Int) (limit vlen : Option UInt64) :
    Operation (Option Outcome) :=
  (DBSS.zkeys (name.map pass) (keyStart.map pass) (some scoreStart) (some scoreEnd) (limit.getD 10)
    (vlen.getD 128)).map listed

/-- Members and scores one by one, unlike `scan`. -/
def zscan (name keyStart : Option Bytes) (scoreStart scoreEnd : Int) (limit vlen : Option UInt64) :
    Operation (Option Outcome) :=
  (DBSS.zscan (name.map pass) (keyStart.map pass) (some scoreStart) (some scoreEnd) (limit.getD 10)
    (vlen.getD 128)).map listed

def zrscan (name keyStart : Option Bytes) (scoreStart scoreEnd : Int) (limit vlen : Option UInt64) :
    Operation (Option Outcome) :=
  (DBSS.zrscan (name.map pass) (keyStart.map pass) (some scoreStart) (some scoreEnd) (limit.getD 10)
    (vlen.getD 128)).map listed

end Mt

/-! ### The methods that give back a number -/

inductive NumberMethod where
  | incr (key : Bytes) (num : Int)
  | hincr (name key : Bytes) (num : Int)
  | hsize (name : Bytes)
  | hclear (name : Bytes)
  | zget (name key : Bytes)
  | zincr (name key : Bytes) (num : Int)
  | zsize (name : Bytes)
  | zclear (name : Bytes)
  | zrank (name key : Bytes)
  | zrrank (name key : Bytes)

namespace NumberMethod

def operation : NumberMethod → Operation LuaValue
  | incr key num => Mt.incr key num
  | hincr name key num => Mt.hincr name key num
  | hsize name => Mt.hsize name
  | hclear name => Mt.hclear name
  | zget name key => Mt.zget name key
  | zincr name key num => Mt.zincr name key num
  | zsize name => Mt.zsize name
  | zclear name => Mt.zclear name
  | zrank name key => Mt.zrank name key
  | zrrank name key => Mt.zrrank name key

/-- The command behind it, with the strings up to their first NUL. -/
def command : NumberMethod → Int64Command
  | incr key num => .incr (cString key) num
  | hincr name key num => .hincr (cString name) (cString key) num
  | hsize name => .hsize (cString name)
  | hclear name => .hclear (cString name)
  | zget name key => .zget (cString name) (cString key)
  | zincr name key num => .zincr (cString name) (cString key) num
  | zsize name => .zsize (cString name)
  | zclear name => .zclear (cString name)
  | zrank name key => .zrank (cString name) (cString key)
  | zrrank name key => .zrrank (cString name) (cString key)

/-- Only the size of a hash cannot be negative. -/
def shown : NumberMethod → Int → Int
  | hsize _, value => value % 18446744073709551616
  | _, value => value

variable (method : NumberMethod) (s : Status) (errno : Errno) {resp : Option (List Bytes)}

theorem operation_requests : method.operation.requests = [method.command.command.req] := by
  cases method with
  | hincr name key | zget name key | zincr name key | zrank name key | zrrank name key =>
      rw [command, ← cString_pass name, ← cString_pass key]
      rfl
  | incr key | hsize key | hclear key | zsize key | zclear key =>
      rw [command, ← cString_pass key]
      rfl

theorem operation_result (resp : Option (List Bytes)) :
    method.operation.result s errno resp =
      .number (toDouble (method.shown ((readInt64 resp errno).stored 0))) := by
  cases method <;> rfl

/-- The number that the server sends, as the nearest double. -/
theorem operation_number {text : Bytes} {value : Int} (more : List Bytes) (numeral : Numeral text value)
    (range : IsInt64 value) :
    method.operation.result s errno (some (ascii "ok" :: text :: more)) = .number (toDouble (method.shown value)) := by
  rw [operation_result, readInt64_value, strToInt64_numeral numeral range]
  rfl

/-- An error is a 0 to the program. -/
theorem operation_zero (nothing : ∀ text more, resp ≠ some (ascii "ok" :: text :: more)) :
    method.operation.result s errno resp = .number 0 := by
  have zero : method.shown 0 = 0 := by cases method <;> rfl
  rw [operation_result, Int64Reply.stored, (readInt64_none errno nothing).2, Option.getD_none, zero]
  exact congrArg LuaValue.number (by decide)

end NumberMethod

/-- `DB:qpush` gives its strings up to their first NUL, and a 1 for a reply that says ok. -/
theorem Mt.qpush_sends (key val : Bytes) (s : Status) (errno : Errno) (resp : Option (List Bytes)) :
    (qpush key val).requests = [[ascii "qpush", cString key, cString val]] ∧
      (((qpush key val).result s errno resp).ret = 1 ↔ Succeeded resp) := by
  constructor
  · rw [← cString_pass key, ← cString_pass val]
    rfl
  · rw [← ofResp_ok]
    change okResult (.ofResp resp) = 1 ↔ _
    rw [okResult]
    split <;> simp_all

end Dbss.Lua
