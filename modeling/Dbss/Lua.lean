import Dbss.Lua.Number
import Dbss.Wrapper
import Mathlib.Logic.Function.Basic

namespace Dbss.Lua

open Dbss.Data Dbss.Util

/-! The methods of `DB.lua` that this development is about: what the Lua side
adds to the `extern "C"` calls. -/

/-- A Lua value: a string, or a number without a fraction. -/
inductive LuaValue where
  | string (text : Bytes)
  | number (value : Int)
deriving DecidableEq, Repr

/-- A Lua table with string keys; an absent key is nil. -/
abbrev Table := Bytes → Option LuaValue

def Table.empty : Table := fun _ => none

def Table.set (tb : Table) (key : Bytes) (value : LuaValue) : Table :=
  Function.update tb key (some value)

/-- A Lua string as a `char const *`: its bytes with a NUL behind them. -/
def pass (text : Bytes) : Bytes :=
  text ++ [0]

@[simp] theorem cString_pass (text : Bytes) : cString (pass text) = cString text :=
  cString_terminated text []

def concat : LuaValue → Bytes
  | .string text => text
  | .number value => formatG value

/-- `ffi.new("char const*[?]", #keys, unpack(keys))` with `#keys` -/
def keyArray (keys : List Bytes) : KeyArray where
  entries := keys.map fun key => some (pass key)
  size := keys.length
  readable := .inl (by simp)

/-- The strings that `pairs(kvs)` gives, in its order, as the array for `multi_set`. -/
def kvArray (kvs : List (Bytes × LuaValue)) : KvArray where
  strings := kvs.flatMap fun kv => [pass kv.1, pass (concat kv.2)]
  size := 2 * kvs.length
  readable := by simp [Nat.mul_comm]

/-- A value read into a buffer: its size, the writes to it, and what
`ffi.string` makes of it, as if the buffer were large enough. -/
structure Fetched where
  buffer : Nat
  writes : List Write
  value : Bytes
deriving DecidableEq, Repr

def fetched (buffer : Nat) (returned : Returned) : Fetched :=
  ⟨buffer, returned.writes, bufferText returned.writes⟩

namespace Mt

def set (ffi : CIntConversion) (key : Bytes) : LuaValue → Operation Returned
  | .number val => dbssSeti (pass key) (ffi.toInt val)
  | .string val => DBSS.set (pass key) (pass val)

def setx (ffi : CIntConversion) (key : Bytes) (val : LuaValue) (ttl : Int) : Operation Returned :=
  match val with
  | .number val => dbssSetxi (pass key) (ffi.toInt val) (ffi.toInt ttl)
  | .string val => DBSS.setx (pass key) (pass val) (ffi.toInt ttl)

def get (key : Bytes) : Operation Fetched :=
  (dbssGet (pass key)).map (fetched 255)

def del (key : Bytes) : Operation Returned :=
  DBSS.del (pass key)

def multiSet (kvs : List (Bytes × LuaValue)) : Operation Returned :=
  DBSS.multiSet (kvArray kvs)

def hget (name key : Bytes) : Operation Fetched :=
  (DBSS.hget (pass name) (pass key)).map (fetched 1)

def hset (name key : Bytes) (val : LuaValue) : Operation Returned :=
  DBSS.hset (pass name) (pass key) (pass (concat val))

def multiHset (name : Bytes) (kvs : List (Bytes × LuaValue)) : Operation Returned :=
  DBSS.multiHset (pass name) (kvArray kvs)

/-- The number comes out of a zeroed `int64_t[1]`. -/
def zget (name key : Bytes) : Operation LuaValue :=
  (DBSS.zget (pass name) (pass key)).map fun returned =>
    .number (toDouble (returned.num.getD 0))

def qpop (key : Bytes) (vlen : Option Nat) : Operation Fetched :=
  (DBSS.qpop (pass key)).map (fetched (vlen.getD 128))

/-- The loop over `vec.ptr`, with `left` rounds to go: at an even index it reads
a key, at an odd one the key's value.  It is `none` once it reads an entry that
the C++ side has not stored. -/
def readTable (vec : Vec) (i : Nat) (k : Bytes) (tb : Table) : Nat → Option Table
  | 0 => some tb
  | left + 1 =>
      match vec.cells[i]? with
      | none => none
      | some cell =>
          if i % 2 = 0 then readTable vec (i + 1) cell.text tb left
          else readTable vec (i + 1) k (tb.set k (.string cell.text)) left

def multiTable (keys : List Bytes) (returned : Returned) : Option Table :=
  readTable (returned.vec.getD (.fresh none)) 0 [] .empty (keys.length * 2)

def singleTable (key : Bytes) (value : LuaValue) : Option Table :=
  some (Table.empty.set key value)

def multiGet (keys : List Bytes) (vlen : Option UInt64) : Operation (Option Table) :=
  match keys with
  | [key] => (get key).map fun fetched => singleTable key (.string fetched.value)
  | keys => (DBSS.multiGet (keyArray keys) (vlen.getD 128)).map (multiTable keys)

def multiHget (name : Bytes) (keys : List Bytes) (vlen : Option UInt64) : Operation (Option Table) :=
  match keys with
  | [key] => (hget name key).map fun fetched => singleTable key (.string fetched.value)
  | keys => (DBSS.multiHget (pass name) (keyArray keys) (vlen.getD 128)).map (multiTable keys)

def multiZget (name : Bytes) (keys : List Bytes) (vlen : Option UInt64) : Operation (Option Table) :=
  match keys with
  | [key] => (zget name key).map (singleTable key)
  | keys => (DBSS.multiZget (pass name) (keyArray keys) (vlen.getD 128)).map (multiTable keys)

end Mt

end Dbss.Lua
