import Dbss.Data.Memory
import Dbss.Util.Strings

namespace Dbss.Util

open Dbss.Data

/-! `Buffer` of `util/bytes.h` and `util/bytes.cpp`. -/

/-- A growable block with a window `[data, data + size)` of unread bytes.
`data` is the offset `data_ - buf`.  `reallocs` lists what the allocator will
answer to the coming `realloc` calls on this block (past its end they succeed)
and `oom` records that one of them returned NULL; the code reads neither. -/
structure Buffer where
  buf : Block
  data : Int
  size : Int
  total : Int
  reallocs : List Bool
  oom : Bool

namespace Buffer

/-- `Buffer(total)`: a fresh block, whose bytes are whatever they were. -/
def new (fresh : Block) (reallocs : List Bool) (total : Int) : Buffer :=
  { buf := fresh, data := 0, size := 0, total, reallocs, oom := false }

def empty (buffer : Buffer) : Bool :=
  buffer.size == 0

/-- `slot()`, as an offset into the block. -/
def slot (buffer : Buffer) : Int :=
  buffer.data + buffer.size

def space (buffer : Buffer) : Int :=
  wrap32 (buffer.total - buffer.data - buffer.size)

def incr (buffer : Buffer) (num : Int) : Buffer :=
  { buffer with size := wrap32 (buffer.size + num) }

def decr (buffer : Buffer) (num : Int) : Buffer :=
  { buffer with size := wrap32 (buffer.size - num), data := buffer.data + num }

/-- `memcpy(buf + target, bytes, bytes.length)`. -/
def write (buffer : Buffer) (target : Int) (bytes : Bytes) : Buffer :=
  { buffer with buf := buffer.buf.store target.toNat bytes }

def nice (buffer : Buffer) : Buffer :=
  if buffer.data > buffer.total / 2 then
    { buffer.write 0 (buffer.buf.slice buffer.data.toNat buffer.size.toNat) with data := 0 }
  else
    buffer

/-- The size `grow` asks `realloc` for. -/
def grownTotal (total : Int) : Int :=
  if total < 8 * 1024 then 8 * 1024
  else if total < 512 * 1024 then wrap32 (8 * total)
  else wrap32 (2 * total)

/-- `grow`.  A negative size is converted to a `size_t` beyond any memory, so
`realloc` answers it with NULL.  A failed `realloc` leaves the block alone. -/
def grow (buffer : Buffer) : Int × Buffer :=
  let n := grownTotal buffer.total
  let granted := buffer.reallocs.head?.getD true && decide (0 ≤ n)
  if granted then
    (n, { buffer with total := n, reallocs := buffer.reallocs.tail })
  else
    (-1, { buffer with reallocs := buffer.reallocs.tail, oom := true })

/-- `while(size > space()){ if(grow() == -1) return -1; }`.  The capacity at
least doubles in each round, so `growRounds` rounds are never used up. -/
def reserve (size : Int) : Nat → Buffer → Int × Buffer
  | 0, buffer => (-1, buffer)
  | rounds + 1, buffer =>
      if size > buffer.space then
        let grown := buffer.grow
        if grown.1 = -1 then (-1, grown.2) else reserve size rounds grown.2
      else
        (0, buffer)

def growRounds : Nat := 32

/-- The code `Link::recv` and `RedisLink::recv_req` share for a buffer that
holds no complete packet; `false` is their `return NULL`. -/
def makeRoom (buffer : Buffer) : Bool × Buffer :=
  if buffer.space = 0 then
    let moved := buffer.nice
    if moved.space = 0 then
      let grown := moved.grow
      (decide (grown.1 ≠ -1), grown.2)
    else
      (true, moved)
  else
    (true, buffer)

/-- `append_record(const Bytes &)`: the length line, the bytes and a newline. -/
def appendRecord (buffer : Buffer) (record : Bytes) : Int × Buffer :=
  let length := Bytes.size record
  let reserved := buffer.reserve (wrap32 (wrap32 (16 + length) + 1)) growRounds
  if reserved.1 = -1 then
    (-1, reserved.2)
  else
    -- snprintf(len, 16, "%d\n", length) always fits
    let line := str length ++ [10]
    let p := reserved.2.slot
    let headed := reserved.2.write p line
    let filled := headed.write (p + line.length) (record.take length.toNat)
    let ended := filled.write (p + line.length + length) [10]
    let written := wrap32 (line.length + length + 1)
    (written, ended.incr written)

/-- `append(const void *p, int size)`, which the overloads for `char`,
C strings, `Bytes` and `(val.data(), val.size())` come down to. -/
def append (buffer : Buffer) (bytes : Bytes) : Int × Buffer :=
  -- a size of 2^31 or more turns negative and `memcpy` then has no defined
  -- effect; the results below are about sizes that are `int`s
  let size := Bytes.size bytes
  let reserved := buffer.reserve size growRounds
  if reserved.1 = -1 then
    (-1, reserved.2)
  else
    (size, (reserved.2.write reserved.2.slot (bytes.take size.toNat)).incr size)

def content (buffer : Buffer) : Bytes :=
  buffer.buf.slice buffer.data.toNat buffer.size.toNat

/-- A buffer that holds `bytes` and has room for `room` more. -/
def holding (bytes : Bytes) (room : Nat) : Buffer :=
  { buf := Block.store (fun _ => 0) 0 bytes, data := 0, size := bytes.length
    total := bytes.length + room, reallocs := [], oom := false }

/-- The window lies inside the block and the block's size is an `int`. -/
structure WellFormed (buffer : Buffer) : Prop where
  dataNonneg : 0 ≤ buffer.data
  sizeNonneg : 0 ≤ buffer.size
  inside : buffer.data + buffer.size ≤ buffer.total
  totalBound : buffer.total < 2147483648

def Allocates (buffer : Buffer) : Prop :=
  ∀ granted ∈ buffer.reallocs, granted = true

instance (buffer : Buffer) : Decidable buffer.Allocates :=
  inferInstanceAs (Decidable (∀ granted ∈ buffer.reallocs, granted = true))

end Buffer

end Dbss.Util
