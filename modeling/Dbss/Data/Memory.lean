import Mathlib.Data.List.Basic

namespace Dbss.Data

/-! A block of memory and the two ways programs touch it: reading a run of
bytes and copying bytes in.  A byte nobody has written yet holds whatever the
block held before, so a fresh block is any function at all. -/

abbrev Block := Nat → UInt8

def Block.slice (block : Block) (start count : Nat) : List UInt8 :=
  (List.range count).map fun index => block (start + index)

/-- The block after `bytes` have been copied to `start`. -/
def Block.store (block : Block) (start : Nat) (bytes : List UInt8) : Block := fun address =>
  if start ≤ address then bytes[address - start]?.getD (block address) else block address

/-- `memchr`: the distance from `start` to the first `byte` among `count` bytes. -/
def Block.memchr (block : Block) (start : Nat) (byte : UInt8) (count : Nat) : Option Nat :=
  (block.slice start count).findIdx? (· == byte)

namespace Block

variable {block : Block} {start count : Nat} {bytes : List UInt8}

@[simp] theorem slice_length : (block.slice start count).length = count := by
  simp [slice]

@[simp] theorem slice_zero : block.slice start 0 = [] := rfl

theorem slice_succ : block.slice start (count + 1) = block start :: block.slice (start + 1) count := by
  simp only [slice, List.range_succ_eq_map, List.map_cons, List.map_map, Nat.add_zero]
  congr 1
  apply List.map_congr_left
  intro index _
  simp [Nat.add_assoc, Nat.add_comm 1]

theorem slice_add {first second : Nat} :
    block.slice start (first + second) =
      block.slice start first ++ block.slice (start + first) second := by
  simp only [slice, List.range_add, List.map_append, List.map_map]
  congr 1
  apply List.map_congr_left
  intro index _
  simp [Nat.add_assoc]

theorem slice_take {first : Nat} (bound : first ≤ count) :
    (block.slice start count).take first = block.slice start first := by
  obtain ⟨rest, rfl⟩ := Nat.exists_eq_add_of_le bound
  rw [slice_add, List.take_left' slice_length]

theorem slice_drop {first : Nat} (bound : first ≤ count) :
    (block.slice start count).drop first = block.slice (start + first) (count - first) := by
  obtain ⟨rest, rfl⟩ := Nat.exists_eq_add_of_le bound
  rw [slice_add, List.drop_left' slice_length, Nat.add_sub_cancel_left]

theorem slice_of_append {front back : List UInt8}
    (split : block.slice start count = front ++ back) :
    block.slice start front.length = front ∧
      block.slice (start + front.length) (count - front.length) = back := by
  have bound : front.length ≤ count := by
    have lengths := congrArg List.length split
    simp only [slice_length, List.length_append] at lengths
    omega
  constructor
  · rw [← slice_take bound, split, List.take_left]
  · rw [← slice_drop bound, split, List.drop_left]

theorem head_of_slice {byte : UInt8} {rest : List UInt8}
    (read : block.slice start count = byte :: rest) : block start = byte := by
  cases count with
  | zero => simp at read
  | succ count =>
      rw [slice_succ] at read
      exact (List.cons.inj read).1

theorem slice_congr {other : Block}
    (agree : ∀ address, start ≤ address → address < start + count → block address = other address) :
    block.slice start count = other.slice start count := by
  apply List.map_congr_left
  intro index member
  have bound := List.mem_range.mp member
  exact agree _ (by omega) (by omega)

@[simp] theorem slice_store_same : (block.store start bytes).slice start bytes.length = bytes := by
  apply List.ext_getElem
  · simp
  · intro index _ bound
    simp [slice, store, bound]

theorem slice_store_of_before {target : Nat} (before : start + count ≤ target) :
    (block.store target bytes).slice start count = block.slice start count := by
  apply slice_congr
  intro address _ upper
  simp [store, show ¬ target ≤ address by omega]

theorem store_store {more : List UInt8} :
    (block.store start bytes).store (start + bytes.length) more = block.store start (bytes ++ more) := by
  funext address
  by_cases late : start + bytes.length ≤ address
  · have past : bytes[address - start]? = none := by
      rw [List.getElem?_eq_none_iff]
      omega
    have shifted : address - start - bytes.length = address - (start + bytes.length) := by omega
    simp [store, late, show start ≤ address by omega, past, shifted,
      List.getElem?_append_right (show bytes.length ≤ address - start by omega)]
  · by_cases early : start ≤ address
    · simp [store, late, early,
        List.getElem?_append_left (show address - start < bytes.length by omega)]
    · simp [store, late, early]

theorem memchr_none {byte : UInt8} (read : block.slice start count = bytes) (clean : byte ∉ bytes) :
    block.memchr start byte count = none := by
  rw [memchr, read, List.findIdx?_eq_none_iff]
  intro other member
  simpa using ne_of_mem_of_not_mem member clean

theorem memchr_some {byte : UInt8} {line rest : List UInt8}
    (read : block.slice start count = line ++ byte :: rest) (clean : byte ∉ line) :
    block.memchr start byte count = some line.length := by
  rw [memchr, read, List.findIdx?_eq_some_iff_getElem]
  refine ⟨by simp, by simp, fun index before => ?_⟩
  rw [List.getElem_append_left before]
  simpa using ne_of_mem_of_not_mem (List.getElem_mem before) clean

theorem memchr_found {byte : UInt8} {found : Nat} (first : block.memchr start byte count = some found) :
    found < count ∧ block (start + found) = byte := by
  rw [memchr, List.findIdx?_eq_some_iff_getElem] at first
  obtain ⟨within, same, _⟩ := first
  rw [slice_length] at within
  simp only [slice, List.getElem_map, List.getElem_range, beq_iff_eq] at same
  exact ⟨within, same⟩

end Block

end Dbss.Data
