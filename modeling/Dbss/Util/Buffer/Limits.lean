import Dbss.Util.Buffer.Queue
import Dbss.Util.Buffer.Reach

namespace Dbss.Util

open Dbss.Data

/-! The calls of `Buffer` with every `int` computation checked: near 2^30 and
2^31 their arithmetic can leave the type. -/

/-- What a checked call stops at: a result that is no `int`, or a loop that has
used its rounds up. -/
inductive Fault where
  | overflow
  | rounds
deriving DecidableEq, Repr

/-- An `int` computation whose exact result is `value`. -/
def int32 (value : Int) : Except Fault Int :=
  if -2147483648 ≤ value ∧ value ≤ 2147483647 then .ok value else .error .overflow

theorem int32_ok {value : Int} (lower : -2147483648 ≤ value) (upper : value ≤ 2147483647) :
    int32 value = .ok value :=
  if_pos ⟨lower, upper⟩

theorem int32_overflow {value : Int} (beyond : 2147483647 < value) : int32 value = .error .overflow :=
  if_neg fun range => absurd range.2 (not_le.mpr beyond)

@[simp] theorem Fault.ok_bind {α β : Type} (value : α) (next : α → Except Fault β) :
    (Except.ok value >>= next) = next value := rfl

@[simp] theorem Fault.error_bind {α β : Type} (fault : Fault) (next : α → Except Fault β) :
    ((Except.error fault : Except Fault α) >>= next) = .error fault := rfl

namespace Buffer

def checkedTotal (total : Int) : Except Fault Int :=
  if total < 8 * 1024 then .ok (8 * 1024)
  else if total < 512 * 1024 then int32 (8 * total)
  else int32 (2 * total)

def checkedGrow (buffer : Buffer) : Except Fault (Int × Buffer) := do
  let n ← checkedTotal buffer.total
  if buffer.reallocs.head?.getD true then
    .ok (n, { buffer with total := n, reallocs := buffer.reallocs.tail })
  else
    .ok (-1, { buffer with reallocs := buffer.reallocs.tail, oom := true })

def checkedReserve (size : Int) : Nat → Buffer → Except Fault (Int × Buffer)
  | 0, _ => .error .rounds
  | rounds + 1, buffer =>
      if size > buffer.space then do
        let grown ← buffer.checkedGrow
        if grown.1 = -1 then .ok (-1, grown.2) else checkedReserve size rounds grown.2
      else
        .ok (0, buffer)

def storeRecord (buffer : Buffer) (line record : Bytes) : Buffer :=
  ((buffer.write buffer.slot line).write (buffer.slot + line.length) record).write
    (buffer.slot + line.length + record.length) [10]

/-- `append_record` behind its loop. -/
def checkedStore (buffer : Buffer) (line record : Bytes) : Except Fault (Int × Buffer) := do
  let written ← int32 (line.length + record.length)
  let written ← int32 (written + 1)
  let stored := buffer.storeRecord line record
  let size ← int32 (stored.size + written)
  .ok (written, { stored with size })

def checkedAppendRecord (buffer : Buffer) (record : Bytes) : Except Fault (Int × Buffer) := do
  let size ← int32 (16 + record.length)
  let size ← int32 (size + 1)
  let reserved ← buffer.checkedReserve size growRounds
  if reserved.1 = -1 then .ok (-1, reserved.2)
  else checkedStore reserved.2 (str record.length ++ [10]) record

def checkedAppend (buffer : Buffer) (bytes : Bytes) : Except Fault (Int × Buffer) := do
  let reserved ← buffer.checkedReserve bytes.length growRounds
  if reserved.1 = -1 then
    .ok (-1, reserved.2)
  else
    let stored := reserved.2.write reserved.2.slot bytes
    let size ← int32 (stored.size + bytes.length)
    .ok (bytes.length, { stored with size })

/-- `need` bytes fit below 2^30, or the allocator refuses before the capacity
gets there: with 2^30 bytes allocated, `2 * total_` is no `int` any more. -/
def Room (buffer : Buffer) (need : Int) : Prop :=
  buffer.data + buffer.size + need ≤ 1073741824 ∨ ¬ CanReach 1073741824 buffer.total buffer.reallocs

variable {buffer : Buffer} {bytes record : Bytes} {need : Int}

theorem checkedTotal_small {total : Int} (nonneg : 0 ≤ total) (small : total < 1073741824) :
    checkedTotal total = .ok (grownTotal total) := by
  unfold checkedTotal grownTotal
  split
  · rfl
  · split
    · rw [int32_ok (by omega) (by omega), wrap32_of_range (by omega) (by omega)]
    · rw [int32_ok (by omega) (by omega), wrap32_of_range (by omega) (by omega)]

theorem checkedTotal_large {total : Int} (large : 1073741824 ≤ total) : checkedTotal total = .error .overflow := by
  rw [checkedTotal, if_neg (by omega), if_neg (by omega), int32_overflow (by omega)]

theorem checkedGrow_small (nonneg : 0 ≤ buffer.total) (small : buffer.total < 1073741824) :
    buffer.checkedGrow = .ok buffer.grow := by
  have fits := (grownTotal_spec nonneg (by omega)).2.2 small
  rw [checkedGrow, checkedTotal_small nonneg small]
  unfold grow
  simp only [fits, decide_true, Bool.and_true, Fault.ok_bind]
  split <;> rfl

theorem checkedGrow_large (large : 1073741824 ≤ buffer.total) : buffer.checkedGrow = .error .overflow := by
  rw [checkedGrow, checkedTotal_large large, Fault.error_bind]

/-- The loop comes to its end without an overflow if there is room, and to an
overflow if there is none. -/
theorem WellFormed.checkedReserve_eq (valid : buffer.WellFormed) (need : Int) (capacity : Capacity buffer.total)
    {rounds : Nat} (enough : 2147483648 ≤ capacityFloor buffer.total * 2 ^ rounds) :
    (buffer.Room need → buffer.checkedReserve need rounds = .ok (buffer.reserve need rounds)) ∧
      (¬ buffer.Room need → buffer.checkedReserve need rounds = .error .overflow) := by
  induction rounds generalizing buffer with
  | zero =>
      have := valid.totalBound
      unfold capacityFloor at enough
      split at enough <;> omega
  | succ rounds ih =>
      have bounds := capacity.bounds
      have space := valid.space_eq
      obtain ⟨grownValid, _, data, size, outcomes⟩ := valid.grow_spec
      unfold checkedReserve Buffer.reserve
      by_cases short : need > buffer.space
      · rw [if_pos short, if_pos short]
        by_cases large : 1073741824 ≤ buffer.total
        · have none : ¬ buffer.Room need := not_or.mpr ⟨by omega, not_not.mpr (.enough large)⟩
          rw [checkedGrow_large large, Fault.error_bind]
          exact ⟨fun room => absurd room none, fun _ => rfl⟩
        · have fits := (grownTotal_spec valid.total_nonneg valid.totalBound).2.2 (by omega)
          have reach : CanReach 1073741824 buffer.total buffer.reallocs ↔ _ := canReach_iff_of_small (by omega)
          rw [checkedGrow_small valid.total_nonneg (by omega)]
          by_cases granted : buffer.reallocs.head?.getD true = true
          · have grown := grow_granted granted fits
            have room : buffer.grow.2.Room need ↔ buffer.Room need := by
              rw [Room, Room, data, size, reach, grown]
              simp [granted, fits]
            rcases outcomes with ⟨failed, _⟩ | ⟨succeeded, _, _, larger⟩
            · rw [grown] at failed
              simp only at failed
              omega
            · have capacious : Capacity buffer.grow.2.total := by
                rw [grown]
                exact .grown capacity fits
              have rest := ih grownValid capacious (capacityFloor_round enough larger)
              simp only [Fault.ok_bind, if_neg succeeded]
              rwa [← room]
          · have failed := grow_denied fun answered => granted answered.1
            have room : buffer.Room need := .inr fun reached => granted (reach.mp reached).1
            simp only [Fault.ok_bind, failed, if_true]
            exact ⟨fun _ => trivial, fun missing => absurd room missing⟩
      · have room : buffer.Room need := .inl (by omega)
        rw [if_neg short, if_neg short]
        exact ⟨fun _ => rfl, fun missing => absurd room missing⟩

theorem WellFormed.checkedAppend_eq (valid : buffer.WellFormed) (capacity : Capacity buffer.total)
    (short : bytes.length < 2147483648) :
    (buffer.Room bytes.length → buffer.checkedAppend bytes = .ok (buffer.append bytes)) ∧
      (¬ buffer.Room bytes.length → buffer.checkedAppend bytes = .error .overflow) := by
  obtain ⟨roomy, cramped⟩ := valid.checkedReserve_eq bytes.length capacity (growRounds_enough _)
  obtain ⟨roomValid, _, outcomes⟩ := valid.reserve_spec bytes.length (growRounds_enough _)
  constructor
  · intro room
    rw [checkedAppend, roomy room, Fault.ok_bind, append, size_of_short short]
    simp only [Int.toNat_natCast, List.take_length]
    generalize buffer.reserve bytes.length growRounds = outcome at *
    rcases outcomes with ⟨failed, _⟩ | ⟨reserved, _, fits⟩
    · rw [if_pos failed, if_pos failed]
    · rw [roomValid.space_eq] at fits
      obtain ⟨dataNonneg, sizeNonneg, _, totalBound⟩ := roomValid
      have exact_size : int32 ((outcome.2.write outcome.2.slot bytes).size + bytes.length) =
          .ok (outcome.2.size + bytes.length) :=
        int32_ok (by simp only [write]; omega) (by simp only [write]; omega)
      have same_size : wrap32 ((outcome.2.write outcome.2.slot bytes).size + bytes.length) =
          outcome.2.size + bytes.length :=
        wrap32_of_range (by simp only [write]; omega) (by simp only [write]; omega)
      rw [if_neg (by omega), if_neg (by omega), exact_size, incr, same_size, Fault.ok_bind]
  · intro missing
    rw [checkedAppend, cramped missing, Fault.error_bind]

theorem WellFormed.checkedStore_eq (valid : buffer.WellFormed) {line : Bytes} (short : line.length ≤ 11)
    (fits : (record.length : Int) + 17 ≤ buffer.space) :
    buffer.checkedStore line record = .ok (wrap32 (line.length + record.length + 1),
      (buffer.storeRecord line record).incr (wrap32 (line.length + record.length + 1))) := by
  rw [valid.space_eq] at fits
  obtain ⟨dataNonneg, sizeNonneg, _, totalBound⟩ := valid
  have sized : (buffer.storeRecord line record).size = buffer.size := rfl
  have written : wrap32 ((line.length : Int) + record.length + 1) = line.length + record.length + 1 :=
    wrap32_of_range (by omega) (by omega)
  have size : wrap32 (buffer.size + (line.length + record.length + 1)) =
      buffer.size + (line.length + record.length + 1) := wrap32_of_range (by omega) (by omega)
  rw [checkedStore, int32_ok (by omega) (by omega), Fault.ok_bind, int32_ok (by omega) (by omega), Fault.ok_bind,
    written, incr]
  simp only [sized, size]
  rw [int32_ok (by omega) (by omega), Fault.ok_bind]

theorem WellFormed.checkedAppendRecord_eq (valid : buffer.WellFormed) (capacity : Capacity buffer.total)
    (short : record.length ≤ 2147483630) :
    (buffer.Room (record.length + 17) → buffer.checkedAppendRecord record = .ok (buffer.appendRecord record)) ∧
      (¬ buffer.Room (record.length + 17) → buffer.checkedAppendRecord record = .error .overflow) := by
  obtain ⟨roomy, cramped⟩ := valid.checkedReserve_eq (record.length + 17) capacity (growRounds_enough _)
  obtain ⟨roomValid, _, outcomes⟩ := valid.reserve_spec (record.length + 17) (growRounds_enough _)
  have size : Bytes.size record = record.length := size_of_short (by omega)
  have request : wrap32 (wrap32 (16 + (record.length : Int)) + 1) = record.length + 17 := by
    unfold wrap32
    omega
  have first : int32 (16 + (record.length : Int)) = .ok (16 + record.length) := int32_ok (by omega) (by omega)
  have second : int32 (16 + (record.length : Int) + 1) = .ok (record.length + 17) := by
    have sum : (16 : Int) + record.length + 1 = record.length + 17 := by omega
    rw [sum, int32_ok (by omega) (by omega)]
  constructor
  · intro room
    rw [checkedAppendRecord, first, Fault.ok_bind, second, Fault.ok_bind, roomy room, Fault.ok_bind, appendRecord,
      size, request]
    generalize buffer.reserve (record.length + 17) growRounds = outcome at *
    rcases outcomes with ⟨failed, _⟩ | ⟨reserved, _, fits⟩
    · rw [if_pos failed, if_pos failed]
    · have width : (decimal record.length).length ≤ 10 := decimal_length_le (by decide) (by omega)
      have line : (str record.length ++ [10]).length ≤ 11 := by
        rw [str_natCast, List.length_append, List.length_singleton]
        omega
      rw [if_neg (by omega), if_neg (by omega), roomValid.checkedStore_eq line fits]
      simp only [Int.toNat_natCast, List.take_length, storeRecord]
  · intro missing
    rw [checkedAppendRecord, first, Fault.ok_bind, second, Fault.ok_bind, cramped missing, Fault.error_bind]

theorem checkedAppendRecord_long (long : 2147483630 < record.length) :
    buffer.checkedAppendRecord record = .error .overflow := by
  by_cases first : record.length ≤ 2147483631
  · have sum : int32 (16 + (record.length : Int)) = .ok (16 + record.length) := int32_ok (by omega) (by omega)
    have more : int32 (16 + (record.length : Int) + 1) = .error .overflow := int32_overflow (by omega)
    rw [checkedAppendRecord, sum, Fault.ok_bind, more, Fault.error_bind]
  · have sum : int32 (16 + (record.length : Int)) = .error .overflow := int32_overflow (by omega)
    rw [checkedAppendRecord, sum, Fault.error_bind]

namespace Op

def checked (buffer : Buffer) : Op → Except Fault (Int × Buffer)
  | appendRecord record => buffer.checkedAppendRecord record
  | append bytes => buffer.checkedAppend bytes
  | fill bytes => do
      let size ← int32 (buffer.size + bytes.length)
      .ok (0, { buffer.write buffer.slot bytes with size })
  | decr num => do
      let size ← int32 (buffer.size - num)
      .ok (0, { buffer with size, data := buffer.data + num })
  | nice => .ok (0, buffer.nice)
  | grow => buffer.checkedGrow

/-- The record sizes are `int`s, and only bytes that are there are removed. -/
def Callable (buffer : Buffer) : Op → Prop
  | appendRecord record => record.length < 2147483648
  | append bytes => bytes.length < 2147483648
  | fill bytes => bytes.length ≤ buffer.space
  | decr num => 0 ≤ num ∧ num ≤ buffer.size
  | nice => True
  | grow => True

def Fits (buffer : Buffer) : Op → Prop
  | appendRecord record => record.length ≤ 2147483630 ∧ buffer.Room (record.length + 17)
  | append bytes => buffer.Room bytes.length
  | grow => buffer.total < 1073741824
  | fill _ | decr _ | nice => True

variable {op : Op}

theorem Callable.sized (callable : op.Callable buffer) (fits : op.Fits buffer) : op.Sized buffer := by
  cases op with
  | appendRecord => exact fits.1
  | append | fill | decr | nice | grow => exact callable

theorem checked_eq (valid : buffer.WellFormed) (capacity : Capacity buffer.total) (callable : op.Callable buffer) :
    (op.Fits buffer → op.checked buffer = .ok (op.call buffer)) ∧
      (¬ op.Fits buffer → op.checked buffer = .error .overflow) := by
  cases op with
  | appendRecord record =>
      by_cases short : record.length ≤ 2147483630
      · obtain ⟨roomy, cramped⟩ := valid.checkedAppendRecord_eq capacity short
        exact ⟨fun fits => roomy fits.2, fun missing => cramped fun room => missing ⟨short, room⟩⟩
      · exact ⟨fun fits => absurd fits.1 short, fun _ => checkedAppendRecord_long (not_le.mp short)⟩
  | append bytes => exact valid.checkedAppend_eq capacity callable
  | fill bytes =>
      have room : (bytes.length : Int) ≤ buffer.space := callable
      rw [valid.space_eq] at room
      obtain ⟨dataNonneg, sizeNonneg, _, totalBound⟩ := valid
      have size : wrap32 (buffer.size + bytes.length) = buffer.size + bytes.length :=
        wrap32_of_range (by omega) (by omega)
      refine ⟨fun _ => ?_, fun missing => absurd trivial missing⟩
      rw [checked, int32_ok (by omega) (by omega), Fault.ok_bind]
      simp only [call, incr, write, size]
  | decr num =>
      obtain ⟨nonneg, within⟩ := callable
      obtain ⟨dataNonneg, sizeNonneg, _, totalBound⟩ := valid
      have size : wrap32 (buffer.size - num) = buffer.size - num := wrap32_of_range (by omega) (by omega)
      refine ⟨fun _ => ?_, fun missing => absurd trivial missing⟩
      rw [checked, int32_ok (by omega) (by omega), Fault.ok_bind]
      simp only [call, Buffer.decr, size]
  | nice => exact ⟨fun _ => rfl, fun missing => absurd trivial missing⟩
  | grow =>
      refine ⟨fun small => checkedGrow_small valid.total_nonneg small, fun large => checkedGrow_large ?_⟩
      exact not_lt.mp large

theorem call_capacity (valid : buffer.WellFormed) (capacity : Capacity buffer.total) :
    Capacity (op.call buffer).2.total := by
  cases op with
  | appendRecord record =>
      have same := (buffer.appendRecord_sameBlock record).total
      rw [call, same]
      exact (capacity.reserve _ _).1
  | append bytes =>
      have same := (buffer.append_sameBlock bytes).total
      rw [call, same]
      exact (capacity.reserve _ _).1
  | fill | decr => exact capacity
  | nice =>
      have same := valid.nice_spec.2.2.1
      rw [call]
      exact same ▸ capacity
  | grow => exact capacity.grow.1

/-- The call comes to its end without an overflow, and returns -1 with the bytes
as they were or has done what it is for. -/
def Safe (buffer : Buffer) (op : Op) : Prop :=
  ∃ result, op.checked buffer = .ok result ∧
    (result.1 = -1 ∧ result.2.content = buffer.content ∨
      QueueEvent.Step buffer.content op.event result.2.content ∧ 0 ≤ result.2.space)

end Op

/-- The buffers that calls without an overflow lead to, from `Buffer(8)`. -/
inductive Reached (fresh : Block) (reallocs : List Bool) : Buffer → Prop where
  | start : Reached fresh reallocs (new fresh reallocs 8)
  | call {buffer after : Buffer} {op : Op} {value : Int} (before : Reached fresh reallocs buffer)
      (callable : op.Callable buffer) (done : op.checked buffer = .ok (value, after)) : Reached fresh reallocs after

theorem Reached.spec {fresh : Block} {reallocs : List Bool} (reached : Reached fresh reallocs buffer) :
    buffer.WellFormed ∧ Capacity buffer.total := by
  induction reached with
  | start => exact ⟨new_wellFormed (by decide) (by decide), .block⟩
  | @call buffer after op value _ callable done before =>
      obtain ⟨valid, capacity⟩ := before
      obtain ⟨exact_call, overflows⟩ := Op.checked_eq valid capacity callable
      have fits : op.Fits buffer := by
        by_contra missing
        rw [overflows missing] at done
        cases done
      have same : op.call buffer = (value, after) := Except.ok.inj ((exact_call fits).symm.trans done)
      have acts := (Op.call_acts valid (callable.sized fits)).1
      have capacious : Capacity (op.call buffer).2.total := Op.call_capacity valid capacity
      rw [same] at acts capacious
      exact ⟨acts, capacious⟩

/-- An append is safe exactly if its record is small enough for 17 to be added,
and if it finds room before 2^30 or the allocator refuses before that. -/
theorem arithmetic_safe_iff {fresh : Block} {reallocs : List Bool} {op : Op}
    (reached : Reached fresh reallocs buffer) (callable : op.Callable buffer) :
    op.Safe buffer ↔ op.Fits buffer := by
  obtain ⟨valid, capacity⟩ := reached.spec
  obtain ⟨exact_call, overflows⟩ := Op.checked_eq valid capacity callable
  constructor
  · rintro ⟨result, done, _⟩
    by_contra missing
    rw [overflows missing] at done
    cases done
  · intro fits
    obtain ⟨stored, outcomes⟩ := Op.call_acts valid (callable.sized fits)
    refine ⟨_, exact_call fits, ?_⟩
    rcases outcomes with ⟨failed, _, same⟩ | ⟨_, moved⟩
    · exact .inl ⟨failed, same⟩
    · exact .inr ⟨moved, stored.space_nonneg⟩

/-- A buffer that has grown, and from whose front three bytes are gone. -/
theorem arithmetic_safe_iff_moved : ∃ buffer, Reached (fun _ => 0) [true] buffer ∧ buffer.data = 3 ∧
    buffer.total = 8192 ∧ (Op.appendRecord (ascii "xyz")).Safe buffer := by
  have grown := @Reached.call (fun _ => 0) [true] _ _ (.append (List.replicate 20 97)) _ .start
    (show 20 < 2147483648 by decide) rfl
  have moved := @Reached.call _ _ _ _ (.decr 3) _ grown (show (0 : Int) ≤ 3 ∧ (3 : Int) ≤ 20 by decide) rfl
  have fits : (ascii "xyz").length ≤ 2147483630 := by decide
  refine ⟨_, moved, rfl, rfl, (arithmetic_safe_iff moved (Nat.lt_of_le_of_lt fits (by decide))).mpr ⟨fits, .inl ?_⟩⟩
  exact (show (3 : Int) + 17 + (3 + 17) ≤ 1073741824 by decide)

theorem appendRecord_overflows :
    ¬ (Op.appendRecord (List.replicate 2147483647 0)).Safe (new (fun _ => 0) [] 8) := by
  rintro ⟨result, done, _⟩
  have long : 2147483630 < (List.replicate 2147483647 (0 : UInt8)).length := by
    rw [List.length_replicate]
    omega
  rw [Op.checked, checkedAppendRecord_long long] at done
  cases done

end Buffer

end Dbss.Util
