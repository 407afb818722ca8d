import Dbss.Util.Buffer

namespace Dbss.Util.Buffer

open Dbss.Data

/-! What each operation of `Buffer` does to the bytes it holds. -/

variable {buffer : Buffer} {bytes front back : Bytes}

theorem new_wellFormed {fresh : Block} {reallocs : List Bool} {total : Int}
    (nonneg : 0 ≤ total) (bound : total < 2147483648) : (new fresh reallocs total).WellFormed := by
  constructor <;> simp only [new] <;> omega

@[simp] theorem new_content {fresh : Block} {reallocs : List Bool} {total : Int} :
    (new fresh reallocs total).content = [] := rfl

@[simp] theorem holding_content {room : Nat} : (holding bytes room).content = bytes := by
  simp [holding, content]

theorem holding_wellFormed {room : Nat} (bound : bytes.length + room < 2147483648) :
    (holding bytes room).WellFormed := by
  constructor <;> simp only [holding] <;> omega

theorem content_length (buffer : Buffer) : buffer.content.length = buffer.size.toNat := by
  simp [content]

theorem WellFormed.size_eq (valid : buffer.WellFormed) : buffer.size = buffer.content.length := by
  rw [content_length, Int.toNat_of_nonneg valid.sizeNonneg]

theorem WellFormed.space_eq (valid : buffer.WellFormed) :
    buffer.space = buffer.total - buffer.data - buffer.size := by
  have := valid.dataNonneg
  have := valid.sizeNonneg
  have := valid.inside
  have := valid.totalBound
  exact wrap32_of_range (by omega) (by omega)

theorem WellFormed.total_nonneg (valid : buffer.WellFormed) : 0 ≤ buffer.total := by
  have := valid.dataNonneg
  have := valid.sizeNonneg
  have := valid.inside
  omega

theorem WellFormed.space_nonneg (valid : buffer.WellFormed) : 0 ≤ buffer.space := by
  have := valid.inside
  rw [valid.space_eq]
  omega

theorem WellFormed.content_length_lt (valid : buffer.WellFormed) :
    buffer.content.length < 2147483648 := by
  have := valid.dataNonneg
  have := valid.size_eq
  have := valid.inside
  have := valid.totalBound
  omega

theorem WellFormed.empty_iff (valid : buffer.WellFormed) :
    buffer.empty = true ↔ buffer.content = [] := by
  rw [empty, beq_iff_eq, valid.size_eq, ← List.length_eq_zero_iff]
  omega

theorem WellFormed.decr_spec (valid : buffer.WellFormed) (split : buffer.content = front ++ back) :
    (buffer.decr front.length).WellFormed ∧ (buffer.decr front.length).content = back := by
  have size := valid.size_eq
  have lengths := congrArg List.length split
  rw [List.length_append] at lengths
  have bound := valid.content_length_lt
  have exact_size : wrap32 (buffer.size - front.length) = back.length := by
    rw [wrap32_of_range (by omega) (by omega)]
    omega
  have := valid.dataNonneg
  have := valid.inside
  have := valid.totalBound
  constructor
  · constructor <;> simp only [decr, exact_size] <;> omega
  · have read := (Block.slice_of_append split).2
    have offset : (buffer.data + front.length).toNat = buffer.data.toNat + front.length := by omega
    have count : buffer.size.toNat - front.length = back.length := by omega
    rw [count] at read
    simpa only [content, decr, exact_size, offset, Int.toNat_natCast] using read

theorem WellFormed.decr (valid : buffer.WellFormed) {num : Int} (nonneg : 0 ≤ num)
    (within : num ≤ buffer.size) : (buffer.decr num).WellFormed := by
  have size := valid.size_eq
  have split := (buffer.content.take_append_drop num.toNat).symm
  have width : (buffer.content.take num.toNat).length = num := by
    rw [List.length_take]
    omega
  have dropped := (valid.decr_spec split).1
  rwa [width] at dropped

theorem WellFormed.write_incr_spec (valid : buffer.WellFormed) (room : bytes.length ≤ buffer.space) :
    ((buffer.write buffer.slot bytes).incr bytes.length).WellFormed ∧
      ((buffer.write buffer.slot bytes).incr bytes.length).content = buffer.content ++ bytes := by
  rw [valid.space_eq] at room
  have := valid.dataNonneg
  have := valid.sizeNonneg
  have := valid.totalBound
  have exact_size : wrap32 (buffer.size + bytes.length) = buffer.size + bytes.length :=
    wrap32_of_range (by omega) (by omega)
  constructor
  · constructor <;> simp only [incr, write, exact_size] <;> omega
  · have offset : buffer.slot.toNat = buffer.data.toNat + buffer.size.toNat := by
      simp only [slot]
      omega
    have count : (buffer.size + bytes.length).toNat = buffer.size.toNat + bytes.length := by omega
    simp only [content, incr, write, exact_size, count, offset, Block.slice_add,
      Block.slice_store_same, Block.slice_store_of_before (Nat.le_refl _)]

theorem write_write {target : Int} (nonneg : 0 ≤ target) {more : Bytes} :
    (buffer.write target bytes).write (target + bytes.length) more =
      buffer.write target (bytes ++ more) := by
  have offset : (target + bytes.length).toNat = target.toNat + bytes.length := by omega
  simp only [write, offset, Block.store_store]

theorem WellFormed.nice_spec (valid : buffer.WellFormed) :
    buffer.nice.WellFormed ∧ buffer.nice.content = buffer.content ∧
      buffer.nice.total = buffer.total ∧ buffer.nice.size = buffer.size ∧
      buffer.nice.reallocs = buffer.reallocs ∧ buffer.nice.oom = buffer.oom ∧
      buffer.nice.data ≤ buffer.total / 2 := by
  have := valid.dataNonneg
  have := valid.sizeNonneg
  have := valid.inside
  have := valid.totalBound
  unfold nice
  split
  · refine ⟨?_, ?_, rfl, rfl, rfl, rfl, ?_⟩
    · constructor <;> simp only [write] <;> omega
    · have moved : (buffer.buf.store 0 buffer.content).slice 0 buffer.content.length = buffer.content :=
        Block.slice_store_same
      rwa [content_length] at moved
    · simp only
      omega
  · refine ⟨valid, rfl, rfl, rfl, rfl, rfl, by omega⟩

theorem nice_data_le (nonneg : 0 ≤ buffer.data) : buffer.nice.data ≤ buffer.data := by
  unfold nice
  split
  · exact nonneg
  · exact le_refl _

/-- A lower bound of the capacity that every successful `grow` doubles. -/
def capacityFloor (total : Int) : Int :=
  if total < 8192 then 4096 else total

/-- Where the capacity has doubled, one round less is enough. -/
theorem capacityFloor_round {total grown : Int} {rounds : Nat}
    (enough : 2147483648 ≤ capacityFloor total * 2 ^ (rounds + 1))
    (larger : 2 * capacityFloor total ≤ capacityFloor grown) : 2147483648 ≤ capacityFloor grown * 2 ^ rounds := by
  have power : (0 : Int) ≤ 2 ^ rounds := by positivity
  calc (2147483648 : Int) ≤ capacityFloor total * 2 ^ (rounds + 1) := enough
    _ = 2 * capacityFloor total * 2 ^ rounds := by ring
    _ ≤ capacityFloor grown * 2 ^ rounds := Int.mul_le_mul_of_nonneg_right larger power

/-- What `grow` asks for is larger than before, unless the `int` overflows. -/
theorem grownTotal_spec {total : Int} (nonneg : 0 ≤ total) (bound : total < 2147483648) :
    grownTotal total < 2147483648 ∧
      (0 ≤ grownTotal total → total < grownTotal total ∧
        2 * capacityFloor total ≤ capacityFloor (grownTotal total)) ∧
      (total < 1073741824 → 0 ≤ grownTotal total) := by
  unfold capacityFloor grownTotal wrap32
  split
  · omega
  · split <;> split <;> omega

/-- `grow` fails only by running out of memory, and at least doubles the capacity otherwise. -/
theorem grow_outcome (nonneg : 0 ≤ buffer.total) (bound : buffer.total < 2147483648) :
    0 ≤ buffer.grow.2.total ∧ buffer.grow.2.total < 2147483648 ∧
      (buffer.grow.1 = -1 ∧ buffer.grow.2.oom = true ∨
        buffer.grow.1 ≠ -1 ∧ buffer.grow.2.oom = buffer.oom ∧
          buffer.total < buffer.grow.2.total ∧
          2 * capacityFloor buffer.total ≤ capacityFloor buffer.grow.2.total) := by
  obtain ⟨small, larger, _⟩ := grownTotal_spec nonneg bound
  unfold grow
  simp only [Bool.and_eq_true, decide_eq_true_eq]
  split
  · next granted => exact ⟨granted.2, small, .inr ⟨by simp only; omega, rfl, larger granted.2⟩⟩
  · exact ⟨nonneg, bound, .inl ⟨rfl, rfl⟩⟩

theorem grow_keeps (buffer : Buffer) :
    buffer.grow.2.content = buffer.content ∧ buffer.grow.2.data = buffer.data ∧
      buffer.grow.2.size = buffer.size := by
  unfold grow
  simp only
  split <;> exact ⟨rfl, rfl, rfl⟩

theorem WellFormed.grow_total (valid : buffer.WellFormed) : buffer.total ≤ buffer.grow.2.total := by
  obtain ⟨_, larger, _⟩ := grownTotal_spec valid.total_nonneg valid.totalBound
  unfold grow
  simp only [Bool.and_eq_true, decide_eq_true_eq]
  split
  · next granted => exact (larger granted.2).1.le
  · exact le_refl _

/-- `grow` changes the capacity only. -/
theorem WellFormed.grow_spec (valid : buffer.WellFormed) :
    buffer.grow.2.WellFormed ∧ buffer.grow.2.content = buffer.content ∧
      buffer.grow.2.data = buffer.data ∧ buffer.grow.2.size = buffer.size ∧
      (buffer.grow.1 = -1 ∧ buffer.grow.2.oom = true ∨
        buffer.grow.1 ≠ -1 ∧ buffer.grow.2.oom = buffer.oom ∧
          buffer.total < buffer.grow.2.total ∧
          2 * capacityFloor buffer.total ≤ capacityFloor buffer.grow.2.total) := by
  have total := valid.grow_total
  have dataNonneg := valid.dataNonneg
  have sizeNonneg := valid.sizeNonneg
  have inside := valid.inside
  obtain ⟨_, small, outcomes⟩ := grow_outcome valid.total_nonneg valid.totalBound
  obtain ⟨content, data, size⟩ := buffer.grow_keeps
  refine ⟨?_, content, data, size, outcomes⟩
  constructor <;> omega

theorem WellFormed.grow_succeeds (valid : buffer.WellFormed) (allocates : buffer.Allocates)
    (bound : buffer.total < 1073741824) :
    buffer.grow.1 ≠ -1 ∧ buffer.grow.2.Allocates ∧ buffer.grow.2.oom = buffer.oom ∧
      buffer.grow.2.total = grownTotal buffer.total := by
  have nonneg := (grownTotal_spec valid.total_nonneg valid.totalBound).2.2 bound
  have granted : buffer.reallocs.head?.getD true = true := by
    cases reallocs : buffer.reallocs with
    | nil => rfl
    | cons first rest => exact allocates first (by simp [reallocs])
  have later : ∀ granted ∈ buffer.reallocs.tail, granted = true := fun other member =>
    allocates other (List.mem_of_mem_tail member)
  unfold grow
  simp only [granted, nonneg, decide_true, Bool.and_self, if_true]
  exact ⟨by omega, later, trivial, trivial⟩

theorem makeRoom_of_space (room : buffer.space ≠ 0) : buffer.makeRoom = (true, buffer) := by
  rw [makeRoom, if_neg room]

theorem WellFormed.makeRoom_spec (valid : buffer.WellFormed) :
    buffer.makeRoom.2.WellFormed ∧ buffer.makeRoom.2.content = buffer.content ∧
      (buffer.makeRoom.1 = true → 0 < buffer.makeRoom.2.space) := by
  have nonneg := valid.space_nonneg
  obtain ⟨niceValid, same, _⟩ := valid.nice_spec
  obtain ⟨grownValid, kept, data, size, outcomes⟩ := niceValid.grow_spec
  have movedNonneg := niceValid.space_nonneg
  unfold makeRoom
  simp only
  split
  · split
    · next full =>
        refine ⟨grownValid, by rw [kept, same], fun succeeded => ?_⟩
        rw [niceValid.space_eq] at full
        rw [grownValid.space_eq, data, size]
        rcases outcomes with ⟨failed, _⟩ | ⟨_, _, larger, _⟩
        · simp [failed] at succeeded
        · omega
    · exact ⟨niceValid, same, fun _ => by simp only; omega⟩
  · exact ⟨valid, rfl, fun _ => by simp only; omega⟩

theorem WellFormed.makeRoom_total (valid : buffer.WellFormed) :
    buffer.total ≤ buffer.makeRoom.2.total := by
  obtain ⟨niceValid, _, total, _⟩ := valid.nice_spec
  have grown := niceValid.grow_total
  unfold makeRoom
  simp only
  split
  · split
    · simp only
      omega
    · simp only
      omega
  · exact le_refl _

/-- Room is found for contents up to 2^29 bytes whenever the allocator agrees:
a full block whose window `nice` leaves alone is at most twice as large. -/
theorem WellFormed.makeRoom_succeeds (valid : buffer.WellFormed) (allocates : buffer.Allocates)
    (bound : buffer.content.length < 536870912) :
    buffer.makeRoom.1 = true ∧ buffer.makeRoom.2.Allocates ∧ buffer.makeRoom.2.oom = buffer.oom := by
  obtain ⟨niceValid, same, total, size, reallocs, oom, low⟩ := valid.nice_spec
  have count := valid.size_eq
  have niceAllocates : buffer.nice.Allocates := by rwa [Allocates, reallocs]
  unfold makeRoom
  simp only
  split
  · split
    · next full =>
        rw [niceValid.space_eq] at full
        obtain ⟨succeeded, later, alive, _⟩ := niceValid.grow_succeeds niceAllocates (by omega)
        exact ⟨by simp [succeeded], later, by rw [alive, oom]⟩
    · exact ⟨rfl, niceAllocates, oom⟩
  · exact ⟨rfl, allocates, rfl⟩

/-- Unless memory runs out, `reserve` finds the space asked for before its rounds are used up. -/
theorem reserve_outcome (need : Int) {rounds : Nat} (nonneg : 0 ≤ buffer.total)
    (bound : buffer.total < 2147483648) (enough : 2147483648 ≤ capacityFloor buffer.total * 2 ^ rounds) :
    (buffer.reserve need rounds).1 = -1 ∧ (buffer.reserve need rounds).2.oom = true ∨
      (buffer.reserve need rounds).1 = 0 ∧ (buffer.reserve need rounds).2.oom = buffer.oom ∧
        need ≤ (buffer.reserve need rounds).2.space := by
  induction rounds generalizing buffer with
  | zero =>
      unfold capacityFloor at enough
      split at enough <;> omega
  | succ rounds ih =>
      obtain ⟨grownNonneg, grownBound, outcomes⟩ := grow_outcome nonneg bound
      unfold reserve
      generalize buffer.grow = outcome at *
      split
      · rcases outcomes with ⟨failed, dead⟩ | ⟨succeeded, oom, _, larger⟩
        · simp only [failed, if_true]
          exact .inl ⟨trivial, dead⟩
        · simp only [if_neg succeeded]
          rw [← oom]
          exact ih grownNonneg grownBound (capacityFloor_round enough larger)
      · next roomy => exact .inr ⟨rfl, rfl, Int.not_lt.mp roomy⟩

theorem reserve_keeps (buffer : Buffer) (need : Int) (rounds : Nat) :
    (buffer.reserve need rounds).2.content = buffer.content ∧
      (buffer.reserve need rounds).2.data = buffer.data ∧ (buffer.reserve need rounds).2.size = buffer.size := by
  induction rounds generalizing buffer with
  | zero => exact ⟨rfl, rfl, rfl⟩
  | succ rounds ih =>
      have grown := buffer.grow_keeps
      unfold reserve
      simp only
      split
      · split
        · exact grown
        · obtain ⟨content, data, size⟩ := ih buffer.grow.2
          exact ⟨content.trans grown.1, data.trans grown.2.1, size.trans grown.2.2⟩
      · exact ⟨rfl, rfl, rfl⟩

theorem WellFormed.reserve (valid : buffer.WellFormed) (need : Int) (rounds : Nat) :
    (buffer.reserve need rounds).2.WellFormed := by
  induction rounds generalizing buffer with
  | zero => exact valid
  | succ rounds ih =>
      have grown := valid.grow_spec.1
      unfold Buffer.reserve
      simp only
      split
      · split
        · exact grown
        · exact ih grown
      · exact valid

theorem WellFormed.reserve_spec (valid : buffer.WellFormed) (need : Int) {rounds : Nat}
    (enough : 2147483648 ≤ capacityFloor buffer.total * 2 ^ rounds) :
    (buffer.reserve need rounds).2.WellFormed ∧
      (buffer.reserve need rounds).2.content = buffer.content ∧
      ((buffer.reserve need rounds).1 = -1 ∧ (buffer.reserve need rounds).2.oom = true ∨
        (buffer.reserve need rounds).1 = 0 ∧ (buffer.reserve need rounds).2.oom = buffer.oom ∧
          need ≤ (buffer.reserve need rounds).2.space) :=
  ⟨valid.reserve need rounds, (buffer.reserve_keeps need rounds).1,
    reserve_outcome need valid.total_nonneg valid.totalBound enough⟩

theorem growRounds_enough (total : Int) : 2147483648 ≤ capacityFloor total * 2 ^ growRounds := by
  simp only [capacityFloor, growRounds]
  split <;> omega

/-- A call has added `text` and counted its bytes, or memory has run out and it has added nothing. -/
structure Stores (before : Buffer) (outcome : Int × Buffer) (text : Bytes) : Prop where
  valid : outcome.2.WellFormed
  outcomes : outcome.1 = -1 ∧ outcome.2.oom = true ∧ outcome.2.content = before.content ∨
    outcome.1 = text.length ∧ outcome.2.oom = before.oom ∧ outcome.2.content = before.content ++ text

theorem WellFormed.append_stores (valid : buffer.WellFormed) (short : bytes.length < 2147483648) :
    Stores buffer (buffer.append bytes) bytes := by
  obtain ⟨roomValid, same, outcomes⟩ :=
    valid.reserve_spec bytes.length (growRounds_enough _)
  unfold append
  simp only [size_of_short short, Int.toNat_natCast, List.take_length]
  generalize buffer.reserve bytes.length growRounds = outcome at *
  rcases outcomes with ⟨failed, dead⟩ | ⟨reserved, oom, fits⟩
  · rw [if_pos failed]
    exact ⟨roomValid, .inl ⟨rfl, dead, same⟩⟩
  · obtain ⟨stored, added⟩ := roomValid.write_incr_spec fits
    rw [if_neg (by omega)]
    exact ⟨stored, .inr ⟨rfl, oom, by rw [added, same]⟩⟩

/-- `append_record` adds exactly one record. -/
theorem WellFormed.appendRecord_stores (valid : buffer.WellFormed) {record : Bytes}
    (short : record.length ≤ 2147483630) :
    Stores buffer (buffer.appendRecord record) (decimal record.length ++ 10 :: (record ++ [10])) := by
  have request : wrap32 (wrap32 (16 + (record.length : Int)) + 1) = record.length + 17 := by
    unfold wrap32
    omega
  have size : Bytes.size record = record.length := size_of_short (by omega)
  obtain ⟨roomValid, same, outcomes⟩ :=
    valid.reserve_spec (record.length + 17) (growRounds_enough _)
  unfold appendRecord
  simp only [size, request, str_natCast, Int.toNat_natCast, List.take_length]
  generalize buffer.reserve (record.length + 17) growRounds = outcome at *
  rcases outcomes with ⟨failed, dead⟩ | ⟨reserved, oom, fits⟩
  · rw [if_pos failed]
    exact ⟨roomValid, .inl ⟨rfl, dead, same⟩⟩
  · have lineWidth : (decimal record.length).length ≤ 10 :=
      decimal_length_le (by decide) (by omega)
    have nonneg : 0 ≤ outcome.2.slot := by
      have := roomValid.dataNonneg
      have := roomValid.sizeNonneg
      simp only [slot]
      omega
    let whole := decimal record.length ++ 10 :: (record ++ [10])
    have width : (whole.length : Int) = (decimal record.length).length + record.length + 2 := by
      simp only [whole, List.length_append, List.length_cons, List.length_nil]
      omega
    have written : wrap32 (((decimal record.length ++ [10]).length : Nat) + record.length + 1) =
        (whole.length : Int) := by
      rw [width, List.length_append, List.length_singleton]
      unfold wrap32
      omega
    -- the three copies are one write of the whole record
    have once : ((outcome.2.write outcome.2.slot (decimal record.length ++ [10])).write
        (outcome.2.slot + ((decimal record.length ++ [10]).length : Nat)) record).write
        (outcome.2.slot + ((decimal record.length ++ [10]).length : Nat) + record.length) [10] =
          outcome.2.write outcome.2.slot whole := by
      rw [write_write nonneg, Int.add_assoc, ← Int.natCast_add, ← List.length_append,
        write_write nonneg]
      simp [whole]
    obtain ⟨stored, added⟩ := roomValid.write_incr_spec (show (whole.length : Int) ≤ _ by omega)
    rw [if_neg (by omega), written, once]
    exact ⟨stored, .inr ⟨rfl, oom, by rw [added, same]⟩⟩

/-- The two buffers differ in the bytes they hold only. -/
structure SameBlock (before after : Buffer) : Prop where
  data : after.data = before.data
  total : after.total = before.total
  reallocs : after.reallocs = before.reallocs
  oom : after.oom = before.oom

/-- Bytes are stored where `reserve` has found room for them. -/
theorem stored_sameBlock {outcome : Int × Buffer} (num : Int) (store : Buffer → Buffer)
    (keeps : ∀ room, SameBlock room (store room)) :
    SameBlock outcome.2 (if outcome.1 = -1 then (-1, outcome.2) else (num, store outcome.2)).2 := by
  split
  · exact ⟨rfl, rfl, rfl, rfl⟩
  · exact keeps outcome.2

theorem append_sameBlock (buffer : Buffer) (bytes : Bytes) :
    SameBlock (buffer.reserve (Bytes.size bytes) growRounds).2 (buffer.append bytes).2 := by
  simp only [append]
  exact stored_sameBlock _
    (fun room => (room.write room.slot (bytes.take (Bytes.size bytes).toNat)).incr (Bytes.size bytes))
    fun _ => ⟨rfl, rfl, rfl, rfl⟩

theorem appendRecord_sameBlock (buffer : Buffer) (record : Bytes) :
    SameBlock (buffer.reserve (wrap32 (wrap32 (16 + Bytes.size record) + 1)) growRounds).2
      (buffer.appendRecord record).2 := by
  simp only [appendRecord]
  generalize Bytes.size record = length
  generalize str length ++ [10] = line
  exact stored_sameBlock _
    (fun room => (((room.write room.slot line).write (room.slot + line.length) (record.take length.toNat)).write
      (room.slot + line.length + length) [10]).incr (wrap32 (line.length + length + 1)))
    fun _ => ⟨rfl, rfl, rfl, rfl⟩

/-! ### Appending one text after the other -/

/-- `after` is `before` with `text` added, unless memory has run out. -/
structure Appends (before after : Buffer) (text : Bytes) : Prop where
  valid : after.WellFormed
  outOfMemory : before.oom = true → after.oom = true
  added : after.oom = false → after.content = before.content ++ text

theorem Appends.refl (valid : buffer.WellFormed) : Appends buffer buffer [] :=
  ⟨valid, id, fun _ => by simp⟩

theorem Appends.trans {before middle after : Buffer} (first : Appends before middle front)
    (second : Appends middle after back) : Appends before after (front ++ back) := by
  refine ⟨second.valid, fun dead => second.outOfMemory (first.outOfMemory dead), fun alive => ?_⟩
  have between : middle.oom = false := by
    by_contra dead
    have := second.outOfMemory (by simpa using dead)
    simp [alive] at this
  rw [second.added alive, first.added between, List.append_assoc]

theorem Stores.appends {outcome : Int × Buffer} {text : Bytes} (stores : Stores buffer outcome text) :
    Appends buffer outcome.2 text := by
  obtain ⟨still, ⟨_, dead, _⟩ | ⟨_, oom, added⟩⟩ := stores
  · exact ⟨still, fun _ => dead, fun alive => by simp [dead] at alive⟩
  · exact ⟨still, fun already => oom.trans already, fun _ => added⟩

theorem WellFormed.append_appends (valid : buffer.WellFormed) (short : bytes.length < 2147483648) :
    Appends buffer (buffer.append bytes).2 bytes :=
  (valid.append_stores short).appends

theorem WellFormed.appendRecord_appends (valid : buffer.WellFormed) {record : Bytes}
    (short : record.length ≤ 2147483630) :
    Appends buffer (buffer.appendRecord record).2 (decimal record.length ++ 10 :: (record ++ [10])) :=
  (valid.appendRecord_stores short).appends

theorem WellFormed.foldl_appends {α : Type} {step : Buffer → α → Buffer} {text : α → Bytes}
    {items : List α} (valid : buffer.WellFormed)
    (each : ∀ item ∈ items, ∀ {before : Buffer}, before.WellFormed →
      Appends before (step before item) (text item)) :
    Appends buffer (items.foldl step buffer) (items.flatMap text) := by
  induction items generalizing buffer with
  | nil => exact .refl valid
  | cons first rest ih =>
      have head := each first (by simp) valid
      have tail := ih head.valid fun item member => each item (by simp [member])
      simpa using head.trans tail

end Dbss.Util.Buffer
