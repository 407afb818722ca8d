import Dbss.Util.Buffer.Content

namespace Dbss.Util

open Dbss.Data

/-! `Buffer::read_record`, the counterpart of `append_record`. -/

/-- What `read_record` returns, the bytes that `*s` refers to if it was set, and
the buffer after the call. -/
structure RecordRead where
  value : Int
  record : Option Bytes
  buffer : Buffer

namespace Buffer

/-- `read_record` from `char *p = body + body_len` on. -/
def readBody (buffer : Buffer) (headLen bodyLen : Int) : RecordRead :=
  let body := buffer.data + headLen
  let p := body + bodyLen
  let record := buffer.buf.slice body.toNat bodyLen.toNat
  if buffer.size ≥ wrap32 (headLen + bodyLen + 1) then
    if buffer.buf p.toNat = 10 then
      ⟨1, some record, { buffer with size := wrap32 (buffer.size - wrap32 (headLen + bodyLen + 1)) }⟩
    else if buffer.buf p.toNat = 13 then
      if buffer.size ≥ wrap32 (headLen + bodyLen + 2) then
        if buffer.buf (p + 1).toNat = 10 then
          ⟨1, some record, { buffer with size := wrap32 (buffer.size - wrap32 (headLen + bodyLen + 2)) }⟩
        else
          ⟨-1, none, buffer⟩
      else
        ⟨0, none, buffer⟩
    else
      ⟨-1, none, buffer⟩
  else
    ⟨0, none, buffer⟩

/-- `read_record`.  Like the source it leaves `data_` where it is. -/
def readRecord (buffer : Buffer) : RecordRead :=
  match buffer.buf.memchr buffer.data.toNat 10 buffer.size.toNat with
  | none => ⟨0, none, buffer⟩
  | some found =>
      let headLen : Int := found + 1
      if isDigit (buffer.buf buffer.data.toNat) = false then
        ⟨-1, none, buffer⟩
      else if headLen + 1 > 20 then
        ⟨-1, none, buffer⟩
      else
        let bodyLen := atoi (buffer.buf.slice buffer.data.toNat found)
        if bodyLen < 0 then ⟨-1, none, buffer⟩ else buffer.readBody headLen bodyLen

def recordText (record : Bytes) : Bytes :=
  decimal record.length ++ 10 :: (record ++ [10])

def appendRecords (buffer : Buffer) (records : List Bytes) : Buffer :=
  records.foldl (fun buffer record => (buffer.appendRecord record).2) buffer

def readRecords : Nat → Buffer → List (Int × Option Bytes) × Buffer
  | 0, buffer => ([], buffer)
  | count + 1, buffer =>
      let read := buffer.readRecord
      let later := readRecords count read.buffer
      ((read.value, read.record) :: later.1, later.2)

variable {buffer : Buffer} {record rest : Bytes} {records : List Bytes}

theorem recordText_length (record : Bytes) :
    (recordText record).length = (decimal record.length).length + 1 + record.length + 1 := by
  simp only [recordText, List.length_append, List.length_cons, List.length_nil]
  omega

theorem atoi_decimal {number : Nat} (bound : number < 2147483648) : atoi (decimal number) = number := by
  have read : strtol (decimal number ++ []) .success = ⟨number, (decimal number).length, .success⟩ :=
    strtol_decimal (by omega) (by simp)
  rw [List.append_nil] at read
  have range : wrap32 number = number := wrap32_of_range (by omega) (by omega)
  rw [atoi, read, range]

theorem readRecord_header {length : Nat} (bound : length < 2147483648)
    (here : buffer.content = decimal length ++ 10 :: rest) :
    buffer.readRecord = buffer.readBody ((decimal length).length + 1) length := by
  have width : (decimal length).length ≤ 10 := decimal_length_le (by decide) (by omega)
  have found := Block.memchr_some here (not_mem_decimal (by decide))
  have line := (Block.slice_of_append here).1
  obtain ⟨first, others, text, digit⟩ := decimal_head_isDigit length
  have start : buffer.buf buffer.data.toNat = first := Block.head_of_slice (here.trans (by rw [text]; rfl))
  rw [readRecord, found]
  simp only [start, digit, line, atoi_decimal bound]
  rw [if_neg (by decide), if_neg (by omega), if_neg (by omega)]

theorem WellFormed.readRecord_part (valid : buffer.WellFormed) (short : (recordText record).length < 2147483648)
    (split : recordText record = buffer.content ++ rest) (nonempty : rest ≠ []) :
    buffer.readRecord = ⟨0, none, buffer⟩ := by
  have whole := recordText_length record
  have size := valid.size_eq
  have missing := List.length_pos_iff.mpr nonempty
  have lengths := congrArg List.length split
  rw [List.length_append] at lengths
  have taken : buffer.content = (recordText record).take buffer.content.length := by
    rw [split, List.take_left]
  by_cases header : buffer.content.length ≤ (decimal record.length).length
  · -- the part ends before the newline of the length line
    rw [recordText, List.take_append_of_le_length header] at taken
    have clean : (10 : UInt8) ∉ buffer.content := fun member =>
      not_mem_decimal (by decide) (List.mem_of_mem_take (taken ▸ member))
    rw [readRecord, Block.memchr_none rfl clean]
  · obtain ⟨count, width⟩ := Nat.exists_eq_add_of_lt (Nat.lt_of_not_le header)
    have here : buffer.content = decimal record.length ++ 10 :: (record ++ [10]).take count := by
      rw [taken, recordText, width, Nat.add_assoc, List.take_length_add_append, List.take_succ_cons]
    have exact_size : wrap32 (((decimal record.length).length : Int) + 1 + record.length + 1) =
        (recordText record).length := by
      rw [whole, wrap32_of_range (by omega) (by omega)]
      omega
    rw [readRecord_header (by omega) here, readBody]
    simp only [exact_size]
    rw [if_neg (by omega)]

/-- The block holds a record where the unread bytes start, or would start. -/
structure Starts (buffer : Buffer) (record : Bytes) : Prop where
  valid : buffer.WellFormed
  short : (recordText record).length < 2147483648
  stored : buffer.buf.slice buffer.data.toNat (recordText record).length = recordText record

theorem Starts.shrink (starts : buffer.Starts record) {size : Int} (nonneg : 0 ≤ size)
    (smaller : size ≤ buffer.size) : Starts { buffer with size } record := by
  obtain ⟨dataNonneg, _, inside, totalBound⟩ := starts.valid
  exact ⟨⟨dataNonneg, nonneg, by simp only; omega, totalBound⟩, starts.short, starts.stored⟩

theorem Starts.body (starts : buffer.Starts record) :
    buffer.buf.slice (buffer.data.toNat + ((decimal record.length).length + 1)) record.length = record ∧
      buffer.buf (buffer.data.toNat + ((decimal record.length).length + 1) + record.length) = 10 := by
  have parts : recordText record = (decimal record.length ++ [10]) ++ (record ++ [10]) := by
    simp [recordText]
  have behind := (Block.slice_of_append (starts.stored.trans parts)).2
  rw [List.length_append, List.length_singleton] at behind
  obtain ⟨body, newline⟩ := Block.slice_of_append behind
  exact ⟨body, Block.head_of_slice newline⟩

/-- A whole record is read, and the window loses as many bytes at its end. -/
theorem Starts.readRecord_whole (starts : buffer.Starts record) (whole : (recordText record).length ≤ buffer.size) :
    buffer.readRecord =
      ⟨1, some record, { buffer with size := buffer.size - (recordText record).length }⟩ := by
  have length := recordText_length record
  have short := starts.short
  have nonneg := starts.valid.dataNonneg
  have limit := starts.valid.content_length_lt
  have size := starts.valid.size_eq
  obtain ⟨body, newline⟩ := starts.body
  obtain ⟨count, width⟩ :=
    Nat.exists_eq_add_of_le (show (recordText record).length ≤ buffer.size.toNat by omega)
  have here : buffer.content = decimal record.length ++ 10 :: (record ++ [10] ++
      buffer.buf.slice (buffer.data.toNat + (recordText record).length) count) := by
    rw [content, width, Block.slice_add, starts.stored, recordText, List.append_assoc]
    rfl
  have used : wrap32 (((decimal record.length).length : Int) + 1 + record.length + 1) =
      (recordText record).length := by
    rw [length, wrap32_of_range (by omega) (by omega)]
    omega
  have left : wrap32 (buffer.size - (recordText record).length) = buffer.size - (recordText record).length :=
    wrap32_of_range (by omega) (by omega)
  have start : (buffer.data + (((decimal record.length).length : Int) + 1)).toNat =
      buffer.data.toNat + ((decimal record.length).length + 1) := by omega
  have stop : (buffer.data + (((decimal record.length).length : Int) + 1) + record.length).toNat =
      buffer.data.toNat + ((decimal record.length).length + 1) + record.length := by omega
  rw [readRecord_header (by omega) here, readBody]
  simp only [used, left, start, stop, Int.toNat_natCast, body, newline, if_true]
  rw [if_pos whole]

theorem Starts.readRecord_eq (starts : buffer.Starts record) :
    buffer.readRecord =
      if (recordText record).length ≤ buffer.size then
        ⟨1, some record, { buffer with size := buffer.size - (recordText record).length }⟩
      else ⟨0, none, buffer⟩ := by
  split
  · next whole => exact starts.readRecord_whole whole
  · next part =>
      have size := starts.valid.sizeNonneg
      have split : recordText record = buffer.content ++ (recordText record).drop buffer.size.toNat := by
        have front : (recordText record).take buffer.size.toNat = buffer.content := by
          rw [← starts.stored, Block.slice_take (by omega), content]
        rw [← front, List.take_append_drop]
      refine starts.valid.readRecord_part starts.short split ?_
      rw [ne_eq, List.drop_eq_nil_iff]
      omega

/-- However often it is called, `read_record` gives the first record or nothing. -/
theorem Starts.readRecords_first (starts : buffer.Starts record) (count : Nat) :
    ∀ read ∈ (readRecords count buffer).1, read = (1, some record) ∨ read = (0, none) := by
  induction count generalizing buffer with
  | zero => exact List.forall_mem_nil _
  | succ count ih =>
      have size := starts.valid.sizeNonneg
      rw [readRecords, starts.readRecord_eq]
      split
      · next whole =>
          exact List.forall_mem_cons.mpr ⟨.inl rfl, ih (starts.shrink (by omega) (by omega))⟩
      · exact List.forall_mem_cons.mpr ⟨.inr rfl, ih starts⟩

/-- From a window of as many bytes as `count` copies of the record have, it is read `count` times. -/
theorem Starts.readRecords_copies (starts : buffer.Starts record) {count : Nat}
    (copies : buffer.size = count * (recordText record).length) :
    (readRecords count buffer).1 = List.replicate count (1, some record) ∧
      (readRecords count buffer).2.empty = true := by
  induction count generalizing buffer with
  | zero =>
      rw [Nat.cast_zero, Int.zero_mul] at copies
      exact ⟨rfl, beq_iff_eq.mpr copies⟩
  | succ count ih =>
      have split : ((count + 1 : Nat) : Int) * (recordText record).length =
          count * (recordText record).length + (recordText record).length := by
        rw [Nat.cast_add, Nat.cast_one, Int.add_mul, Int.one_mul]
      rw [split] at copies
      have rest : (0 : Int) ≤ count * (recordText record).length := by positivity
      obtain ⟨reads, drained⟩ := ih (starts.shrink rest (by omega)) rfl
      have left : buffer.size - (recordText record).length = count * (recordText record).length := by omega
      rw [readRecords, starts.readRecord_whole (by omega), left]
      simp only [reads]
      exact ⟨rfl, drained⟩

/-- While memory lasts, the records lie one behind the other. -/
theorem WellFormed.appendRecords_appends (valid : buffer.WellFormed)
    (short : ∀ record ∈ records, record.length ≤ 2147483630) :
    Appends buffer (buffer.appendRecords records) (records.flatMap recordText) :=
  valid.foldl_appends fun record member _ ready => ready.appendRecord_appends (short record member)

/-- As many calls as there are records return 1 and give back the records in
their order, and then the buffer is empty. -/
def ReadsBack (buffer : Buffer) (records : List Bytes) : Prop :=
  (readRecords records.length buffer).1 = records.map (fun record => (1, some record)) ∧
    (readRecords records.length buffer).2.empty = true

instance decidableReadsBack (buffer : Buffer) (records : List Bytes) : Decidable (buffer.ReadsBack records) :=
  inferInstanceAs (Decidable (_ ∧ _))

/-- On a part of one record `read_record` returns 0 and changes nothing. -/
def AwaitsRecord : Prop :=
  ∀ (buffer : Buffer) (record rest : Bytes), buffer.WellFormed → (recordText record).length < 2147483648 →
    recordText record = buffer.content ++ rest → rest ≠ [] → buffer.readRecord = ⟨0, none, buffer⟩

/-- `read_record` gives up the bytes at the end of the window instead of those
at its start, and so reads the first record again and again. -/
theorem recordQueue_iff (valid : buffer.WellFormed) (empty : buffer.empty = true)
    (small : records.flatten.length < 1073741824) (allocated : (buffer.appendRecords records).oom = false) :
    (buffer.appendRecords records).ReadsBack records ∧ AwaitsRecord ↔
      ∀ first ∈ records, ∀ second ∈ records, first = second := by
  have short : ∀ record ∈ records, record.length ≤ 2147483630 := fun record member => by
    have shorter := (List.sublist_flatten_of_mem member).length_le
    omega
  obtain ⟨stored, _, added⟩ := valid.appendRecords_appends short
  have here := added allocated
  rw [valid.empty_iff.mp empty, List.nil_append] at here
  generalize buffer.appendRecords records = filled at *
  have awaits : AwaitsRecord := fun _ _ _ valid short split nonempty => valid.readRecord_part short split nonempty
  rw [and_iff_left awaits]
  cases records with
  | nil => exact iff_of_true ⟨rfl, stored.empty_iff.mpr here⟩ (List.forall_mem_nil _)
  | cons record others =>
      have limit := stored.content_length_lt
      have starts : filled.Starts record := by
        rw [List.flatMap_cons] at here
        refine ⟨stored, ?_, (Block.slice_of_append here).1⟩
        rw [here, List.length_append] at limit
        omega
      constructor
      · rintro ⟨reads, _⟩
        have same : ∀ other ∈ record :: others, other = record := fun other member => by
          have read : (1, some other) ∈ (readRecords (record :: others).length filled).1 :=
            reads ▸ List.mem_map_of_mem member
          rcases starts.readRecords_first _ _ read with given | nothing
          · exact Option.some.inj (congrArg Prod.snd given)
          · cases nothing
        exact fun first firstMember second secondMember =>
          (same first firstMember).trans (same second secondMember).symm
      · intro same
        have copies : record :: others = List.replicate (record :: others).length record :=
          List.eq_replicate_iff.mpr ⟨rfl, fun other member => same other member record List.mem_cons_self⟩
        have size : filled.size = (record :: others).length * (recordText record).length := by
          rw [stored.size_eq, here, copies, List.length_flatMap, List.map_replicate, List.sum_replicate,
            List.length_replicate, nsmul_eq_mul, Nat.cast_mul, Nat.cast_id]
        obtain ⟨reads, drained⟩ := starts.readRecords_copies size
        refine ⟨?_, drained⟩
        rw [reads, copies, List.map_replicate, List.length_replicate]

theorem recordQueue_iff_twice :
    ((new (fun _ => 0) [] 8).appendRecords [ascii "ab", ascii "ab"]).ReadsBack [ascii "ab", ascii "ab"] ∧
        AwaitsRecord ↔
      ∀ first ∈ [ascii "ab", ascii "ab"], ∀ second ∈ [ascii "ab", ascii "ab"], first = second :=
  recordQueue_iff (new_wellFormed (by decide) (by decide)) rfl (by decide) (by decide)

/-- The second call does not find the second record, and the first is not read again as a whole. -/
theorem readRecord_rereads :
    ¬ (((new (fun _ => 0) [] 8).appendRecords [ascii "ab", ascii "c"]).ReadsBack [ascii "ab", ascii "c"] ∧
      AwaitsRecord) := by
  rintro ⟨reads, _⟩
  exact absurd reads (by decide)

example : (readRecords 2 ((new (fun _ => 0) [] 8).appendRecords [ascii "c", ascii "ab"])).1 =
    [(1, some (ascii "c")), (1, some (ascii "c"))] := by
  decide

end Buffer

end Dbss.Util
