import Dbss.Net.Link.Send
import Dbss.Util.Buffer.Reach

namespace Dbss.Net.Link

open Dbss.Data Dbss.Util Dbss.Ssdb

/-! `Link::send` when an allocation fails: `append_record` and `append` report
it, but `send` looks at neither result. -/

variable {link : Link} {output : Buffer} {resp : List Bytes}

/-- The room behind the content that is asked for before the last byte of `resp` is in. -/
def peak : List Bytes → Int
  | [] => 1
  | record :: rest => max (record.length + 17) ((encodeRecord record).length + peak rest)

theorem appendRecord_sameRoom (output : Buffer) {record : Bytes} (short : record.length ≤ 2147483630) :
    Buffer.SameBlock (output.reserve (record.length + 17) Buffer.growRounds).2 (output.appendRecord record).2 := by
  have request : wrap32 (wrap32 (16 + Bytes.size record) + 1) = record.length + 17 := by
    rw [size_of_short (by omega)]
    unfold wrap32
    omega
  rw [← request]
  exact output.appendRecord_sameBlock record

theorem append_newline_sameRoom (output : Buffer) :
    Buffer.SameBlock (output.reserve 1 Buffer.growRounds).2 (output.append [10]).2 :=
  output.append_sameBlock [10]

/-- No allocation fails exactly where the allocator lets the buffer reach the room asked for. -/
theorem sendRecords_alive_iff (valid : output.WellFormed) (alive : output.oom = false) (sendable : Sendable resp) :
    (sendRecords output resp).oom = false ↔
      Buffer.CanReach (output.data + output.size + peak resp) output.total output.reallocs := by
  induction resp generalizing output with
  | nil =>
      have same := append_newline_sameRoom output
      have written : sendRecords output [] = (output.append [10]).2 := rfl
      rw [written, peak, valid.stored_reach alive same (le_refl _)]
      exact ⟨fun working => ⟨working, .enough (valid.stored_room same working)⟩, And.left⟩
  | cons record rest ih =>
      have short := sendable record List.mem_cons_self
      have later : Sendable rest := fun other member => sendable other (List.mem_cons_of_mem _ member)
      have same := appendRecord_sameRoom output short
      have appends := valid.appendRecord_appends short
      have written : sendRecords output (record :: rest) = sendRecords (output.appendRecord record).2 rest := by
        simp only [sendRecords, List.foldl_cons]
      rw [written, valid.stored_reach alive same (by rw [peak]; omega)]
      cases working : (output.appendRecord record).2.oom with
      | true =>
          have dead := (sendRecords_appends appends.valid later).outOfMemory working
          simp [dead]
      | false =>
          have room := valid.stored_room same working
          have data := same.data.trans (output.reserve_keeps _ _).2.1
          have size := appends.valid.size_eq
          rw [appends.added working, List.length_append, Int.natCast_add, ← valid.size_eq] at size
          have target : output.data + output.size + peak (record :: rest) =
              max (output.data + output.size + (record.length + 17))
                ((output.appendRecord record).2.data + (output.appendRecord record).2.size + peak rest) := by
            rw [peak, encodeRecord, data, size]
            omega
          rw [target, Buffer.canReach_max room, ih appends.valid working later]
          simp

/-! ### Records beyond the reach of an `int` -/

/-- The window starts inside a block of a size that the code gives to blocks. -/
structure Placed (output : Buffer) : Prop where
  dataNonneg : 0 ≤ output.data
  inside : output.data ≤ output.total
  capacity : Buffer.Capacity output.total

theorem Placed.stored {after : Buffer} (placed : Placed output) {need : Int}
    (same : Buffer.SameBlock (output.reserve need Buffer.growRounds).2 after) : Placed after := by
  obtain ⟨capacity, larger⟩ := placed.capacity.reserve need Buffer.growRounds
  obtain ⟨_, data, _⟩ := output.reserve_keeps need Buffer.growRounds
  have dataNonneg := placed.dataNonneg
  have inside := placed.inside
  refine ⟨?_, ?_, by rw [same.total]; exact capacity⟩
  · rw [same.data, data]
    exact dataNonneg
  · rw [same.data, same.total, data]
    omega

theorem append_newline_size (output : Buffer) :
    (output.append [10]).2.size =
      if (output.reserve 1 Buffer.growRounds).1 = -1 then (output.reserve 1 Buffer.growRounds).2.size
      else wrap32 ((output.reserve 1 Buffer.growRounds).2.size + 1) := by
  have stored (outcome : Int × Buffer) :
      (if outcome.1 = -1 then (-1, outcome.2)
        else (Bytes.size [10], (outcome.2.write outcome.2.slot [10]).incr 1)).2.size =
          if outcome.1 = -1 then outcome.2.size else wrap32 (outcome.2.size + 1) := by
    split <;> rfl
  simp only [Buffer.append]
  exact stored (output.reserve 1 Buffer.growRounds)

/-- Where the final newline has found room the content fits a block, whatever
the sizes before it were. -/
theorem Placed.content_length_le (placed : Placed output) (alive : (output.append [10]).2.oom = false) :
    (output.append [10]).2.content.length ≤ 1073741824 := by
  have same := append_newline_sameRoom output
  have after := placed.stored same
  obtain ⟨_, bound⟩ := after.capacity.bounds
  obtain ⟨least, most⟩ := placed.capacity.bounds
  have dataNonneg := after.dataNonneg
  have inside := after.inside
  rw [same.data, same.total] at inside
  rw [same.data] at dataNonneg
  rw [same.total] at bound
  rcases Buffer.reserve_outcome 1 (by omega) (by omega) (Buffer.growRounds_enough output.total) with
    ⟨_, dead⟩ | ⟨succeeded, _, room⟩
  · exact absurd (dead.symm.trans (same.oom.symm.trans alive)) (by decide)
  · rw [Buffer.content_length, append_newline_size, succeeded, if_neg (by decide)]
    unfold Buffer.space wrap32 at room
    unfold wrap32
    omega

theorem length_lt_of_not_sendable (broken : ¬ Sendable resp) : 1073741824 < (encode resp).length := by
  simp only [Sendable, not_forall] at broken
  obtain ⟨record, member, long⟩ := broken
  obtain ⟨before, after, rfl⟩ := List.append_of_mem member
  simp only [encode, encodeRecord, List.flatMap_append, List.flatMap_cons, List.length_append, List.length_cons]
  omega

theorem peak_of_not_sendable (broken : ¬ Sendable resp) : 1073741824 < peak resp := by
  induction resp with
  | nil => simp [Sendable] at broken
  | cons record rest ih =>
      rw [peak]
      by_cases short : record.length ≤ 2147483630
      · have later := ih fun sendable => broken fun other member => by
          rcases List.mem_cons.mp member with rfl | inside
          · exact short
          · exact sendable other inside
        omega
      · omega

theorem sendRecords_length_le (placed : Placed output) (alive : (sendRecords output resp).oom = false) :
    (sendRecords output resp).content.length ≤ 1073741824 := by
  have written : Placed (resp.foldl (fun output record => (output.appendRecord record).2) output) := by
    clear alive
    induction resp generalizing output with
    | nil => exact placed
    | cons record rest ih =>
        rw [List.foldl_cons]
        exact ih (placed.stored (output.appendRecord_sameBlock record))
  exact written.content_length_le alive

/-! ### All or nothing -/

/-- The link with `oom` telling of the allocations to come only. -/
def watched (link : Link) : Link :=
  { link with output := { link.output with oom := false } }

/-- If every allocation succeeds the whole packet is appended; if one fails,
`send` returns -1 and the content is what it was. -/
def AllOrNothing (link : Link) (resp : List Bytes) : Prop :=
  ∃ ret sent, link.watched.send resp = some (ret, sent) ∧
    (sent.output.oom = false → sent.output.content = link.output.content ++ encode resp) ∧
    (sent.output.oom = true → ret = -1 ∧ sent.output.content = link.output.content)

/-- `send` is all or nothing exactly where the allocator answers each call that
`send` makes. -/
theorem allOrNothing_iff (plain : link.redis = none) (nonempty : resp ≠ []) (valid : link.output.WellFormed)
    (capacity : Buffer.Capacity link.output.total) :
    AllOrNothing link resp ↔
      Buffer.CanReach (link.output.data + link.output.size + peak resp) link.output.total link.output.reallocs := by
  have ready : link.watched.output.WellFormed :=
    ⟨valid.dataNonneg, valid.sizeNonneg, valid.inside, valid.totalBound⟩
  have sent : link.watched.send resp =
      some (0, { link.watched with output := sendRecords link.watched.output resp }) :=
    send_ssdb plain nonempty
  have outcome : AllOrNothing link resp ↔ (sendRecords link.watched.output resp).oom = false ∧
      (sendRecords link.watched.output resp).content = link.output.content ++ encode resp := by
    constructor
    · rintro ⟨ret, after, done, whole, failed⟩
      rw [sent] at done
      cases done
      cases alive : (sendRecords link.watched.output resp).oom with
      | false => exact ⟨rfl, whole alive⟩
      | true => exact absurd (failed alive).1 (by decide)
    · rintro ⟨alive, whole⟩
      refine ⟨_, _, sent, fun _ => whole, fun dead => ?_⟩
      exact absurd (alive.symm.trans dead) (by decide)
  rw [outcome]
  by_cases sendable : Sendable resp
  · have reach : (sendRecords link.watched.output resp).oom = false ↔
        Buffer.CanReach (link.output.data + link.output.size + peak resp) link.output.total
          link.output.reallocs := sendRecords_alive_iff ready rfl sendable
    rw [← reach]
    exact ⟨And.left, fun alive => ⟨alive, (sendRecords_appends ready sendable).added alive⟩⟩
  · refine iff_of_false ?_ fun reach => ?_
    · rintro ⟨alive, whole⟩
      have inside : link.output.data ≤ link.output.total := by
        have := valid.inside
        have := valid.sizeNonneg
        omega
      have placed : Placed link.watched.output := ⟨valid.dataNonneg, inside, capacity⟩
      have short := sendRecords_length_le placed alive
      have long := length_lt_of_not_sendable sendable
      rw [whole, List.length_append] at short
      omega
    · have low := reach.le_capacity capacity
      have high := peak_of_not_sendable sendable
      have := valid.dataNonneg
      have := valid.sizeNonneg
      omega

/-- An output that holds two bytes behind its front and has to grow. -/
def behind : Link :=
  { holding [] 8 with output := (Buffer.new (fun _ => 0) [true, false] 8).append (ascii "xxab") |>.2.decr 2 }

theorem allOrNothing_iff_behind : AllOrNothing behind [ascii "get", List.replicate 20 97] := by
  refine (allOrNothing_iff rfl (by decide) ⟨by decide, by decide, by decide, by decide⟩ .block).mpr ?_
  exact .grow (by decide) (by decide) (by decide) (.enough (by decide))

def refused : Link :=
  { holding [] 8 with output := .new (fun _ => 0) [false] zeroBufferSize }

/-- The first record is missing from the packet that is sent. -/
theorem send_incomplete :
    (refused.watched.send [ascii "get", ascii "a"]).map (fun sent => (sent.1, sent.2.output.content)) =
        some (0, encode [ascii "a"]) ∧
      ¬ AllOrNothing refused [ascii "get", ascii "a"] := by
  refine ⟨by decide, ?_⟩
  rintro ⟨ret, sent, done, _, failed⟩
  have result : (refused.watched.send [ascii "get", ascii "a"]).map
      (fun sent => (sent.1, sent.2.output.oom)) = some (0, true) := by decide
  rw [done] at result
  obtain ⟨rfl, dead⟩ := Prod.mk.inj (Option.some.inj result)
  exact absurd (failed dead).1 (by decide)

end Dbss.Net.Link
