import Dbss.Wrapper.Api

namespace Dbss

open Dbss.Data Dbss.Util

/-! Memory safety of the copy loops: the cells the strings are copied to and
the table that points to them. -/

namespace ListOp

variable {op : ListOp} {s : Status} {errno : Errno} {resp : Option (List Bytes)}

/-- The strings that come back: those of an `ok` reply, if the call gets as far
as its request. -/
def replied (op : ListOp) (resp : Option (List Bytes)) : List Bytes :=
  if none ∈ op.pointers then [] else (readList resp).ret

theorem tableFor_eq {bytes : UInt64} (fixed : op.table = some bytes) (ret : List Bytes) :
    op.tableFor ret = bytes.toNat := by
  cases op with
  | hgetall | qslice => simp [table] at fixed
  | _ => simp [tableFor, fixed]

/-- Whatever happens, the list holds a cell for each string that came back. -/
theorem vec_result (op : ListOp) (s : Status) (errno : Errno) (resp : Option (List Bytes)) :
    ∃ table, (∀ bytes ∈ op.table, table = some bytes.toNat) ∧
      (op.operation.result s errno resp).vec =
        some ⟨table, (op.replied resp).map fun text => ⟨op.cellSize text, cString text⟩,
          (op.replied resp).length⟩ := by
  rcases op.operation_cases with ⟨null, table, caught, fixed⟩ | ⟨valid, req, made⟩
  · refine ⟨table, fixed, ?_⟩
    simp [caught, Operation.result, Returned.caught, Vec.fresh, replied, null]
  · refine ⟨some (op.tableFor (readList resp).ret), ?_, ?_⟩
    · intro bytes fixed
      rw [tableFor_eq fixed]
    · simp [made, Operation.result, Returned.ofList, Vec.fill_fresh, replied, valid]

/-- The condition on the strings: below `vlen` where that sizes the cells; no
string at all where the cells have no room for a terminator. -/
def CellsSuffice : ListOp → List Bytes → Prop
  | keys _ vlen _ _ | scan _ vlen _ _ | rscan _ vlen _ _ | zrange _ _ _ vlen | zrrange _ _ _ vlen
  | zkeys _ _ _ _ _ vlen | zscan _ _ _ _ _ vlen | zrscan _ _ _ _ _ vlen => fun ret =>
      ∀ text ∈ ret, strlen text < (orDefault vlen 128).toNat
  | multiGet .. | hkeys .. | hgetall .. | hscan .. | hrscan .. | multiHget .. | multiZget ..
  | qslice .. => fun ret => ret = []

theorem cellsSuffice_iff {ret : List Bytes} :
    op.CellsSuffice ret ↔ ∀ text ∈ ret, strlen text + 1 ≤ op.cellSize text := by
  cases op with
  | multiGet | hkeys | hgetall | hscan | hrscan | multiHget | multiZget | qslice =>
      simp [CellsSuffice, cellSize, List.eq_nil_iff_forall_not_mem]
  | _ => rfl

/-- The copy loop stays inside its cells exactly when they suffice for the strings. -/
theorem cells_inBounds_iff (op : ListOp) (s : Status) (errno : Errno) (resp : Option (List Bytes)) :
    (∀ vec ∈ (op.operation.result s errno resp).vec, ∀ cell ∈ vec.cells, cell.InBounds) ↔
      op.CellsSuffice (op.replied resp) := by
  obtain ⟨table, _, vec⟩ := op.vec_result s errno resp
  simp [vec, Cell.InBounds, cellsSuffice_iff, strlen]

/-- `hgetall` allocates nothing for the terminator of the string it copies. -/
theorem hgetall_cell_overrun :
    ¬ ∀ vec ∈ ((ListOp.hgetall (some (ascii "h"))).operation.result {} .success
        (some [ascii "ok", ascii "k", ascii "v"])).vec,
      ∀ cell ∈ vec.cells, cell.InBounds := by
  decide

/-- Every store into the table lies inside it, and `count` counts the stores,
exactly when the bytes of the table, a product modulo 2^64, reach for a pointer
to each string. -/
theorem table_inBounds_iff (op : ListOp) {bytes : UInt64} (fixed : op.table = some bytes)
    (s : Status) (errno : Errno) (resp : Option (List Bytes)) :
    (∀ vec ∈ (op.operation.result s errno resp).vec,
      (∀ index, index < vec.cells.length → ∃ table ∈ vec.table, 8 * (index + 1) ≤ table) ∧
        vec.count = vec.cells.length) ↔
      8 * (op.replied resp).length ≤ bytes.toNat := by
  obtain ⟨table, allocated, vec⟩ := op.vec_result s errno resp
  simp only [allocated bytes fixed] at vec
  simp only [vec, Option.mem_some_iff, forall_eq', List.length_map, and_true, exists_eq_left']
  constructor
  · intro inside
    rcases Nat.eq_zero_or_pos (op.replied resp).length with none | some
    · omega
    · have last := inside ((op.replied resp).length - 1) (by omega)
      omega
  · intro enough index before
    omega

theorem scan_table_inBounds :
    (ListOp.scan 10 128 (some []) (some [])).table = some 1280 ∧
      ∀ vec ∈ ((ListOp.scan 10 128 (some []) (some [])).operation.result {} .success
          (some [ascii "ok", ascii "k", ascii "v"])).vec,
        (∀ index, index < vec.cells.length → ∃ table ∈ vec.table, 8 * (index + 1) ≤ table) ∧
          vec.count = vec.cells.length :=
  ⟨by decide, (table_inBounds_iff _ (show _ = some 1280 by decide) {} .success _).mpr (by decide)⟩

/-- With `vlen` 4 a `scan` for two pairs has a table of 8 bytes, one pointer long. -/
theorem scan_table_overrun :
    ¬ ∀ vec ∈ ((ListOp.scan 2 4 (some []) (some [])).operation.result {} .success
        (some [ascii "ok", ascii "k", ascii "v"])).vec,
      (∀ index, index < vec.cells.length → ∃ table ∈ vec.table, 8 * (index + 1) ≤ table) ∧
        vec.count = vec.cells.length := by
  decide

end ListOp

end Dbss
