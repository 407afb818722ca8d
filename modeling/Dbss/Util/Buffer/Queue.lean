import Dbss.Data.Queue
import Dbss.Util.Buffer.Content

namespace Dbss.Util.Buffer

open Dbss.Data

/-! `Buffer` as a byte queue: what any sequence of its operations leaves in it. -/

variable {buffer before middle after : Buffer}

/-- The calls that change a buffer.  `fill` is what `Link::read` does: `bytes`
are written at `slot()` and `incr` counts them. -/
inductive Op where
  | appendRecord (record : Bytes)
  | append (bytes : Bytes)
  | fill (bytes : Bytes)
  | decr (num : Int)
  | nice
  | grow
deriving DecidableEq

namespace Op

/-- What the call returns, 0 if it is `void`, and the buffer after it. -/
def call (buffer : Buffer) : Op → Int × Buffer
  | appendRecord record => buffer.appendRecord record
  | append bytes => buffer.append bytes
  | fill bytes => (0, (buffer.write buffer.slot bytes).incr bytes.length)
  | decr num => (0, buffer.decr num)
  | nice => (0, buffer.nice)
  | grow => buffer.grow

def Permitted (buffer : Buffer) : Op → Prop
  | appendRecord record => record.length < 1073741824
  | append bytes => bytes.length < 2147483648
  | fill bytes => bytes.length ≤ buffer.space
  | decr num => 0 ≤ num ∧ num ≤ buffer.size
  | nice => True
  | grow => True

instance decidablePermitted (buffer : Buffer) : (op : Op) → Decidable (op.Permitted buffer)
  | appendRecord record => inferInstanceAs (Decidable (record.length < 1073741824))
  | append bytes => inferInstanceAs (Decidable (bytes.length < 2147483648))
  | fill bytes => inferInstanceAs (Decidable (bytes.length ≤ buffer.space))
  | decr num => inferInstanceAs (Decidable (0 ≤ num ∧ num ≤ buffer.size))
  | nice => inferInstanceAs (Decidable True)
  | grow => inferInstanceAs (Decidable True)

/-- What the call does to the queue of unread bytes. -/
def event : Op → QueueEvent UInt8
  | appendRecord record => .push (decimal record.length ++ 10 :: (record ++ [10]))
  | append bytes => .push bytes
  | fill bytes => .push bytes
  | decr num => .pop num.toNat
  | nice => .push []
  | grow => .push []

/-- The sizes that the call computes are `int`s, and it stays in the window and the room behind it. -/
def Sized (buffer : Buffer) : Op → Prop
  | appendRecord record => record.length ≤ 2147483630
  | append bytes => bytes.length < 2147483648
  | fill bytes => bytes.length ≤ buffer.space
  | decr num => 0 ≤ num ∧ num ≤ buffer.size
  | nice => True
  | grow => True

theorem Permitted.sized {op : Op} (permitted : op.Permitted buffer) : op.Sized buffer := by
  cases op with
  | appendRecord record =>
      have short : record.length < 1073741824 := permitted
      exact show record.length ≤ 2147483630 by omega
  | append | fill | decr | nice | grow => exact permitted

theorem acts_of_stores {outcome : Int × Buffer} {text : Bytes} (stores : Stores buffer outcome text) :
    outcome.2.WellFormed ∧
      (outcome.1 = -1 ∧ outcome.2.oom = true ∧ outcome.2.content = buffer.content ∨
        outcome.2.oom = buffer.oom ∧ QueueEvent.Step buffer.content (.push text) outcome.2.content) := by
  obtain ⟨stored, failed | ⟨_, same, added⟩⟩ := stores
  · exact ⟨stored, .inl failed⟩
  · rw [added]
    exact ⟨stored, .inr ⟨same, QueueEvent.step_push⟩⟩

/-- A call acts as its event, or memory runs out and the queue stays as it is. -/
theorem call_acts {op : Op} (valid : buffer.WellFormed) (sized : op.Sized buffer) :
    (op.call buffer).2.WellFormed ∧
      ((op.call buffer).1 = -1 ∧ (op.call buffer).2.oom = true ∧ (op.call buffer).2.content = buffer.content ∨
        (op.call buffer).2.oom = buffer.oom ∧
          QueueEvent.Step buffer.content op.event (op.call buffer).2.content) := by
  cases op with
  | appendRecord record =>
      have short : record.length ≤ 2147483630 := sized
      rw [call, event]
      exact acts_of_stores (valid.appendRecord_stores short)
  | append bytes =>
      have short : bytes.length < 2147483648 := sized
      rw [call, event]
      exact acts_of_stores (valid.append_stores short)
  | fill bytes =>
      obtain ⟨stored, added⟩ := valid.write_incr_spec sized
      rw [call]
      simp only [added]
      exact ⟨stored, .inr ⟨rfl, QueueEvent.step_push⟩⟩
  | decr num =>
      obtain ⟨nonneg, within⟩ := sized
      have size := valid.size_eq
      have split := (buffer.content.take_append_drop num.toNat).symm
      have width : (buffer.content.take num.toNat).length = num.toNat := by
        rw [List.length_take]
        omega
      have dropped := (valid.decr_spec split).2
      rw [width, Int.toNat_of_nonneg nonneg] at dropped
      refine ⟨valid.decr nonneg within, .inr ⟨rfl, ?_, ?_⟩⟩
      · rw [event, QueueEvent.popped]
        omega
      · simp only [call, dropped, event, QueueEvent.pushed, QueueEvent.popped, List.append_nil]
  | nice =>
      obtain ⟨moved, same, _, _, _, oom, _⟩ := valid.nice_spec
      rw [call]
      simp only [same]
      exact ⟨moved, .inr ⟨oom, QueueEvent.step_idle⟩⟩
  | grow =>
      obtain ⟨grown, same, _, _, ⟨failed, dead⟩ | ⟨_, oom, _⟩⟩ := valid.grow_spec
      · rw [call]
        exact ⟨grown, .inl ⟨failed, dead, same⟩⟩
      · rw [call, same]
        exact ⟨grown, .inr ⟨oom, QueueEvent.step_idle⟩⟩

theorem call_wellFormed {op : Op} (valid : buffer.WellFormed) (permitted : op.Permitted buffer) :
    (op.call buffer).2.WellFormed :=
  (call_acts valid permitted.sized).1

/-- Unless memory has run out by then, the call acts as its event. -/
theorem call_moves {op : Op} (valid : buffer.WellFormed) (permitted : op.Permitted buffer)
    (alive : (op.call buffer).2.oom = false) :
    buffer.oom = false ∧ QueueEvent.Step buffer.content op.event (op.call buffer).2.content := by
  obtain ⟨_, ⟨_, dead, _⟩ | ⟨same, moved⟩⟩ := call_acts valid permitted.sized
  · exact absurd (dead.symm.trans alive) (by decide)
  · exact ⟨same.symm.trans alive, moved⟩

end Op

/-! ### Memory -/

/-- The capacity has not shrunk, and where the allocator answers every call it
has not run out of memory below 2^30. -/
structure Widens (before after : Buffer) : Prop where
  total : before.total ≤ after.total
  allocates : before.Allocates → after.Allocates
  alive : before.Allocates → after.total < 1073741824 → after.oom = before.oom

theorem Widens.refl (buffer : Buffer) : Widens buffer buffer :=
  ⟨le_refl _, id, fun _ _ => rfl⟩

theorem Widens.trans (first : Widens before middle) (second : Widens middle after) : Widens before after := by
  refine ⟨first.total.trans second.total, second.allocates ∘ first.allocates, fun allocates bound => ?_⟩
  have between := second.total
  rw [second.alive (first.allocates allocates) bound, first.alive allocates (by omega)]

theorem WellFormed.grow_widens (valid : buffer.WellFormed) : Widens buffer buffer.grow.2 := by
  have larger := valid.grow_total
  refine ⟨larger, fun allocates granted member => ?_, fun allocates bound => ?_⟩
  · have tail : buffer.grow.2.reallocs = buffer.reallocs.tail := by
      unfold grow
      simp only
      split <;> rfl
    rw [tail] at member
    exact allocates granted (List.mem_of_mem_tail member)
  · exact (valid.grow_succeeds allocates (by omega)).2.2.1

theorem WellFormed.reserve_widens (valid : buffer.WellFormed) (need : Int) (rounds : Nat) :
    Widens buffer (buffer.reserve need rounds).2 := by
  induction rounds generalizing buffer with
  | zero => exact .refl buffer
  | succ rounds ih =>
      have grown := valid.grow_widens
      unfold Buffer.reserve
      split
      · simp only
        split
        · exact grown
        · exact grown.trans (ih valid.grow_spec.1)
      · exact .refl buffer

theorem SameBlock.widens (same : SameBlock middle after) (widens : Widens before middle) :
    Widens before after := by
  refine ⟨by rw [same.total]; exact widens.total, ?_, by rw [same.total, same.oom]; exact widens.alive⟩
  rw [Allocates, Allocates, same.reallocs]
  exact widens.allocates

theorem Op.call_widens {op : Op} (valid : buffer.WellFormed) : Widens buffer (op.call buffer).2 := by
  cases op with
  | appendRecord record => exact (buffer.appendRecord_sameBlock record).widens (valid.reserve_widens _ _)
  | append bytes => exact (buffer.append_sameBlock bytes).widens (valid.reserve_widens _ _)
  | fill bytes => exact ⟨le_refl _, id, fun _ _ => rfl⟩
  | decr num => exact ⟨le_refl _, id, fun _ _ => rfl⟩
  | nice =>
      obtain ⟨_, _, total, _, reallocs, oom, _⟩ := valid.nice_spec
      refine ⟨total.ge, fun allocates => ?_, fun _ _ => oom⟩
      rw [call, Allocates, reallocs]
      exact allocates
  | grow => exact valid.grow_widens

/-! ### Runs -/

def run (buffer : Buffer) (ops : List Op) : Buffer :=
  ops.foldl (fun buffer op => (op.call buffer).2) buffer

def Runs (buffer : Buffer) (ops : List Op) : Prop :=
  AllAllowed (fun buffer op => (Op.call buffer op).2) Op.Permitted buffer ops

instance decidableRuns (buffer : Buffer) (ops : List Op) : Decidable (buffer.Runs ops) :=
  decidableAllAllowed buffer ops

/-- The window and the room behind it fill the block up; `nice` and `grow` keep
the content; and what `nice` copies lies behind the place it is copied to, which
is in the lower half. -/
structure Consistent (buffer : Buffer) : Prop where
  dataNonneg : 0 ≤ buffer.data
  sizeNonneg : 0 ≤ buffer.size
  spaceNonneg : 0 ≤ buffer.space
  parts : buffer.data + buffer.size + buffer.space = buffer.total
  niceKeeps : buffer.nice.content = buffer.content
  growKeeps : buffer.grow.2.content = buffer.content
  moveApart : buffer.data > buffer.total / 2 → 0 + buffer.size ≤ buffer.data
  moveLow : buffer.data > buffer.total / 2 → 0 + buffer.size ≤ buffer.total / 2

theorem WellFormed.consistent (valid : buffer.WellFormed) : buffer.Consistent where
  dataNonneg := valid.dataNonneg
  sizeNonneg := valid.sizeNonneg
  spaceNonneg := valid.space_nonneg
  parts := by
    rw [valid.space_eq]
    omega
  niceKeeps := valid.nice_spec.2.1
  growKeeps := valid.grow_spec.2.1
  moveApart := by
    have := valid.inside
    omega
  moveLow := by
    have := valid.inside
    omega

/-- After each sequence of calls the buffer is consistent, and unless memory has
run out it holds the bytes that were added less those that were removed. -/
theorem run_isQueue (fresh : Block) (reallocs : List Bool) {total : Int} {ops : List Op} (nonneg : 0 ≤ total)
    (bound : total < 2147483648) (runs : (new fresh reallocs total).Runs ops) :
    ((new fresh reallocs total).run ops).Consistent ∧
      ((∀ granted ∈ reallocs, granted = true) →
        ((new fresh reallocs total).run ops).total < 1073741824 →
        ((new fresh reallocs total).run ops).content =
          (QueueEvent.allPushed (ops.map Op.event)).drop (QueueEvent.allPopped (ops.map Op.event))) := by
  have start : (new fresh reallocs total).WellFormed := new_wellFormed nonneg bound
  have reached := runs.preserves (fun buffer => buffer.WellFormed ∧ Widens (new fresh reallocs total) buffer)
    ⟨start, .refl _⟩ fun buffer op before permitted =>
      ⟨op.call_wellFormed before.1 permitted, before.2.trans (op.call_widens before.1)⟩
  refine ⟨reached.1.consistent, fun allocates small => ?_⟩
  have conserved := runs.conserves WellFormed (fun buffer => buffer.oom = false) start
    (fun _ _ => Op.call_wellFormed) (fun _ _ => Op.call_moves) (reached.2.alive allocates small)
  rw [new_content, List.nil_append] at conserved
  exact conserved.2

/-- Six bytes arrive, `nice` moves the last one, and two more appends follow. -/
def movingRun : List Op :=
  [.append (ascii "abcdef"), .decr 5, .nice, .appendRecord (ascii "g"), .fill (ascii "h")]

theorem run_isQueue_moving :
    ((new (fun _ => 0) [true] 8).run movingRun).Consistent ∧
      ((∀ granted ∈ [true], granted = true) →
        ((new (fun _ => 0) [true] 8).run movingRun).total < 1073741824 →
        ((new (fun _ => 0) [true] 8).run movingRun).content =
          (QueueEvent.allPushed (movingRun.map Op.event)).drop
            (QueueEvent.allPopped (movingRun.map Op.event))) :=
  run_isQueue (fun _ => 0) [true] (by decide) (by decide) (by decide)

example : ((new (fun _ => 0) [true] 8).run movingRun).content = ascii "f1" ++ 10 :: (ascii "g" ++ 10 :: ascii "h") := by
  decide

end Dbss.Util.Buffer
