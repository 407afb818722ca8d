import Dbss.Util.Buffer.Content

namespace Dbss.Util.Buffer

open Dbss.Data

/-! Which sizes a buffer can be brought to, and which the allocator lets it reach. -/

/-- The sizes that a block of eight bytes can be grown to. -/
inductive Capacity : Int → Prop where
  | block : Capacity 8
  | grown {total} (smaller : Capacity total) (fits : 0 ≤ grownTotal total) : Capacity (grownTotal total)

/-- The allocator answers the calls that bring the capacity to `target`. -/
inductive CanReach (target : Int) : Int → List Bool → Prop where
  | enough {total reallocs} (large : target ≤ total) : CanReach target total reallocs
  | grow {total reallocs} (small : total < target) (granted : reallocs.head?.getD true = true)
      (fits : 0 ≤ grownTotal total) (rest : CanReach target (grownTotal total) reallocs.tail) :
      CanReach target total reallocs

variable {buffer : Buffer} {total target need low : Int} {reallocs : List Bool}

def capacities : List Int :=
  8 :: 8192 :: 65536 :: 524288 :: (List.range 11).map fun power => (1048576 : Int) * 2 ^ power

theorem capacities_closed : ∀ total ∈ capacities, 0 ≤ grownTotal total → grownTotal total ∈ capacities := by
  decide

theorem Capacity.mem (capacity : Capacity total) : total ∈ capacities := by
  induction capacity with
  | block => decide
  | grown _ fits smaller => exact capacities_closed _ smaller fits

theorem Capacity.bounds (capacity : Capacity total) : 8 ≤ total ∧ total ≤ 1073741824 := by
  have listed : ∀ total ∈ capacities, 8 ≤ total ∧ total ≤ 1073741824 := by decide
  exact listed total capacity.mem

theorem Capacity.grow (capacity : Capacity buffer.total) :
    Capacity buffer.grow.2.total ∧ buffer.total ≤ buffer.grow.2.total := by
  have bounds := capacity.bounds
  obtain ⟨_, larger, _⟩ := grownTotal_spec (show 0 ≤ buffer.total by omega) (by omega)
  unfold Buffer.grow
  simp only [Bool.and_eq_true, decide_eq_true_eq]
  split
  · next granted => exact ⟨.grown capacity granted.2, (larger granted.2).1.le⟩
  · exact ⟨capacity, le_refl _⟩

theorem Capacity.reserve (capacity : Capacity buffer.total) (need : Int) (rounds : Nat) :
    Capacity (buffer.reserve need rounds).2.total ∧ buffer.total ≤ (buffer.reserve need rounds).2.total := by
  induction rounds generalizing buffer with
  | zero => exact ⟨capacity, le_refl _⟩
  | succ rounds ih =>
      have grown := capacity.grow
      unfold Buffer.reserve
      simp only
      split
      · split
        · exact grown
        · obtain ⟨later, larger⟩ := ih grown.1
          exact ⟨later, grown.2.trans larger⟩
      · exact ⟨capacity, le_refl _⟩

theorem canReach_iff_of_small (small : total < target) :
    CanReach target total reallocs ↔ reallocs.head?.getD true = true ∧ 0 ≤ grownTotal total ∧
      CanReach target (grownTotal total) reallocs.tail := by
  constructor
  · intro reach
    cases reach with
    | enough large => omega
    | grow _ granted fits rest => exact ⟨granted, fits, rest⟩
  · exact fun ⟨granted, fits, rest⟩ => .grow small granted fits rest

theorem CanReach.le_capacity (reach : CanReach target total reallocs) (capacity : Capacity total) :
    target ≤ 1073741824 := by
  induction reach with
  | enough large => exact large.trans capacity.bounds.2
  | grow _ _ fits _ ih => exact ih (.grown capacity fits)

theorem canReach_max (reached : low ≤ total) :
    CanReach (max low target) total reallocs ↔ CanReach target total reallocs := by
  rcases le_total low target with order | order
  · rw [max_eq_right order]
  · rw [max_eq_left order]
    exact iff_of_true (.enough reached) (.enough (order.trans reached))

theorem grow_granted (granted : buffer.reallocs.head?.getD true = true) (fits : 0 ≤ grownTotal buffer.total) :
    buffer.grow = (grownTotal buffer.total,
      { buffer with total := grownTotal buffer.total, reallocs := buffer.reallocs.tail }) := by
  simp only [grow, granted, fits, decide_true, Bool.and_self, if_true]

theorem grow_denied (denied : ¬ (buffer.reallocs.head?.getD true = true ∧ 0 ≤ grownTotal buffer.total)) :
    buffer.grow.1 = -1 := by
  unfold grow
  simp only [Bool.and_eq_true, decide_eq_true_eq]
  rw [if_neg denied]

/-- Reaching `target` takes the room that `reserve` finds on the way, and the
rest from there. -/
theorem WellFormed.reserve_reach (valid : buffer.WellFormed) {rounds : Nat}
    (low : buffer.data + buffer.size + need ≤ target)
    (enough : 2147483648 ≤ capacityFloor buffer.total * 2 ^ rounds) :
    CanReach target buffer.total buffer.reallocs ↔ (buffer.reserve need rounds).1 = 0 ∧
      CanReach target (buffer.reserve need rounds).2.total (buffer.reserve need rounds).2.reallocs := by
  induction rounds generalizing buffer with
  | zero =>
      have := valid.totalBound
      unfold capacityFloor at enough
      split at enough <;> omega
  | succ rounds ih =>
      have space := valid.space_eq
      obtain ⟨grownValid, _, data, size, outcomes⟩ := valid.grow_spec
      unfold Buffer.reserve
      by_cases short : need > buffer.space
      · rw [if_pos short, canReach_iff_of_small (by omega)]
        by_cases granted : buffer.reallocs.head?.getD true = true ∧ 0 ≤ grownTotal buffer.total
        · have grown := grow_granted granted.1 granted.2
          rcases outcomes with ⟨failed, _⟩ | ⟨succeeded, _, _, larger⟩
          · rw [grown] at failed
            simp only at failed
            omega
          · have rest := ih grownValid (by rw [data, size]; exact low) (capacityFloor_round enough larger)
            simp only [if_neg succeeded]
            rw [← rest, grown]
            simp [granted]
        · simp only [grow_denied granted, if_true]
          exact iff_of_false (fun reached => granted ⟨reached.1, reached.2.1⟩) (by simp)
      · rw [if_neg short]
        simp

/-- The same for a call that stores bytes in the room that `reserve` has found. -/
theorem WellFormed.stored_reach {after : Buffer} (valid : buffer.WellFormed) (alive : buffer.oom = false)
    (same : SameBlock (buffer.reserve need growRounds).2 after) (low : buffer.data + buffer.size + need ≤ target) :
    CanReach target buffer.total buffer.reallocs ↔
      after.oom = false ∧ CanReach target after.total after.reallocs := by
  obtain ⟨_, _, outcomes⟩ := valid.reserve_spec need (growRounds_enough _)
  rw [valid.reserve_reach low (growRounds_enough _), same.oom, same.total, same.reallocs]
  refine and_congr_left fun _ => ?_
  rcases outcomes with ⟨failed, dead⟩ | ⟨succeeded, oom, _⟩
  · simp [failed, dead]
  · simp [succeeded, oom, alive]

theorem WellFormed.stored_room {after : Buffer} (valid : buffer.WellFormed)
    (same : SameBlock (buffer.reserve need growRounds).2 after) (alive : after.oom = false) :
    buffer.data + buffer.size + need ≤ after.total := by
  obtain ⟨roomValid, _, outcomes⟩ := valid.reserve_spec need (growRounds_enough _)
  obtain ⟨_, data, size⟩ := buffer.reserve_keeps need growRounds
  rcases outcomes with ⟨_, dead⟩ | ⟨_, _, room⟩
  · exact absurd (dead.symm.trans (same.oom.symm.trans alive)) (by decide)
  · rw [roomValid.space_eq, data, size] at room
    rw [same.total]
    omega

end Dbss.Util.Buffer
