import Mathlib.Data.Set.Insert
import Mathlib.Logic.Function.Basic

namespace Dbss.Data

/-! Resources that are taken and given back, and who holds them. -/

/-- Every resource in use has one holder, and what is held is in use. -/
structure Balanced {ι ρ : Type} (used : Set ρ) (held : ι → Option ρ) : Prop where
  inUse : ∀ {holder resource}, held holder = some resource → resource ∈ used
  hasHolder : ∀ resource ∈ used, ∃ holder, held holder = some resource
  single : ∀ {left right resource}, held left = some resource → held right = some resource → left = right

variable {ι ρ : Type} [DecidableEq ι] {held : ι → Option ρ} {holder other : ι} {resource taken : ρ}

theorem update_none_eq_some :
    Function.update held holder none other = some taken ↔ other ≠ holder ∧ held other = some taken := by
  by_cases same : other = holder
  · subst same
    simp
  · simp [same]

theorem update_some_eq_some : Function.update held holder (some resource) other = some taken ↔
    other = holder ∧ resource = taken ∨ other ≠ holder ∧ held other = some taken := by
  by_cases same : other = holder
  · subst same
    simp
  · simp [same]

namespace Balanced

variable {used : Set ρ}

omit [DecidableEq ι] in
theorem empty : Balanced (∅ : Set ρ) fun _ : ι => none :=
  ⟨nofun, nofun, nofun⟩

/-- A resource that nobody uses goes to someone who holds nothing. -/
theorem acquire (balanced : Balanced used held) (free : resource ∉ used) (idle : held holder = none) :
    Balanced (insert resource used) (Function.update held holder (some resource)) := by
  refine ⟨fun holds => ?_, fun taken member => ?_, fun left right => ?_⟩
  · rcases update_some_eq_some.mp holds with ⟨_, rfl⟩ | ⟨_, before⟩
    · exact Set.mem_insert _ _
    · exact Set.mem_insert_of_mem _ (balanced.inUse before)
  · rcases Set.mem_insert_iff.mp member with rfl | before
    · exact ⟨holder, Function.update_self ..⟩
    · obtain ⟨owner, holds⟩ := balanced.hasHolder taken before
      refine ⟨owner, update_some_eq_some.mpr (.inr ⟨fun same => ?_, holds⟩)⟩
      simp [same, idle] at holds
  · rcases update_some_eq_some.mp left with ⟨rfl, rfl⟩ | ⟨_, first⟩ <;>
      rcases update_some_eq_some.mp right with ⟨rfl, same⟩ | ⟨_, second⟩
    · rfl
    · exact absurd (balanced.inUse second) free
    · exact absurd (balanced.inUse first) (same ▸ free)
    · exact balanced.single first second

/-- A holder gives back what it holds. -/
theorem release (balanced : Balanced used held) (holds : held holder = some resource) :
    Balanced (used \ {resource}) (Function.update held holder none) := by
  refine ⟨fun left => ?_, fun taken member => ?_, fun left right => ?_⟩
  · obtain ⟨different, before⟩ := update_none_eq_some.mp left
    refine ⟨balanced.inUse before, fun same => different ?_⟩
    exact balanced.single before (Set.mem_singleton_iff.mp same ▸ holds)
  · obtain ⟨owner, before⟩ := balanced.hasHolder taken member.1
    refine ⟨owner, update_none_eq_some.mpr ⟨fun same => member.2 ?_, before⟩⟩
    exact Option.some.inj (before.symm.trans (same ▸ holds))
  · exact balanced.single (update_none_eq_some.mp left).2 (update_none_eq_some.mp right).2

/-- A resource that stays in use while its holder turns to something else has no holder. -/
theorem lost (balanced : Balanced used held) (holds : held holder = some resource) {after : Set ρ}
    (stays : resource ∈ after) {found : Option ρ} (different : found ≠ some resource) :
    ¬ Balanced after (Function.update held holder found) := by
  intro balancedAfter
  obtain ⟨owner, owned⟩ := balancedAfter.hasHolder resource stays
  by_cases same : owner = holder
  · subst same
    exact different (by simpa using owned)
  · rw [Function.update_of_ne same] at owned
    exact same (balanced.single owned holds)

omit [DecidableEq ι] in
/-- A resource may be given back behind everybody's back only if it is not in use. -/
theorem stray_iff (balanced : Balanced used held) : Balanced (used \ {resource}) held ↔ resource ∉ used := by
  constructor
  · intro after member
    obtain ⟨owner, holds⟩ := balanced.hasHolder resource member
    exact (after.inUse holds).2 rfl
  · intro free
    have same : used \ {resource} = used := Set.ext fun taken =>
      ⟨And.left, fun member => ⟨member, fun equal => free (Set.mem_singleton_iff.mp equal ▸ member)⟩⟩
    rwa [same]

end Balanced

end Dbss.Data
