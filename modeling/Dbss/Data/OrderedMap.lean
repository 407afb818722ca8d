import Mathlib.Data.List.Induction
import Mathlib.Data.List.Lex
import Mathlib.Logic.Function.Basic
import Mathlib.Order.Lattice

namespace Dbss.Data

/-! Maps with a total order on their keys, as the list of their entries in key
order, and what a list of assignments does to a store. -/

/-- A map whose entries are kept in strict key order, so that a key has one entry. -/
structure OrderedMap (κ ν : Type) [LinearOrder κ] where
  entries : List (κ × ν)
  sorted : entries.Pairwise fun first second => first.1 < second.1

section Assignments

variable {κ ν : Type} [DecidableEq κ]

def assignAll (store : κ → Option ν) (pairs : List (κ × ν)) : κ → Option ν :=
  pairs.foldl (fun store pair => Function.update store pair.1 (some pair.2)) store

theorem assignAll_append (store : κ → Option ν) (front back : List (κ × ν)) :
    assignAll store (front ++ back) = assignAll (assignAll store front) back :=
  List.foldl_append

variable [BEq κ] [LawfulBEq κ]

omit [DecidableEq κ] [LawfulBEq κ] in
theorem lookup_entry (key : κ) (entry : κ × ν) (rest : List (κ × ν)) :
    (entry :: rest).lookup key = if key == entry.1 then some entry.2 else rest.lookup key := by
  rw [List.lookup_cons]
  cases key == entry.1 <;> rfl

/-- The last assignment to a key is the one that counts. -/
theorem assignAll_apply (store : κ → Option ν) (pairs : List (κ × ν)) (key : κ) :
    assignAll store pairs key = (pairs.reverse.lookup key).or (store key) := by
  induction pairs using List.reverseRecOn with
  | nil => simp [assignAll]
  | append_singleton front pair ih =>
      obtain ⟨assigned, value⟩ := pair
      rw [assignAll_append, List.reverse_append]
      by_cases same : key = assigned
      · subst same
        simp [assignAll]
      · have other : (key == assigned) = false := by simpa using same
        simpa [assignAll, lookup_entry, Function.update_of_ne same, other] using ih

omit [DecidableEq κ] [LawfulBEq κ] in
theorem lookup_map_snd {μ : Type} (f : ν → μ) (pairs : List (κ × ν)) (key : κ) :
    (pairs.map fun pair => (pair.1, f pair.2)).lookup key = (pairs.lookup key).map f := by
  induction pairs with
  | nil => rfl
  | cons pair rest ih =>
      simp only [List.map_cons, lookup_entry, ih]
      split <;> rfl

/-- Two batches do the same to one store exactly if they do the same to all:
a store decides only the keys that neither batch assigns. -/
theorem assignAll_eq_iff {store : κ → Option ν} {left right : List (κ × ν)}
    (sameKeys : ∀ key, (left.lookup key).isSome ↔ (right.lookup key).isSome) :
    assignAll store left = assignAll store right ↔
      ∀ key, left.reverse.lookup key = right.reverse.lookup key := by
  rw [funext_iff]
  apply forall_congr'
  intro key
  rw [assignAll_apply, assignAll_apply]
  have present : (left.reverse.lookup key).isSome ↔ (right.reverse.lookup key).isSome := by
    simpa using sameKeys key
  cases first : left.reverse.lookup key <;> cases second : right.reverse.lookup key <;>
    simp_all

end Assignments

namespace OrderedMap

variable {κ ν : Type} [LinearOrder κ]

/-- Insertion at a key's place; an entry the key already has stays as it is. -/
def insertEntry (key : κ) (value : ν) : List (κ × ν) → List (κ × ν)
  | [] => [(key, value)]
  | entry :: rest =>
      if key < entry.1 then (key, value) :: entry :: rest
      else if key = entry.1 then entry :: rest
      else entry :: insertEntry key value rest

theorem mem_insertEntry {key : κ} {value : ν} {entries : List (κ × ν)} {entry : κ × ν}
    (member : entry ∈ insertEntry key value entries) : entry = (key, value) ∨ entry ∈ entries := by
  induction entries with
  | nil => exact .inl (by simpa [insertEntry] using member)
  | cons first rest ih =>
      unfold insertEntry at member
      split at member
      · simpa using member
      · split at member
        · exact .inr member
        · rcases List.mem_cons.mp member with rfl | later
          · exact .inr (by simp)
          · exact (ih later).imp_right (List.mem_cons_of_mem _)

theorem sorted_insertEntry (key : κ) (value : ν) {entries : List (κ × ν)}
    (sorted : entries.Pairwise fun first second => first.1 < second.1) :
    (insertEntry key value entries).Pairwise fun first second => first.1 < second.1 := by
  induction entries with
  | nil => simp [insertEntry]
  | cons first rest ih =>
      obtain ⟨above, below⟩ := List.pairwise_cons.mp sorted
      unfold insertEntry
      split
      · next before =>
          apply List.Pairwise.cons _ sorted
          intro entry member
          rcases List.mem_cons.mp member with rfl | later
          · exact before
          · exact before.trans (above entry later)
      · split
        · exact sorted
        · next notBefore different =>
            apply List.Pairwise.cons _ (ih below)
            intro entry member
            rcases mem_insertEntry member with rfl | later
            · exact lt_of_le_of_ne (not_lt.mp notBefore) (Ne.symm different)
            · exact above entry later

/-- `std::map::insert`: an entry that is there already stays. -/
def insert (map : OrderedMap κ ν) (pair : κ × ν) : OrderedMap κ ν :=
  ⟨insertEntry pair.1 pair.2 map.entries, sorted_insertEntry pair.1 pair.2 map.sorted⟩

def ofPairs (pairs : List (κ × ν)) : OrderedMap κ ν :=
  pairs.foldl insert ⟨[], List.Pairwise.nil⟩

variable [BEq κ] [LawfulBEq κ]

theorem lookup_insertEntry_self (key : κ) (value : ν) {entries : List (κ × ν)}
    (sorted : entries.Pairwise fun first second => first.1 < second.1) :
    (insertEntry key value entries).lookup key = some ((entries.lookup key).getD value) := by
  induction entries with
  | nil => simp [insertEntry]
  | cons first rest ih =>
      obtain ⟨above, below⟩ := List.pairwise_cons.mp sorted
      unfold insertEntry
      split
      · next before =>
          have absent : (first :: rest).lookup key = none := by
            rw [List.lookup_eq_none_iff]
            intro entry member
            rcases List.mem_cons.mp member with rfl | later
            · simpa using before.ne
            · simpa using (before.trans (above entry later)).ne
          simp [absent]
      · split
        · next same => simp [lookup_entry, same]
        · next different =>
            have other : (key == first.1) = false := by simpa using different
            simpa [lookup_entry, other] using ih below

theorem lookup_insertEntry_of_ne {key other : κ} (value : ν) (entries : List (κ × ν))
    (different : other ≠ key) :
    (insertEntry key value entries).lookup other = entries.lookup other := by
  have apart : (other == key) = false := by simpa using different
  induction entries with
  | nil => simp [insertEntry, lookup_entry, apart]
  | cons first rest ih =>
      unfold insertEntry
      split
      · simp [lookup_entry, apart]
      · split
        · rfl
        · simp [lookup_entry, ih]

/-- The first insertion of a key is the one that counts. -/
theorem lookup_ofPairs (pairs : List (κ × ν)) (key : κ) :
    (ofPairs pairs).entries.lookup key = pairs.lookup key := by
  induction pairs using List.reverseRecOn with
  | nil => rfl
  | append_singleton front pair ih =>
      have step : (ofPairs (front ++ [pair])).entries =
          insertEntry pair.1 pair.2 (ofPairs front).entries := by
        simp [ofPairs, insert]
      rw [step, List.lookup_append]
      by_cases same : key = pair.1
      · subst same
        rw [lookup_insertEntry_self _ _ (ofPairs front).sorted, ih]
        cases front.lookup pair.1 <;> simp [lookup_entry]
      · have other : (key == pair.1) = false := by simpa using same
        rw [lookup_insertEntry_of_ne _ _ same, ih]
        simp [lookup_entry, other]

/-- A key has one entry, so its first and its last are the same. -/
theorem lookup_reverse_entries (map : OrderedMap κ ν) (key : κ) :
    map.entries.reverse.lookup key = map.entries.lookup key := by
  obtain ⟨entries, sorted⟩ := map
  induction entries with
  | nil => rfl
  | cons first rest ih =>
      obtain ⟨above, below⟩ := List.pairwise_cons.mp sorted
      have rest_eq := ih below
      simp only at rest_eq ⊢
      rw [List.reverse_cons, List.lookup_append, rest_eq]
      by_cases same : key = first.1
      · have absent : rest.lookup key = none := by
          rw [List.lookup_eq_none_iff]
          intro entry member
          simpa [same] using (above entry member).ne
        simp [absent, lookup_entry, ← same]
      · have other : (key == first.1) = false := by simpa using same
        cases found : rest.lookup key <;> simp [lookup_entry, other, found]

/-- Making the assignments of the map that `pairs` are inserted into is making
those of `pairs` exactly when no key is given two values, its first and its
last.  The values may be stored in another form, as long as it tells them apart. -/
theorem assignAll_ofPairs_iff [DecidableEq κ] {μ : Type} {form : ν → μ} (injective : Function.Injective form)
    (store : κ → Option μ) (pairs : List (κ × ν)) :
    assignAll store ((ofPairs pairs).entries.map fun entry => (entry.1, form entry.2)) =
        assignAll store (pairs.map fun pair => (pair.1, form pair.2)) ↔
      ∀ key, pairs.lookup key = pairs.reverse.lookup key := by
  rw [assignAll_eq_iff (fun key => by simp only [lookup_map_snd, lookup_ofPairs])]
  apply forall_congr'
  intro key
  rw [← List.map_reverse, ← List.map_reverse, lookup_map_snd, lookup_map_snd,
    (Option.map_injective injective).eq_iff, lookup_reverse_entries, lookup_ofPairs]

end OrderedMap

end Dbss.Data
