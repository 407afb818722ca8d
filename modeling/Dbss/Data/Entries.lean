import Dbss.Data.OrderedMap

namespace Dbss.Data

/-! What a key has, as a function, and the changes that a dictionary knows. -/

variable {κ ν μ : Type}

/-- The first pair of a key counts. -/
def putAll [BEq κ] (entries : κ → Option ν) (pairs : List (κ × ν)) : κ → Option ν :=
  fun key => (pairs.lookup key).or (entries key)

def forget [DecidableEq κ] (entries : κ → Option ν) (keys : List κ) : κ → Option ν :=
  fun key => if key ∈ keys then none else entries key

/-- The values in another form. -/
def formed (form : ν → μ) (entries : κ → Option ν) : κ → Option μ :=
  fun key => (entries key).map form

/-- Every value there is. -/
def Everywhere (holds : ν → Prop) (entries : κ → Option ν) : Prop :=
  ∀ key, ∀ value ∈ entries key, holds value

@[simp] theorem formed_id (entries : κ → Option ν) : formed id entries = entries := by
  funext key
  simp [formed]

theorem formed_update {ι : Type} [DecidableEq ι] (form : ν → μ) (named : ι → κ → Option ν) (name : ι)
    (entries : κ → Option ν) :
    (fun other => formed form (Function.update named name entries other)) =
      Function.update (fun other => formed form (named other)) name (formed form entries) := by
  funext other
  by_cases same : other = name
  · simp [same]
  · simp [same]

theorem forget_formed [DecidableEq κ] (form : ν → μ) (entries : κ → Option ν) (keys : List κ) :
    forget (formed form entries) keys = formed form (forget entries keys) := by
  funext key
  by_cases member : key ∈ keys <;> simp [forget, formed, member]

@[simp] theorem forget_nil [DecidableEq κ] (entries : κ → Option ν) : forget entries [] = entries := by
  funext key
  simp [forget]

theorem Everywhere.forget [DecidableEq κ] {holds : ν → Prop} {entries : κ → Option ν} (all : Everywhere holds entries)
    (keys : List κ) : Everywhere holds (forget entries keys) := by
  intro key value found
  by_cases member : key ∈ keys
  · simp [Data.forget, member] at found
  · exact all key value (by simpa [Data.forget, member] using found)

section Lookup

variable [BEq κ] [LawfulBEq κ]

theorem Everywhere.putAll {holds : ν → Prop} {entries : κ → Option ν} (all : Everywhere holds entries)
    {pairs : List (κ × ν)} (given : ∀ pair ∈ pairs, holds pair.2) : Everywhere holds (putAll entries pairs) := by
  intro key value found
  rcases Option.or_eq_some_iff.mp found with here | ⟨_, before⟩
  · obtain ⟨front, back, rfl, _⟩ := List.lookup_eq_some_iff.mp here
    exact given (key, value) (by simp)
  · exact all key value before

/-- One assignment puts one pair. -/
theorem assignAll_single [DecidableEq κ] (form : ν → μ) (entries : κ → Option ν) (key : κ) (value : ν) :
    assignAll (formed form entries) [(key, form value)] = formed form (putAll entries [(key, value)]) := by
  funext other
  rw [assignAll_apply]
  by_cases same : other = key <;> simp [formed, putAll, lookup_entry, same]

/-- Going through a map keeps the first pair of each key, so the assignments put all of them. -/
theorem assignAll_ofPairs [DecidableEq κ] [LinearOrder κ] (form : ν → μ) (entries : κ → Option ν)
    (pairs : List (κ × ν)) :
    assignAll (formed form entries) ((OrderedMap.ofPairs pairs).entries.map fun entry => (entry.1, form entry.2)) =
      formed form (putAll entries pairs) := by
  funext key
  rw [assignAll_apply, ← List.map_reverse, lookup_map_snd, OrderedMap.lookup_reverse_entries, OrderedMap.lookup_ofPairs]
  cases found : pairs.lookup key <;> simp [formed, putAll, found]

end Lookup

end Dbss.Data
