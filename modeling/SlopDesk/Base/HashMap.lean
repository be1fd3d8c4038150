/-
SlopDesk.Base.HashMap — finite maps.

A `HashMap` is an association list in which no key occurs twice. Its
operations are Mathlib's (`AList`); what is here is the one question
they leave to each user, what a lookup finds after an update at a key
that may or may not be the one looked up.
-/
import Mathlib.Data.List.AList

namespace SlopDesk.Base

/-- `HashMap<K, V>`. -/
abbrev HashMap (κ : Type u) (ν : Type v) := AList fun _ : κ => ν

namespace HashMap

variable {κ : Type u} {ν : Type v} [DecidableEq κ]
variable {e : Sigma fun _ : κ => ν} {k : κ} {m : HashMap κ ν}

theorem lookup_insert (m : HashMap κ ν) (k k' : κ) (v : ν) :
    AList.lookup k' (AList.insert k v m) = if k' = k then some v else AList.lookup k' m := by
  split
  · rename_i h
    subst h
    exact AList.lookup_insert m
  · rename_i h
    exact AList.lookup_insert_ne h

theorem lookup_erase (m : HashMap κ ν) (k k' : κ) :
    AList.lookup k' (AList.erase k m) = if k' = k then none else AList.lookup k' m := by
  split
  · rename_i h
    subst h
    exact AList.lookup_erase k' m
  · rename_i h
    exact AList.lookup_erase_ne h

theorem mem_entries (m : HashMap κ ν) (k : κ) (v : ν) :
    (⟨k, v⟩ : Sigma fun _ : κ => ν) ∈ m.entries ↔ AList.lookup k m = some v :=
  AList.mem_lookup_iff.symm

theorem mem_entries_insert {v : ν} :
    e ∈ (AList.insert k v m).entries ↔ e = ⟨k, v⟩ ∨ e ∈ m.entries ∧ e.1 ≠ k := by
  obtain ⟨k', v'⟩ := e
  rw [mem_entries, mem_entries, lookup_insert]
  by_cases h : k' = k
  · subst h
    simp [eq_comm]
  · simp [h]

theorem mem_entries_erase : e ∈ (AList.erase k m).entries ↔ e ∈ m.entries ∧ e.1 ≠ k := by
  obtain ⟨k', v'⟩ := e
  rw [mem_entries, mem_entries, lookup_erase]
  by_cases h : k' = k <;> simp [h]

end HashMap

end SlopDesk.Base
