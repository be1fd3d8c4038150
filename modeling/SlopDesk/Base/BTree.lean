/-
SlopDesk.Base.BTree — ordered maps and sets.

`BTreeMap` and `BTreeSet` are the standard library's ordered trees, two
of them equal when they hold the same entries. What is added is what a
lookup finds after an update, with the keys compared by equality, and
the entries in key order.
-/
import Mathlib.Data.List.AList
import Mathlib.Data.List.Induction

namespace SlopDesk.Base

/-- `BTreeMap<K, V>`. -/
abbrev BTreeMap (κ : Type u) (ν : Type v) [Ord κ] := Std.ExtTreeMap κ ν compare

/-- `BTreeSet<K>`. -/
abbrev BTreeSet (κ : Type u) [Ord κ] := Std.ExtTreeSet κ compare

namespace BTreeMap

variable {κ : Type u} {ν : Type v} [Ord κ] [Std.TransOrd κ] [Std.LawfulEqOrd κ]
variable {m : BTreeMap κ ν} {k : κ} {v : ν} {list : List (κ × ν)}

theorem mem_toList {e : κ × ν} : e ∈ m.toList ↔ m[e.1]? = some e.2 :=
  Std.ExtTreeMap.mem_toList_iff_getElem?_eq_some

omit [Std.LawfulEqOrd κ] in
theorem ne_empty_of_lookup (h : m[k]? = some v) : m ≠ ∅ := by
  intro he
  simp [he] at h

variable [DecidableEq κ]

theorem lookup_insert (m : BTreeMap κ ν) (k k' : κ) (v : ν) :
    (m.insert k v)[k']? = if k' = k then some v else m[k']? := by
  by_cases h : k = k'
  · simp [h]
  · simp [Std.ExtTreeMap.getElem?_insert, h, Ne.symm h]

theorem lookup_erase (m : BTreeMap κ ν) (k k' : κ) :
    (m.erase k)[k']? = if k' = k then none else m[k']? := by
  by_cases h : k = k'
  · simp [h]
  · simp [Std.ExtTreeMap.getElem?_erase, h, Ne.symm h]

theorem lookup_modify (m : BTreeMap κ ν) (k k' : κ) (f : ν → ν) :
    (m.modify k f)[k']? = if k' = k then m[k']?.map f else m[k']? := by
  by_cases h : k = k'
  · simp [h]
  · simp [Std.ExtTreeMap.getElem?_modify, h, Ne.symm h]

/-- The value a list of assignments leaves a key with: the last one's. -/
def assigned (list : List (κ × ν)) (k : κ) : Option ν :=
  ((list.filter fun e => e.1 = k).getLast?).map Prod.snd

omit [Ord κ] [Std.TransOrd κ] [Std.LawfulEqOrd κ] in
theorem assigned_append (list : List (κ × ν)) (e : κ × ν) (k : κ) :
    assigned (list ++ [e]) k = if k = e.1 then some e.2 else assigned list k := by
  by_cases h : k = e.1
  · simp [assigned, List.filter_append, h]
  · simp [assigned, List.filter_append, h, Ne.symm h]

omit [Ord κ] [Std.TransOrd κ] [Std.LawfulEqOrd κ] in
theorem assigned_eq_none : assigned list k = none ↔ ∀ e ∈ list, e.1 ≠ k := by
  simp [assigned]

omit [Ord κ] [Std.TransOrd κ] [Std.LawfulEqOrd κ] in
theorem assigned_eq_some (hmem : (k, v) ∈ list)
    (hagree : ∀ v', (k, v') ∈ list → v' = v) : assigned list k = some v := by
  have hne : list.filter (fun e => e.1 = k) ≠ [] :=
    List.ne_nil_of_mem (List.mem_filter.mpr ⟨hmem, by simp⟩)
  obtain ⟨hlast, hkey⟩ := List.mem_filter.mp (List.getLast_mem hne)
  rw [assigned, List.getLast?_eq_some_getLast hne, Option.map_some]
  generalize (list.filter fun e => e.1 = k).getLast hne = last at hlast hkey
  obtain ⟨k', v'⟩ := last
  obtain rfl : k' = k := by simpa using hkey
  exact congrArg some (hagree v' hlast)

omit [Ord κ] [Std.TransOrd κ] [Std.LawfulEqOrd κ] in
theorem mem_of_assigned (h : assigned list k = some v) : (k, v) ∈ list := by
  obtain ⟨⟨k', v'⟩, hlast, rfl⟩ := Option.map_eq_some_iff.mp h
  obtain ⟨hmem, hkey⟩ := List.mem_filter.mp (List.mem_of_getLast? hlast)
  obtain rfl : k' = k := by simpa using hkey
  exact hmem

theorem lookup_foldl_insert (m : BTreeMap κ ν) (list : List (κ × ν)) (k : κ) :
    (list.foldl (fun m e => m.insert e.1 e.2) m)[k]? = (assigned list k).or m[k]? := by
  induction list using List.reverseRecOn with
  | nil => simp [assigned]
  | append_singleton list e ih =>
    rw [List.foldl_append, List.foldl_cons, List.foldl_nil, lookup_insert, ih, assigned_append]
    by_cases h : k = e.1
    · simp [h]
    · simp [h]

theorem lookup_foldl_erase (m : BTreeMap κ ν) (ks : List κ) (k : κ) :
    (ks.foldl (fun m k => m.erase k) m)[k]? = if k ∈ ks then none else m[k]? := by
  induction ks generalizing m with
  | nil => simp
  | cons k' ks ih =>
    rw [List.foldl_cons, ih, lookup_erase]
    by_cases h : k = k'
    · simp [h]
    · simp [h]

end BTreeMap

namespace BTreeSet

variable {κ : Type u} [Ord κ] [Std.TransOrd κ] [Std.LawfulEqOrd κ] [DecidableEq κ]

theorem contains_insert (s : BTreeSet κ) (k k' : κ) :
    (s.insert k).contains k' = if k' = k then true else s.contains k' := by
  by_cases h : k = k'
  · simp [h]
  · simp [Std.ExtTreeSet.contains_insert, h, Ne.symm h]

theorem contains_erase (s : BTreeSet κ) (k k' : κ) :
    (s.erase k).contains k' = if k' = k then false else s.contains k' := by
  by_cases h : k = k'
  · simp [h]
  · simp [Std.ExtTreeSet.contains_erase, h, Ne.symm h]

end BTreeSet

end SlopDesk.Base
