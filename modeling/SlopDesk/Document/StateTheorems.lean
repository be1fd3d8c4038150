/-
SlopDesk.Document.StateTheorems — a diff carries its base to its target.

Two documents are the same when every lookup answers the same (§1), and a
diff is judged by what a lookup answers after it: nothing where it deletes,
the last value it sets, or what was there (§2). §3 is the canonical order:
the sorted entries of a document are any listing of them, placed.
-/
import SlopDesk.Document.State

namespace SlopDesk.Document

open SlopDesk.Base

namespace HostWorkspaceState

variable {s : HostWorkspaceState} {key : WorkspaceKey}
variable {entry : WorkspaceEntry} {base : HostWorkspaceState}

/-! ## §1 Lookups -/

theorem ext_get {a b : HostWorkspaceState} (h : ∀ key, a.get key = b.get key) : a = b := by
  obtain ⟨a⟩ := a
  congr
  exact Std.ExtTreeMap.ext_getElem? h

theorem get_set (s : HostWorkspaceState) (key key' : WorkspaceKey) (value : List UInt8) :
    (s.set key value).get key' = if key' = key then some value else s.get key' :=
  BTreeMap.lookup_insert ..

theorem mem_sortedEntries : entry ∈ s.sortedEntries ↔ s.get entry.key = some entry.value := by
  obtain ⟨key, value⟩ := entry
  constructor
  · intro h
    obtain ⟨e, he, heq⟩ := List.mem_map.mp h
    obtain ⟨rfl, rfl⟩ := WorkspaceEntry.mk.inj heq
    exact BTreeMap.mem_toList.mp he
  · intro h
    exact List.mem_map.mpr ⟨(key, value), BTreeMap.mem_toList.mpr h, rfl⟩

theorem mem_keys : key ∈ s.keys ↔ s.get key ≠ none := by
  constructor
  · intro h
    obtain ⟨e, he, rfl⟩ := List.mem_map.mp h
    have hget : s.get e.1 = some e.2 := BTreeMap.mem_toList.mp he
    simp [hget]
  · intro h
    obtain ⟨value, hvalue⟩ := Option.ne_none_iff_exists'.mp h
    exact List.mem_map.mpr ⟨(key, value), BTreeMap.mem_toList.mpr hvalue, rfl⟩

/-! ## §2 Diffs -/

/-- The value a list of entries leaves a key with. -/
def assigned (sets : List WorkspaceEntry) (key : WorkspaceKey) : Option (List UInt8) :=
  BTreeMap.assigned (sets.map fun e => (e.key, e.value)) key

theorem foldl_insert (m : BTreeMap WorkspaceKey (List UInt8)) (sets : List WorkspaceEntry)
    (key : WorkspaceKey) : (sets.foldl (fun entries entry => entries.insert entry.key entry.value) m)[key]?
      = (assigned sets key).or m[key]? := by
  rw [assigned, ← BTreeMap.lookup_foldl_insert, List.foldl_map]

theorem mem_pairs {sets : List WorkspaceEntry} {value : List UInt8} :
    (key, value) ∈ sets.map (fun e => (e.key, e.value)) ↔ (⟨key, value⟩ : WorkspaceEntry) ∈ sets := by
  constructor
  · intro h
    obtain ⟨⟨k, v⟩, he, heq⟩ := List.mem_map.mp h
    obtain ⟨rfl, rfl⟩ := Prod.mk.inj heq
    exact he
  · exact fun h => List.mem_map.mpr ⟨_, h, rfl⟩

theorem get_fromEntries (list : List WorkspaceEntry) (key : WorkspaceKey) :
    (fromEntries list).get key = assigned list key := by
  rw [get, fromEntries, foldl_insert]
  simp

theorem fromEntries_sortedEntries (s : HostWorkspaceState) : fromEntries s.sortedEntries = s := by
  apply ext_get
  intro key
  rw [get_fromEntries]
  have hmem : ∀ value, (key, value) ∈ s.sortedEntries.map (fun e => (e.key, e.value)) ↔
      s.get key = some value := by
    intro value
    exact mem_pairs.trans mem_sortedEntries
  cases hget : s.get key with
  | some value =>
    refine BTreeMap.assigned_eq_some ((hmem value).mpr hget) fun value' h => ?_
    have hsame := (hmem value').mp h
    rw [hget] at hsame
    exact (Option.some.inj hsame).symm
  | none =>
    refine BTreeMap.assigned_eq_none.mpr ?_
    rintro ⟨k, value⟩ he rfl
    have hsome := (hmem value).mp he
    rw [hget] at hsome
    contradiction

theorem get_apply (s : HostWorkspaceState) (diff : WorkspaceStateDiff) (key : WorkspaceKey) :
    (s.apply diff).get key
      = if key ∈ diff.deletes then none else (assigned diff.sets key).or (s.get key) := by
  rw [get, apply, BTreeMap.lookup_foldl_erase, foldl_insert, get]

theorem apply_apply (s : HostWorkspaceState) (diff : WorkspaceStateDiff) :
    (s.apply diff).apply diff = s.apply diff := by
  apply ext_get
  intro key
  rw [get_apply, get_apply]
  by_cases hdelete : key ∈ diff.deletes
  case pos => rw [if_pos hdelete, if_pos hdelete]
  case neg =>
    grind

theorem mem_sets_diffFrom : entry ∈ (s.diffFrom base).sets ↔
      s.get entry.key = some entry.value ∧ base.get entry.key ≠ some entry.value := by
  obtain ⟨key, value⟩ := entry
  simp only [diffFrom, List.mem_map, List.mem_filter, decide_eq_true_eq]
  constructor
  · rintro ⟨e, ⟨he, hne⟩, heq⟩
    obtain ⟨rfl, rfl⟩ := WorkspaceEntry.mk.inj heq
    exact ⟨BTreeMap.mem_toList.mp he, hne⟩
  · rintro ⟨hget, hne⟩
    exact ⟨(key, value), ⟨BTreeMap.mem_toList.mpr hget, hne⟩, rfl⟩

theorem mem_deletes_diffFrom :
    key ∈ (s.diffFrom base).deletes ↔ base.get key ≠ none ∧ s.get key = none := by
  have habsent : ¬ s.entries.contains key = true ↔ s.get key = none := by
    rw [get, Std.ExtTreeMap.contains_eq_isSome_getElem?, Bool.not_eq_true,
      Option.isSome_eq_false_iff, Option.isNone_iff_eq_none]
  simp only [diffFrom, List.mem_filter, decide_eq_true_eq, mem_keys, habsent]

theorem assigned_diffFrom (s base : HostWorkspaceState) (key : WorkspaceKey) :
    assigned (s.diffFrom base).sets key = if base.get key = s.get key then none else s.get key := by
  have hmem : ∀ value, (key, value) ∈ (s.diffFrom base).sets.map (fun e => (e.key, e.value)) ↔
      s.get key = some value ∧ base.get key ≠ some value := by
    intro value
    exact mem_pairs.trans mem_sets_diffFrom
  by_cases hset : ∃ value, s.get key = some value ∧ base.get key ≠ some value
  case pos =>
    obtain ⟨value, hget, hne⟩ := hset
    rw [hget, if_neg hne]
    refine BTreeMap.assigned_eq_some ((hmem value).mpr ⟨hget, hne⟩) fun value' h => ?_
    have hsame := ((hmem value').mp h).1
    rw [hget] at hsame
    exact (Option.some.inj hsame).symm
  case neg =>
    have hnone : assigned (s.diffFrom base).sets key = none := by
      refine BTreeMap.assigned_eq_none.mpr ?_
      rintro ⟨k, value⟩ he rfl
      exact hset ⟨value, (hmem value).mp he⟩
    rw [hnone]
    cases hget : s.get key with
    | none => simp
    | some value =>
      grind

theorem apply_diffFrom (s base : HostWorkspaceState) : base.apply (s.diffFrom base) = s := by
  apply ext_get
  intro key
  rw [get_apply, assigned_diffFrom]
  by_cases hdelete : key ∈ (s.diffFrom base).deletes
  case pos => rw [if_pos hdelete, (mem_deletes_diffFrom.mp hdelete).2]
  case neg =>
    rw [if_neg hdelete]
    by_cases hsame : base.get key = s.get key
    case pos => simp [hsame]
    case neg =>
      rw [if_neg hsame]
      cases hget : s.get key with
      | some value => rfl
      | none =>
        rw [hget] at hsame
        exact absurd (mem_deletes_diffFrom.mpr ⟨hsame, hget⟩) hdelete

end HostWorkspaceState

/-- The keys a diff touches. -/
def WorkspaceStateDiff.touched (d : WorkspaceStateDiff) : List WorkspaceKey :=
  d.sets.map WorkspaceEntry.key ++ d.deletes

theorem HostWorkspaceState.mem_touched_diffFrom (s base : HostWorkspaceState) (key : WorkspaceKey) :
    key ∈ (s.diffFrom base).touched ↔ base.get key ≠ s.get key := by
  simp only [WorkspaceStateDiff.touched, List.mem_append, List.mem_map, mem_deletes_diffFrom]
  constructor
  · rintro (⟨entry, hentry, rfl⟩ | ⟨hbase, hnone⟩)
    · obtain ⟨hget, hne⟩ := mem_sets_diffFrom.mp hentry
      rwa [hget]
    · rwa [hnone]
  · intro hne
    cases hget : s.get key with
    | none => exact .inr ⟨hget ▸ hne, rfl⟩
    | some value => exact .inl ⟨⟨key, value⟩, mem_sets_diffFrom.mpr ⟨hget, hget ▸ hne⟩, rfl⟩

/-! ## §3 The canonical order -/

instance : Std.TransCmp placedCmp := inferInstanceAs (Std.TransCmp (compareLex
  (compareOn (Prod.fst : WorkspaceKey × UInt32 → _)) (compareOn Prod.snd)))

/-- The entries of a listing in the order of a list of indices. -/
def placed (list : List WorkspaceEntry) (order : List UInt32) : List WorkspaceEntry :=
  order.filterMap fun i => list[i.toNat]?

section
variable {list : List WorkspaceEntry}
variable {entry : WorkspaceEntry}

theorem toNat_index {i : Nat} (hlen : list.length ≤ 4294967296) (hi : i < list.length) :
    (UInt32.ofNat i).toNat = i := by
  exact Nat.mod_eq_of_lt (by omega)

theorem key_of_mem_zip (hlen : list.length ≤ 4294967296) {p : WorkspaceKey × UInt32}
    (hp : p ∈ (list.map WorkspaceEntry.key).zip ((List.range list.length).map UInt32.ofNat))
    (hentry : list[p.2.toNat]? = some entry) : entry.key = p.1 := by
  obtain ⟨i, hi, hpair⟩ := List.getElem_of_mem hp
  simp only [List.length_zip, List.length_map, List.length_range, Nat.min_self] at hi
  simp only [List.getElem_zip, List.getElem_map, List.getElem_range] at hpair
  subst hpair
  rw [toNat_index hlen hi, List.getElem?_eq_getElem hi, Option.some.injEq] at hentry
  rw [← hentry]

theorem placed_perm (hlen : list.length ≤ 4294967296) :
    (placed list (canonicalOrder (list.map WorkspaceEntry.key))).Perm list := by
  have horder : (canonicalOrder (list.map WorkspaceEntry.key)).Perm
      ((List.range list.length).map UInt32.ofNat) := by
    refine ((List.mergeSort_perm _ _).map Prod.snd).trans ?_
    rw [List.length_map, List.map_snd_zip (by simp)]
  have hsome : (List.range list.length).map (fun i => list[(UInt32.ofNat i).toNat]?)
      = list.map some := by
    refine List.ext_getElem (by simp) fun i hi _ => ?_
    simp only [List.length_map, List.length_range] at hi
    simp only [List.getElem_map, List.getElem_range, toNat_index hlen hi, List.getElem?_eq_getElem hi]
  have hall : placed list ((List.range list.length).map UInt32.ofNat) = list := by
    have hmap : placed list ((List.range list.length).map UInt32.ofNat)
        = ((List.range list.length).map fun i => list[(UInt32.ofNat i).toNat]?).filterMap id := by
      rw [placed, List.filterMap_map, List.filterMap_map]
      rfl
    rw [hmap, hsome]
    simp
  exact (horder.filterMap _).trans (List.Perm.of_eq hall)

theorem placed_sorted (hlen : list.length ≤ 4294967296) :
    (placed list (canonicalOrder (list.map WorkspaceEntry.key))).Pairwise
      fun a b => (compare a.key b.key).isLE := by
  have htotal : ∀ p q : WorkspaceKey × UInt32, (placedCmp p q).isLE || (placedCmp q p).isLE := by
    intro p q
    cases h : placedCmp p q with
    | lt => rfl
    | eq => rfl
    | gt => rw [Std.OrientedCmp.lt_of_gt h]; rfl
  have hsorted : (List.mergeSort ((list.map WorkspaceEntry.key).zip
      ((List.range list.length).map UInt32.ofNat)) fun p q => (placedCmp p q).isLE).Pairwise
        fun p q => (placedCmp p q).isLE :=
    List.pairwise_mergeSort (fun _ _ _ => Std.TransCmp.isLE_trans) htotal _
  rw [placed, canonicalOrder, List.filterMap_map, List.length_map]
  refine List.pairwise_filterMap.mpr (hsorted.imp_of_mem ?_)
  intro p q hp hq hle a ha b hb
  rw [key_of_mem_zip hlen (List.mem_mergeSort.mp hp) ha,
    key_of_mem_zip hlen (List.mem_mergeSort.mp hq) hb]
  -- a pair is no later than another only if its key is not
  cases hkey : compare p.1 q.1 with
  | lt => rfl
  | eq => rfl
  | gt => simp [placedCmp, compareLex, compareOn, hkey] at hle

theorem mem_fromEntries (hkeys : (list.map WorkspaceEntry.key).Nodup) :
    entry ∈ (HostWorkspaceState.fromEntries list).sortedEntries ↔ entry ∈ list := by
  rw [HostWorkspaceState.mem_sortedEntries, HostWorkspaceState.get_fromEntries]
  obtain ⟨key, value⟩ := entry
  constructor
  · intro h
    exact HostWorkspaceState.mem_pairs.mp (BTreeMap.mem_of_assigned h)
  · intro h
    refine BTreeMap.assigned_eq_some (HostWorkspaceState.mem_pairs.mpr h) fun value' h' => ?_
    have hsame : (⟨key, value'⟩ : WorkspaceEntry) = ⟨key, value⟩ :=
      List.inj_on_of_nodup_map hkeys (HostWorkspaceState.mem_pairs.mp h') h rfl
    exact (WorkspaceEntry.mk.inj hsame).2

theorem placed_canonicalOrder (hkeys : (list.map WorkspaceEntry.key).Nodup)
    (hlen : list.length ≤ 4294967296) : placed list (canonicalOrder (list.map WorkspaceEntry.key))
      = (HostWorkspaceState.fromEntries list).sortedEntries := by
  have hordered : (HostWorkspaceState.fromEntries list).sortedEntries.Pairwise
      fun a b => compare a.key b.key = .lt :=
    List.pairwise_map.mpr Std.ExtTreeMap.ordered_keys_toList
  have hnodup : (HostWorkspaceState.fromEntries list).sortedEntries.Nodup := by
    refine hordered.imp fun hlt heq => ?_
    rw [heq, Std.compare_self] at hlt
    contradiction
  have hperm : list.Perm (HostWorkspaceState.fromEntries list).sortedEntries :=
    (List.perm_ext_iff_of_nodup hkeys.of_map hnodup).mpr fun _ => (mem_fromEntries hkeys).symm
  refine List.Perm.eq_of_pairwise ?_ (placed_sorted hlen)
    (hordered.imp fun hlt => by rw [hlt]; rfl) ((placed_perm hlen).trans hperm)
  intro a b ha hb hab hba
  have hsame : a.key = b.key :=
    Std.compare_eq_iff_eq.mp (Std.OrientedCmp.isLE_antisymm hab hba)
  exact List.inj_on_of_nodup_map hkeys ((placed_perm hlen).mem_iff.mp ha)
    ((mem_fromEntries hkeys).mp hb) hsame

end

end SlopDesk.Document
