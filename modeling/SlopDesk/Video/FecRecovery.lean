/-
SlopDesk.Video.FecRecovery — the codec recovers every group that lost no
more data shards than it kept parity shards, and touches nothing else.

§1 the parity coefficients and the parity shards as sums over the
group's columns. §2 survivors: each one `Explains` its bytes as a
combination of the columns, and an inverse of their rows reads a column
off. §3 which survivors are chosen, and why their rows have full column
rank. §4 one group, on either path. §5 the loop over the groups.
-/
import SlopDesk.Video.FecTheorems

namespace SlopDesk.Video

open SlopDesk.Base
open SlopDesk.Base.Blocks
open Gf256 (Element byteAt)

/-! ## §1 Parity as sums over columns -/

/-- A small number as a field element. -/
def element (n : Nat) : Element := ⟨.ofNat n⟩

theorem element_inj {a b : Nat} (ha : a < 256) (hb : b < 256) (h : element a = element b) : a = b := by
  have hbyte : UInt8.ofNat a = UInt8.ofNat b := congrArg Element.byte h
  have hnat := congrArg UInt8.toNat hbyte
  simp only [UInt8.toNat_ofNat'] at hnat
  omega

theorem parityRows_entry {k m : Nat} {coeffs : List UInt8}
    (h : RsMatrix.parityRows k m = some coeffs) {r c : Nat} (hr : r < m) (hc : c < k) :
    (⟨coeffs.getD (r * k + c) 0⟩ : Element) = (element (k + r) - element c)⁻¹ := by
  unfold RsMatrix.parityRows at h
  split at h
  · rw [← Option.some.inj h]
    have hwidth : ∀ i ∈ List.range m, ((List.range k).map fun j =>
        Gf256.inv (.ofNat (k + i) ^^^ .ofNat j)).length = k := by simp
    rw [List.getD_eq_getElem?_getD, getElem?_flatMap hwidth (by simpa using hr) hc,
      List.getElem_range, List.getElem?_map, List.getElem?_range hc, Element.sub_eq_add]
    rfl
  · simp at h

theorem byteAt_parityRow {k m : Nat} {coeffs : List UInt8}
    (h : RsMatrix.parityRows k m = some coeffs) {r c : Nat} (hr : r < m) (hc : c < k) :
    byteAt ((coeffs.drop (r * k)).take k) c = (element (k + r) - element c)⁻¹ := by
  rw [← parityRows_entry h hr hc]
  simp only [byteAt, List.getD_eq_getElem?_getD, List.getElem?_take_of_lt hc, List.getElem?_drop]

theorem length_parityRows {k m : Nat} {coeffs : List UInt8}
    (h : RsMatrix.parityRows k m = some coeffs) : coeffs.length = m * k := by
  unfold RsMatrix.parityRows at h
  split at h
  · rw [← Option.some.inj h]
    simp [List.length_flatMap]
  · simp at h

/-- A sum over the members of a list, as a sum over `k` columns of which
the list fills the first. -/
theorem sum_zipIdx {α : Type*} (g : Nat → α → Element) (d : α) (hg : ∀ c, g c d = 0) (l : List α)
    (n : Nat) {k : Nat} (hk : l.length ≤ k) :
    ((l.zipIdx n).map fun p => g p.2 p.1).sum = ∑ c : Fin k, g (n + c) (l.getD c d) := by
  induction l generalizing k n with
  | nil => simp [hg]
  | cons a l ih =>
    obtain ⟨k, rfl⟩ : ∃ k', k = k' + 1 := ⟨k - 1, by simp at hk; omega⟩
    rw [List.zipIdx_cons, List.map_cons, List.sum_cons, ih (n + 1) (by simpa using hk : l.length ≤ k),
      Fin.sum_univ_succ]
    simp [Nat.add_assoc, Nat.add_comm 1]

namespace ReedSolomonFec

variable {codec : ReedSolomonFec} {m : Nat} {coeffs : List UInt8}

theorem encodeRank_eq (hcoeffs : RsMatrix.parityRows codec.groupSize m = some coeffs)
    {framed : List (List UInt8)} (hframed : framed.length ≤ codec.groupSize) (width : Nat) {r : Nat}
    (hr : r < m) : codec.encodeRank framed width (coeffs.map Gf256.MulTable.new) r =
      weightedSum (framed.zipIdx.map fun p => (coeffs.getD (r * codec.groupSize + p.2) 0, p.1))
        (List.replicate width 0) := by
  unfold encodeRank weightedSum
  rw [List.foldl_map]
  refine List.foldl_ext _ _ _ fun parity p hp => ?_
  have hj : p.2 < codec.groupSize := by
    have := List.snd_lt_of_mem_zipIdx hp
    omega
  have hlt : r * codec.groupSize + p.2 < coeffs.length := by
    rw [length_parityRows hcoeffs]
    calc r * codec.groupSize + p.2 < r * codec.groupSize + codec.groupSize := by omega
      _ = (r + 1) * codec.groupSize := (Nat.succ_mul ..).symm
      _ ≤ m * codec.groupSize := Nat.mul_le_mul_right _ hr
  have htable : (coeffs.map Gf256.MulTable.new)[r * codec.groupSize + p.2]? =
      some (.new (coeffs.getD (r * codec.groupSize + p.2) 0)) := by
    grind
  dsimp only at htable ⊢
  rw [htable]
  dsimp only
  rw [Gf256.addScaled_new, Gf256.mulAdd_eq]

theorem byteAt_encodeRank (hcoeffs : RsMatrix.parityRows codec.groupSize m = some coeffs)
    {framed : List (List UInt8)} (hframed : framed.length ≤ codec.groupSize) {r : Nat} (hr : r < m)
    (i : Nat) :
    byteAt (codec.encodeRank framed (widest (framed.map List.length))
        (coeffs.map Gf256.MulTable.new) r) i =
      ∑ c : Fin codec.groupSize,
        (element (codec.groupSize + r) - element c)⁻¹ * byteAt (framed.getD c []) i := by
  rw [encodeRank_eq hcoeffs hframed _ hr]
  have hcolumns : ∀ c : Fin codec.groupSize,
      (⟨coeffs.getD (r * codec.groupSize + (0 + c)) 0⟩ : Element) =
        (element (codec.groupSize + r) - element c)⁻¹ := by
    intro c
    rw [Nat.zero_add]
    exact parityRows_entry hcoeffs hr c.isLt
  rcases Nat.lt_or_ge i (widest (framed.map List.length)) with hi | hi
  · rw [byteAt_weightedSum _ (by simpa using hi), byteAt_replicate_zero, zero_add, List.map_map]
    have hsum := sum_zipIdx
      (fun c shard => (⟨coeffs.getD (r * codec.groupSize + c) 0⟩ : Element) * byteAt shard i)
      [] (fun c => by rw [Gf256.byteAt_nil, mul_zero]) framed 0 hframed
    refine hsum.trans (Finset.sum_congr rfl fun c _ => ?_)
    rw [hcolumns c]
  · rw [Gf256.byteAt_of_length_le (by simpa using hi)]
    refine (Finset.sum_eq_zero fun c _ => ?_).symm
    have hlen : (framed.getD c []).length ≤ widest (framed.map List.length) := by
      rw [List.getD_eq_getElem?_getD]
      cases hget : framed[c.val]? with
      | none => exact Nat.zero_le _
      | some shard => exact le_widest (List.mem_map_of_mem (List.mem_of_getElem? hget))
    rw [Gf256.byteAt_of_length_le (Nat.le_trans hlen hi), mul_zero]

/-! ## §2 Survivors -/

section Survivors

variable {k : Nat}

/-- The survivor's bytes are the combination of the columns `x` that its
row says. -/
structure Explains (k : Nat) (x : Nat → Nat → Element) (survivor : Survivor) : Prop where
  width : survivor.1.length = k
  bytes : ∀ i, byteAt survivor.2 i = ∑ c : Fin k, byteAt survivor.1 c * x c i

theorem byteAt_unitRow {slot : Nat} (hslot : slot < k) (c : Nat) :
    byteAt (unitRow k slot) c = if c = slot then 1 else 0 := by
  refine Element.ext ?_
  simp only [byteAt, unitRow, List.getD_eq_getElem?_getD, List.getElem?_set, List.length_replicate,
    List.getElem?_replicate]
  by_cases h : slot = c
  · subst h
    simp [hslot]
  · simp only [h, if_false, Ne.symm h]
    split <;> rfl

theorem explains_unitRow {x : Nat → Nat → Element} {slot : Nat} (hslot : slot < k)
    {bytes : List UInt8} (h : ∀ i, byteAt bytes i = x slot i) : Explains k x (unitRow k slot, bytes) := by
  refine ⟨by simp [unitRow], fun i => ?_⟩
  rw [h, Finset.sum_eq_single_of_mem ⟨slot, hslot⟩ (Finset.mem_univ _)]
  · rw [byteAt_unitRow hslot, if_pos rfl, one_mul]
  · intro c _ hne
    have hv : c.val ≠ slot := fun heq => hne (Fin.ext heq)
    rw [byteAt_unitRow hslot, if_neg hv, zero_mul]

theorem byteAt_accumulate {x : Nat → Nat → Element} {survivors : List Survivor}
    (hlen : survivors.length = k) (hexplains : ∀ survivor ∈ survivors, Explains k x survivor)
    {inverse : List UInt8} {slot : Fin k}
    (hinverse : ∀ c : Fin k, ∑ t : Fin k, (⟨inverse.getD (slot * k + t) 0⟩ : Element) *
      byteAt ((survivors.map (·.1)).getD t []) c = if slot = c then 1 else 0)
    {width i : Nat} (hi : i < width) : byteAt (accumulate inverse k slot width survivors) i = x slot i := by
  have hterms : accumulate inverse k slot width survivors =
      weightedSum (survivors.zipIdx.map fun p => (inverse.getD (slot * k + p.2) 0, p.1.2))
        (List.replicate width 0) := by
    rw [weightedSum, List.foldl_map]
    rfl
  have hsum := sum_zipIdx
    (fun t survivor => (⟨inverse.getD (slot * k + t) 0⟩ : Element) * byteAt survivor.2 i)
    ([], []) (fun t => by rw [Gf256.byteAt_nil, mul_zero]) survivors 0 (Nat.le_of_eq hlen)
  have hbytes : ∀ t : Fin k, byteAt (survivors.getD t ([], [])).2 i =
      ∑ c : Fin k, byteAt ((survivors.map (·.1)).getD t []) c * x c i := by
    intro t
    have ht : t.val < survivors.length := hlen ▸ t.isLt
    have hmem := hexplains _ (List.getElem_mem ht)
    simp only [List.getD_eq_getElem?_getD, List.getElem?_map, List.getElem?_eq_getElem ht,
      Option.getD_some, Option.map_some]
    exact hmem.bytes i
  rw [hterms, byteAt_weightedSum _ (by simpa using hi), byteAt_replicate_zero, zero_add,
    List.map_map]
  calc _ = ∑ t : Fin k, (⟨inverse.getD (slot * k + t) 0⟩ : Element) *
        byteAt (survivors.getD t ([], [])).2 i := by simpa [Function.comp_def] using hsum
    _ = ∑ t : Fin k, ∑ c : Fin k, (⟨inverse.getD (slot * k + t) 0⟩ : Element) *
        byteAt ((survivors.map (·.1)).getD t []) c * x c i := by
      refine Finset.sum_congr rfl fun t _ => ?_
      rw [hbytes t, Finset.mul_sum]
      exact Finset.sum_congr rfl fun c _ => (mul_assoc ..).symm
    _ = ∑ c : Fin k, (if slot = c then 1 else 0) * x c i := by
      rw [Finset.sum_comm]
      refine Finset.sum_congr rfl fun c _ => ?_
      rw [← hinverse c, Finset.sum_mul]
    _ = x slot i := by simp

/-! ## §3 The chosen survivors -/

/-- Unit rows for all but some columns, and as many parity rows as there
are columns left, have full column rank. -/
theorem rank_of_survivors {m : Nat} {coeffs : List UInt8} (hfits : k + m ≤ 255)
    (hcoeffs : RsMatrix.parityRows k m = some coeffs) {rows : List (List UInt8)}
    (lost : Finset (Fin k)) (ranks : Finset Nat) (hcard : lost.card ≤ ranks.card)
    (hunit : ∀ c ∉ lost, unitRow k c ∈ rows)
    (hparity : ∀ r ∈ ranks, r < m ∧ (coeffs.drop (r * k)).take k ∈ rows) {v : Fin k → Element}
    (hv : ∀ row ∈ rows, ∑ c : Fin k, v c * byteAt row c = 0) : v = 0 := by
  refine @systematic_kernel _ _ _ _ _ _ lost ranks (fun r => element (k + r))
    (fun c : Fin k => element c) v ?_ ?_ ?_ hcard ?_ ?_
  · intro a ha b hb heq
    have hab := element_inj (by have := (hparity a ha).1; omega)
      (by have := (hparity b hb).1; omega) heq
    omega
  · intro a b heq
    exact Fin.ext (element_inj (by omega) (by omega) heq)
  · intro r hr c heq
    have hrc := element_inj (by have := (hparity r hr).1; omega) (by omega) heq
    omega
  · intro c hc
    have hzero := hv _ (hunit c hc)
    rw [Finset.sum_eq_single_of_mem c (Finset.mem_univ _)] at hzero
    · rwa [byteAt_unitRow c.isLt, if_pos rfl, mul_one] at hzero
    · intro c' _ hne
      have hval : c'.val ≠ c.val := fun heq => hne (Fin.ext heq)
      rw [byteAt_unitRow c.isLt, if_neg hval, mul_zero]
  · intro r hr
    obtain ⟨hrm, hrow⟩ := hparity r hr
    rw [← hv _ hrow]
    refine Finset.sum_congr rfl fun c _ => ?_
    rw [byteAt_parityRow hcoeffs hrm c.isLt, mul_comm]

/-- The ranks of the parity shards that are there. -/
def availableRanks (parity : List (Option (List UInt8))) (parityBase m : Nat) : List Nat :=
  (List.range m).filter fun rank => (slot? parity (parityBase + rank)).isSome

/-- The survivor a parity shard makes. -/
def parityShard (k : Nat) (parity : List (Option (List UInt8))) (coeffs : List UInt8)
    (parityBase rank : Nat) : Survivor :=
  ((coeffs.drop (rank * k)).take k, (slot? parity (parityBase + rank)).getD [])

theorem fillFromParity_eq (k : Nat) (parity : List (Option (List UInt8))) (coeffs : List UInt8)
    (parityBase m : Nat) (survivors : List Survivor) :
    fillFromParity k parity coeffs parityBase m survivors =
      survivors ++ ((availableRanks parity parityBase m).take (k - survivors.length)).map
        (parityShard k parity coeffs parityBase) := by
  unfold fillFromParity availableRanks
  generalize List.range m = ranks
  induction ranks generalizing survivors with
  | nil => simp
  | cons rank ranks ih =>
    rw [List.foldl_cons, ih]
    by_cases hfull : survivors.length < k
    · obtain ⟨wanting, hwanting⟩ : ∃ n, k - survivors.length = n + 1 :=
        ⟨k - survivors.length - 1, by omega⟩
      rw [if_pos hfull]
      cases hslot : slot? parity (parityBase + rank) with
      | none => rw [List.filter_cons_of_neg (by simp [hslot])]
      | some bytes =>
        have hshard : parityShard k parity coeffs parityBase rank =
            ((coeffs.drop (rank * k)).take k, bytes) := by simp [parityShard, hslot]
        have hnext : k - (survivors ++ [((coeffs.drop (rank * k)).take k, bytes)]).length =
            wanting := by simp; omega
        rw [List.filter_cons_of_pos (by simp [hslot]), hwanting, List.take_succ_cons, List.map_cons,
          hshard, hnext, List.append_assoc]
        rfl
    · rw [if_neg hfull, Nat.sub_eq_zero_of_le (Nat.le_of_not_lt hfull)]
      simp

end Survivors

section Group

variable {data : List (Option (List UInt8))} {shards : List (List UInt8)} {index upper k : Nat}

/-- Column `c` of the group: its framed shard, or nothing past the last. -/
def column (shards : List (List UInt8)) (index upper c i : Nat) : Element :=
  byteAt (((groupOf shards index upper).map lengthPrefixed).getD c []) i

theorem column_of_lt {c : Nat} (h : c < upper - index) (i : Nat) :
    column shards index upper c i = byteAt (lengthPrefixed (shards.getD (index + c) [])) i := by
  unfold column groupOf
  rw [List.getD_eq_getElem?_getD, List.getElem?_map, List.getElem?_map, List.getElem?_range' h]
  simp

theorem column_of_le {c : Nat} (h : upper - index ≤ c) (i : Nat) : column shards index upper c i = 0 := by
  unfold column groupOf
  rw [List.getD_eq_getElem?_getD, List.getElem?_eq_none (by simpa using h)]
  exact Gf256.byteAt_nil i

theorem explains_presentShards (h : Holds data shards index upper) (hk : upper - index ≤ k) :
    ∀ survivor ∈ presentShards k data index (upper - index),
      Explains k (column shards index upper) survivor := by
  intro survivor hmem
  obtain ⟨slot, hslot, heq⟩ := List.mem_filterMap.mp hmem
  rw [List.mem_range] at hslot
  obtain ⟨bytes, hbytes, rfl⟩ := Option.map_eq_some_iff.mp heq
  refine explains_unitRow (by omega) fun i => ?_
  rcases h.slot (Nat.le_add_right index slot) (by omega) with ⟨hnone, -⟩ | ⟨hsome, -⟩
  · simp [hnone] at hbytes
  · rw [column_of_lt hslot, ← Option.some.inj (hsome.symm.trans hbytes)]

theorem explains_phantomShards :
    ∀ survivor ∈ phantomShards k (upper - index),
      Explains k (column shards index upper) survivor := by
  intro survivor hmem
  obtain ⟨slot, hslot, rfl⟩ := List.mem_map.mp hmem
  have hrange := List.mem_range'_1.mp hslot
  refine explains_unitRow (by omega) fun i => ?_
  rw [column_of_le hrange.1]
  exact Gf256.byteAt_nil i

theorem length_survivors (h : Holds data shards index upper) (hk : upper - index ≤ k) :
    (presentShards k data index (upper - index) ++ phantomShards k (upper - index)).length +
      (holesOf data index upper).length = k := by
  have hpresent : (presentShards k data index (upper - index)).length +
      (holesOf data index upper).length = upper - index := by
    have hslots : ∀ slot ∈ List.range (upper - index),
        slot? data (index + slot) = none ∧ data[index + slot]? = some none ∨
          slot? data (index + slot) = some (shards.getD (index + slot) []) ∧
            data[index + slot]? = some (some (shards.getD (index + slot) [])) := by
      intro slot hslot
      rw [List.mem_range] at hslot
      exact h.slot (Nat.le_add_right ..) (by omega)
    unfold presentShards holesOf
    rw [List.range'_eq_map_range, List.filter_map, List.length_map]
    conv_rhs => rw [← List.length_range (n := upper - index)]
    generalize List.range (upper - index) = slots at hslots
    induction slots with
    | nil => simp
    | cons slot slots ih =>
      have hrest := ih fun s hs => hslots s (List.mem_cons_of_mem _ hs)
      rcases hslots slot (List.mem_cons_self ..) with ⟨hslot, hdata⟩ | ⟨hslot, hdata⟩
      · grind
      · grind
  simp only [List.length_append, phantomShards, List.length_map, List.length_range']
  omega

theorem unitRow_mem_survivors {c : Fin k} (h : Holds data shards index upper)
    (hc : ¬(c < upper - index ∧ data[index + c.val]? = some none)) :
    unitRow k c ∈ (presentShards k data index (upper - index) ++
      phantomShards k (upper - index)).map (·.1) := by
  rw [List.map_append, List.mem_append]
  by_cases hlt : c < upper - index
  · rcases h.slot (Nat.le_add_right index c) (by omega) with ⟨-, hnone⟩ | ⟨hslot, -⟩
    · exact absurd ⟨hlt, hnone⟩ hc
    · refine .inl (List.mem_map.mpr ⟨(unitRow k c, lengthPrefixed (shards.getD (index + c) [])), ?_, rfl⟩)
      exact List.mem_filterMap.mpr ⟨c, List.mem_range.mpr hlt, by rw [hslot]; rfl⟩
  · refine .inr (List.mem_map.mpr ⟨(unitRow k c, []), ?_, rfl⟩)
    exact List.mem_map.mpr ⟨c, List.mem_range'_1.mpr ⟨by omega, by omega⟩, rfl⟩

theorem card_lost_le : (Finset.univ.filter fun c : Fin k =>
    c < upper - index ∧ data[index + c.val]? = some none).card ≤ (holesOf data index upper).length := by
  calc _ ≤ (holesOf data index upper).toFinset.card := by
        refine Finset.card_le_card_of_injOn (fun c : Fin k => index + c.val) ?_ ?_
        · intro c hc
          obtain ⟨hlt, hnone⟩ := (Finset.mem_filter.mp hc).2
          have hupper : index + c.val < upper := by omega
          exact List.mem_toFinset.mpr (mem_holesOf.mpr ⟨Nat.le_add_right .., hupper, hnone⟩)
        · intro a _ b _ heq
          have hab : index + a.val = index + b.val := heq
          exact Fin.ext (by omega)
    _ ≤ (holesOf data index upper).length := List.toFinset_card_le _

end Group

/-! ## §4 One group -/

section Group

variable {data : List (Option (List UInt8))} {shards : List (List UInt8)} {index upper : Nat}
  {codec : ReedSolomonFec} {m : Nat} {coeffs : List UInt8}

/-- The parity shards of the group, as the encoder makes them. -/
def parityShards (codec : ReedSolomonFec) (shards : List (List UInt8)) (index upper : Nat)
    (coeffs : List UInt8) (rank : Nat) : List UInt8 :=
  let framed := (groupOf shards index upper).map lengthPrefixed
  codec.encodeRank framed (widest (framed.map List.length)) (coeffs.map Gf256.MulTable.new) rank

/-- The holes filled with their shards. -/
def fillHoles (data : List (Option (List UInt8))) (shards : List (List UInt8)) (holes : List Nat) :
    List (Option (List UInt8)) :=
  holes.foldl (fun data hole => data.set hole (some (shards.getD hole []))) data

theorem length_parityShards (hcoeffs : RsMatrix.parityRows codec.groupSize m = some coeffs)
    (hk : upper - index ≤ codec.groupSize) {r : Nat} (hr : r < m) :
    (parityShards codec shards index upper coeffs r).length =
      widest (((groupOf shards index upper).map lengthPrefixed).map List.length) := by
  unfold parityShards
  rw [encodeRank_eq hcoeffs (by simpa [groupOf] using hk) _ hr, length_weightedSum,
    List.length_replicate]

/-- `k` survivors that explain their bytes and have full column rank give
every missing shard back. -/
theorem strip_accumulate (hk : upper - index ≤ codec.groupSize)
    (hlen : ∀ shard ∈ shards, shard.length < 2 ^ 32) (hshards : upper ≤ shards.length)
    {survivors : List Survivor} (hcount : survivors.length = codec.groupSize)
    (hexplains : ∀ survivor ∈ survivors,
      Explains codec.groupSize (column shards index upper) survivor)
    (hrank : ∀ v : Fin codec.groupSize → Element,
      (∀ row ∈ survivors.map (·.1), ∑ c : Fin codec.groupSize, v c * byteAt row c = 0) → v = 0)
    {width : Nat} (hwidth : widest (((groupOf shards index upper).map lengthPrefixed).map
      List.length) ≤ width) :
    ∃ inverse, RsMatrix.invertSubset (survivors.map (·.1)) codec.groupSize = some inverse ∧
      ∀ hole, index ≤ hole → hole < upper →
        stripLengthPrefix (accumulate inverse codec.groupSize (hole - index) width survivors) =
          some (shards.getD hole []) := by
  have hrow : ∀ r < codec.groupSize,
      ((survivors.map (·.1)).getD r []).length = codec.groupSize := by
    intro r hr
    have hr' : r < survivors.length := hcount ▸ hr
    simp only [List.getD_eq_getElem?_getD, List.getElem?_map, List.getElem?_eq_getElem hr',
      Option.map_some, Option.getD_some]
    exact (hexplains _ (List.getElem_mem hr')).width
  have hfull : ∀ v : Fin codec.groupSize → Element, (∀ r : Fin codec.groupSize,
      ∑ c : Fin codec.groupSize, v c * RsMatrix.entry (survivors.map (·.1)) r c = 0) → v = 0 := by
    intro v hv
    refine hrank v fun row hmem => ?_
    obtain ⟨r, hr, rfl⟩ := List.mem_iff_getElem.mp hmem
    have hrk : r < codec.groupSize := by simpa [hcount] using hr
    have hentry := hv ⟨r, hrk⟩
    simp only [RsMatrix.entry, RsMatrix.at, List.getD_eq_getElem?_getD,
      List.getElem?_eq_getElem hr, Option.getD_some] at hentry
    simpa [byteAt] using hentry
  obtain ⟨inverse, hinverse, hleft⟩ := RsMatrix.invertSubset_spec codec.groupSize_pos
    (by rw [List.length_map, hcount]) hrow hfull
  refine ⟨inverse, hinverse, fun hole hindex hupper => ?_⟩
  have hhole : hole < shards.length := by omega
  have hshard : shards.getD hole [] ∈ shards := by
    grind
  have hframed : (lengthPrefixed (shards.getD hole [])).length ∈
      ((groupOf shards index upper).map lengthPrefixed).map List.length := by
    refine List.mem_map_of_mem (List.mem_map_of_mem ?_)
    exact List.mem_map.mpr ⟨hole, List.mem_range'_1.mpr ⟨hindex, by omega⟩, rfl⟩
  let slot : Fin codec.groupSize := ⟨hole - index, by omega⟩
  have hlength : (accumulate inverse codec.groupSize slot width survivors).length = width := by
    have hterms : accumulate inverse codec.groupSize slot width survivors =
        weightedSum (survivors.zipIdx.map fun p =>
          (inverse.getD (slot * codec.groupSize + p.2) 0, p.1.2)) (List.replicate width 0) := by
      rw [weightedSum, List.foldl_map]
      rfl
    rw [hterms, length_weightedSum, List.length_replicate]
  refine stripLengthPrefix_of_byteAt (hlen _ hshard) ?_ ?_
  · have hle := Nat.le_trans (le_widest hframed) hwidth
    rw [length_lengthPrefixed] at hle
    exact hle.trans_eq hlength.symm
  · intro i hi
    have hcolumn := byteAt_accumulate hcount hexplains (hleft slot) (hlength ▸ hi)
    have hback : index + (hole - index) = hole := by omega
    rw [column_of_lt (by change hole - index < _; omega)] at hcolumn
    rw [show index + slot.val = hole from hback] at hcolumn
    exact hcolumn

theorem explains_parityShard (hcoeffs : RsMatrix.parityRows codec.groupSize m = some coeffs)
    (hk : upper - index ≤ codec.groupSize) {r : Nat} (hr : r < m) :
    Explains codec.groupSize (column shards index upper)
      ((coeffs.drop (r * codec.groupSize)).take codec.groupSize,
        parityShards codec shards index upper coeffs r) := by
  constructor
  · have hroom : (r + 1) * codec.groupSize ≤ m * codec.groupSize := Nat.mul_le_mul_right _ hr
    rw [Nat.succ_mul] at hroom
    rw [List.length_take, List.length_drop, length_parityRows hcoeffs]
    omega
  · intro i
    have hlen : ((groupOf shards index upper).map lengthPrefixed).length ≤ codec.groupSize := by
      simpa [groupOf] using hk
    refine (byteAt_encodeRank hcoeffs hlen hr i).trans (Finset.sum_congr rfl fun c _ => ?_)
    rw [byteAt_parityRow hcoeffs hr c.isLt]
    rfl

/-- With enough parity every hole of the group is filled; with less the
group is left as it is. -/
theorem recoverCauchy_spec (h : Holds data shards index upper)
    (hk : upper - index ≤ codec.groupSize) (hfits : codec.groupSize + m ≤ 255)
    (hlen : ∀ shard ∈ shards, shard.length < 2 ^ 32)
    (hcoeffs : RsMatrix.parityRows codec.groupSize m = some coeffs)
    {parity : List (Option (List UInt8))} {groupIndex : Nat}
    (hparity : ∀ r ∈ availableRanks parity (groupIndex * m) m,
      slot? parity (groupIndex * m + r) = some (parityShards codec shards index upper coeffs r))
    (hholes : holesOf data index upper ≠ []) :
    recoverCauchy codec.groupSize data parity index upper groupIndex m coeffs (holesOf data index upper) =
      if (holesOf data index upper).length ≤ (availableRanks parity (groupIndex * m) m).length then
        fillHoles data shards (holesOf data index upper)
      else data := by
  have hcount := length_survivors h hk
  have hbase := fun c => unitRow_mem_survivors (k := codec.groupSize) (c := c) h
  have hlost := @card_lost_le data index upper codec.groupSize
  have hexplains : ∀ survivor ∈ presentShards codec.groupSize data index (upper - index) ++
      phantomShards codec.groupSize (upper - index),
      Explains codec.groupSize (column shards index upper) survivor := by
    intro survivor hmem
    rcases List.mem_append.mp hmem with hmem | hmem
    · exact explains_presentShards h hk survivor hmem
    · exact explains_phantomShards survivor hmem
  have hinside : ∀ hole ∈ holesOf data index upper, index ≤ hole ∧ hole < upper := by
    intro hole hmem
    obtain ⟨hindex, hupper, -⟩ := mem_holesOf.mp hmem
    exact ⟨hindex, hupper⟩
  unfold recoverCauchy
  dsimp only
  rw [fillFromParity_eq]
  generalize presentShards codec.groupSize data index (upper - index) ++
    phantomShards codec.groupSize (upper - index) = base at hcount hbase hexplains
  generalize holesOf data index upper = holes at hcount hholes hlost hinside
  have hwanting : codec.groupSize - base.length = holes.length := by omega
  rw [hwanting]
  generalize hranksEq : (availableRanks parity (groupIndex * m) m).take holes.length = ranks
  have hranks : ∀ r ∈ ranks, r < m ∧ parityShard codec.groupSize parity coeffs (groupIndex * m) r =
      ((coeffs.drop (r * codec.groupSize)).take codec.groupSize,
        parityShards codec shards index upper coeffs r) := by
    intro r hr
    rw [← hranksEq] at hr
    have hmem := List.mem_of_mem_take hr
    refine ⟨List.mem_range.mp (List.mem_filter.mp hmem).1, ?_⟩
    rw [parityShard, hparity r hmem, Option.getD_some]
  by_cases henough : holes.length ≤ (availableRanks parity (groupIndex * m) m).length
  · have hlength : ranks.length = holes.length := by
      rw [← hranksEq, List.length_take, Nat.min_eq_left henough]
    have hnodup : ranks.Nodup := by
      rw [← hranksEq]
      exact (List.nodup_range.filter _).sublist (List.take_sublist _ _)
    have htotal : (base ++ ranks.map (parityShard codec.groupSize parity coeffs
        (groupIndex * m))).length = codec.groupSize := by
      grind
    have hall : ∀ survivor ∈ base ++ ranks.map (parityShard codec.groupSize parity coeffs
        (groupIndex * m)), Explains codec.groupSize (column shards index upper) survivor := by
      intro survivor hmem
      rcases List.mem_append.mp hmem with hmem | hmem
      · exact hexplains survivor hmem
      · obtain ⟨r, hr, rfl⟩ := List.mem_map.mp hmem
        obtain ⟨hrm, hshard⟩ := hranks r hr
        rw [hshard]
        exact explains_parityShard hcoeffs hk hrm
    have hrank : ∀ v : Fin codec.groupSize → Element,
        (∀ row ∈ (base ++ ranks.map (parityShard codec.groupSize parity coeffs
          (groupIndex * m))).map (·.1), ∑ c : Fin codec.groupSize, v c * byteAt row c = 0) →
        v = 0 := by
      intro v hv
      refine rank_of_survivors hfits hcoeffs (Finset.univ.filter fun c : Fin codec.groupSize =>
        c < upper - index ∧ data[index + c.val]? = some none) ranks.toFinset ?_ ?_ ?_ hv
      · rwa [List.toFinset_card_of_nodup hnodup, hlength]
      · grind
      · intro r hr
        obtain ⟨hrm, hshard⟩ := hranks r (List.mem_toFinset.mp hr)
        refine ⟨hrm, List.mem_map.mpr ⟨_, List.mem_append_right _ (List.mem_map_of_mem
          (List.mem_toFinset.mp hr)), ?_⟩⟩
        rw [hshard]
    have hwidth : widest (((groupOf shards index upper).map lengthPrefixed).map List.length) ≤
        widest ((base ++ ranks.map (parityShard codec.groupSize parity coeffs
          (groupIndex * m))).map (·.2.length)) := by
      cases hcases : ranks with
      | nil =>
        grind
      | cons r _ =>
        obtain ⟨hrm, hshard⟩ := hranks r (hcases ▸ List.mem_cons_self ..)
        rw [← length_parityShards hcoeffs hk hrm, ← hcases]
        refine le_widest (List.mem_map.mpr ⟨_, List.mem_append_right _ (List.mem_map_of_mem
          (hcases ▸ List.mem_cons_self ..)), ?_⟩)
        rw [hshard]
    obtain ⟨inverse, hinverse, hstrip⟩ :=
      strip_accumulate hk hlen h.le_shards htotal hall hrank hwidth
    rw [if_pos henough, if_neg (by omega), List.take_of_length_le (by omega), hinverse]
    refine List.foldl_ext _ _ _ fun data' hole hmem => ?_
    rw [hstrip hole (hinside hole hmem).1 (hinside hole hmem).2]
  · grind

@[simp] theorem length_fillHoles (data : List (Option (List UInt8))) (shards : List (List UInt8))
    (holes : List Nat) : (fillHoles data shards holes).length = data.length := by
  unfold fillHoles
  induction holes generalizing data with
  | nil => rfl
  | cons hole holes ih => rw [List.foldl_cons, ih, List.length_set]

theorem getElem?_fillHoles {holes : List Nat} (h : ∀ hole ∈ holes, hole < data.length) (i : Nat) :
    (fillHoles data shards holes)[i]? =
      if i ∈ holes then some (some (shards.getD i [])) else data[i]? := by
  unfold fillHoles
  induction holes generalizing data with
  | nil => simp
  | cons hole holes ih =>
    have hlt := h hole (List.mem_cons_self ..)
    have hrest : ∀ hole' ∈ holes, hole' < (data.set hole (some (shards.getD hole []))).length := by
      grind
    rw [List.foldl_cons, ih hrest, List.getElem?_set]
    by_cases hi : i ∈ holes
    · simp [hi]
    · grind

/-- The parity shards the encoder makes of one group. -/
def groupParity (codec : ReedSolomonFec) (shards : List (List UInt8)) (index upper m rank : Nat) :
    List UInt8 :=
  if m = 1 then xorEncoded (groupOf shards index upper)
  else parityShards codec shards index upper ((RsMatrix.parityRows codec.groupSize m).getD []) rank

/-- One group: filled when its missing shards are no more than the parity
shards that are there, left alone otherwise. -/
theorem recoverGroup_spec (h : Holds data shards index upper) (hfits : codec.groupSize + m ≤ 255)
    (hk : m ≠ 1 → upper - index ≤ codec.groupSize)
    (hlen : ∀ shard ∈ shards, shard.length < 2 ^ 32) {parity : List (Option (List UInt8))}
    {groupIndex : Nat} (hparity : ∀ r ∈ availableRanks parity (groupIndex * m) m,
      slot? parity (groupIndex * m + r) = some (groupParity codec shards index upper m r)) :
    ∃ data', codec.recoverGroup data parity index upper groupIndex m = some data' ∧
      data'.length = data.length ∧ ∀ i, data'[i]? =
        if index ≤ i ∧ i < upper ∧ (holesOf data index upper).length ≤
          (availableRanks parity (groupIndex * m) m).length
        then some (some (shards.getD i [])) else data[i]? := by
  have hpresent : ∀ i, index ≤ i → i < upper → i ∉ holesOf data index upper →
      data[i]? = some (some (shards.getD i [])) := by
    intro i hi hu hnot
    rcases h.slot hi hu with ⟨-, hnone⟩ | ⟨-, hsome⟩
    · exact absurd (mem_holesOf.mpr ⟨hi, hu, hnone⟩) hnot
    · exact hsome
  have hinside : ∀ hole ∈ holesOf data index upper, hole < data.length := by
    intro hole hmem
    exact Nat.lt_of_lt_of_le (mem_holesOf.mp hmem).2.1 h.le_data
  have hfilled : ∀ i, (holesOf data index upper).length ≤
      (availableRanks parity (groupIndex * m) m).length →
      (fillHoles data shards (holesOf data index upper))[i]? =
        if index ≤ i ∧ i < upper ∧ (holesOf data index upper).length ≤
          (availableRanks parity (groupIndex * m) m).length
        then some (some (shards.getD i [])) else data[i]? := by
    intro i henough
    rw [getElem?_fillHoles hinside]
    by_cases hhole : i ∈ holesOf data index upper
    · obtain ⟨hi, hu, -⟩ := mem_holesOf.mp hhole
      rw [if_pos hhole, if_pos ⟨hi, hu, henough⟩]
    · grind
  have hkept : ∀ i, ¬ (holesOf data index upper).length ≤
      (availableRanks parity (groupIndex * m) m).length → data[i]? =
        if index ≤ i ∧ i < upper ∧ (holesOf data index upper).length ≤
          (availableRanks parity (groupIndex * m) m).length
        then some (some (shards.getD i [])) else data[i]? := by
    intro i hshort
    rw [if_neg fun hin => hshort hin.2.2]
  have hranks : (availableRanks parity (groupIndex * m) m).length ≤ m := by
    calc _ ≤ (List.range m).length := List.length_filter_le _ _
      _ = m := List.length_range
  unfold recoverGroup
  by_cases hnil : holesOf data index upper = []
  · refine ⟨data, by rw [if_pos (.inl hnil)], rfl, fun i => ?_⟩
    have hnothing := hfilled i (by rw [hnil]; exact Nat.zero_le _)
    rw [hnil] at hnothing ⊢
    exact hnothing
  by_cases hmany : m < (holesOf data index upper).length
  · exact ⟨data, by rw [if_pos (.inr hmany)], rfl, fun i => hkept i (by omega)⟩
  rw [if_neg (not_or.mpr ⟨hnil, hmany⟩)]
  by_cases hm : m = 1
  · subst hm
    obtain ⟨hole, hhole⟩ : ∃ hole, holesOf data index upper = [hole] := by
      refine List.length_eq_one_iff.mp ?_
      have := List.length_pos_of_ne_nil hnil
      omega
    cases hslot : slot? parity groupIndex with
    | none =>
      have hshort : availableRanks parity (groupIndex * 1) 1 = [] := by
        simp [availableRanks, hslot]
      refine ⟨data, ?_, rfl, fun i => hkept i (by rw [hhole, hshort]; simp)⟩
      simp [recoverXor, hslot]
    | some bytes =>
      have havailable : availableRanks parity (groupIndex * 1) 1 = [0] := by
        simp [availableRanks, hslot, List.range_succ]
      have hgroup := hparity 0 (by rw [havailable]; simp)
      rw [Nat.mul_one, Nat.add_zero, groupParity, if_pos rfl] at hgroup
      refine ⟨fillHoles data shards (holesOf data index upper), ?_, length_fillHoles .., fun i =>
        hfilled i (by rw [hhole, havailable]; simp)⟩
      rw [hhole, recoverXor_spec h hlen hhole hgroup]
      rfl
  · obtain ⟨coeffs, hcoeffs⟩ : ∃ coeffs, RsMatrix.parityRows codec.groupSize m = some coeffs := by
      unfold RsMatrix.parityRows
      rw [if_pos (by omega)]
      exact ⟨_, rfl⟩
    have hshards : ∀ r ∈ availableRanks parity (groupIndex * m) m,
        slot? parity (groupIndex * m + r) = some (parityShards codec shards index upper coeffs r) := by
      intro r hr
      rw [hparity r hr, groupParity, if_neg hm, hcoeffs, Option.getD_some]
    rw [if_neg hm, hcoeffs]
    refine ⟨_, rfl, ?_⟩
    rw [recoverCauchy_spec h (hk hm) hfits hlen hcoeffs hshards hnil]
    split
    · rename_i henough
      exact ⟨length_fillHoles .., fun i => hfilled i henough⟩
    · grind

end Group

/-! ## §5 The whole frame -/

/-- What a lossy link leaves of some shards. -/
def survive (lost : Nat → Bool) (shards : List (List UInt8)) : List (Option (List UInt8)) :=
  shards.mapIdx fun i shard => if lost i then none else some shard

/-- The data shards of block `q` that are lost. -/
def missingData (n g : Nat) (dataLost : Nat → Bool) (q : Nat) : Nat :=
  (List.range n).countP fun i => i / g = q ∧ dataLost i

/-- The parity shards of block `q` that are not. -/
def survivingParity (m : Nat) (parityLost : Nat → Bool) (q : Nat) : Nat :=
  (List.range m).countP fun r => !parityLost (q * m + r)

@[simp] theorem length_survive (lost : Nat → Bool) (shards : List (List UInt8)) :
    (survive lost shards).length = shards.length := by
  simp [survive]

theorem getElem?_survive (lost : Nat → Bool) (shards : List (List UInt8)) (i : Nat) :
    (survive lost shards)[i]? = shards[i]?.map fun shard => if lost i then none else some shard := by
  simp [survive]

theorem slot?_survive (lost : Nat → Bool) (shards : List (List UInt8)) (i : Nat) :
    slot? (survive lost shards) i = if lost i then none else shards[i]? := by
  rw [slot?, getElem?_survive]
  cases shards[i]? <;> cases lost i <;> rfl

theorem holds_survive {lost : Nat → Bool} {shards : List (List UInt8)} {index upper : Nat}
    (h : upper ≤ shards.length) : Holds (survive lost shards) shards index upper := by
  refine ⟨by simpa using h, h, fun i _ hu => ?_⟩
  rw [getElem?_survive, List.getElem?_eq_getElem (Nat.lt_of_lt_of_le hu h), Option.map_some]
  cases lost i
  · exact .inr rfl
  · exact .inl rfl

/-- The members of block `q` are those from `q * g` on, `g` of them or up
to the end. -/
theorem div_eq_iff_mem_block {i n g q : Nat} (hg : 0 < g) (hi : i < n) :
    i / g = q ↔ q * g ≤ i ∧ i < min (q * g + g) n := by
  rw [Nat.div_eq_iff hg]
  omega

theorem length_holesOf {data : List (Option (List UInt8))} {shards : List (List UInt8)}
    {dataLost : Nat → Bool} {g q : Nat} (hg : 0 < g)
    (hdata : ∀ i, i / g = q → data[i]? = (survive dataLost shards)[i]?) :
    (holesOf data (q * g) (min (q * g + g) shards.length)).length =
      missingData shards.length g dataLost q := by
  have hblock : ∀ i < shards.length, data[i]? = some none ∧ i / g = q ↔
      i / g = q ∧ dataLost i = true := by
    intro i hi
    rw [and_comm]
    refine and_congr_right fun hq => ?_
    rw [hdata i hq, getElem?_survive, List.getElem?_eq_getElem hi]
    cases dataLost i <;> simp
  have hperm : (holesOf data (q * g) (min (q * g + g) shards.length)).Perm
      ((List.range shards.length).filter fun i => i / g = q ∧ dataLost i) := by
    refine (List.perm_ext_iff_of_nodup ?_ ?_).mpr fun i => ?_
    · exact (List.nodup_range' (h := by decide)).filter _
    · exact List.nodup_range.filter _
    · rw [mem_holesOf, List.mem_filter, List.mem_range]
      simp only [decide_eq_true_eq]
      constructor
      · rintro ⟨hindex, hupper, hnone⟩
        have hi : i < shards.length := by omega
        exact ⟨hi, (hblock i hi).mp ⟨hnone, (div_eq_iff_mem_block hg hi).mpr ⟨hindex, hupper⟩⟩⟩
      · rintro ⟨hi, hlost⟩
        obtain ⟨hnone, hq⟩ := (hblock i hi).mpr hlost
        obtain ⟨hindex, hupper⟩ := (div_eq_iff_mem_block hg hi).mp hq
        exact ⟨hindex, hupper, hnone⟩
  rw [hperm.length_eq, missingData, List.countP_eq_length_filter]

theorem foldlM_range_succ {α : Type*} (f : α → Nat → Option α) (a : α) (n : Nat) :
    (List.range (n + 1)).foldlM f a = ((List.range n).foldlM f a).bind fun a' => f a' n := by
  rw [List.range_succ, List.foldlM_append]
  cases (List.range n).foldlM f a with
  | none => rfl
  | some a' => simp

section Frame

variable (codec : ReedSolomonFec) (shards : List (List UInt8)) (requested m : Nat)

theorem effectiveGroupSize_pos : 0 < codec.effectiveGroupSize requested m := by
  have hk := codec.groupSize_pos
  unfold effectiveGroupSize
  dsimp only
  split <;> split <;> omega

theorem effectiveGroupSize_le (hm : m ≠ 1) : codec.effectiveGroupSize requested m ≤ codec.groupSize := by
  unfold effectiveGroupSize
  rw [if_neg hm]
  exact Nat.min_le_right ..

theorem chunk_eq_groupOf (g q : Nat) :
    (shards.drop (q * g)).take g = groupOf shards (q * g) (min (q * g + g) shards.length) := by
  refine List.ext_getElem ?_ fun i hi _ => ?_
  · simp only [List.length_take, List.length_drop, groupOf, List.length_map, List.length_range']
    omega
  · have hlen : i < shards.length - q * g := by
      grind
    have hin : q * g + i < shards.length := by omega
    simp [groupOf, List.getElem?_eq_getElem hin]

theorem parityM_spec (hm : 1 ≤ m) (hfits : codec.groupSize + m ≤ 255) :
    ∃ parity, codec.parityM shards requested m = some parity ∧
      ∀ q r, q * codec.effectiveGroupSize requested m < shards.length → r < m →
        parity[q * m + r]? = some (groupParity codec shards
          (q * codec.effectiveGroupSize requested m)
          (min (q * codec.effectiveGroupSize requested m + codec.effectiveGroupSize requested m)
            shards.length) m r) := by
  have hg := effectiveGroupSize_pos codec requested m
  unfold parityM groupParity
  generalize codec.effectiveGroupSize requested m = g at hg
  by_cases hone : m = 1
  · subst hone
    refine ⟨_, if_pos rfl, fun q r hq hr => ?_⟩
    obtain rfl : r = 0 := by omega
    rw [if_pos rfl, Nat.mul_one, Nat.add_zero, List.getElem?_map, getElem?_chunks hg _ hq,
      Option.map_some, chunk_eq_groupOf]
  · obtain ⟨coeffs, hcoeffs⟩ : ∃ coeffs, RsMatrix.parityRows codec.groupSize m = some coeffs := by
      unfold RsMatrix.parityRows
      rw [if_pos (by omega)]
      exact ⟨_, rfl⟩
    rw [if_neg hone, hcoeffs]
    refine ⟨_, rfl, fun q r hq hr => ?_⟩
    have hwidth : ∀ group ∈ chunks g shards,
        (codec.encodeGroup group m (coeffs.map Gf256.MulTable.new)).length = m := by
      simp [encodeGroup]
    have hblocks : q < (chunks g shards).length := by
      rwa [length_chunks, lt_blockCount hg]
    have hchunk : (chunks g shards)[q] = groupOf shards (q * g) (min (q * g + g) shards.length) := by
      rw [← chunk_eq_groupOf, ← Option.some_inj, ← getElem?_chunks hg _ hq,
        List.getElem?_eq_getElem hblocks]
    rw [getElem?_flatMap hwidth hblocks hr, hchunk, if_neg hone, Option.getD_some]
    simp [encodeGroup, parityShards, hr]

theorem recoverM_loop {parity : List (List UInt8)} {dataLost parityLost : Nat → Bool} {g : Nat}
    (hg : 0 < g) (hfits : codec.groupSize + m ≤ 255) (hk : m ≠ 1 → g ≤ codec.groupSize)
    (hlen : ∀ shard ∈ shards, shard.length < 2 ^ 32)
    (hparity : ∀ q r, q * g < shards.length → r < m → parity[q * m + r]? =
      some (groupParity codec shards (q * g) (min (q * g + g) shards.length) m r))
    {groups : Nat} (hgroups : groups ≤ blockCount shards.length g) :
    ∃ data, (List.range groups).foldlM (fun data q => codec.recoverGroup data
        (survive parityLost parity) (q * g) (min (q * g + g) data.length) q m)
        (survive dataLost shards) = some data ∧
      data.length = shards.length ∧ ∀ i, data[i]? =
        if i < shards.length ∧ i / g < groups ∧
          missingData shards.length g dataLost (i / g) ≤ survivingParity m parityLost (i / g)
        then some (some (shards.getD i [])) else (survive dataLost shards)[i]? := by
  induction groups with
  | zero => exact ⟨_, rfl, length_survive .., fun i => by simp⟩
  | succ q ih =>
    obtain ⟨data, hfold, hdata, hslots⟩ := ih (by omega)
    have hq : q * g < shards.length := (lt_blockCount hg).mp hgroups
    have hkept : ∀ i, i / g = q → data[i]? = (survive dataLost shards)[i]? := by
      intro i hi
      rw [hslots, if_neg (by omega)]
    have hholds : Holds data shards (q * g) (min (q * g + g) shards.length) := by
      have hsurvive := @holds_survive dataLost shards (q * g) (min (q * g + g) shards.length)
        (Nat.min_le_right ..)
      refine ⟨by omega, hsurvive.le_shards, fun i hi hu => ?_⟩
      rw [hkept i ((div_eq_iff_mem_block hg (by omega)).mpr ⟨hi, hu⟩)]
      exact hsurvive.slots i hi hu
    have hranks : (availableRanks (survive parityLost parity) (q * m) m).length =
        survivingParity m parityLost q := by
      rw [survivingParity, List.countP_eq_length_filter]
      refine congrArg List.length (List.filter_congr fun r hr => ?_)
      rw [slot?_survive, hparity q r hq (List.mem_range.mp hr)]
      cases parityLost (q * m + r) <;> rfl
    have havailable : ∀ r ∈ availableRanks (survive parityLost parity) (q * m) m,
        slot? (survive parityLost parity) (q * m + r) = some (groupParity codec shards (q * g)
          (min (q * g + g) shards.length) m r) := by
      intro r hr
      obtain ⟨hrm, hsome⟩ := List.mem_filter.mp hr
      rw [slot?_survive] at hsome ⊢
      cases hlost : parityLost (q * m + r) with
      | true => simp [hlost] at hsome
      | false => exact hparity q r hq (List.mem_range.mp hrm)
    have hwidth : m ≠ 1 → min (q * g + g) shards.length - q * g ≤ codec.groupSize := by
      intro hone
      have := hk hone
      omega
    obtain ⟨data', hgroup, hlength, hslots'⟩ :=
      recoverGroup_spec hholds hfits hwidth hlen havailable
    refine ⟨data', ?_, hlength.trans hdata, fun i => ?_⟩
    · rw [foldlM_range_succ, hfold, Option.bind_some, hdata]
      exact hgroup
    · rw [hslots', length_holesOf hg hkept, hranks, hslots]
      rcases Nat.lt_or_ge i shards.length with hi | hi
      · have hblock := div_eq_iff_mem_block (n := shards.length) (q := q) hg hi
        by_cases hlast : i / g = q
        · obtain ⟨hindex, hupper⟩ := hblock.mp hlast
          have hlower : i < min (q * g + g) shards.length := hupper
          simp [hlast, hindex, hlower, hi]
        · have hout : ¬ (q * g ≤ i ∧ i < min (q * g + g) shards.length) := fun hin =>
            hlast (hblock.mpr hin)
          have hearlier : i / g < q + 1 ↔ i / g < q := by omega
          rw [if_neg fun hin => hout ⟨hin.1, hin.2.1⟩]
          simp [hearlier]
      · rw [if_neg (by omega), if_neg (by omega), if_neg (by omega)]

theorem recoverM_survive {parity : List (List UInt8)} (dataLost parityLost : Nat → Bool)
    (hm : 1 ≤ m) (hfits : codec.groupSize + m ≤ 255) (hlen : ∀ shard ∈ shards, shard.length < 2 ^ 32)
    (hparity : codec.parityM shards requested m = some parity) :
    codec.recoverM (survive dataLost shards) (survive parityLost parity) requested m =
      some (shards.mapIdx fun i shard =>
        if dataLost i = true ∧
          survivingParity m parityLost (i / codec.effectiveGroupSize requested m) <
            missingData shards.length (codec.effectiveGroupSize requested m) dataLost
              (i / codec.effectiveGroupSize requested m)
        then none else some shard) := by
  obtain ⟨parity', hencode, hspec⟩ := parityM_spec codec shards requested m hm hfits
  cases hencode.symm.trans hparity
  have hg := effectiveGroupSize_pos codec requested m
  obtain ⟨data, hfold, hdata, hslots⟩ := @recoverM_loop codec shards m parity dataLost parityLost _
    hg hfits (effectiveGroupSize_le codec requested m) hlen hspec _ (Nat.le_refl _)
  unfold recoverM
  rw [length_survive, hfold]
  refine congrArg some (List.ext_getElem? fun i => ?_)
  rw [hslots, getElem?_survive, List.getElem?_mapIdx]
  rcases Nat.lt_or_ge i shards.length with hi | hi
  · have hblock := (lt_blockCount hg).mpr (div_mul_lt (g := codec.effectiveGroupSize requested m) hi)
    rw [List.getD_eq_getElem?_getD, List.getElem?_eq_getElem hi]
    simp only [hi, hblock, true_and, Option.map_some, Option.getD_some, ← Nat.not_lt]
    generalize survivingParity m parityLost _ = kept
    generalize missingData _ _ _ _ = missing
    by_cases hshort : kept < missing <;> cases dataLost i <;> simp [hshort]
  · rw [List.getElem?_eq_none hi, if_neg (by omega)]
    rfl

end Frame

/-- Encode, lose any shards, recover: the frame comes back except for the
lost shards of the groups that lost more than they kept parity. -/
theorem fec_recovers (codec : ReedSolomonFec) (shards : List (List UInt8)) (requested m : Nat)
    (dataLost parityLost : Nat → Bool) (hm : 1 ≤ m) (hfits : codec.groupSize + m ≤ 255)
    (hlen : ∀ shard ∈ shards, shard.length < 2 ^ 32) :
    ∃ parity, codec.parityM shards requested m = some parity ∧
      codec.recoverM (survive dataLost shards) (survive parityLost parity) requested m =
        some (shards.mapIdx fun i shard =>
          if dataLost i = true ∧
            survivingParity m parityLost (i / codec.effectiveGroupSize requested m) <
              missingData shards.length (codec.effectiveGroupSize requested m) dataLost
                (i / codec.effectiveGroupSize requested m)
          then none else some shard) := by
  obtain ⟨parity, hencode, -⟩ := parityM_spec codec shards requested m hm hfits
  exact ⟨parity, hencode, recoverM_survive codec shards requested m dataLost parityLost hm hfits hlen hencode⟩

theorem fec_recovers_one_lost : ∃ parity,
    default.parityM [[1, 2], [3], [4, 5, 6]] 2 2 = some parity ∧
      default.recoverM (survive (fun i => i = 1) [[1, 2], [3], [4, 5, 6]])
        (survive (fun i => i = 0) parity) 2 2 =
        some ([[1, 2], [3], [4, 5, 6]].mapIdx fun i shard =>
          if decide (i = 1) = true ∧
            survivingParity 2 (fun i => i = 0) (i / default.effectiveGroupSize 2 2) <
              missingData 3 (default.effectiveGroupSize 2 2) (fun i => i = 1)
                (i / default.effectiveGroupSize 2 2)
          then none else some shard) :=
  fec_recovers default [[1, 2], [3], [4, 5, 6]] 2 2 (fun i => i = 1) (fun i => i = 0) (by decide)
    (by decide) (by decide)

/-- A shard whose length wraps to 0 in the four bytes of its prefix is
recovered as an empty one. -/
theorem recoverM_wrapped {shard : List UInt8} (h : shard.length = 2 ^ 32) :
    ∃ parity, default.parityM [shard] 1 1 = some parity ∧
      default.recoverM [none] (parity.map some) 1 1 = some [some []] := by
  have hprefix : lengthPrefixed shard = [0, 0, 0, 0] ++ shard := by
    rw [lengthPrefixed, h]
    rfl
  have hencoded : xorEncoded [shard] = [0, 0, 0, 0] ++ shard := by
    have hwidth : widest [prefixBytes + shard.length] = ([0, 0, 0, 0] ++ shard).length := by
      rw [List.length_append, widest]
      exact Nat.zero_max _
    simp only [xorEncoded, List.map_cons, List.map_nil, List.foldl_nil, hprefix, hwidth, resize,
      List.take_length, Nat.sub_self, List.replicate_zero, List.append_nil]
  have hchunks : chunks 1 [shard] = [[shard]] := by simp [chunks, blockCount]
  refine ⟨[[0, 0, 0, 0] ++ shard], ?_, ?_⟩
  · rw [parityM, show default.effectiveGroupSize 1 1 = 1 from rfl, hchunks, List.map_singleton,
      hencoded]
    rfl
  · have hgroup : recoverXor [none] [some ([0, 0, 0, 0] ++ shard)] 0 1 0 [0] = [some []] := by
      rfl
    exact congrArg some hgroup

theorem recoverM_loses_wrapped_length : ∃ parity,
    default.parityM [List.replicate (2 ^ 32) 7] 1 1 = some parity ∧
      default.recoverM [none] (parity.map some) 1 1 = some [some []] ∧
      default.recoverM [none] (parity.map some) 1 1 ≠ some [some (List.replicate (2 ^ 32) 7)] := by
  obtain ⟨parity, hencode, hrecover⟩ :=
    recoverM_wrapped (List.length_replicate (n := 2 ^ 32) (a := 7))
  refine ⟨parity, hencode, hrecover, ?_⟩
  intro heq
  rw [hrecover] at heq
  have hnil : [] = List.replicate (2 ^ 32) (7 : UInt8) := by
    simpa only [Option.some.injEq, List.cons.injEq, and_true] using heq
  have hlength := congrArg List.length hnil
  rw [List.length_replicate] at hlength
  exact absurd hlength (by decide)

/-! ## Whatever the parity -/

section Untrusted

variable {data data' parity : List (Option (List UInt8))} {out : List (Option (List UInt8))}

/-- Every shard that is there stays as it is. -/
def Keeps (data data' : List (Option (List UInt8))) : Prop :=
  data'.length = data.length ∧ ∀ (i : Nat) (shard : List UInt8), data[i]? = some (some shard) →
    data'[i]? = some (some shard)

theorem Keeps.set (h : Keeps data data') {hole : Nat} (hhole : data[hole]? = some none) (bytes : Option (List UInt8)) :
    Keeps data (data'.set hole bytes) := by
  refine ⟨by rw [List.length_set, h.1], fun i shard hi => ?_⟩
  have hne : hole ≠ i := by
    rintro rfl
    rw [hhole] at hi
    cases hi
  rw [List.getElem?_set_ne hne]
  exact h.2 i shard hi

theorem keeps_recoverXor {index upper groupIndex : Nat} :
    Keeps data (recoverXor data parity index upper groupIndex (holesOf data index upper)) := by
  have hrefl : Keeps data data := ⟨rfl, fun _ _ hi => hi⟩
  unfold recoverXor
  split
  · exact hrefl
  · dsimp only
    split
    · rename_i hhead
      exact hrefl.set (mem_holesOf.mp (List.mem_of_mem_head? hhead)).2.2 _
    · exact hrefl

theorem keeps_foldl_holes (fill : Nat → Option (List UInt8)) (holes : List Nat) (h : Keeps data data')
    (hholes : ∀ hole ∈ holes, data[hole]? = some none) : Keeps data (holes.foldl (fun data hole =>
      match fill hole with
      | some bytes => data.set hole (some bytes)
      | none => data) data') := by
  induction holes generalizing data' with
  | nil => exact h
  | cons hole holes ih =>
    rw [List.foldl_cons]
    refine ih ?_ fun hole' hhole' => hholes hole' (List.mem_cons_of_mem hole hhole')
    split
    · exact h.set (hholes hole (List.mem_cons_self ..)) _
    · exact h

theorem keeps_recoverGroup {index upper groupIndex : Nat}
    (h : codec.recoverGroup data parity index upper groupIndex m = some out) : Keeps data out := by
  have hrefl : Keeps data data := ⟨rfl, fun _ _ hi => hi⟩
  have hholes : ∀ hole ∈ holesOf data index upper, data[hole]? = some none :=
    fun hole hhole => (mem_holesOf.mp hhole).2.2
  unfold recoverGroup at h
  dsimp only at h
  split at h
  · rw [← Option.some.inj h]
    exact hrefl
  · split at h
    · rw [← Option.some.inj h]
      exact keeps_recoverXor
    · obtain ⟨coeffs, -, hout⟩ := Option.bind_eq_some_iff.mp h
      rw [← Option.some.inj hout]
      unfold recoverCauchy
      dsimp only
      split
      · exact hrefl
      · split
        · exact hrefl
        · exact keeps_foldl_holes _ _ hrefl hholes

theorem keeps_foldlM {f : List (Option (List UInt8)) → Nat → Option (List (Option (List UInt8)))}
    (hf : ∀ data n out, f data n = some out → Keeps data out) (groups : List Nat)
    (h : groups.foldlM f data = some out) : Keeps data out := by
  induction groups generalizing data with
  | nil =>
    cases h
    exact ⟨rfl, fun _ _ hi => hi⟩
  | cons n groups ih =>
    rw [List.foldlM_cons] at h
    obtain ⟨data', hstep, hrest⟩ := Option.bind_eq_some_iff.mp h
    have hfirst := hf data n data' hstep
    have hlater := ih hrest
    exact ⟨hlater.1.trans hfirst.1, fun i shard hi => hlater.2 i shard (hfirst.2 i shard hi)⟩

/-- Recovery overwrites nothing: whatever the parity shards hold, each data shard that
arrived comes back as it was, in its own place. -/
theorem recoverM_keeps {requested : Nat} (h : codec.recoverM data parity requested m = some out) :
    out.length = data.length ∧ ∀ (i : Nat) (shard : List UInt8), data[i]? = some (some shard) →
      out[i]? = some (some shard) :=
  keeps_foldlM (fun _ _ _ hgroup => keeps_recoverGroup hgroup) _ h

theorem recoverM_keeps_garbage : ∃ out, default.recoverM [some [1, 2], none] [some [9, 9, 9]] 2 1 = some out ∧
    out[0]? = some (some [1, 2]) := by
  obtain ⟨out, hout⟩ : ∃ out, default.recoverM [some [1, 2], none] [some [9, 9, 9]] 2 1 = some out := ⟨_, rfl⟩
  exact ⟨out, hout, (recoverM_keeps hout).2 0 [1, 2] rfl⟩

end Untrusted

end ReedSolomonFec

end SlopDesk.Video
