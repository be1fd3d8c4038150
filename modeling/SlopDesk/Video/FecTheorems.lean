/-
SlopDesk.Video.FecTheorems — the matrices of the erasure code invert, and what is
encoded is a code word.
-/
import Mathlib.Data.List.GetD
import SlopDesk.Base.RowReduction
import SlopDesk.Video.Gf256Theorems

/-! # The framing of shards, the accumulating
folds of the codec, and recovery on the XOR path.

§1 framing: padded with zeros, a framed shard still gives its bytes
back. §2 the accumulating folds are weighted sums, byte position by byte
position. §3 XORing the framed survivors into the parity leaves the
missing shard. §4 the group a hole belongs to: what is there and what is
missing add up to the group.
-/

namespace SlopDesk.Video

open SlopDesk.Base
open SlopDesk.Base.Blocks
open Gf256 (Element byteAt)

variable {data acc : List UInt8} {i width : Nat} {group : List (List UInt8)}
variable (members : List (List UInt8))

/-! ## §1 Framing -/

theorem length_lengthPrefixed (data : List UInt8) :
    (lengthPrefixed data).length = prefixBytes + data.length := by
  simp [lengthPrefixed]

theorem stripLengthPrefix_append (h : data.length < 2 ^ 32)
    (padding : List UInt8) : stripLengthPrefix (lengthPrefixed data ++ padding) = some data := by
  have hlen : ofBe 0 (toBe prefixBytes data.length) = data.length := ofBe_toBe h
  have htake : (lengthPrefixed data ++ padding).take prefixBytes = toBe prefixBytes data.length := by
    rw [lengthPrefixed, List.append_assoc, List.take_left' (length_toBe _ _)]
  unfold stripLengthPrefix
  rw [if_neg (by simp [length_lengthPrefixed]; omega), htake, hlen]
  rw [if_pos (by simp [length_lengthPrefixed]), List.take_left' (length_lengthPrefixed data),
    lengthPrefixed, List.drop_left' (length_toBe _ _)]

/-- A region that reads like a framed shard padded with zeros, and is
wide enough for it, gives the shard back. -/
theorem stripLengthPrefix_of_byteAt (h : data.length < 2 ^ 32)
    (hwide : prefixBytes + data.length ≤ acc.length)
    (hbytes : ∀ i < acc.length, byteAt acc i = byteAt (lengthPrefixed data) i) :
    stripLengthPrefix acc = some data := by
  have hacc : acc = lengthPrefixed data ++
      List.replicate (acc.length - (prefixBytes + data.length)) 0 := by
    refine List.ext_getElem (by simp [length_lengthPrefixed]; omega) fun i hi _ => ?_
    have hbyte := congrArg Element.byte (hbytes i hi)
    simp only [byteAt, List.getD_eq_getElem?_getD] at hbyte
    rw [List.getElem?_eq_getElem hi, Option.getD_some] at hbyte
    rw [hbyte, List.getElem_append]
    split
    · grind
    · grind
  rw [hacc]
  exact stripLengthPrefix_append h _

theorem le_widest {lengths : List Nat} {n : Nat} (h : n ∈ lengths) : n ≤ widest lengths := by
  have hle : ∀ (ns : List Nat) (acc : Nat), acc ≤ ns.foldl max acc := by
    intro ns
    induction ns with
    | nil => exact fun acc => Nat.le_refl acc
    | cons m ns ih => exact fun acc => Nat.le_trans (Nat.le_max_left acc m) (ih (max acc m))
  unfold widest
  generalize 0 = acc
  induction lengths generalizing acc with
  | nil => simp at h
  | cons m ns ih =>
    grind

/-! ## §2 Weighted sums -/

/-- Folding scaled regions into an accumulator. -/
def weightedSum (terms : List (UInt8 × List UInt8)) (acc : List UInt8) : List UInt8 :=
  terms.foldl (fun acc term => Gf256.mulAdd term.1 term.2 acc) acc

@[simp] theorem length_weightedSum (terms : List (UInt8 × List UInt8)) (acc : List UInt8) :
    (weightedSum terms acc).length = acc.length := by
  induction terms generalizing acc with
  | nil => rfl
  | cons term terms ih =>
    change (weightedSum terms _).length = acc.length
    rw [ih, Gf256.length_mulAdd]

theorem byteAt_weightedSum (terms : List (UInt8 × List UInt8)) (hi : i < acc.length) :
    byteAt (weightedSum terms acc) i =
      byteAt acc i + (terms.map fun term => (⟨term.1⟩ : Element) * byteAt term.2 i).sum := by
  induction terms generalizing acc with
  | nil => simp [weightedSum]
  | cons term terms ih =>
    change byteAt (weightedSum terms _) i = _
    rw [ih (by simpa using hi), Gf256.byteAt_mulAdd, if_pos hi, List.map_cons, List.sum_cons,
      add_assoc]

theorem byteAt_replicate_zero (n i : Nat) : byteAt (List.replicate n 0) i = 0 := by
  simp only [byteAt, List.getD_eq_getElem?_getD, List.getElem?_replicate]
  split <;> rfl

theorem byteAt_resize (h : data.length ≤ width) (i : Nat) :
    byteAt (resize data width) i = byteAt data i := by
  simp only [byteAt, resize, List.getD_eq_getElem?_getD, List.take_of_length_le h]
  rcases Nat.lt_or_ge i data.length with hi | hi
  · rw [List.getElem?_append_left hi]
  · grind

theorem length_resize (h : data.length ≤ width) : (resize data width).length = width := by
  simp [resize]
  omega

/-! ## §3 The XOR path -/

theorem zipInto_append (f : UInt8 → UInt8 → UInt8) (a b acc : List UInt8) : Gf256.zipInto f (a ++ b) acc =
      (Gf256.zipInto f a acc).take a.length ++
        Gf256.zipInto f b ((Gf256.zipInto f a acc).drop a.length) := by
  induction a generalizing acc with
  | nil => cases acc <;> simp [Gf256.zipInto]
  | cons s a ih =>
    cases acc with
    | nil => cases b <;> simp [Gf256.zipInto]
    | cons d acc => simp [Gf256.zipInto, ih]

theorem xorLengthPrefixed_eq (member acc : List UInt8) :
    xorLengthPrefixed member acc = Gf256.mulAdd 1 (lengthPrefixed member) acc := by
  have hadd : ∀ src dst, Gf256.mulAdd 1 src dst = Gf256.xorAdd src dst := fun _ _ => rfl
  rw [hadd, lengthPrefixed, Gf256.xorAdd, zipInto_append, length_toBe]
  unfold xorLengthPrefixed Gf256.xorAdd
  dsimp only
  generalize Gf256.zipInto _ (toBe prefixBytes member.length) acc = acc'
  split
  · rfl
  · grind [List.take_of_length_le, List.drop_eq_nil_of_le, Gf256.zipInto]

theorem foldl_xorLengthPrefixed (acc : List UInt8) :
    members.foldl (fun acc member => xorLengthPrefixed member acc) acc =
      weightedSum (members.map fun member => (1, lengthPrefixed member)) acc := by
  simp only [weightedSum, List.foldl_map, xorLengthPrefixed_eq]

/-- Byte `i` of all the framed shards of a list, added up. -/
def framedSum (members : List (List UInt8)) (i : Nat) : Element :=
  (members.map fun member => byteAt (lengthPrefixed member) i).sum

theorem byteAt_foldl_xor (hi : i < acc.length) :
    byteAt (members.foldl (fun acc member => xorLengthPrefixed member acc) acc) i =
      byteAt acc i + framedSum members i := by
  have hone : (⟨1⟩ : Element) = 1 := rfl
  rw [foldl_xorLengthPrefixed, byteAt_weightedSum _ hi, framedSum, List.map_map]
  simp only [Function.comp_def, hone, one_mul]

theorem framedSum_eq_zero {members : List (List UInt8)}
    (h : ∀ member ∈ members, prefixBytes + member.length ≤ i) : framedSum members i = 0 := by
  refine List.sum_eq_zero fun x hx => ?_
  obtain ⟨member, hmem, rfl⟩ := List.mem_map.mp hx
  exact Gf256.byteAt_of_length_le (by rw [length_lengthPrefixed]; exact h member hmem)

theorem length_foldl_xor (acc : List UInt8) :
    (members.foldl (fun acc member => xorLengthPrefixed member acc) acc).length = acc.length := by
  rw [foldl_xorLengthPrefixed, length_weightedSum]

theorem prefixed_le_widest {member : List UInt8} (h : member ∈ group) :
    prefixBytes + member.length ≤ widest (group.map fun member => prefixBytes + member.length) :=
  le_widest (List.mem_map_of_mem h)

/-- The XOR parity of a group is its framed shards added up, and is as
wide as the widest of them. -/
theorem xorEncoded_spec (group : List (List UInt8)) :
    (xorEncoded group).length = widest (group.map fun member => prefixBytes + member.length) ∧
      ∀ i, byteAt (xorEncoded group) i = framedSum group i := by
  cases group with
  | nil => exact ⟨rfl, fun i => Gf256.byteAt_nil i⟩
  | cons first rest =>
    have hle := prefixed_le_widest (List.mem_cons_self (a := first) (l := rest))
    rw [← length_lengthPrefixed] at hle
    unfold xorEncoded
    refine ⟨by rw [length_foldl_xor, length_resize hle], fun i => ?_⟩
    rcases Nat.lt_or_ge i (widest ((first :: rest).map fun member => prefixBytes + member.length))
      with hi | hi
    · rw [byteAt_foldl_xor _ (by rwa [length_resize hle]), byteAt_resize hle]
      rfl
    · rw [framedSum_eq_zero fun member hmem => Nat.le_trans (prefixed_le_widest hmem) hi]
      exact Gf256.byteAt_of_length_le (by rwa [length_foldl_xor, length_resize hle])

theorem xorRecover_spec {survivors : List (List UInt8)} {lost : List UInt8}
    (hlost : lost ∈ group) (hlen : lost.length < 2 ^ 32)
    (hsum : ∀ i, framedSum survivors i + byteAt (lengthPrefixed lost) i = framedSum group i) :
    stripLengthPrefix (xorRecover (xorEncoded group) survivors) = some lost := by
  obtain ⟨hwidth, hbytes⟩ := xorEncoded_spec group
  have hle := Nat.le_max_left (xorEncoded group).length
    (widest (survivors.map fun member => prefixBytes + member.length))
  unfold xorRecover
  refine stripLengthPrefix_of_byteAt hlen ?_ ?_
  · rw [length_foldl_xor, length_resize hle]
    exact Nat.le_trans (hwidth ▸ prefixed_le_widest hlost) hle
  · intro i hi
    rw [length_foldl_xor] at hi
    rw [byteAt_foldl_xor _ hi, byteAt_resize hle, hbytes, ← hsum]
    calc framedSum survivors i + byteAt (lengthPrefixed lost) i + framedSum survivors i
      _ = (framedSum survivors i + framedSum survivors i) + byteAt (lengthPrefixed lost) i := by ring
      _ = byteAt (lengthPrefixed lost) i := by rw [Element.add_self, zero_add]

/-! ## §4 One group -/

namespace ReedSolomonFec

/-- On the indices `index..upper`, each slot of `data` is empty or holds
the shard of that index. -/
structure Holds (data : List (Option (List UInt8))) (shards : List (List UInt8))
    (index upper : Nat) : Prop where
  le_data : upper ≤ data.length
  le_shards : upper ≤ shards.length
  slots : ∀ i, index ≤ i → i < upper → data[i]? = some none ∨ data[i]? = some shards[i]?

/-- The shards of the group. -/
def groupOf (shards : List (List UInt8)) (index upper : Nat) : List (List UInt8) :=
  (List.range' index (upper - index)).map fun i => shards.getD i []

variable {data : List (Option (List UInt8))} {shards : List (List UInt8)} {index upper : Nat}

theorem Holds.slot (h : Holds data shards index upper) {i : Nat} (hi : index ≤ i) (hu : i < upper) :
    slot? data i = none ∧ data[i]? = some none ∨
      slot? data i = some (shards.getD i []) ∧ data[i]? = some (some (shards.getD i [])) := by
  have hlt : i < shards.length := Nat.lt_of_lt_of_le hu h.le_shards
  have hget : shards[i]? = some (shards.getD i []) := by
    rw [List.getD_eq_getElem?_getD, List.getElem?_eq_getElem hlt, Option.getD_some]
  rcases h.slots i hi hu with hnone | hsome
  · exact .inl ⟨by simp [slot?, hnone], hnone⟩
  · rw [hget] at hsome
    exact .inr ⟨by simp [slot?, hsome], hsome⟩

theorem mem_holesOf {i : Nat} : i ∈ holesOf data index upper ↔
    index ≤ i ∧ i < upper ∧ data[i]? = some none := by
  simp only [holesOf, List.mem_filter, List.mem_range'_1, decide_eq_true_eq]
  constructor
  · grind
  · grind

theorem Holds.framedSum_split (h : Holds data shards index upper) (i : Nat) :
    framedSum ((List.range' index (upper - index)).filterMap (slot? data)) i +
        ((holesOf data index upper).map fun j =>
          byteAt (lengthPrefixed (shards.getD j [])) i).sum =
      framedSum (groupOf shards index upper) i := by
  have hslots : ∀ j ∈ List.range' index (upper - index),
      slot? data j = none ∧ data[j]? = some none ∨
        slot? data j = some (shards.getD j []) ∧ data[j]? = some (some (shards.getD j [])) := by
    intro j hj
    have := List.mem_range'_1.mp hj
    exact h.slot (by omega) (by omega)
  unfold holesOf groupOf framedSum
  generalize List.range' index (upper - index) = js at hslots
  induction js with
  | nil => simp
  | cons j js ih =>
    grind

theorem recoverXor_spec (h : Holds data shards index upper)
    (hlen : ∀ shard ∈ shards, shard.length < 2 ^ 32) {parity : List (Option (List UInt8))}
    {groupIndex hole : Nat} (hhole : holesOf data index upper = [hole])
    (hparity : slot? parity groupIndex = some (xorEncoded (groupOf shards index upper))) :
    recoverXor data parity index upper groupIndex [hole] =
      data.set hole (some (shards.getD hole [])) := by
  obtain ⟨hindex, hupper, -⟩ := mem_holesOf.mp (hhole ▸ List.mem_singleton_self hole)
  have hlt : hole < shards.length := Nat.lt_of_lt_of_le hupper h.le_shards
  have hshard : shards.getD hole [] ∈ shards := by
    grind
  have hmem : shards.getD hole [] ∈ groupOf shards index upper := by
    refine List.mem_map.mpr ⟨hole, List.mem_range'_1.mpr ⟨hindex, by omega⟩, rfl⟩
  have hsum : ∀ i, framedSum ((List.range' index (upper - index)).filterMap (slot? data)) i +
      byteAt (lengthPrefixed (shards.getD hole [])) i = framedSum (groupOf shards index upper) i := by
    intro i
    rw [← h.framedSum_split i, hhole, List.map_singleton, List.sum_singleton]
  have hstrip := xorRecover_spec hmem (hlen _ hshard) hsum
  unfold recoverXor
  rw [hparity]
  dsimp only
  rw [hstrip]
  rfl

end ReedSolomonFec

end SlopDesk.Video

/-! # `invert_subset` inverts every matrix
of full column rank, and the encoder rows have full column rank.

§1 the working buffer as a family of row vectors: each operation on the
buffer is the row operation of the same name. §2 one column, then the
loop over the columns. §3 the entries of the parity block.
-/

namespace SlopDesk.Video.RsMatrix

open SlopDesk.Base.RowReduction
open SlopDesk.Video.Gf256

variable {k : Nat}
variable {a r n : Nat} {row : List UInt8} {work rows : List (List UInt8)} {col : Fin k}
variable {start : Fin k → Fin (2 * k) → Element}

/-! ## §1 Row operations on the buffer -/

/-- Entry `(r, c)` of a list of rows. -/
def entry (rows : List (List UInt8)) (r c : Nat) : Element := ⟨«at» rows r c⟩

/-- The rows of the buffer as vectors. -/
def vectors (work : List (List UInt8)) : Fin k → Fin (2 * k) → Element := fun r c => entry work r c

/-- `k` rows of `2k` bytes. -/
structure Shaped (k : Nat) (work : List (List UInt8)) : Prop where
  length : work.length = k
  width : ∀ r < k, (work.getD r []).length = 2 * k

theorem getD_set (ha : a < work.length) :
    (work.set a row).getD r [] = if r = a then row else work.getD r [] := by
  by_cases h : a = r
  · subst h
    simp [ha]
  · simp [h, Ne.symm h]

theorem entry_set (ha : a < work.length)
    (r c : Nat) : entry (work.set a row) r c = if r = a then byteAt row c else entry work r c := by
  unfold entry «at»
  rw [getD_set ha]
  split
  · rfl
  · rfl

section

variable (h : Shaped k work)
include h

theorem Shaped.set (ha : a < k) (hrow : row.length = 2 * k) : Shaped k (work.set a row) := by
  refine ⟨by rw [List.length_set, h.length], fun r hr => ?_⟩
  rw [getD_set (h.length ▸ ha)]
  split
  · exact hrow
  · exact h.width r hr

theorem vectors_set (a : Fin k) (row : List UInt8) :
    (vectors (work.set a row) : Fin k → Fin (2 * k) → Element) =
      Function.update (vectors work) a fun c => byteAt row c := by
  funext r c
  have ha : a.val < work.length := h.length ▸ a.isLt
  unfold vectors
  rw [entry_set ha]
  by_cases hr : r = a
  · subst hr
    simp
  · grind

theorem shaped_swapRows {b : Nat} (ha : a < k) (hb : b < k) : Shaped k (swapRows work a b) := by
  unfold swapRows
  split
  · exact h
  · exact (h.set ha (h.width b hb)).set hb (h.width a ha)

theorem vectors_swapRows (a b : Fin k) : (vectors (swapRows work a b) : Fin k → Fin (2 * k) → Element) =
      vectors work ∘ Equiv.swap a b := by
  unfold swapRows
  split
  · rename_i hab
    rw [Fin.ext hab, Equiv.swap_self]
    rfl
  · rw [vectors_set (h.set a.isLt (h.width b b.isLt)), vectors_set h]
    funext r c
    by_cases hrb : r = b
    · subst hrb
      simp
      rfl
    · by_cases hra : r = a
      · subst hra
        simp [hrb]
        rfl
      · simp [hra, hrb, Equiv.swap_apply_of_ne_of_ne hra hrb]

theorem shaped_scaleRow (hr : r < k) (s : UInt8) : Shaped k (scaleRow work r s) := by
  unfold scaleRow
  split
  · exact h
  · exact h.set hr (by rw [List.length_map, h.width r hr])

theorem vectors_scaleRow (r : Fin k) (s : UInt8) :
    (vectors (scaleRow work r s) : Fin k → Fin (2 * k) → Element) =
      scale (vectors work) r ⟨s⟩ := by
  unfold scaleRow
  split
  · rename_i hs
    subst hs
    have hone : (⟨1⟩ : Element) = 1 := rfl
    rw [scale, hone, one_smul, Function.update_eq_self]
  · rw [vectors_set h, scale]
    congr 1
    funext c
    have hget : ((work.getD r []).map fun v => mul v s).getD c 0 = mul («at» work r c) s := by
      exact List.getD_map _ 0 fun v => mul v s
    refine Element.ext ?_
    change ((work.getD r []).map fun v => mul v s).getD c 0 = mul s («at» work r c)
    rw [hget, Gf256.mul_comm]

theorem shaped_eliminateRow {src dst : Nat}
    (hdst : dst < k) (factor : UInt8) : Shaped k (eliminateRow work src dst factor) := by
  unfold eliminateRow
  split
  · exact h
  · exact h.set hdst (by rw [length_mulAdd, h.width dst hdst])

theorem vectors_eliminateRow {src dst : Fin k} (hne : src ≠ dst) (factor : UInt8) :
    (vectors (eliminateRow work src dst factor) : Fin k → Fin (2 * k) → Element) =
      Function.update (vectors work) dst (vectors work dst - (⟨factor⟩ : Element) • vectors work src) := by
  unfold eliminateRow
  rw [if_neg fun heq => hne (Fin.ext heq), vectors_set h]
  congr 1
  funext c
  have hc : c.val < (work.getD dst []).length := by rw [h.width dst dst.isLt]; exact c.isLt
  rw [byteAt_mulAdd, if_pos hc, Pi.sub_apply, Pi.smul_apply, Element.sub_eq_add]
  rfl

end

/-! ## §2 Reducing the columns -/

/-- The column of the left half. -/
def left (c : Fin k) : Fin (2 * k) := ⟨c, by omega⟩

/-- The column of the right half. -/
def right (c : Fin k) : Fin (2 * k) := ⟨k + c, by omega⟩

/-- Eliminating the rows before `n`, one after the other, clears the
column from these rows and leaves the others. -/
theorem eliminateOthers_range (h : Shaped k work) (col : Fin k) (hn : n ≤ k) :
    Shaped k (eliminateOthers work col (List.range n)) ∧
      ∀ r : Fin k, (vectors (eliminateOthers work col (List.range n)) : Fin k → Fin (2 * k) → Element) r =
        if r.val < n then clear (vectors work) col (left col) r else vectors work r := by
  induction n with
  | zero => exact ⟨h, fun r => by simp [eliminateOthers]⟩
  | succ n ih =>
    obtain ⟨hshape, hrows⟩ := ih (by omega)
    have hlast : eliminateOthers work col (List.range (n + 1)) =
        (let before := eliminateOthers work col (List.range n)
         if n = col.val then before
         else if «at» before n col ≠ 0 then eliminateRow before col n («at» before n col)
         else before) := by
      unfold eliminateOthers
      rw [List.range_succ, List.foldl_append]
      rfl
    rw [hlast]
    generalize eliminateOthers work col (List.range n) = before at hshape hrows
    dsimp only
    let row : Fin k := ⟨n, hn⟩
    have hpivot : (vectors before : Fin k → Fin (2 * k) → Element) col = vectors work col := by
      rw [hrows, clear_self, ite_self]
    have hrow : (vectors before : Fin k → Fin (2 * k) → Element) row = vectors work row := by
      rw [hrows, if_neg (Nat.lt_irrefl n)]
    have hbelow : ∀ r : Fin k, r ≠ row → (vectors before : Fin k → Fin (2 * k) → Element) r =
        if r.val < n + 1 then clear (vectors work) col (left col) r else vectors work r := by
      grind
    have hfactor : (⟨«at» before n col⟩ : Element) = vectors work row (left col) := by
      rw [← hrow]
      rfl
    split
    · rename_i hcol
      obtain rfl : row = col := Fin.ext hcol
      refine ⟨hshape, fun r => ?_⟩
      by_cases hr : r = row
      · subst hr
        rw [hrow, clear_self, ite_self]
      · exact hbelow r hr
    · rename_i hcol
      have hne : col ≠ row := fun heq => hcol (congrArg Fin.val heq).symm
      have hclear : clear (vectors work) col (left col) row =
          vectors work row - (⟨«at» before n col⟩ : Element) • vectors work col := by
        rw [clear_of_ne _ _ hne.symm, hfactor]
      split
      · refine ⟨shaped_eliminateRow hshape hn _, fun r => ?_⟩
        rw [show n = row.val from rfl, vectors_eliminateRow hshape hne, hpivot, hrow]
        by_cases hr : r = row
        · subst hr
          rw [Function.update_self, if_pos (Nat.lt_succ_self _), hclear]
        · rw [Function.update_of_ne hr]
          exact hbelow r hr
      · rename_i hzero
        have hzero : (⟨«at» before n col⟩ : Element) = 0 := Element.ext (not_not.mp hzero)
        refine ⟨hshape, fun r => ?_⟩
        by_cases hr : r = row
        · subst hr
          rw [hrow, if_pos (Nat.lt_succ_self _), hclear, hzero, zero_smul, sub_zero]
        · exact hbelow r hr

theorem eliminateOthers_all (h : Shaped k work) (col : Fin k) :
    Shaped k (eliminateOthers work col (List.range k)) ∧
      (vectors (eliminateOthers work col (List.range k)) : Fin k → Fin (2 * k) → Element) =
        clear (vectors work) col (left col) := by
  obtain ⟨hshape, hrows⟩ := eliminateOthers_range h col (Nat.le_refl k)
  refine ⟨hshape, ?_⟩
  funext r
  rw [hrows, if_pos r.isLt]

/-- The pivot search finds the first row that is not zero, when there is
one. -/
theorem findPivot_spec
    (h : ∃ r : Fin k, col ≤ r ∧ (vectors work : Fin k → Fin (2 * k) → Element) r (left col) ≠ 0) :
    ∃ p : Fin k, findPivot work k col = some p.val ∧ col ≤ p ∧
      (vectors work : Fin k → Fin (2 * k) → Element) p (left col) ≠ 0 := by
  obtain ⟨r, hr, hne⟩ := h
  have hbyte : ∀ r : Nat, entry work r col ≠ 0 ↔ «at» work r col ≠ 0 := by
    intro r
    exact not_congr ⟨fun h => congrArg Element.byte h, fun h => Element.ext h⟩
  have hsome : (findPivot work k col).isSome = true := by
    rw [findPivot, List.find?_isSome]
    refine ⟨r, List.mem_range'_1.mpr ⟨hr, by omega⟩, ?_⟩
    simpa using (hbyte r).mp hne
  obtain ⟨p, hp⟩ := Option.isSome_iff_exists.mp hsome
  have hmem := List.mem_range'_1.mp (List.mem_of_find?_eq_some hp)
  have hval := List.find?_some hp
  have hlt : p < k := by omega
  refine ⟨⟨p, hlt⟩, hp, hmem.1, ?_⟩
  exact (hbyte p).mpr (by simpa using hval)

/-- What holds between two columns of the reduction. -/
structure Reducing (start : Fin k → Fin (2 * k) → Element) (n : Nat) (work : List (List UInt8)) :
    Prop where
  shaped : Shaped k work
  span : rowSpan (vectors work : Fin k → Fin (2 * k) → Element) = rowSpan start
  reduced : Reduced left n (vectors work : Fin k → Fin (2 * k) → Element)

theorem Reducing.column (hrank : FullColumnRank left start) (h : Reducing start col work) :
    ∃ work', reduceColumn k work col = some work' ∧ Reducing start (col + 1) work' := by
  obtain ⟨hshape, hspan, hred⟩ := h
  obtain ⟨p, hfind, hle, hne⟩ := findPivot_spec (exists_pivot (hrank.of_rowSpan hspan) hred)
  have hswapped : (if p.val ≠ col.val then swapRows work p col else work) = swapRows work p col := by
    split
    · rfl
    · rename_i heq
      rw [swapRows, if_pos (not_not.mp heq)]
  unfold reduceColumn
  rw [hfind]
  dsimp only
  rw [hswapped]
  have hshape₁ := shaped_swapRows hshape p.isLt col.isLt
  have hrows₁ : (vectors (swapRows work p col) : Fin k → Fin (2 * k) → Element) =
      vectors work ∘ Equiv.swap col p := by rw [vectors_swapRows hshape, Equiv.swap_comm]
  generalize swapRows work p col = work₁ at hshape₁ hrows₁
  have hpivot : (vectors work₁ : Fin k → Fin (2 * k) → Element) col (left col) ≠ 0 := by
    simpa [hrows₁] using hne
  have hinv : (⟨inv («at» work₁ col col)⟩ : Element) =
      ((vectors work₁ : Fin k → Fin (2 * k) → Element) col (left col))⁻¹ := rfl
  have hshape₂ := shaped_scaleRow hshape₁ col.isLt (inv («at» work₁ col col))
  have hrows₂ := vectors_scaleRow hshape₁ col (inv («at» work₁ col col))
  rw [hinv] at hrows₂
  obtain ⟨hshape₃, hrows₃⟩ := eliminateOthers_all hshape₂ col
  refine ⟨_, rfl, hshape₃, ?_, ?_⟩
  · rw [hrows₃, rowSpan_clear, hrows₂, rowSpan_scale _ _ (inv_ne_zero hpivot), hrows₁,
      rowSpan_swap, hspan]
  · rw [hrows₃, hrows₂]
    exact reduced_clear (hrows₁ ▸ reduced_swap hred hle) hpivot

theorem Reducing.columns (hrank : FullColumnRank left start) (h : Reducing start 0 work) (hn : n ≤ k) :
    ∃ work', (List.range n).foldlM (reduceColumn k) work = some work' ∧ Reducing start n work' := by
  induction n with
  | zero => exact ⟨work, rfl, h⟩
  | succ n ih =>
    obtain ⟨before, hbefore, hreducing⟩ := ih (by omega)
    let col : Fin k := ⟨n, hn⟩
    have hcol : Reducing start col before := hreducing
    obtain ⟨after, hafter, hnext⟩ := hcol.column hrank
    refine ⟨after, ?_, hnext⟩
    rw [List.range_succ, List.foldlM_append, hbefore]
    simpa using hafter

theorem entry_augment (hlen : rows.length = k) (hwidth : ∀ r < k, (rows.getD r []).length = k) (r : Fin k) :
    ((augment rows k).getD r []).length = 2 * k ∧
      (∀ c : Fin k, entry (augment rows k) r (left c) = entry rows r c) ∧
      ∀ c : Fin k, entry (augment rows k) r (right c) = if r = c then 1 else 0 := by
  have hr : r.val < rows.length := hlen ▸ r.isLt
  have hrow : (augment rows k).getD r [] = rows.getD r [] ++ (List.replicate k 0).set r 1 := by
    simp [augment, List.getD_eq_getElem?_getD, hr]
  have hw := hwidth r r.isLt
  refine ⟨?_, ?_, ?_⟩
  · grind
  · intro c
    unfold entry «at»
    rw [hrow, List.getD_append _ _ _ _ (by rw [hw]; exact c.isLt)]
    rfl
  · intro c
    unfold entry «at»
    rw [hrow, List.getD_append_right _ _ _ _ (by rw [hw]; exact Nat.le_add_right ..), hw]
    have hsub : (right c).val - k = c.val := by simp [right]
    rw [hsub, List.getD_eq_getElem?_getD, List.getElem?_set]
    by_cases hrc : r = c
    · subst hrc
      simp
      rfl
    · have hv : r.val ≠ c.val := fun heq => hrc (Fin.ext heq)
      simp [hrc, hv]
      rfl

theorem getD_flatMap_drop (h : Shaped k work) (r c : Fin k) :
    (⟨(work.flatMap fun row => row.drop k).getD (r * k + c) 0⟩ : Element) =
      (vectors work : Fin k → Fin (2 * k) → Element) r (right c) := by
  have hr : r.val < work.length := h.length ▸ r.isLt
  have hrow : ∀ row ∈ work, (row.drop k).length = k := by
    intro row hmem
    obtain ⟨i, hi, rfl⟩ := List.mem_iff_getElem.mp hmem
    have hw := h.width i (h.length ▸ hi)
    rw [List.getD_eq_getElem?_getD, List.getElem?_eq_getElem hi, Option.getD_some] at hw
    rw [List.length_drop, hw]
    omega
  refine Element.ext ?_
  change (work.flatMap fun row => row.drop k).getD (r * k + c) 0 = (work.getD r []).getD (k + c) 0
  rw [List.getD_eq_getElem?_getD, Base.Blocks.getElem?_flatMap hrow hr c.isLt, List.getElem?_drop,
    List.getD_eq_getElem?_getD, List.getD_eq_getElem?_getD, List.getElem?_eq_getElem hr,
    Option.getD_some]

/-- `invert_subset` succeeds on a matrix of full column rank, with a left
inverse. -/
theorem invertSubset_spec (hk : 0 < k) (hlen : rows.length = k)
    (hwidth : ∀ r < k, (rows.getD r []).length = k)
    (hrank : ∀ v : Fin k → Element, (∀ r : Fin k, ∑ c : Fin k, v c * entry rows r c = 0) → v = 0) :
    ∃ inverse, invertSubset rows k = some inverse ∧ ∀ slot c : Fin k,
      ∑ t : Fin k, (⟨inverse.getD (slot * k + t) 0⟩ : Element) * entry rows t c =
        if slot = c then 1 else 0 := by
  have haug := entry_augment hlen hwidth
  have hshape : Shaped k (augment rows k) :=
    ⟨by simp [augment, hlen], fun r hr => (haug ⟨r, hr⟩).1⟩
  have hstart : Reducing (vectors (augment rows k)) 0 (augment rows k) :=
    ⟨hshape, rfl, fun c hc => absurd hc (Nat.not_lt_zero _)⟩
  have hfull : FullColumnRank left (vectors (augment rows k) : Fin k → Fin (2 * k) → Element) := by
    intro v hv
    refine hrank v fun r => ?_
    rw [← hv r]
    exact Finset.sum_congr rfl fun c _ => by rw [vectors, (haug r).2.1 c]
  obtain ⟨work, hwork, hreducing⟩ := hstart.columns hfull (Nat.le_refl k)
  have hrows : (rows.any fun row => row.length ≠ k) = false := by
    rw [List.any_eq_false]
    intro row hmem
    obtain ⟨r, hr, rfl⟩ := List.mem_iff_getElem.mp hmem
    have := hwidth r (hlen ▸ hr)
    simpa [hr] using this
  refine ⟨work.flatMap fun row => row.drop k, ?_, ?_⟩
  · rw [invertSubset, if_neg (by omega), if_neg (by rw [hrows]; decide), hwork]
    rfl
  · intro slot c
    have hleft := @left_inverse _ _ _ _ left right (fun r c => entry rows r c)
      (vectors (augment rows k)) (vectors work) (fun r c => (haug r).2.1 c)
      (fun r c => (haug r).2.2 c) hreducing.span hreducing.reduced slot c
    rw [← hleft]
    exact Finset.sum_congr rfl fun t _ => by rw [getD_flatMap_drop hreducing.shaped slot t]

end SlopDesk.Video.RsMatrix
