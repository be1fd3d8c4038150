/-
SlopDesk.Video.Bursts — which bursts of losses the send order spreads.

With one parity shard a group, the send order walks the groups in turn:
one shard of each group, then one more of each. A burst no longer than the
number of groups then hits each group at most once, and the decoder fills
every hole. That needs every turn to visit every group. A last group with
fewer members than the others leaves the turns past its end one group
short, and the burst from the start of such a turn hits the first group
twice.

§1 cycles through `0 … c - 1`, and what a window of one meets. §2 the send
order written out. §3 the groups it visits. §4 the bursts.
-/
import SlopDesk.Video.PacketizerTheorems

namespace SlopDesk.Video

open SlopDesk.Base.Blocks

variable {g n : Nat}

/-! ## §1 Cycles -/

theorem cycle_eq (turns c : Nat) :
    (List.replicate turns (List.range c)).flatten = (List.range (turns * c)).map (· % c) := by
  induction turns with
  | zero => simp
  | succ turns ih =>
    have hlast : (List.range c).map ((· % c) ∘ (turns * c + ·)) = List.range c := by
      refine (List.map_congr_left fun i hi => ?_).trans (List.map_id _)
      have hlt := List.mem_range.mp hi
      simp [Nat.mul_comm turns c, Nat.mod_eq_of_lt hlt]
    rw [List.replicate_succ', List.flatten_append, ih, Nat.succ_mul, List.range_add, List.map_append,
      List.map_map, hlast]
    simp

theorem nodup_window (turns c start : Nat) {len : Nat} (h : len ≤ c) :
    ((((List.replicate turns (List.range c)).flatten).drop start).take len).Nodup := by
  have hdistinct : ∀ a b : Nat, a < b → b < a + c → a % c ≠ b % c := by
    intro a b hlt hnear heq
    have hdvd := (Nat.modEq_iff_dvd' (Nat.le_of_lt hlt)).mp heq
    exact absurd (Nat.le_of_dvd (by omega) hdvd) (by omega)
  have hwindow : ((List.range (turns * c)).drop start).take len =
      List.range' start (min len (turns * c - start)) := by
    refine List.ext_getElem (by simp) fun i _ _ => ?_
    simp
  rw [cycle_eq, ← List.map_drop, ← List.map_take, hwindow]
  refine List.pairwise_map.mpr (List.Pairwise.imp_of_mem (fun {a b} ha hb hlt => ?_) List.pairwise_lt_range')
  simp only [List.mem_range'_1] at ha hb
  exact hdistinct a b hlt (by omega)

/-! ## §2 The send order -/

section Order

variable {α : Type*}

theorem foldl_takeSlot_eq {indices : List Nat} (h : indices.Nodup) (slots : List (Option α))
    (ordered : List α) : (indices.foldl takeSlot (slots, ordered)).2 =
      ordered ++ indices.filterMap fun i => (slots[i]?).join := by
  induction indices generalizing slots ordered with
  | nil => simp
  | cons i indices ih =>
    obtain ⟨hfirst, hrest⟩ := List.nodup_cons.mp h
    rw [List.foldl_cons]
    cases hslot : slots[i]? with
    | none =>
      have hstay : takeSlot (slots, ordered) i = (slots, ordered) := by simp [takeSlot, hslot]
      rw [hstay, ih hrest]
      simp [hslot]
    | some slot =>
      cases slot with
      | none =>
        have hstay : takeSlot (slots, ordered) i = (slots, ordered) := by simp [takeSlot, hslot]
        rw [hstay, ih hrest]
        simp [hslot]
      | some item =>
        have htaken : takeSlot (slots, ordered) i = (slots.set i none, ordered ++ [item]) := by
          simp [takeSlot, hslot]
        -- the other visits do not meet the emptied slot
        have hothers : (indices.filterMap fun j => ((slots.set i none)[j]?).join) =
            indices.filterMap fun j => (slots[j]?).join := by
          refine List.filterMap_congr fun j hj => ?_
          have hne : i ≠ j := fun heq => hfirst (heq ▸ hj)
          rw [List.getElem?_set_ne hne]
        rw [htaken, ih hrest, hothers]
        simp [hslot]

theorem nodup_columnMajor (stride numGroups : Nat) : (columnMajor stride numGroups).Nodup := by
  refine List.nodup_flatMap.mpr ⟨fun rank hrank => ?_, ?_⟩
  · have hpos : 0 < stride := Nat.zero_lt_of_lt (List.mem_range.mp hrank)
    refine List.nodup_range.map_on fun q _ q' _ heq => ?_
    exact Nat.eq_of_mul_eq_mul_right hpos (Nat.add_right_cancel heq)
  · refine List.pairwise_lt_range.imp_of_mem fun {rank rank'} hrank hrank' hlt => ?_
    intro index hindex hindex'
    obtain ⟨q, -, rfl⟩ := List.mem_map.mp hindex
    obtain ⟨q', -, heq⟩ := List.mem_map.mp hindex'
    have hmod := congrArg (· % stride) heq
    simp only [Nat.mul_add_mod_self_right, Nat.mod_eq_of_lt (List.mem_range.mp hrank),
      Nat.mod_eq_of_lt (List.mem_range.mp hrank')] at hmod
    omega

theorem columnMajor_one (numGroups : Nat) : columnMajor 1 numGroups = List.range numGroups := by
  simp [columnMajor]

theorem join_getElem?_map_some (items : List α) (i : Nat) : ((items.map some)[i]?).join = items[i]? := by
  rw [List.getElem?_map]
  cases items[i]? <;> rfl

theorem filterMap_range' (items : List α) (start len : Nat) :
    (List.range' start len).filterMap (items[·]?) = (items.drop start).take len := by
  induction len generalizing start with
  | zero => simp
  | succ len ih =>
    rw [List.range'_succ, List.filterMap_cons, ih]
    cases hitem : items[start]? with
    | none =>
      grind [List.drop_eq_nil_of_le]
    | some item =>
      grind [List.drop_eq_getElem_cons, List.take_succ_cons]

theorem interleave_through {items : List α} {n g : Nat} (h : g ≤ 1 ∨ n ≤ g) : interleave items n g = items := by
  unfold interleave
  split
  · rfl
  · rw [if_pos (by omega)]

/-- Several groups with one parity shard each: the data a rank at a time,
then the parity. -/
theorem interleave_eq {items : List α} {n g : Nat} (hg : 1 < g) (hn : g < n)
    (hlen : items.length = n + blockCount n g) : interleave items n g =
      ((columnMajor g (blockCount n g)).filterMap fun i => (items.take n)[i]?) ++ items.drop n := by
  have hpos : 0 < blockCount n g := (lt_blockCount (by omega)).mpr (by omega)
  have hrest : (items.drop n).length = blockCount n g := by
    rw [List.length_drop]
    omega
  unfold interleave
  rw [if_neg (by omega)]
  dsimp only
  rw [Nat.min_eq_left (by omega), if_neg (by omega), List.length_map, hrest, Nat.div_self hpos]
  -- every parity slot is visited, so nothing is left to sweep up
  have hswept : ∀ ordered : List α,
      (takeColumnMajor ((items.drop n).map some) 1 (blockCount n g) ordered).1.filterMap id = [] := by
    intro ordered
    refine List.filterMap_eq_nil_iff.mpr fun slot hslot => ?_
    obtain ⟨j, hj⟩ := List.mem_iff_getElem?.mp hslot
    have hjoin : ((takeColumnMajor ((items.drop n).map some) 1 (blockCount n g) ordered).1[j]?).join =
        none := by
      refine foldl_takeSlot_empty ?_
      rw [columnMajor_one, List.mem_range, join_getElem?_map_some, ← hrest]
      exact (Nat.lt_or_ge j _).imp_right List.getElem?_eq_none
    rw [hj] at hjoin
    simpa using hjoin
  rw [hswept, List.append_nil, takeColumnMajor, foldl_takeSlot_eq (nodup_columnMajor ..), takeColumnMajor,
    foldl_takeSlot_eq (nodup_columnMajor ..), List.nil_append, columnMajor_one]
  simp only [join_getElem?_map_some]
  rw [List.range_eq_range', filterMap_range', List.drop_zero, ← hrest, List.take_length]

end Order

/-- The positions of a frame's datagrams in the order they are sent: `n`
data, then one parity shard for each group of `g`. -/
def sendOrder (n g : Nat) : List Nat := interleave (List.range (n + blockCount n (max g 1))) n g

theorem sendOrder_through (h : g ≤ 1 ∨ n ≤ g) :
    sendOrder n g = List.range (n + blockCount n (max g 1)) := interleave_through h

theorem sendOrder_eq (hg : 1 < g) (hn : g < n) :
    sendOrder n g = (columnMajor g (blockCount n g)).filter (· < n) ++ List.range' n (blockCount n g) := by
  have hmax : max g 1 = g := by omega
  rw [sendOrder, hmax, interleave_eq hg hn (by simp)]
  have hdrop : (List.range (n + blockCount n g)).drop n = List.range' n (blockCount n g) := by
    rw [List.range_eq_range', List.drop_range']
    simp
  congr 1
  rw [← List.filterMap_eq_filter]
  refine List.filterMap_congr fun i _ => ?_
  by_cases hi : i < n <;> simp [Option.guard, hi]

theorem interleave_sendOrder {α : Type*} {items : List α} (hlen : items.length = n + blockCount n (max g 1)) :
    interleave items n g = (sendOrder n g).filterMap (items[·]?) := by
  by_cases hthrough : g ≤ 1 ∨ n ≤ g
  · rw [interleave_through hthrough, sendOrder_through hthrough, ← hlen, List.range_eq_range',
      filterMap_range', List.drop_zero, List.take_length]
  · have hg : 1 < g := by omega
    have hn : g < n := by omega
    have hmax : max g 1 = g := by omega
    rw [hmax] at hlen
    have hrest : (items.drop n).length = blockCount n g := by
      rw [List.length_drop]
      omega
    rw [interleave_eq hg hn hlen, sendOrder_eq hg hn, List.filterMap_append, filterMap_range', ← hrest,
      List.take_length, List.filterMap_filter]
    congr 1
    refine List.filterMap_congr fun i _ => ?_
    by_cases hi : i < n <;> simp [hi]

theorem sendOrder_perm (n g : Nat) : (sendOrder n g).Perm (List.range (n + blockCount n (max g 1))) :=
  interleave_perm ..

theorem sendOrder_dataFirst (n g : Nat) : (sendOrder n g).Pairwise fun p p' => p' < n → p < n := by
  by_cases hthrough : g ≤ 1 ∨ n ≤ g
  · rw [sendOrder_through hthrough]
    exact List.pairwise_lt_range.imp fun hlt hdata => Nat.lt_trans hlt hdata
  · rw [sendOrder_eq (by omega) (by omega)]
    refine List.pairwise_append.mpr ⟨?_, ?_, fun p hp p' _ _ => of_decide_eq_true (List.mem_filter.mp hp).2⟩
    · exact List.pairwise_of_forall_mem_list fun p hp p' _ _ => of_decide_eq_true (List.mem_filter.mp hp).2
    · refine List.pairwise_of_forall_mem_list fun p _ p' hp' hdata => ?_
      have hle := (List.mem_range'_1.mp hp').1
      omega

/-! ## §3 The groups in turn -/

/-- The group of the shard at a position: the decoder's, for a datum, and
for the parity the one it was made for. -/
def shardGroup (n g position : Nat) : Nat :=
  if position < n then position / max g 1 else position - n

theorem filter_lt_range {k c : Nat} (h : k ≤ c) : (List.range c).filter (· < k) = List.range k := by
  obtain ⟨rest, rfl⟩ := Nat.exists_eq_add_of_le h
  rw [List.range_add, List.filter_append, List.filter_eq_self.mpr (by simp), List.filter_eq_nil_iff.mpr (by simp),
    List.append_nil]

theorem map_shardGroup (hg : 1 < g) (hn : g < n) : (sendOrder n g).map (shardGroup n g) =
      ((List.range g).flatMap fun rank => List.range (blockCount (n - rank) g)) ++
        List.range (blockCount n g) := by
  have hmax : max g 1 = g := by omega
  rw [sendOrder_eq hg hn, List.map_append]
  congr 1
  · rw [columnMajor, List.filter_flatMap, List.map_flatMap]
    refine List.flatMap_congr fun rank hrank => ?_
    have hlt := List.mem_range.mp hrank
    have hreach : ∀ q, q * g + rank < n ↔ q < blockCount (n - rank) g := by
      intro q
      rw [lt_blockCount (by omega)]
      omega
    rw [List.filter_map, List.map_map]
    have hfilter : (List.range (blockCount n g)).filter ((fun p => decide (p < n)) ∘ fun q => q * g + rank) =
        List.range (blockCount (n - rank) g) := by
      simp only [Function.comp_def, hreach]
      exact filter_lt_range (blockCount_le (Nat.sub_le ..))
    rw [hfilter]
    refine (List.map_congr_left fun q hq => ?_).trans (List.map_id _)
    have hdata := (hreach q).mpr (List.mem_range.mp hq)
    simp only [Function.comp_apply, shardGroup, hdata, if_true, hmax, id_eq]
    rw [Nat.add_comm, Nat.add_mul_div_right _ _ (by omega), Nat.div_eq_of_lt hlt, Nat.zero_add]
  · rw [List.range'_eq_map_range, List.map_map]
    refine (List.map_congr_left fun q _ => ?_).trans (List.map_id _)
    simp [shardGroup]

theorem blockCount_one (n : Nat) : blockCount n 1 = n := by simp [blockCount]

/-- When every group is as long as the others, or there is at most one, the
order is turns through all of them. -/
theorem turns_of_even (h : g ≤ 1 ∨ n ≤ g ∨ g ∣ n) :
    ∃ turns, (sendOrder n g).map (shardGroup n g) =
      (List.replicate turns (List.range (blockCount n (max g 1)))).flatten := by
  by_cases hone : g ≤ 1
  · have hmax : max g 1 = 1 := by omega
    refine ⟨2, ?_⟩
    rw [sendOrder_through (.inl hone), hmax, blockCount_one, List.range_add, List.map_append, List.map_map]
    have hdata : (List.range n).map (shardGroup n g) = List.range n := by
      refine (List.map_congr_left fun i hi => ?_).trans (List.map_id _)
      simp [shardGroup, List.mem_range.mp hi, hmax]
    have hparity : (List.range n).map (shardGroup n g ∘ (n + ·)) = List.range n := by
      refine (List.map_congr_left fun i _ => ?_).trans (List.map_id _)
      simp [shardGroup]
    rw [hdata, hparity]
    simp [List.replicate_succ]
  have hmax : max g 1 = g := by omega
  rw [hmax]
  by_cases hsingle : n ≤ g
  · rw [sendOrder_through (.inr hsingle), hmax]
    rcases Nat.eq_zero_or_pos n with rfl | hn
    · have hempty : blockCount 0 g = 0 := Nat.div_eq_of_lt (by omega)
      exact ⟨0, by simp [hempty]⟩
    · have hcount : blockCount n g = 1 := Nat.div_eq_of_lt_le (by omega) (by omega)
      refine ⟨n + 1, ?_⟩
      rw [hcount, List.range_one, List.flatten_replicate_singleton]
      refine List.eq_replicate_iff.mpr ⟨by simp, fun q hq => ?_⟩
      obtain ⟨i, hi, rfl⟩ := List.mem_map.mp hq
      have hi' := List.mem_range.mp hi
      unfold shardGroup
      split
      · exact Nat.div_eq_of_lt (by omega)
      · omega
  · obtain ⟨c, rfl⟩ := (h.resolve_left hone).resolve_left hsingle
    have hfull : ∀ rank < g, blockCount (g * c - rank) g = c := by
      intro rank hrank
      refine Nat.div_eq_of_lt_le ?_ ?_
      · rw [Nat.mul_comm c g]
        omega
      · rw [Nat.succ_mul, Nat.mul_comm c g]
        omega
    have hall : blockCount (g * c) g = c := hfull 0 (by omega)
    refine ⟨g + 1, ?_⟩
    rw [map_shardGroup (by omega) (by omega), hall, List.replicate_succ', List.flatten_append]
    congr 1
    · grind [List.flatMap_congr, List.flatMap_def, List.map_const', List.length_range]
    · simp

/-- A last group that is shorter leaves a turn that is one group short,
and the next one starts at the first group again. -/
theorem short_turn (hg : 1 < g) (hn : g < n) (hragged : ¬ g ∣ n) :
    ∃ before after, (sendOrder n g).map (shardGroup n g) =
      before ++ (List.range (blockCount n g - 1) ++ 0 :: after) := by
  have hs : 0 < n % g := Nat.pos_of_ne_zero fun h => hragged (Nat.dvd_of_mod_eq_zero h)
  have hlt : n % g < g := Nat.mod_lt n (by omega)
  have hsplit := Nat.div_add_mod n g
  have hc : 0 < n / g := Nat.div_pos (Nat.le_of_lt hn) (by omega)
  generalize n % g = s at hs hlt hsplit
  generalize n / g = c at hc hsplit
  have hcount : blockCount n g = c + 1 := by
    refine Nat.div_eq_of_lt_le ?_ ?_
    · rw [Nat.succ_mul, Nat.mul_comm c g]
      omega
    · grind
  -- past the end of the last group
  have hshort : ∀ rank, s ≤ rank → rank < g → blockCount (n - rank) g = c := by
    intro rank hrank hrank'
    refine Nat.div_eq_of_lt_le ?_ ?_
    · rw [Nat.mul_comm c g]
      omega
    · rw [Nat.succ_mul, Nat.mul_comm c g]
      omega
  have hranks : List.range g = List.range s ++ s :: List.range' (s + 1) (g - s - 1) := by
    obtain ⟨rest, rfl⟩ : ∃ rest, g = s + (rest + 1) := ⟨g - s - 1, by omega⟩
    rw [List.range_add, ← List.range'_eq_map_range, List.range'_succ]
    congr 3
    omega
  obtain ⟨first, hfirst⟩ : ∃ first, List.range c = 0 :: first := by
    obtain ⟨c, rfl⟩ := Nat.exists_eq_succ_of_ne_zero (Nat.ne_of_gt hc)
    exact ⟨_, List.range_succ_eq_map⟩
  obtain ⟨after, hafter⟩ : ∃ after,
      ((List.range' (s + 1) (g - s - 1)).flatMap fun rank => List.range (blockCount (n - rank) g)) ++
        List.range (c + 1) = 0 :: after := by
    cases hrest : g - s - 1 with
    | zero => exact ⟨_, by rw [List.range_succ_eq_map]; rfl⟩
    | succ rest =>
      rw [List.range'_succ, List.flatMap_cons, hshort (s + 1) (by omega) (by omega), hfirst]
      exact ⟨_, rfl⟩
  refine ⟨(List.range s).flatMap fun rank => List.range (blockCount (n - rank) g), after, ?_⟩
  rw [map_shardGroup hg hn, hranks, List.flatMap_append, List.flatMap_cons, hshort s (Nat.le_refl s) hlt,
    hcount, List.append_assoc, List.append_assoc, hafter]
  rfl

/-! ## §4 Bursts -/

open ReedSolomonFec

/-- A run of consecutive positions of the send order. -/
def burst (n g start len : Nat) : List Nat := ((sendOrder n g).drop start).take len

theorem map_burst (n g start len : Nat) : (burst n g start len).map (shardGroup n g) =
    (((sendOrder n g).map (shardGroup n g)).drop start).take len := by
  rw [burst, List.map_take, List.map_drop]

/-- What the send order is for, at `n` data and groups of `g`: the
datagrams go in an order that is all of their positions, the data first; a
burst no longer than the number of groups meets no group twice; and the
decoder makes up for such a burst. -/
structure BurstResilient (n g : Nat) : Prop where
  sent : ∀ datagrams : List (List UInt8), datagrams.length = n + blockCount n (max g 1) →
    interleave datagrams n g = (sendOrder n g).filterMap (datagrams[·]?)
  permutes : (sendOrder n g).Perm (List.range (n + blockCount n (max g 1)))
  dataFirst : (sendOrder n g).Pairwise fun p p' => p' < n → p < n
  spreads : ∀ start len, len ≤ blockCount n (max g 1) →
    ((burst n g start len).map (shardGroup n g)).Nodup
  recovers : ∀ (codec : ReedSolomonFec) (shards : List (List UInt8)) (start len : Nat),
    shards.length = n → (∀ shard ∈ shards, shard.length < 2 ^ 32) → len ≤ blockCount n (max g 1) →
    ∃ parity, codec.parityWithM shards g 1 = some parity ∧
      codec.recoverWithM (survive (fun i => i ∈ burst n g start len) shards)
        (survive (fun q => n + q ∈ burst n g start len) parity) g 1 = some (shards.map some)

/-- A burst that meets no group twice leaves a group that misses a datum
nothing else to miss. -/
theorem missing_le_surviving {lost : List Nat} (hgroups : (lost.map (shardGroup n g)).Nodup) (q : Nat) :
    missingData n (max g 1) (fun i => i ∈ lost) q ≤ survivingParity 1 (fun q => n + q ∈ lost) q := by
  have hsame : ∀ p ∈ lost, ∀ p' ∈ lost, shardGroup n g p = q → shardGroup n g p' = q → p = p' :=
    fun p hp p' hp' hq hq' => List.inj_on_of_nodup_map hgroups hp hp' (hq.trans hq'.symm)
  have hmember : ∀ i ∈ (List.range n).filter (fun i => i / max g 1 = q ∧ decide (i ∈ lost) = true),
      i < n ∧ i ∈ lost ∧ shardGroup n g i = q := by
    intro i hi
    simp only [List.mem_filter, List.mem_range, decide_eq_true_eq] at hi
    exact ⟨hi.1, hi.2.2, by rw [shardGroup, if_pos hi.1]; exact hi.2.1⟩
  have hnodup : ((List.range n).filter (fun i => i / max g 1 = q ∧ decide (i ∈ lost) = true)).Nodup :=
    List.nodup_range.filter _
  rw [missingData, List.countP_eq_length_filter]
  generalize (List.range n).filter _ = missing at hmember hnodup
  have hparity : survivingParity 1 (fun q => n + q ∈ lost) q = if n + q ∈ lost then 0 else 1 := by
    by_cases hin : n + q ∈ lost <;> simp [survivingParity, hin]
  rw [hparity]
  rcases missing with _ | ⟨i, _ | ⟨j, rest⟩⟩
  case nil => exact Nat.zero_le _
  case cons.nil =>
    obtain ⟨hi, hlost, hq⟩ := hmember i (List.mem_singleton_self i)
    -- the group's parity is another shard of the group, so it is not lost
    rw [if_neg fun hin => ?_]
    · exact Nat.le_refl 1
    · grind [shardGroup]
  case cons.cons =>
    obtain ⟨-, hlost, hq⟩ := hmember i (by simp)
    obtain ⟨-, hlost', hq'⟩ := hmember j (by simp)
    have hne : i ≠ j := fun heq => (List.nodup_cons.mp hnodup).1 (heq ▸ List.mem_cons_self ..)
    exact absurd (hsame i hlost j hlost' hq hq') hne

theorem recovers_of_spread (codec : ReedSolomonFec) {shards : List (List UInt8)}
    {lost : List Nat} (hshards : shards.length = n) (hlen : ∀ shard ∈ shards, shard.length < 2 ^ 32)
    (hgroups : (lost.map (shardGroup n g)).Nodup) :
    ∃ parity, codec.parityWithM shards g 1 = some parity ∧
      codec.recoverWithM (survive (fun i => i ∈ lost) shards)
        (survive (fun q => n + q ∈ lost) parity) g 1 = some (shards.map some) := by
  have hwidth : codec.effectiveGroupSize g 1 = max g 1 := by
    simp only [effectiveGroupSize, if_true]
    split <;> omega
  have hfits : codec.groupSize + 1 ≤ 255 := Nat.le_trans (Nat.add_le_add_left codec.parity_pos _) codec.fits
  obtain ⟨parity, hencode, hrecover⟩ := fec_recovers codec shards g 1 (fun i => i ∈ lost)
    (fun q => n + q ∈ lost) (Nat.le_refl 1) hfits hlen
  refine ⟨parity, hencode, hrecover.trans ?_⟩
  refine congrArg some (List.ext_getElem? fun i => ?_)
  rw [List.getElem?_mapIdx, List.getElem?_map]
  refine congrArg (Option.map · shards[i]?) (funext fun shard => if_neg fun hmissing => ?_)
  have hle := missing_le_surviving hgroups (i / max g 1)
  rw [hwidth, hshards] at hmissing
  exact Nat.lt_irrefl _ (Nat.lt_of_lt_of_le hmissing.2 hle)

/-- The send order does what it is for exactly when no group is shorter
than the others: groups of one, a single group, or groups that divide the
data. -/
theorem burstResilient_iff (n g : Nat) : BurstResilient n g ↔ g ≤ 1 ∨ n ≤ g ∨ g ∣ n := by
  constructor
  · intro h
    by_cases hg : g ≤ 1
    · exact .inl hg
    by_cases hn : n ≤ g
    · exact .inr (.inl hn)
    refine .inr (.inr ?_)
    by_contra hragged
    obtain ⟨before, after, hgroups⟩ := short_turn (by omega) (by omega) hragged
    have hmax : max g 1 = g := by omega
    have htwo : 1 < blockCount n g := (lt_blockCount (by omega)).mpr (by omega)
    -- the burst from the start of the short turn
    have hspread := h.spreads before.length (blockCount n g) (by rw [hmax])
    rw [map_burst, hgroups, List.drop_left] at hspread
    obtain ⟨c, hc⟩ : ∃ c, blockCount n g = c + 1 := ⟨blockCount n g - 1, by omega⟩
    have hwindow : (List.range c ++ 0 :: after).take (c + 1) = List.range c ++ [0] := by
      simp [List.take_append]
    rw [hc, Nat.add_sub_cancel, hwindow] at hspread
    have hmem : 0 ∈ List.range c := List.mem_range.mpr (by omega)
    exact (List.nodup_append.mp hspread).2.2 0 hmem 0 (List.mem_singleton_self 0) rfl
  · intro h
    obtain ⟨turns, hturns⟩ := turns_of_even h
    have hspreads : ∀ start len, len ≤ blockCount n (max g 1) →
        ((burst n g start len).map (shardGroup n g)).Nodup := by
      intro start len hlen
      rw [map_burst, hturns]
      exact nodup_window turns _ start hlen
    exact ⟨fun _ hlen => interleave_sendOrder hlen, sendOrder_perm n g, sendOrder_dataFirst n g, hspreads,
      fun codec _ start len hshards hwrap hlen =>
        recovers_of_spread codec hshards hwrap (hspreads start len hlen)⟩

/-- Four data in groups of three: the third and the fourth datagram are
both of the first group. -/
theorem burst_hits_a_group_twice : ¬ BurstResilient 4 3 := by
  intro h
  exact absurd (h.spreads 2 2 (by decide)) (by decide)

end SlopDesk.Video
