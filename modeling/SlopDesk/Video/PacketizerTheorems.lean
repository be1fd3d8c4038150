/-
SlopDesk.Video.PacketizerTheorems — what the packetizer sends.

§1 the interleaver sends every datagram exactly once. §2 the datagrams of
a frame read back as its parts: the data payloads under the frame's flags,
then the parity payloads under the same flags with the parity bit. §3 the
parts' layout: their payloads join to the frame, and the parity is the
codec's at the group size and the parity count of the tier.
-/
import SlopDesk.Video.FecRecovery
import SlopDesk.Video.Packetizer

namespace SlopDesk.Video

open SlopDesk.Base.Blocks

/-! ## §1 Interleaving -/

section Interleave

variable {α : Type*}
variable {i : Nat}
variable {j : Nat} {state : List (Option α) × List α}

theorem perm_set_none {slots : List (Option α)} {item : α} (h : slots[i]? = some (some item)) :
    (item :: (slots.set i none).filterMap id).Perm (slots.filterMap id) := by
  induction slots generalizing i with
  | nil => simp at h
  | cons slot slots ih =>
    cases i with
    | zero =>
      obtain rfl : slot = some item := by simpa using h
      simp
    | succ i =>
      have hrest := ih (by simpa using h)
      cases slot with
      | none => simpa using hrest
      | some first =>
        have hswap := (List.Perm.swap first item ((slots.set i none).filterMap id)).trans
          (hrest.cons first)
        simpa using hswap

theorem takeSlot_perm (state : List (Option α) × List α) (i : Nat) :
    ((takeSlot state i).2 ++ (takeSlot state i).1.filterMap id).Perm (state.2 ++ state.1.filterMap id) := by
  unfold takeSlot
  split
  · rename_i item hitem
    simpa using (perm_set_none hitem).append_left state.2
  · exact .refl _

theorem foldl_takeSlot_perm (indices : List Nat) (state : List (Option α) × List α) :
    ((indices.foldl takeSlot state).2 ++ (indices.foldl takeSlot state).1.filterMap id).Perm
      (state.2 ++ state.1.filterMap id) := by
  induction indices generalizing state with
  | nil => exact .refl _
  | cons i indices ih => exact (ih _).trans (takeSlot_perm state i)

theorem takeSlot_empty (h : j = i ∨ (state.1[j]?).join = none) : ((takeSlot state i).1[j]?).join = none := by
  unfold takeSlot
  split
  · grind
  · rename_i hother
    rcases h with rfl | h
    · cases hslot : state.1[j]? with
      | none => rfl
      | some slot =>
        cases slot with
        | none => rfl
        | some item => exact absurd hslot (hother item)
    · exact h

theorem foldl_takeSlot_empty {indices : List Nat} (h : j ∈ indices ∨ (state.1[j]?).join = none) :
    ((indices.foldl takeSlot state).1[j]?).join = none := by
  induction indices generalizing state with
  | nil => simpa using h
  | cons i indices ih =>
    refine ih ?_
    rcases h with hmem | hempty
    · rcases List.mem_cons.mp hmem with heq | hmem
      · exact .inr (takeSlot_empty (.inl heq))
      · exact .inl hmem
    · exact .inr (takeSlot_empty (.inr hempty))

theorem mem_columnMajor {stride numGroups : Nat} (hstride : 0 < stride) (h : i < numGroups * stride) :
    i ∈ columnMajor stride numGroups := by
  simp only [columnMajor, List.mem_flatMap, List.mem_map, List.mem_range]
  refine ⟨i % stride, Nat.mod_lt i hstride, i / stride, (Nat.div_lt_iff_lt_mul hstride).mpr h, ?_⟩
  rw [Nat.mul_comm]
  exact Nat.div_add_mod i stride

theorem takeColumnMajor_data {g : Nat} (hg : 0 < g) (data : List α) :
    ((takeColumnMajor (data.map some) g (blockCount data.length g) []).2).Perm data := by
  have hperm := foldl_takeSlot_perm (columnMajor g (blockCount data.length g)) (data.map some, [])
  have hempty : (takeColumnMajor (data.map some) g (blockCount data.length g) []).1.filterMap id = [] := by
    refine List.filterMap_eq_nil_iff.mpr fun slot hslot => ?_
    obtain ⟨j, hj⟩ := List.mem_iff_getElem?.mp hslot
    have hjoin : ((takeColumnMajor (data.map some) g (blockCount data.length g) []).1[j]?).join = none := by
      refine foldl_takeSlot_empty ?_
      by_cases hlen : j < data.length
      · refine .inl (mem_columnMajor hg ?_)
        have hblock := (lt_blockCount hg).mpr (div_mul_lt (g := g) hlen)
        exact (Nat.div_lt_iff_lt_mul hg).mp hblock
      · simp [List.getElem?_eq_none (Nat.le_of_not_lt hlen)]
    rw [hj] at hjoin
    simpa using hjoin
  unfold takeColumnMajor at hempty ⊢
  rw [hempty] at hperm
  simpa [List.filterMap_map] using hperm

theorem interleave_perm (items : List α) (dataCount groupSize : Nat) :
    (interleave items dataCount groupSize).Perm items := by
  unfold interleave
  split
  · exact .refl _
  dsimp only
  split
  · exact .refl _
  have hdata := takeColumnMajor_data (g := groupSize) (by omega) (items.take (min dataCount items.length))
  have hlength : (items.take (min dataCount items.length)).length = min dataCount items.length := by
    simp
  rw [hlength] at hdata
  refine (foldl_takeSlot_perm _ _).trans ?_
  simp only [List.filterMap_map, Function.id_comp, List.filterMap_some]
  refine (hdata.append_right _).trans ?_
  rw [List.take_append_drop]

end Interleave

/-! ## §2 Payloads and parity -/

theorem length_payload {frame payload : List UInt8} (h : payload ∈ payloadsOf frame) :
    payload.length ≤ maxPayloadSize := by
  unfold payloadsOf at h
  split at h
  · grind
  · exact length_of_mem_chunks h

theorem flatten_payloadsOf (frame : List UInt8) : (payloadsOf frame).flatten = frame := by
  unfold payloadsOf
  split
  · simp [*]
  · exact flatten_chunks (by decide) frame

theorem payloadsOf_ne_nil (frame : List UInt8) : payloadsOf frame ≠ [] := by
  intro h
  have hflat := flatten_payloadsOf frame
  rw [h, List.flatten_nil] at hflat
  simp [payloadsOf, ← hflat] at h

theorem widest_le {lengths : List Nat} {w : Nat} (h : ∀ n ∈ lengths, n ≤ w) : widest lengths ≤ w := by
  have hfold : ∀ acc ≤ w, lengths.foldl max acc ≤ w := by
    induction lengths with
    | nil => exact fun acc hacc => hacc
    | cons n lengths ih =>
      grind
  exact hfold 0 (Nat.zero_le w)

namespace ReedSolomonFec

variable {codec : ReedSolomonFec} {data parity : List (List UInt8)} {requested m : Nat}

theorem length_foldl {β : Type*} {step : List UInt8 → β → List UInt8}
    (h : ∀ acc x, (step acc x).length = acc.length) (xs : List β) (acc : List UInt8) :
    (xs.foldl step acc).length = acc.length := by
  induction xs generalizing acc with
  | nil => rfl
  | cons x xs ih => rw [List.foldl_cons, ih, h]

theorem length_encodeRank (codec : ReedSolomonFec) (framed : List (List UInt8)) (width : Nat)
    (tables : List Gf256.MulTable) (rank : Nat) :
    (codec.encodeRank framed width tables rank).length = width := by
  unfold encodeRank
  rw [length_foldl, List.length_replicate]
  rintro acc ⟨shard, j⟩
  dsimp only
  split
  · exact Gf256.length_zipInto ..
  · rfl

/-- A parity shard is as long as the longest data shard and its length
prefix. -/
theorem length_le_of_parityM (h : codec.parityM data requested m = some parity) {w : Nat}
    (hdata : ∀ shard ∈ data, shard.length ≤ w) : ∀ shard ∈ parity, shard.length ≤ prefixBytes + w := by
  have hblock : ∀ block ∈ chunks (codec.effectiveGroupSize requested m) data,
      ∀ member ∈ block, prefixBytes + member.length ≤ prefixBytes + w := by
    intro block hblock member hmember
    have hflat : member ∈ (chunks (codec.effectiveGroupSize requested m) data).flatten :=
      List.mem_flatten.mpr ⟨block, hblock, hmember⟩
    rw [flatten_chunks (effectiveGroupSize_pos codec requested m)] at hflat
    exact Nat.add_le_add_left (hdata member hflat) _
  intro shard hshard
  unfold parityM at h
  split at h
  · cases h
    obtain ⟨block, hmem, rfl⟩ := List.mem_map.mp hshard
    rw [(xorEncoded_spec block).1]
    exact widest_le (by simpa using hblock block hmem)
  · obtain ⟨coeffs, -, h⟩ := Option.bind_eq_some_iff.mp h
    cases h
    obtain ⟨block, hmem, hrank⟩ := List.mem_flatMap.mp hshard
    obtain ⟨rank, -, rfl⟩ := List.mem_map.mp hrank
    rw [length_encodeRank]
    refine widest_le fun n hn => ?_
    simp only [List.map_map, List.mem_map, Function.comp_apply, length_lengthPrefixed] at hn
    obtain ⟨member, hmember, rfl⟩ := hn
    exact hblock block hmem member hmember

theorem length_parityM (h : codec.parityM data requested m = some parity) :
    parity.length = m * blockCount data.length (codec.effectiveGroupSize requested m) := by
  unfold parityM at h
  split at h
  · rename_i hone
    cases h
    simp [hone]
  · obtain ⟨coeffs, -, h⟩ := Option.bind_eq_some_iff.mp h
    cases h
    simp [encodeGroup, Nat.mul_comm]

end ReedSolomonFec

/-! ## §3 Reading back -/

/-- What is sent of one frame, by the flags and the payload of each part. -/
structure Layout where
  frameId : UInt32
  flags : Flags
  data : List (List UInt8)
  parity : List (List UInt8)

namespace Layout

/-- The parts, the data before the parity. -/
def parts (l : Layout) : List (Flags × List UInt8) :=
  l.data.map (fun payload => (l.flags, payload)) ++
    l.parity.map fun payload => (l.flags.union .parity, payload)

/-- A fragment that is one of the frame's. -/
structure Has (l : Layout) (fragment : FrameFragment) : Prop where
  frameId : fragment.header.frameId = l.frameId
  fragCount : fragment.header.fragCount.toNat = l.parts.length
  part : l.parts[fragment.header.fragIndex.toNat]? = some (fragment.header.flags, fragment.payload)

@[simp] theorem length_parts (l : Layout) : l.parts.length = l.data.length + l.parity.length := by
  simp [parts]

end Layout

namespace VideoPacketizer

variable {frame : List UInt8} {host : VideoPacketizer}
variable {parity : List (List UInt8)} {options : PacketizeOptions}

theorem writeAll_spec (host : VideoPacketizer) (frameId : UInt32) (fragCount : UInt16)
    (hostSendTsMillis : UInt32) (start : UInt16) (parts : List (Flags × List UInt8))
    (h : ∀ part ∈ parts, part.2.length < 65536) :
    (host.writeAll frameId fragCount hostSendTsMillis start parts).1.length = parts.length ∧
      ∀ (i : Nat) part, parts[i]? = some part → ∃ datagram fragment,
        (host.writeAll frameId fragCount hostSendTsMillis start parts).1[i]? = some datagram ∧
        FrameFragment.decode datagram = some fragment ∧ fragment.header.frameId = frameId ∧
        fragment.header.fragIndex = start + .ofNat i ∧ fragment.header.fragCount = fragCount ∧
        fragment.header.flags = part.1 ∧ fragment.payload = part.2 := by
  induction parts generalizing host start with
  | nil => simp [writeAll]
  | cons first rest ih =>
    obtain ⟨flags, payload⟩ := first
    obtain ⟨hlength, hrest⟩ := ih (host.writeDatagram frameId start fragCount flags payload
      hostSendTsMillis).2 (start + 1) fun part hpart => h part (List.mem_cons_of_mem _ hpart)
    refine ⟨by simp [writeAll, hlength], fun i part hpart => ?_⟩
    cases i with
    | zero =>
      cases (by simpa using hpart : (flags, payload) = part)
      exact ⟨_, _, rfl, decode_encodeDatagram _ (h _ (List.mem_cons_self ..)), rfl, by simp, rfl, rfl, rfl⟩
    | succ i =>
      obtain ⟨datagram, fragment, hat, hdecode, hid, hindex, hother⟩ := hrest i part (by simpa using hpart)
      have hnext : start + 1 + UInt16.ofNat i = start + UInt16.ofNat (i + 1) := by
        rw [UInt16.add_assoc, UInt16.add_comm 1, UInt16.ofNat_add]
        rfl
      exact ⟨datagram, fragment, by simpa [writeAll] using hat, hdecode, hid, hindex.trans hnext, hother⟩

/-- The layout of a frame whose parity is known. -/
def layout (host : VideoPacketizer) (frame : List UInt8) (options : PacketizeOptions)
    (parity : List (List UInt8)) : Layout :=
  ⟨host.nextFrameId, baseFlags options, payloadsOf frame, parity⟩

theorem length_parityPayloads {tier : UInt8} (h : host.parityPayloads (payloadsOf frame) tier = some parity) :
    ∀ payload ∈ parity, payload.length ≤ maxDatagramSize - headerSize := by
  unfold parityPayloads at h
  split at h
  · cases h
    simp
  · split at h
    · cases h
      simp
    · exact ReedSolomonFec.length_le_of_parityM h fun payload => length_payload

theorem length_part (h : host.parityPayloads (payloadsOf frame) options.fecTier = some parity) :
    ∀ part ∈ (host.layout frame options parity).parts, part.2.length ≤ maxDatagramSize - headerSize := by
  intro part hpart
  rcases List.mem_append.mp hpart with hdata | hparity
  · obtain ⟨payload, hmem, rfl⟩ := List.mem_map.mp hdata
    exact Nat.le_trans (length_payload hmem) (by decide)
  · obtain ⟨payload, hmem, rfl⟩ := List.mem_map.mp hparity
    exact length_parityPayloads h payload hmem

/-- What a frame is sent as: nothing when its parts are too many, and
otherwise one datagram for each part, which reads back as that part. -/
theorem packetizeRaw_spec {host' : VideoPacketizer} {datagrams : List (List UInt8)}
    (h : host.packetizeRaw frame options = some (datagrams, host')) :
    ∃ parity, host.parityPayloads (payloadsOf frame) options.fecTier = some parity ∧
      (datagrams = [] ∨ (host.layout frame options parity).parts.length ≤ maxFragmentsPerFrame ∧
        (∀ datagram ∈ datagrams, ∃ fragment, FrameFragment.decode datagram = some fragment ∧
          (host.layout frame options parity).Has fragment) ∧
        ∀ i < (host.layout frame options parity).parts.length, ∃ datagram ∈ datagrams, ∃ fragment,
          FrameFragment.decode datagram = some fragment ∧
            (host.layout frame options parity).Has fragment ∧ fragment.header.fragIndex.toNat = i) := by
  obtain ⟨⟨⟨written, dataCount⟩, host₁⟩, hwritten, h⟩ := Option.bind_eq_some_iff.mp h
  have hperm : datagrams.Perm written := by
    dsimp only at h
    split at h
    · cases h
      exact interleave_perm ..
    · cases h
      exact .refl _
  obtain ⟨parity, hparity, hwritten⟩ := Option.bind_eq_some_iff.mp hwritten
  refine ⟨parity, hparity, ?_⟩
  split at hwritten
  · cases hwritten
    exact .inl hperm.eq_nil
  rename_i hcount
  cases hwritten
  have hparts : (host.layout frame options parity).parts.length ≤ maxFragmentsPerFrame := by
    simpa [layout] using hcount
  have hbound : (host.layout frame options parity).parts.length < 65536 :=
    Nat.lt_of_le_of_lt hparts (by decide)
  obtain ⟨hlength, hat⟩ := writeAll_spec { host with nextFrameId := host.nextFrameId + 1 }
    host.nextFrameId (.ofNat ((payloadsOf frame).length + parity.length)) options.hostSendTsMillis 0
    (host.layout frame options parity).parts
    fun part hpart => Nat.lt_of_le_of_lt (length_part hparity part hpart) (by decide)
  -- datagram `i` is part `i` of the layout
  have hpart : ∀ i < (host.layout frame options parity).parts.length, ∃ datagram fragment,
      (({ host with nextFrameId := host.nextFrameId + 1 } : VideoPacketizer).writeAll host.nextFrameId
        (.ofNat ((payloadsOf frame).length + parity.length)) options.hostSendTsMillis 0
        (host.layout frame options parity).parts).1[i]? = some datagram ∧
      FrameFragment.decode datagram = some fragment ∧ (host.layout frame options parity).Has fragment ∧
        fragment.header.fragIndex.toNat = i := by
    intro i hi
    obtain ⟨datagram, fragment, hdatagram, hdecode, hid, hindex, hcount', hflags, hpayload⟩ :=
      hat i _ (List.getElem?_eq_getElem hi)
    have hvalue : fragment.header.fragIndex.toNat = i := by
      rw [hindex]
      simp
      omega
    refine ⟨datagram, fragment, hdatagram, hdecode, ⟨hid, ?_, ?_⟩, hvalue⟩
    · rw [hcount']
      simp [layout] at hbound ⊢
      omega
    · rw [hvalue, List.getElem?_eq_getElem hi, hflags, hpayload]
  refine .inr ⟨hparts, fun datagram hmem => ?_, fun i hi => ?_⟩
  · obtain ⟨i, hi⟩ := List.mem_iff_getElem?.mp (hperm.mem_iff.mp hmem)
    have hlt : i < (host.layout frame options parity).parts.length := by
      rw [← hlength]
      exact (List.getElem?_eq_some_iff.mp hi).1
    obtain ⟨datagram', fragment, hdatagram, hdecode, hhas, -⟩ := hpart i hlt
    cases hdatagram.symm.trans hi
    exact ⟨fragment, hdecode, hhas⟩
  · obtain ⟨datagram, fragment, hdatagram, hrest⟩ := hpart i hi
    exact ⟨datagram, hperm.mem_iff.mpr (List.mem_of_getElem? hdatagram), fragment, hrest⟩

end VideoPacketizer

end SlopDesk.Video
