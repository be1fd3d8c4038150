/-
SlopDesk.Video.FrameFill — a pending frame and the packetizer's layout of
it: what the receiver makes of the parts that arrived.

§1 the flags and the tier a frame is stamped with read back from each of
its fragments. §2 both ends agree on the layout: the group size and the
parity count of the tier are the encoder's. §3 the pending frame holds
exactly the parts that arrived, in the slots they were sent for. §4 it can
complete exactly when no group misses more data than it has parity, and
then it is the frame.
-/
import SlopDesk.Video.PacketizerTheorems
import SlopDesk.Video.PendingTheorems

namespace SlopDesk.Video

open SlopDesk.Base
open SlopDesk.Base.Blocks
open ReedSolomonFec

/-! ## §1 Flags -/

/-- A flag of the frame, or of its parity fragments alike. -/
def Flags.Same (flags flags' : Flags) : Prop :=
  flags'.fecTier = flags.fecTier ∧ flags'.contains .keyframe = flags.contains .keyframe ∧
    flags'.contains .crisp = flags.contains .crisp ∧ flags'.contains .isLtr = flags.contains .isLtr ∧
      flags'.contains .ackedAnchored = flags.contains .ackedAnchored

instance (flags flags' : Flags) : Decidable (flags.Same flags') :=
  inferInstanceAs (Decidable (_ ∧ _))

theorem baseFlags_table : ∀ tier < 8, ∀ keyframe crisp isLtr ackedAnchored : Bool,
    let flags := baseFlags ⟨keyframe, crisp, 0, .ofNat tier, isLtr, ackedAnchored, false⟩
    flags.fecTier = .ofNat tier ∧ flags.contains .keyframe = keyframe ∧ flags.contains .crisp = crisp ∧
      flags.contains .isLtr = isLtr ∧ flags.contains .ackedAnchored = ackedAnchored ∧
      flags.contains .parity = false ∧ (flags.union .parity).contains .parity = true ∧
      flags.Same (flags.union .parity) := by
  decide +kernel

theorem baseFlags_spec {options : PacketizeOptions} (h : options.fecTier < 8) :
    let flags := baseFlags options
    flags.fecTier = options.fecTier ∧ flags.contains .keyframe = options.keyframe ∧
      flags.contains .crisp = options.crisp ∧ flags.contains .isLtr = options.isLtr ∧
      flags.contains .ackedAnchored = options.ackedAnchored ∧
      flags.contains .parity = false ∧ (flags.union .parity).contains .parity = true ∧
      flags.Same (flags.union .parity) := by
  have htable := baseFlags_table options.fecTier.toNat h options.keyframe options.crisp options.isLtr
    options.ackedAnchored
  rw [UInt8.ofNat_toNat] at htable
  exact htable

/-- The tiers of the ladders have three bits, and those that multi-loss
coding leaves leave the group size alone. -/
theorem AdaptiveFec.wireTier_ladder {ladderTier : UInt8} {adaptiveMEnabled : Bool} (multiLossActive : Bool)
    (h : onLadder adaptiveMEnabled ladderTier = true) :
    wireTier ladderTier adaptiveMEnabled multiLossActive < 8 ∧
      (multiLossActive = true → ∀ defaultGroupSize,
        groupSize (wireTier ladderTier adaptiveMEnabled multiLossActive) defaultGroupSize =
          some defaultGroupSize) := by
  have htiers : ladderTier = 0 ∨ (adaptiveMEnabled = true ∧
        (ladderTier = 5 ∨ ladderTier = 6 ∨ ladderTier = 7)) ∨
      (adaptiveMEnabled = false ∧
        (ladderTier = 1 ∨ ladderTier = 2 ∨ ladderTier = 3 ∨ ladderTier = 4)) := by
    cases adaptiveMEnabled with
    | true =>
      have htiers : (decide (ladderTier = 0) || (decide (ladderTier = 5) || decide (ladderTier = 6) ||
          decide (ladderTier = 7))) = true := h
      simpa [or_assoc] using htiers
    | false =>
      have htiers : (decide (ladderTier = 0) || (decide (ladderTier = 1) || decide (ladderTier = 2) ||
          decide (ladderTier = 3) || decide (ladderTier = 4))) = true := h
      simpa [or_assoc] using htiers
  rcases htiers with rfl | ⟨rfl, rfl | rfl | rfl⟩ | ⟨rfl, rfl | rfl | rfl | rfl⟩
  all_goals cases multiLossActive <;> simp [wireTier, groupSize, defaultTier]

/-- The tiers the host stamps have three bits; with more than one parity
shard they leave the group size alone. -/
theorem AdaptiveFec.Stampable.spec {fec : Option ReedSolomonFec} {tier : UInt8}
    (h : Stampable fec tier) : tier < 8 ∧ ∀ codec ∈ fec, isActive codec.parity = true →
      groupSize tier codec.groupSize = some codec.groupSize := by
  obtain ⟨ladderTier, adaptiveMEnabled, hladder, rfl⟩ := h
  refine ⟨(wireTier_ladder _ hladder).1, fun codec hcodec hactive => ?_⟩
  cases hcodec
  exact (wireTier_ladder _ hladder).2 hactive _

/-! ## §2 The layout -/

/-- The group size both ends read from a tier. -/
def tierGroup (fec : Option ReedSolomonFec) (tier : UInt8) : Option Nat :=
  fec.bind fun codec => AdaptiveFec.groupSize tier codec.groupSize

/-- The parity count of a group. -/
def tierParity (fec : Option ReedSolomonFec) (tier : UInt8) : Nat :=
  AdaptiveFec.parityCount tier (match fec with
    | none => 1
    | some codec => codec.parity)

theorem tierParity_pos (fec : Option ReedSolomonFec) (tier : UInt8) : 1 ≤ tierParity fec tier := by
  cases fec with
  | none => exact AdaptiveFec.parityCount_pos tier (Nat.le_refl 1)
  | some codec => exact AdaptiveFec.parityCount_pos tier codec.parity_pos

/-- A layout that is sent for a codec: its parity is the codec's, at the
group size and the parity count of its tier. -/
structure Layout.Coded (l : Layout) (fec : Option ReedSolomonFec) : Prop where
  count : l.parts.length ≤ maxFragmentsPerFrame
  nonempty : l.data ≠ []
  room : ∀ part ∈ l.parts, part.2.length ≤ maxDatagramSize - headerSize
  dataFlag : l.flags.contains .parity = false
  parityFlag : (l.flags.union .parity).contains .parity = true
  same : l.flags.Same (l.flags.union .parity)
  plain : tierGroup fec l.flags.fecTier = none → l.parity = []
  coded : ∀ codec ∈ fec, ∀ g, AdaptiveFec.groupSize l.flags.fecTier codec.groupSize = some g →
    1 ≤ g ∧ codec.groupSize + tierParity fec l.flags.fecTier ≤ 255 ∧
      codec.effectiveGroupSize g (tierParity fec l.flags.fecTier) = g ∧
      codec.parityM l.data g (tierParity fec l.flags.fecTier) = some l.parity

namespace VideoPacketizer

theorem coded_layout {host : VideoPacketizer} {frame : List UInt8} {options : PacketizeOptions}
    {parity : List (List UInt8)} (htier : AdaptiveFec.Stampable host.fec options.fecTier)
    (hparity : host.parityPayloads (payloadsOf frame) options.fecTier = some parity)
    (hcount : (host.layout frame options parity).parts.length ≤ maxFragmentsPerFrame) :
    (host.layout frame options parity).Coded host.fec := by
  obtain ⟨hsmall, hactive⟩ := htier.spec
  obtain ⟨htier, -, -, -, -, hdata, hflag, hsame⟩ := baseFlags_spec hsmall
  have hlayout : (host.layout frame options parity).flags.fecTier = options.fecTier := htier
  refine ⟨hcount, payloadsOf_ne_nil frame, length_part hparity, hdata, hflag, hsame, ?_, ?_⟩
  · intro hnone
    rw [hlayout] at hnone
    unfold parityPayloads at hparity
    cases hfec : host.fec with
    | none =>
      show parity = []
      simpa [hfec] using hparity.symm
    | some codec =>
      rw [hfec] at hnone
      have hgroup : AdaptiveFec.groupSize options.fecTier codec.groupSize = none := hnone
      show parity = []
      simpa [hfec, hgroup] using hparity.symm
  · intro codec hcodec g hgroup
    have hfec : host.fec = some codec := hcodec
    rw [hlayout] at hgroup ⊢
    have hm : tierParity host.fec options.fecTier = AdaptiveFec.parityCount options.fecTier codec.parity := by
      rw [hfec]
      rfl
    have hpos := tierParity_pos host.fec options.fecTier
    have hfits := (host.fits codec hcodec).parityCount_le options.fecTier
    have hg : 1 ≤ g := by
      unfold AdaptiveFec.groupSize at hgroup
      have hcodec := codec.groupSize_pos
      repeat' split at hgroup
      all_goals simp at hgroup
      all_goals omega
    refine ⟨hg, hm ▸ hfits, ?_, ?_⟩
    · -- the ceiling of the Cauchy code is the group size the tier leaves
      have hceiling : tierParity host.fec options.fecTier = 1 ∨ g = codec.groupSize := by
        by_cases hmulti : AdaptiveFec.isActive codec.parity = true
        · grind
        · have hone : codec.parity = 1 := by
            have hpos := codec.parity_pos
            simp only [AdaptiveFec.isActive, decide_eq_true_eq] at hmulti
            omega
          rw [hm, hone]
          exact .inl (by simp [AdaptiveFec.parityCount, AdaptiveFec.isActive])
      simp only [effectiveGroupSize, Nat.not_lt.mpr hg, if_false]
      rcases hceiling with hone | heq
      · rw [if_pos hone]
      · rw [heq, Nat.min_self, ite_self]
    · unfold parityPayloads at hparity
      simp only [hfec, hgroup] at hparity
      rw [parityWithM, Nat.max_eq_left (hm ▸ hpos), ← hm] at hparity
      exact hparity

end VideoPacketizer

namespace Layout

variable {l : Layout} {fec : Option ReedSolomonFec}

theorem Coded.group (h : l.Coded fec) {g : Nat} (hgroup : tierGroup fec l.flags.fecTier = some g) :
    ∃ codec, fec = some codec ∧ 1 ≤ g ∧ codec.groupSize + tierParity fec l.flags.fecTier ≤ 255 ∧
      codec.effectiveGroupSize g (tierParity fec l.flags.fecTier) = g ∧
      codec.parityM l.data g (tierParity fec l.flags.fecTier) = some l.parity := by
  obtain ⟨codec, hfec, hgroup⟩ := Option.bind_eq_some_iff.mp hgroup
  exact ⟨codec, hfec, h.coded codec hfec g hgroup⟩

theorem Coded.length_parity (h : l.Coded fec) {g : Nat} (hgroup : tierGroup fec l.flags.fecTier = some g) :
    l.parity.length = tierParity fec l.flags.fecTier * blockCount l.data.length g := by
  obtain ⟨codec, -, -, -, heffective, hparity⟩ := h.group hgroup
  rw [length_parityM hparity, heffective]

theorem Coded.length_pos (h : l.Coded fec) : 0 < l.data.length :=
  List.length_pos_iff.mpr h.nonempty

/-- A part is a data payload under the frame's flags or a parity payload
under the same with the parity bit. -/
theorem Has.cases {fragment : FrameFragment} (h : l.Has fragment) :
    (fragment.header.flags = l.flags ∧ fragment.header.fragIndex.toNat < l.data.length ∧
        l.data[fragment.header.fragIndex.toNat]? = some fragment.payload) ∨
      (fragment.header.flags = l.flags.union .parity ∧
        l.data.length ≤ fragment.header.fragIndex.toNat ∧
        l.parity[fragment.header.fragIndex.toNat - l.data.length]? = some fragment.payload) := by
  have hpart := h.part
  unfold parts at hpart
  by_cases hindex : fragment.header.fragIndex.toNat < l.data.length
  · grind
  · grind

end Layout

/-! ## §3 What a pending frame holds -/

namespace Pending

variable {l : Layout} {fec : Option ReedSolomonFec} {p p' : Pending} {arrived : List Nat}
  {fragment : FrameFragment}

/-- The pending frame of a layout, with the parts of some indices. -/
structure Filled (l : Layout) (fec : Option ReedSolomonFec) (arrived : List Nat) (p : Pending) : Prop where
  fragCount : p.fragCount.toNat = l.parts.length
  groupSize : p.groupSize = tierGroup fec l.flags.fecTier
  m : p.m = tierParity fec l.flags.fecTier
  pinned : p.pinnedDataCount = l.data.length
  observed : p.groupSize = none → p.observedDataCount = none
  data : ∀ i : Nat, p.data[i]? = if i ∈ arrived then l.data[i]? else none
  parity : ∀ s : Nat, p.parity[s]? = if l.data.length + s ∈ arrived then l.parity[s]? else none
  keyframe : p.keyframe = (decide (arrived ≠ []) && l.flags.contains .keyframe)
  crisp : p.crisp = (decide (arrived ≠ []) && l.flags.contains .crisp)
  isLtr : p.isLtr = (decide (arrived ≠ []) && l.flags.contains .isLtr)
  ackedAnchored : p.ackedAnchored = (decide (arrived ≠ []) && l.flags.contains .ackedAnchored)

theorem filled_opened {r : FrameReassembler} (hcoded : l.Coded r.fec) (hhas : l.Has fragment) :
    (r.opened fragment.header).Filled l r.fec [] := by
  have htier : fragment.header.flags.fecTier = l.flags.fecTier := by
    rcases hhas.cases with ⟨hflags, -⟩ | ⟨hflags, -⟩
    · rw [hflags]
    · rw [hflags]
      exact hcoded.same.1
  have hopened : r.opened fragment.header = .new fragment.header.fragCount
      (tierGroup r.fec l.flags.fecTier) (tierParity r.fec l.flags.fecTier) := by
    rw [← htier]
    rfl
  have hm : max (tierParity r.fec l.flags.fecTier) 1 = tierParity r.fec l.flags.fecTier :=
    Nat.max_eq_left (tierParity_pos ..)
  rw [hopened]
  cases hgroup : tierGroup r.fec l.flags.fecTier with
  | none =>
    have hnone : (none : Option Nat).filter (1 ≤ ·) = none := rfl
    have hplain := hcoded.plain hgroup
    rw [new_none hnone]
    refine ⟨hhas.fragCount, hgroup.symm, hm, ?_, fun _ => rfl, fun i => ?_, fun s => ?_,
      by simp, by simp, by simp, by simp⟩
    · have hlength := l.length_parts
      rw [hplain, List.length_nil, Nat.add_zero] at hlength
      exact hhas.fragCount.trans hlength
    · simp
    · simp
  | some g =>
    obtain ⟨codec, -, hg, -⟩ := hcoded.group hgroup
    have hsome : (some g).filter (1 ≤ ·) = some g := by simp [Option.filter, hg]
    obtain ⟨n, hn, hnew⟩ := new_some fragment.header.fragCount hsome (tierParity r.fec l.flags.fecTier)
    rw [hnew]
    refine ⟨hhas.fragCount, hgroup.symm, hm, ?_, fun h => by simp at h, fun i => ?_, fun s => ?_,
      by simp, by simp, by simp, by simp⟩
    · rw [hn, hm, hhas.fragCount, l.length_parts, hcoded.length_parity hgroup,
        invertedDataCount_total hg (tierParity_pos ..), Option.getD_some]
    · simp
    · simp

theorem noteObservedParityBoundary_groups {g : Nat} (hgroup : p.groupSize = some g) (parityIndex : Nat) :
    ∃ observed, p.noteObservedParityBoundary parityIndex = { p with observedDataCount := observed } := by
  simp [noteObservedParityBoundary, hgroup]

theorem Filled.sameMaps (h : p.Filled l fec arrived) (hsame : SameMaps p' p) : p'.Filled l fec arrived where
  fragCount := by rw [hsame.fragCount, h.fragCount]
  groupSize := hsame.groupSize.trans h.groupSize
  m := hsame.m.trans h.m
  pinned := hsame.pinned.trans h.pinned
  observed hnone := hsame.observed.trans (h.observed (hsame.groupSize ▸ hnone))
  data i := by rw [hsame.data, h.data]
  parity s := by rw [hsame.parity, h.parity]
  keyframe := hsame.flags.1.trans h.keyframe
  crisp := hsame.flags.2.1.trans h.crisp
  isLtr := hsame.flags.2.2.1.trans h.isLtr
  ackedAnchored := hsame.flags.2.2.2.trans h.ackedAnchored

theorem Filled.store (h : p.Filled l fec arrived) (hcoded : l.Coded fec) (hhas : l.Has fragment) :
    (p.store fragment).Filled l fec (fragment.header.fragIndex.toNat :: arrived) := by
  rcases hhas.cases with ⟨hflags, hindex, hpayload⟩ | ⟨hflags, hindex, hpayload⟩
  · have hstore : p.store fragment = (p.latch l.flags).storeData fragment.header.fragIndex.toNat
        fragment.payload := by
      simp [Pending.store, hflags, hcoded.dataFlag]
    rw [hstore]
    refine Filled.sameMaps (p := (p.latch l.flags).withData fragment.header.fragIndex.toNat
      fragment.payload) ?_ (sameMaps_storeData ..)
    refine ⟨h.fragCount, h.groupSize, h.m, h.pinned, h.observed, fun i => ?_, fun s => ?_, ?_, ?_, ?_, ?_⟩
    · show (p.data.insert _ _)[i]? = _
      rw [BTreeMap.lookup_insert, h.data]
      by_cases hi : i = fragment.header.fragIndex.toNat
      · simp [hi, hpayload]
      · simp [hi]
    · have hs : l.data.length + s ≠ fragment.header.fragIndex.toNat := by omega
      show p.parity[s]? = _
      rw [h.parity]
      simp [hs]
    · simp [withData, latch, h.keyframe]
    · simp [withData, latch, h.crisp]
    · simp [withData, latch, h.isLtr]
    · simp [withData, latch, h.ackedAnchored]
  · obtain ⟨-, hkeyframe, hcrisp, hltr, hacked⟩ := hcoded.same
    have hstore : p.store fragment = (p.latch (l.flags.union .parity)).storeParity
        fragment.header.fragIndex.toNat fragment.payload := by
      simp [Pending.store, hflags, hcoded.parityFlag]
    -- only a frame with groups has parity
    obtain ⟨g, hgroup⟩ : ∃ g, (p.latch (l.flags.union .parity)).groupSize = some g := by
      cases hgroup : tierGroup fec l.flags.fecTier with
      | none => simp [hcoded.plain hgroup] at hpayload
      | some g => exact ⟨g, h.groupSize.trans hgroup⟩
    have hmaps := sameMaps_storeParity (p.latch (l.flags.union .parity)) fragment.header.fragIndex.toNat
      fragment.payload
    obtain ⟨observed, hboundary⟩ :=
      noteObservedParityBoundary_groups hgroup fragment.header.fragIndex.toNat
    rw [hboundary, if_pos (by simp [hgroup])] at hmaps
    rw [hstore]
    refine Filled.sameMaps ?_ hmaps
    refine ⟨h.fragCount, h.groupSize, h.m, h.pinned, fun hplain => ?_, fun i => ?_, fun s => ?_, ?_, ?_, ?_, ?_⟩
    · exact absurd (hgroup.symm.trans hplain) (by simp)
    · have hi : i = fragment.header.fragIndex.toNat → l.data[i]? = none := by
        rintro rfl
        exact List.getElem?_eq_none hindex
      show p.data[i]? = _
      rw [h.data]
      by_cases heq : i = fragment.header.fragIndex.toNat
      · simp [hi heq]
      · simp [heq]
    · show (p.parity.insert (fragment.header.fragIndex.toNat - p.pinnedDataCount) _)[s]? = _
      rw [BTreeMap.lookup_insert, h.parity, h.pinned]
      by_cases hs : s = fragment.header.fragIndex.toNat - l.data.length
      · grind
      · grind
    · simp [withParity, latch, h.keyframe, hkeyframe]
    · simp [withParity, latch, h.crisp, hcrisp]
    · simp [withParity, latch, h.isLtr, hltr]
    · simp [withParity, latch, h.ackedAnchored, hacked]

end Pending

/-! ## §4 Completing -/

/-- Every group is within its parity: of the `n` data parts and what follows
them, no group of those that arrived misses more data than it has parity.
Without groups, all the data arrived. -/
def Recoverable (n : Nat) (group : Option Nat) (m : Nat) (arrived : List Nat) : Prop :=
  match group with
  | none => ∀ i < n, i ∈ arrived
  | some g => ∀ q < blockCount n g,
      missingData n g (fun i => i ∉ arrived) q ≤ survivingParity m (fun s => n + s ∉ arrived) q

instance (n : Nat) (group : Option Nat) (m : Nat) (arrived : List Nat) :
    Decidable (Recoverable n group m arrived) :=
  match group with
  | none => inferInstanceAs (Decidable (∀ i < n, i ∈ arrived))
  | some g => inferInstanceAs (Decidable (∀ q < blockCount n g, _ ≤ _))

namespace Pending

variable {l : Layout} {fec : Option ReedSolomonFec} {p : Pending} {arrived : List Nat}
variable {shards : List (List UInt8)}

theorem Filled.contains_data (h : p.Filled l fec arrived) {i : Nat} (hi : i < l.data.length) :
    p.data.contains i = decide (i ∈ arrived) := by
  rw [Std.ExtTreeMap.contains_eq_isSome_getElem?, h.data, List.getElem?_eq_getElem hi]
  by_cases hmem : i ∈ arrived <;> simp [hmem]

theorem Filled.contains_parity (h : p.Filled l fec arrived) {s : Nat} (hs : s < l.parity.length) :
    p.parity.contains s = decide (l.data.length + s ∈ arrived) := by
  rw [Std.ExtTreeMap.contains_eq_isSome_getElem?, h.parity, List.getElem?_eq_getElem hs]
  by_cases hmem : l.data.length + s ∈ arrived <;> simp [hmem]

theorem slot_lt {m q r groups : Nat} (hq : q < groups) (hr : r < m) : q * m + r < m * groups := by
  calc q * m + r < q * m + m := Nat.add_lt_add_left hr _
    _ = m * (q + 1) := by rw [Nat.mul_comm q m, Nat.mul_succ]
    _ ≤ m * groups := Nat.mul_le_mul_left m hq

theorem Filled.resolvedDataCount (h : p.Filled l fec arrived) (hcoded : l.Coded fec) :
    p.resolvedDataCount = l.data.length := by
  unfold Pending.resolvedDataCount
  split
  · exact h.pinned
  · rename_i hnone
    have hplain : p.groupSize = none := by simpa using hnone
    rw [observedBoundary, h.observed hplain, Option.getD_none, h.fragCount, l.length_parts,
      hcoded.plain (h.groupSize.symm.trans hplain), List.length_nil, Nat.add_zero]

theorem Filled.canComplete_iff (h : p.Filled l fec arrived) (hcoded : l.Coded fec) (hcounted : p.Counted) :
    p.canEventuallyComplete = true ↔
      Recoverable l.data.length (tierGroup fec l.flags.fecTier) (tierParity fec l.flags.fecTier) arrived := by
  have hpos := hcoded.length_pos
  cases hgroup : tierGroup fec l.flags.fecTier with
  | none =>
    have hplain := h.groupSize.trans hgroup
    have hboundary : p.observedBoundary = l.data.length := by
      rw [observedBoundary, h.observed hplain, Option.getD_none, h.fragCount, l.length_parts,
        hcoded.plain hgroup, List.length_nil, Nat.add_zero]
    rw [hcounted.canComplete_plain hplain (by omega), hboundary]
    constructor
    · intro hall i hi
      simpa [h.contains_data hi] using hall i hi
    · intro hall i hi
      simpa [h.contains_data hi] using hall i hi
  | some g =>
    have hlength := hcoded.length_parity hgroup
    rw [(hcounted.groups (h.groupSize.trans hgroup)).canComplete_iff (by rw [h.pinned]; omega), h.pinned]
    refine forall_congr' fun q => forall_congr' fun hq => ?_
    have hmissing : p.missing g q = missingData l.data.length g (fun i => i ∉ arrived) q := by
      rw [missing, h.pinned]
      refine countP_range_congr fun i hi => ?_
      simp only [h.contains_data hi]
      by_cases hmem : i ∈ arrived <;> simp [hmem]
    have hsurviving : p.surviving q = survivingParity (tierParity fec l.flags.fecTier)
        (fun s => l.data.length + s ∉ arrived) q := by
      rw [surviving, h.m]
      refine countP_range_congr fun r hr => ?_
      have hslot : q * tierParity fec l.flags.fecTier + r < l.parity.length := by
        rw [hlength]
        exact slot_lt hq hr
      simp only [h.contains_parity hslot]
      simp
    rw [hmissing, hsurviving]

theorem map_range_survive {lookup : Nat → Option (List UInt8)}
    {held : Nat → Bool} (h : ∀ i < shards.length, lookup i = if held i then shards[i]? else none) :
    (List.range shards.length).map lookup = survive (fun i => !held i) shards := by
  refine List.ext_getElem? fun i => ?_
  rw [getElem?_survive, List.getElem?_map]
  rcases Nat.lt_or_ge i shards.length with hi | hi
  · grind
  · grind

theorem survive_eq {lost : Nat → Bool}
    (h : ∀ i < shards.length, lost i = false) : survive lost shards = shards.map some := by
  refine List.ext_getElem? fun i => ?_
  rw [getElem?_survive, List.getElem?_map]
  rcases Nat.lt_or_ge i shards.length with hi | hi
  · simp [List.getElem?_eq_getElem hi, h i hi]
  · simp [List.getElem?_eq_none hi]

theorem all_survive {lost : Nat → Bool} :
    (survive lost shards).all Option.isSome = true ↔ ∀ i < shards.length, lost i = false := by
  simp only [List.all_eq_true, survive, List.mem_mapIdx]
  constructor
  · intro h i hi
    have hslot := h _ ⟨i, hi, rfl⟩
    cases hlost : lost i with
    | false => rfl
    | true => simp [hlost] at hslot
  · rintro h slot ⟨i, hi, rfl⟩
    simp [h i hi]

theorem filterMap_map_some (shards : List (List UInt8)) : (shards.map some).filterMap id = shards := by
  rw [List.filterMap_map]
  exact List.filterMap_some

theorem Filled.assemble (h : p.Filled l fec arrived) (hcoded : l.Coded fec)
    (hrecoverable : Recoverable l.data.length (tierGroup fec l.flags.fecTier)
      (tierParity fec l.flags.fecTier) arrived) :
    ∃ recovered, p.assemble fec = some (l.data.flatten, recovered) := by
  have hpos := hcoded.length_pos
  have hcount := h.resolvedDataCount hcoded
  have hpresent : ((List.range l.data.length).map fun i => p.data[i]?) =
      survive (fun i => !decide (i ∈ arrived)) l.data :=
    map_range_survive fun i _ => by rw [h.data]; simp
  have hnone : l.data.length ≠ 0 := by omega
  unfold Pending.assemble
  simp only [hcount, hnone, if_false, hpresent]
  by_cases hfull : (survive (fun i => !decide (i ∈ arrived)) l.data).all Option.isSome = true
  · rw [if_pos hfull, survive_eq (all_survive.mp hfull), filterMap_map_some]
    exact ⟨false, rfl⟩
  rw [if_neg hfull]
  cases hgroup : tierGroup fec l.flags.fecTier with
  | none =>
    -- without groups nothing is missing
    rw [hgroup] at hrecoverable
    have hall : ∀ i < l.data.length, i ∈ arrived := hrecoverable
    exact absurd (all_survive.mpr fun i hi => by simp [hall i hi]) hfull
  | some g =>
    obtain ⟨codec, rfl, hg, hfits, heffective, hencode⟩ := hcoded.group hgroup
    have hm := tierParity_pos (some codec) l.flags.fecTier
    have hparity : ((List.range (p.fragCount.toNat - l.data.length)).map fun s => p.parity[s]?) =
        survive (fun s => !decide (l.data.length + s ∈ arrived)) l.parity := by
      rw [h.fragCount, l.length_parts, Nat.add_sub_cancel_left]
      exact map_range_survive fun s _ => by rw [h.parity]; simp
    have hshort : ∀ shard ∈ l.data, shard.length < 2 ^ 32 := fun shard hshard =>
      Nat.lt_of_le_of_lt (hcoded.room (l.flags, shard)
        (List.mem_append_left _ (List.mem_map_of_mem hshard))) (by decide)
    have hrecover := recoverM_survive codec l.data g (tierParity (some codec) l.flags.fecTier)
      (fun i => !decide (i ∈ arrived)) (fun s => !decide (l.data.length + s ∈ arrived)) hm hfits hshort hencode
    rw [heffective] at hrecover
    rw [hgroup] at hrecoverable
    have hwithin : ∀ q < blockCount l.data.length g,
        missingData l.data.length g (fun i => i ∉ arrived) q ≤
          survivingParity (tierParity (some codec) l.flags.fecTier)
            (fun s => l.data.length + s ∉ arrived) q := hrecoverable
    have hfilled : codec.recoverWithM (survive (fun i => !decide (i ∈ arrived)) l.data)
        (survive (fun s => !decide (l.data.length + s ∈ arrived)) l.parity) g
        (tierParity (some codec) l.flags.fecTier) = some (l.data.map some) := by
      rw [recoverWithM, Nat.max_eq_left hm, hrecover]
      refine congrArg some (List.ext_getElem? fun i => ?_)
      rw [List.getElem?_mapIdx, List.getElem?_map]
      rcases Nat.lt_or_ge i l.data.length with hi | hi
      · have hkept := hwithin (i / g) ((lt_blockCount hg).mpr (div_mul_lt hi))
        simp only [decide_not] at hkept
        rw [List.getElem?_eq_getElem hi, Option.map_some, Option.map_some,
          if_neg fun hlost => absurd hlost.2 (Nat.not_lt.mpr hkept)]
      · rw [List.getElem?_eq_none hi]
        rfl
    rw [h.groupSize, hgroup, hparity, h.m]
    simp only [hfilled]
    rw [if_pos (by simp), filterMap_map_some]
    exact ⟨true, rfl⟩

end Pending

end SlopDesk.Video
