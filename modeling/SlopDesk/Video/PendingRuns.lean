/-
SlopDesk.Video.PendingRuns — in any run of the reassembler, the counters
of a pending frame are those recomputed from the fragments it was given.

Beside the reassembler goes a record of the fragments each frame has taken
since it was opened. What a frame keeps of them is which data indices and
which parity slots are there (`Holds`); with that the counters, which agree
with the maps (`Pending.Counted`), agree with the fragments.
-/
import SlopDesk.Video.PendingTheorems
import SlopDesk.Video.ReassemblerTheorems

namespace SlopDesk.Video

open SlopDesk.Base
open SlopDesk.Base.Blocks
open ReedSolomonFec

/-! ## What was received -/

/-- Whether a data fragment of this index is among these. -/
def receivedData (fragments : List FrameFragment) (index : Nat) : Bool :=
  fragments.any fun f => !f.header.flags.contains .parity && f.header.fragIndex.toNat = index

/-- Whether a parity fragment of this slot, past the boundary, is. -/
def receivedSlot (boundary : Nat) (fragments : List FrameFragment) (slot : Nat) : Bool :=
  fragments.any fun f => f.header.flags.contains .parity && f.header.fragIndex.toNat - boundary = slot

/-- The lowest parity index among these, or the whole frame. -/
def lowestParity (fragCount : Nat) (fragments : List FrameFragment) : Nat :=
  fragments.foldl (fun lowest f =>
    if f.header.flags.contains .parity then min lowest f.header.fragIndex.toNat else lowest) fragCount

/-- How many data fragments of group `q` are missing, of `n` in groups of
`g`. -/
def missingOf (n g : Nat) (fragments : List FrameFragment) (q : Nat) : Nat :=
  missingData n g (fun index => !receivedData fragments index) q

/-- How many of the `m` parity shards of group `q` survive. -/
def survivingOf (n m : Nat) (fragments : List FrameFragment) (q : Nat) : Nat :=
  survivingParity m (fun slot => !receivedSlot n fragments slot) q

/-- How many groups are in a class. -/
def groupsIn (n g m : Nat) (fragments : List FrameFragment) (c : GroupClass) : Nat :=
  (List.range (blockCount n g)).countP fun q =>
    GroupClass.of m (missingOf n g fragments q) (survivingOf n m fragments q) = some c

namespace Pending

/-- The counters of a frame are those recomputed from these fragments, the
boundary, the group size and the parity count. -/
def Recounts (p : Pending) (fragments : List FrameFragment) : Prop :=
  match p.groupSize with
  | none => p.dataPresentBelowBoundary =
        (List.range (lowestParity p.fragCount.toNat fragments)).countP (receivedData fragments) ∧
      p.missingPerGroup = [] ∧ p.survivingPerGroup = [] ∧
      p.hopelessGroups = 0 ∧ p.recoverableNowGroups = 0 ∧ p.awaitingGroups = 0
  | some g =>
    p.missingPerGroup =
        (List.range (blockCount p.pinnedDataCount g)).map (missingOf p.pinnedDataCount g fragments) ∧
      p.survivingPerGroup =
        (List.range (blockCount p.pinnedDataCount g)).map (survivingOf p.pinnedDataCount p.m fragments) ∧
      p.hopelessGroups = groupsIn p.pinnedDataCount g p.m fragments .hopeless ∧
      p.recoverableNowGroups = groupsIn p.pinnedDataCount g p.m fragments .recoverable ∧
      p.awaitingGroups = groupsIn p.pinnedDataCount g p.m fragments .awaiting

/-- What a frame keeps of the fragments it was given. -/
structure Holds (p : Pending) (fragments : List FrameFragment) : Prop where
  data : ∀ index, p.data.contains index = receivedData fragments index
  parity : p.groupSize.isSome → ∀ slot,
    p.parity.contains slot = receivedSlot p.pinnedDataCount fragments slot
  boundary : p.observedBoundary = lowestParity p.fragCount.toNat fragments

/-- A frame without groups counts none. -/
def Groupless (p : Pending) : Prop :=
  p.groupSize = none → p.missingPerGroup = [] ∧ p.survivingPerGroup = [] ∧
    p.hopelessGroups = 0 ∧ p.recoverableNowGroups = 0 ∧ p.awaitingGroups = 0

theorem groupless_new (fragCount : UInt16) (groupSize : Option Nat) (shards : Nat) :
    (Pending.new fragCount groupSize shards).Groupless := by
  intro hgroup
  cases hsize : groupSize.filter (1 ≤ ·) with
  | none =>
    rw [new_none hsize]
    exact ⟨rfl, rfl, rfl, rfl, rfl⟩
  | some g =>
    obtain ⟨n, -, hnew⟩ := new_some fragCount hsize shards
    simp [hnew] at hgroup

theorem holds_new (fragCount : UInt16) (groupSize : Option Nat) (shards : Nat) :
    (Pending.new fragCount groupSize shards).Holds [] := by
  cases hgroup : groupSize.filter (1 ≤ ·) with
  | none =>
    rw [new_none hgroup]
    exact ⟨by simp [receivedData], by simp, by simp [observedBoundary, lowestParity]⟩
  | some g =>
    obtain ⟨n, -, hnew⟩ := new_some fragCount hgroup shards
    rw [hnew]
    exact ⟨by simp [receivedData], by simp [receivedSlot], by simp [observedBoundary, lowestParity]⟩

variable {p p' : Pending} {fragments : List FrameFragment} {fragment : FrameFragment}

theorem Holds.sameMaps (h : p.Holds fragments) (hsame : SameMaps p' p) : p'.Holds fragments where
  data index := by rw [hsame.data, h.data]
  parity hgroup slot := by
    rw [hsame.parity, hsame.pinned]
    exact h.parity (hsame.groupSize ▸ hgroup) slot
  boundary := by
    have hboundary : p'.observedBoundary = p.observedBoundary := by
      rw [observedBoundary, hsame.observed, hsame.fragCount, observedBoundary]
    rw [hboundary, hsame.fragCount, h.boundary]

theorem observedBoundary_note (p : Pending) {parityIndex : Nat} (hindex : parityIndex < p.fragCount.toNat) :
    (p.noteObservedParityBoundary parityIndex).observedBoundary = min p.observedBoundary parityIndex := by
  unfold noteObservedParityBoundary observedBoundary
  cases hseen : p.observedDataCount with
  | none =>
    grind
  | some seen => cases hgroup : p.groupSize <;> simp

theorem noteObservedParityBoundary_fields (p : Pending) (parityIndex : Nat) :
    (p.noteObservedParityBoundary parityIndex).fragCount = p.fragCount ∧
      (p.noteObservedParityBoundary parityIndex).data = p.data ∧
      (p.noteObservedParityBoundary parityIndex).parity = p.parity ∧
      (p.noteObservedParityBoundary parityIndex).groupSize = p.groupSize ∧
      (p.noteObservedParityBoundary parityIndex).pinnedDataCount = p.pinnedDataCount := by
  unfold noteObservedParityBoundary
  dsimp only
  split <;> exact ⟨rfl, rfl, rfl, rfl, rfl⟩

theorem contains_insert (map : BTreeMap Nat (List UInt8)) (key key' : Nat) (payload : List UInt8) :
    (map.insert key payload).contains key' = (decide (key = key') || map.contains key') := by
  rw [Std.ExtTreeMap.contains_insert, Bool.eq_iff_iff]
  simp

theorem Holds.latch (h : p.Holds fragments) (flags : Flags) : (p.latch flags).Holds fragments :=
  ⟨h.data, h.parity, h.boundary⟩

theorem Holds.storeData (h : p.Holds fragments) (hflag : fragment.header.flags.contains .parity = false) :
    (p.storeData fragment.header.fragIndex.toNat fragment.payload).Holds (fragments ++ [fragment]) := by
  refine Holds.sameMaps ⟨fun index => ?_, fun hgroup slot => ?_, ?_⟩ (sameMaps_storeData ..)
  · have hdata := h.data index
    rw [withData, contains_insert]
    simp [receivedData, hflag, hdata, Bool.or_comm]
  · have hparity := h.parity hgroup slot
    change p.parity.contains slot = receivedSlot p.pinnedDataCount (fragments ++ [fragment]) slot
    simp [receivedSlot, hflag, hparity]
  · have hboundary := h.boundary
    change p.observedBoundary = lowestParity p.fragCount.toNat _
    simp [lowestParity, hflag, hboundary]

theorem Holds.storeParity (h : p.Holds fragments) (hflag : fragment.header.flags.contains .parity = true)
    (hindex : fragment.header.fragIndex.toNat < p.fragCount.toNat) :
    (p.storeParity fragment.header.fragIndex.toNat fragment.payload).Holds (fragments ++ [fragment]) := by
  obtain ⟨hcount, hdata, hparity, hgroupSize, hpinned⟩ :=
    p.noteObservedParityBoundary_fields fragment.header.fragIndex.toNat
  refine Holds.sameMaps ⟨fun index => ?_, fun hgroup slot => ?_, ?_⟩ (sameMaps_storeParity ..)
  · have hbefore := h.data index
    simp [withParity, hdata, receivedData, hflag, hbefore]
  · have hgroup' : p.groupSize.isSome = true := hgroupSize ▸ hgroup
    have hbefore := h.parity hgroup' slot
    rw [withParity, contains_insert, hparity, hbefore]
    simp [hpinned, receivedSlot, hflag, hgroup', Bool.or_comm]
  · have hbefore := h.boundary
    change (p.noteObservedParityBoundary fragment.header.fragIndex.toNat).observedBoundary =
      lowestParity (p.noteObservedParityBoundary fragment.header.fragIndex.toNat).fragCount.toNat _
    rw [p.observedBoundary_note hindex, hcount]
    simp [lowestParity, hflag, hbefore]

theorem Holds.store (h : p.Holds fragments) (hindex : fragment.header.fragIndex.toNat < p.fragCount.toNat) :
    (p.store fragment).Holds (fragments ++ [fragment]) := by
  unfold Pending.store
  cases hflag : fragment.header.flags.contains .parity with
  | true => exact (h.latch fragment.header.flags).storeParity hflag hindex
  | false => exact (h.latch fragment.header.flags).storeData hflag

theorem groupless_noteParityArrived (h : p.groupSize = none) (slot : Nat) :
    p.noteParityArrived slot = p := by
  simp [noteParityArrived, h]

theorem Groupless.store (h : p.Groupless) (fragment : FrameFragment) : (p.store fragment).Groupless := by
  intro hgroup
  have hsize : p.groupSize = none := by
    unfold Pending.store at hgroup
    split at hgroup
    · rw [(sameMaps_storeParity ..).groupSize] at hgroup
      exact (noteObservedParityBoundary_fields (p.latch fragment.header.flags) _).2.2.2.1.symm.trans hgroup
    · rw [(sameMaps_storeData ..).groupSize] at hgroup
      exact hgroup
  have hcounts := h hsize
  unfold Pending.store
  split
  · simp only [storeParity_eq]
    have hnoted : ∀ q slot, (((p.latch fragment.header.flags).noteObservedParityBoundary q).withParity slot
        fragment.payload).groupSize = none := fun q _ =>
      (noteObservedParityBoundary_fields ..).2.2.2.1.trans hsize
    rw [groupless_noteParityArrived (hnoted ..), ite_self]
    unfold noteObservedParityBoundary
    dsimp only
    split <;> exact hcounts
  · rw [storeData_eq]
    unfold noteDataArrived
    have hsize' : ((p.latch fragment.header.flags).withData fragment.header.fragIndex.toNat
        fragment.payload).groupSize = none := hsize
    simp only [hsize']
    repeat' split
    all_goals exact hcounts

/-- The maps agree with the fragments, so what was counted from the maps was
counted from the fragments. -/
theorem Counted.recounts (h : p.Counted) (hholds : p.Holds fragments) (hplain : p.Groupless) :
    p.Recounts fragments := by
  unfold Recounts
  cases hgroup : p.groupSize with
  | none =>
    have hcount := (counted_plain hgroup).mp h
    rw [hholds.boundary] at hcount
    refine ⟨hcount.trans (countP_range_congr fun index _ => ?_), hplain hgroup⟩
    rw [hholds.data]
  | some g =>
    have hgroups := h.groups hgroup
    have hmissing : ∀ q, p.missing g q = missingOf p.pinnedDataCount g fragments q := by
      intro q
      simp only [missing, missingOf, hholds.data]
    have hsurviving : ∀ q, p.surviving q = survivingOf p.pinnedDataCount p.m fragments q := by
      intro q
      simp only [surviving, survivingOf, hholds.parity (by simp [hgroup])]
    have hcounter : ∀ c, p.counter c = groupsIn p.pinnedDataCount g p.m fragments c := by
      intro c
      rw [hgroups.counters, groupsIn]
      simp only [hmissing, hsurviving]
    refine ⟨List.ext_getElem? fun q => ?_, List.ext_getElem? fun q => ?_, hcounter .hopeless,
      hcounter .recoverable, hcounter .awaiting⟩
    · rw [hgroups.missing, hmissing]
      by_cases hq : q < blockCount p.pinnedDataCount g <;> simp [hq]
    · rw [hgroups.surviving, hsurviving]
      by_cases hq : q < blockCount p.pinnedDataCount g <;> simp [hq]

end Pending

/-! ## The run -/

/-- A reassembler and the fragments each frame has taken since it was
opened. -/
structure Recorded where
  reassembler : FrameReassembler
  received : UInt32 → List FrameFragment

namespace Recorded

variable {t : Recorded}

/-- Before the first fragment. -/
def start (reassembler : FrameReassembler) : Recorded := ⟨reassembler, fun _ => []⟩

/-- One operation. A fragment the reassembler takes is recorded, with those
of its frame if it is pending. -/
def step (t : Recorded) : ReassemblerOp → Recorded
  | .ingest fragment =>
    { reassembler := (t.reassembler.ingest fragment).2
      received := fun id =>
        if (t.reassembler.ingest fragment).1 = .stale ∨ id ≠ fragment.header.frameId then t.received id
        else if t.reassembler.pending.contains id then t.received id ++ [fragment]
        else [fragment] }
  | .nextDroppedFrame => { t with reassembler := t.reassembler.nextDroppedFrame.2 }
  | .nextNeedsRetransmit => { t with reassembler := t.reassembler.nextNeedsRetransmit.2 }

/-- Every pending frame is counted, and holds what was recorded. -/
def Kept (t : Recorded) : Prop :=
  ∀ (id : UInt32) (entry : Pending), t.reassembler.pending[id]? = some entry →
    entry.Counted ∧ entry.Holds (t.received id) ∧ entry.Groupless

open FrameReassembler in
theorem Kept.storedIn (h : t.Kept) {fragment : FrameFragment} (haccepts : t.reassembler.Accepts fragment) :
    (t.reassembler.storedIn fragment).Counted ∧
      (t.reassembler.storedIn fragment).Holds (if t.reassembler.pending.contains fragment.header.frameId then
          t.received fragment.header.frameId ++ [fragment] else [fragment]) ∧
      (t.reassembler.storedIn fragment).Groupless := by
  have hindex : fragment.header.fragIndex.toNat < (t.reassembler.entryOf fragment).fragCount.toNat := by
    have hwell := haccepts.1.1
    simp only [malformed, decide_eq_false_iff_not, not_or] at hwell
    rw [← haccepts.2]
    exact UInt16.lt_iff_toNat_lt.mp (UInt16.not_le.mp hwell.2.2.1)
  unfold FrameReassembler.storedIn
  cases hentry : t.reassembler.pending[fragment.header.frameId]? with
  | none =>
    have hopens : t.reassembler.entryOf fragment = t.reassembler.opened fragment.header := by
      simp [entryOf, hentry]
    rw [hopens] at hindex ⊢
    rw [if_neg (by simp [Std.ExtTreeMap.contains_eq_isSome_getElem?, hentry])]
    exact ⟨(Pending.counted_new ..).store hindex, (Pending.holds_new ..).store hindex,
      (Pending.groupless_new _ _ _).store fragment⟩
  | some entry =>
    have hown : t.reassembler.entryOf fragment = entry := by simp [entryOf, hentry]
    obtain ⟨hcounted, hholds, hplain⟩ := h _ entry hentry
    rw [hown] at hindex ⊢
    rw [if_pos (by simp [Std.ExtTreeMap.contains_eq_isSome_getElem?, hentry])]
    exact ⟨hcounted.store hindex, hholds.store hindex, hplain.store fragment⟩

open FrameReassembler in
theorem Kept.ingest (h : t.Kept) (fragment : FrameFragment) : (t.step (.ingest fragment)).Kept := by
  intro id entry hentry
  change (t.reassembler.ingest fragment).2.pending[id]? = some entry at hentry
  simp only [step]
  by_cases haccepts : t.reassembler.Accepts fragment
  · have hstale : (t.reassembler.ingest fragment).1 ≠ .stale := by
      obtain ⟨_, -, hcases⟩ := ingest_accepts haccepts
      rcases hcases with ⟨-, -, _, _, -, hresult⟩ | ⟨-, -, -, hresult⟩ | ⟨-, -, -, hresult⟩ <;>
        simp [hresult]
    rw [pending_ingest haccepts] at hentry
    split at hentry
    · simp at hentry
    split at hentry
    · rename_i hid
      subst hid
      split at hentry
      · simp at hentry
      · cases hentry
        simpa [hstale] using h.storedIn haccepts
    · rename_i hid
      simpa [hid] using h id entry hentry
  · obtain ⟨hresult, seen, candidates, rejected, hstate, -⟩ := ingest_refused haccepts
    rw [hstate] at hentry
    simpa [hresult] using h id entry hentry

theorem Kept.step (h : t.Kept) (op : ReassemblerOp) : (t.step op).Kept := by
  cases op with
  | ingest fragment => exact h.ingest fragment
  | nextDroppedFrame =>
    have hsame : t.reassembler.nextDroppedFrame.2.pending = t.reassembler.pending := by
      unfold FrameReassembler.nextDroppedFrame
      split <;> rfl
    simpa [Kept, Recorded.step, hsame] using h
  | nextNeedsRetransmit =>
    have hsame : t.reassembler.nextNeedsRetransmit.2.pending = t.reassembler.pending := by
      unfold FrameReassembler.nextNeedsRetransmit
      split <;> rfl
    simpa [Kept, Recorded.step, hsame] using h

/-- The counters of every frame that is pending after a run are those
recomputed from the fragments it has taken. -/
theorem pending_recounts (fec : Option ReedSolomonFec) (fits : ∀ codec ∈ fec, AdaptiveFec.Fits codec)
    (fecReorderGrace : Int) (retransmit : Option (Int × Nat)) (ops : List ReassemblerOp) :
    let t := run step (start (Stream.configured fec fits fecReorderGrace retransmit)) ops
    ∀ (id : UInt32) (entry : Pending), t.reassembler.pending[id]? = some entry →
      entry.Recounts (t.received id) := by
  intro t id entry hentry
  have hstart : (start (Stream.configured fec fits fecReorderGrace retransmit)).Kept := by
    intro id entry hentry
    have hnone : (Stream.configured fec fits fecReorderGrace retransmit).pending[id]? = none := by
      cases retransmit <;> exact Std.ExtTreeMap.getElem?_empty
    exact absurd (hnone.symm.trans hentry) (by simp)
  have hkept := run_invariant Kept (fun _ op h => h.step op) hstart ops
  obtain ⟨hcounted, hholds, hplain⟩ := hkept id entry hentry
  exact hcounted.recounts hholds hplain

/-- A frame that was sent one of its fragments twice. -/
theorem pending_recounts_duplicate :
    let ops := [.ingest (Stream.fragmentOf 0 1 4 .empty [1]), .ingest (Stream.fragmentOf 0 3 4 .parity [5]),
      .ingest (Stream.fragmentOf 0 1 4 .empty [1])]
    let t := run step (start (Stream.configured (some .default) (by decide) 2 none)) ops
    t.reassembler.pending.contains 0 = true ∧ (t.received 0).length = 3 ∧
      ∀ (id : UInt32) (entry : Pending), t.reassembler.pending[id]? = some entry →
        entry.Recounts (t.received id) := by
  intro ops t
  have hopen : t.reassembler.pending.contains 0 = true ∧ (t.received 0).length = 3 := by decide +kernel
  exact ⟨hopen.1, hopen.2, pending_recounts (some .default) (by decide) 2 none ops⟩

end Recorded

end SlopDesk.Video
