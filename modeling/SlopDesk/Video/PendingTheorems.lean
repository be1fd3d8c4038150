/-
SlopDesk.Video.PendingTheorems — the running counters of a pending frame
are the scan they stand for.

§1 the class a group's two counts put it in, and what the tally does to
the number of groups in each. §2 the counters agree with the maps when a
frame is opened, and storing any fragment keeps them so. §3 what follows:
a frame can complete exactly when no group misses more data than it has
parity. §4 the number of data fragments is recovered from the total.
-/
import SlopDesk.Video.FecRecovery
import SlopDesk.Video.Reassembler

namespace SlopDesk.Video

open SlopDesk.Base
open SlopDesk.Base.Blocks
open ReedSolomonFec

variable {g m n : Nat}

/-! ## §1 Classes -/

/-- The classes of the groups that miss something. -/
inductive GroupClass where
  | hopeless
  | recoverable
  | awaiting
  deriving DecidableEq

/-- The class of a group. -/
def GroupClass.of (m missing surviving : Nat) : Option GroupClass :=
  if missing < 1 then none
  else if m < missing then some .hopeless
  else if missing ≤ surviving then some .recoverable
  else some .awaiting

theorem GroupClass.of_zero (m : Nat) {missing : Nat} (h : 0 < missing) :
    GroupClass.of m missing 0 = some (if m < missing then .hopeless else .awaiting) := by
  have hsome : ¬ missing < 1 := by omega
  have hnone : ¬ missing ≤ 0 := by omega
  by_cases hhopeless : m < missing
  · simp [GroupClass.of, hsome, hhopeless]
  · simp [GroupClass.of, hsome, hhopeless, hnone]

namespace Pending

variable {p p' : Pending} {group g index slot : Nat}
variable {q parityIndex : Nat} {groupSize : Option Nat}

/-- The counter of a class. -/
def counter (p : Pending) : GroupClass → Nat
  | .hopeless => p.hopelessGroups
  | .recoverable => p.recoverableNowGroups
  | .awaiting => p.awaitingGroups

/-- Nothing but the counters, and what they count. -/
structure SameMaps (p' p : Pending) : Prop where
  fragCount : p'.fragCount = p.fragCount
  data : p'.data = p.data
  parity : p'.parity = p.parity
  observed : p'.observedDataCount = p.observedDataCount
  groupSize : p'.groupSize = p.groupSize
  m : p'.m = p.m
  pinned : p'.pinnedDataCount = p.pinnedDataCount
  flags : p'.keyframe = p.keyframe ∧ p'.crisp = p.crisp ∧ p'.isLtr = p.isLtr ∧
    p'.ackedAnchored = p.ackedAnchored

/-- Nothing but the counters of the classes. -/
structure SameGroups (p' p : Pending) : Prop extends SameMaps p' p where
  missing : p'.missingPerGroup = p.missingPerGroup
  surviving : p'.survivingPerGroup = p.survivingPerGroup

theorem SameMaps.trans {p'' : Pending} (h : SameMaps p'' p') (h' : SameMaps p' p) : SameMaps p'' p where
  fragCount := h.fragCount.trans h'.fragCount
  data := h.data.trans h'.data
  parity := h.parity.trans h'.parity
  observed := h.observed.trans h'.observed
  groupSize := h.groupSize.trans h'.groupSize
  m := h.m.trans h'.m
  pinned := h.pinned.trans h'.pinned
  flags := ⟨h.flags.1.trans h'.flags.1, h.flags.2.1.trans h'.flags.2.1,
    h.flags.2.2.1.trans h'.flags.2.2.1, h.flags.2.2.2.trans h'.flags.2.2.2⟩

theorem SameMaps.refl (p : Pending) : SameMaps p p := ⟨rfl, rfl, rfl, rfl, rfl, rfl, rfl, rfl, rfl, rfl, rfl⟩

theorem sameGroups_tally (p : Pending) (group : Nat) (add : Bool) : SameGroups (p.tally group add) p := by
  unfold tally
  dsimp only
  repeat' split
  all_goals exact ⟨⟨rfl, rfl, rfl, rfl, rfl, rfl, rfl, rfl, rfl, rfl, rfl⟩, rfl, rfl⟩

theorem sameMaps_noteDataArrived (p : Pending) (index : Nat) : SameMaps (p.noteDataArrived index) p := by
  unfold noteDataArrived
  split
  · split
    · exact ⟨rfl, rfl, rfl, rfl, rfl, rfl, rfl, rfl, rfl, rfl, rfl⟩
    · exact .refl p
  · rename_i g _
    split
    · exact .refl p
    · have hout := (sameGroups_tally p (index / g) false).toSameMaps
      have hback := (sameGroups_tally { p.tally (index / g) false with
        missingPerGroup := (p.tally (index / g) false).missingPerGroup.modify (index / g) (· - 1) }
        (index / g) true).toSameMaps
      exact hback.trans ⟨hout.fragCount, hout.data, hout.parity, hout.observed, hout.groupSize,
        hout.m, hout.pinned, hout.flags⟩

theorem sameMaps_noteParityArrived (p : Pending) (slot : Nat) : SameMaps (p.noteParityArrived slot) p := by
  unfold noteParityArrived
  split
  · exact .refl p
  · dsimp only
    split
    · exact .refl p
    · have hout := (sameGroups_tally p (slot / p.m) false).toSameMaps
      have hback := (sameGroups_tally { p.tally (slot / p.m) false with
        survivingPerGroup := (p.tally (slot / p.m) false).survivingPerGroup.modify (slot / p.m) (· + 1) }
        (slot / p.m) true).toSameMaps
      exact hback.trans ⟨hout.fragCount, hout.data, hout.parity, hout.observed, hout.groupSize,
        hout.m, hout.pinned, hout.flags⟩

theorem counter_tally {missing surviving : Nat} (add : Bool)
    (hmissing : p.missingPerGroup[group]? = some missing)
    (hsurviving : p.survivingPerGroup[group]? = some surviving) (c : GroupClass) :
    (p.tally group add).counter c =
      if GroupClass.of p.m missing surviving = some c then
        if add then p.counter c + 1 else p.counter c - 1
      else p.counter c := by
  unfold tally GroupClass.of
  simp only [hmissing, hsurviving, Option.getD_some]
  by_cases hnone : missing < 1
  · simp [hnone]
  by_cases hhopeless : p.m < missing
  · cases c <;> simp [hnone, hhopeless, counter]
  by_cases hnow : missing ≤ surviving
  · cases c <;> simp [hnone, hhopeless, hnow, counter]
  · cases c <;> simp [hnone, hhopeless, hnow, counter]

/-- Taking a group out of its class and putting it back with new counts
moves it from its old class to its new one. -/
theorem counter_regroup {groups : Nat} (missing surviving missing' surviving' : Nat → Nat)
    (hgroup : group < groups) (hmissing : p.missingPerGroup[group]? = some (missing group))
    (hsurviving : p.survivingPerGroup[group]? = some (surviving group))
    (hmissing' : p'.missingPerGroup[group]? = some (missing' group))
    (hsurviving' : p'.survivingPerGroup[group]? = some (surviving' group)) (hm : p'.m = p.m)
    (hcounter : ∀ c, p'.counter c = (p.tally group false).counter c)
    (hsame : ∀ q < groups, q ≠ group → missing' q = missing q ∧ surviving' q = surviving q)
    (h : ∀ c, p.counter c = (List.range groups).countP fun q =>
      GroupClass.of p.m (missing q) (surviving q) = some c) (c : GroupClass) :
    (p'.tally group true).counter c = (List.range groups).countP fun q =>
      GroupClass.of p.m (missing' q) (surviving' q) = some c := by
  have hupdate := countP_range_update
    (fun q => decide (GroupClass.of p.m (missing' q) (surviving' q) = some c))
    (fun q => decide (GroupClass.of p.m (missing q) (surviving q) = some c)) hgroup
    fun q hq hne => by rw [(hsame q hq hne).1, (hsame q hq hne).2]
  have hpos : GroupClass.of p.m (missing group) (surviving group) = some c →
      0 < (List.range groups).countP fun q => GroupClass.of p.m (missing q) (surviving q) = some c :=
    fun hclass => List.countP_pos_iff.mpr ⟨group, List.mem_range.mpr hgroup, by simpa using hclass⟩
  rw [counter_tally true hmissing' hsurviving', hcounter, counter_tally false hmissing hsurviving, hm, h c]
  simp only [decide_eq_true_eq] at hupdate
  by_cases hold : GroupClass.of p.m (missing group) (surviving group) = some c
  · grind
  · grind

/-! ## §2 The counters -/

/-- The data shards of a group that have not arrived. -/
def missing (p : Pending) (g q : Nat) : Nat :=
  missingData p.pinnedDataCount g (fun i => !p.data.contains i) q

/-- The parity shards of a group that have. -/
def surviving (p : Pending) (q : Nat) : Nat :=
  survivingParity p.m (fun s => !p.parity.contains s) q

/-- The counters of a frame with groups are those of a scan. -/
structure CountedGroups (p : Pending) (g : Nat) : Prop where
  groupSize : p.groupSize = some g
  pos : 0 < g
  m_pos : 0 < p.m
  missing : ∀ q, p.missingPerGroup[q]? =
    if q < blockCount p.pinnedDataCount g then some (p.missing g q) else none
  surviving : ∀ q, p.survivingPerGroup[q]? =
    if q < blockCount p.pinnedDataCount g then some (p.surviving q) else none
  counters : ∀ c, p.counter c = (List.range (blockCount p.pinnedDataCount g)).countP fun q =>
    GroupClass.of p.m (p.missing g q) (p.surviving q) = some c

/-- The counters are those of a scan. -/
def Counted (p : Pending) : Prop :=
  match p.groupSize with
  | none => p.dataPresentBelowBoundary =
      (List.range p.observedBoundary).countP fun i => p.data.contains i
  | some g => p.CountedGroups g

theorem Counted.groups (h : p.Counted) (hg : p.groupSize = some g) : p.CountedGroups g := by
  simpa [Counted, hg] using h

theorem CountedGroups.counted (h : p.CountedGroups g) : p.Counted := by
  simpa [Counted, h.groupSize] using h

theorem SameGroups.missing_eq (h : SameGroups p' p) (g q : Nat) : p'.missing g q = p.missing g q := by
  rw [Pending.missing, h.pinned, h.data, Pending.missing]

theorem SameGroups.surviving_eq (h : SameGroups p' p) (q : Nat) : p'.surviving q = p.surviving q := by
  rw [Pending.surviving, h.m, h.parity, Pending.surviving]

/-- A data shard put into its map. -/
def withData (p : Pending) (index : Nat) (payload : List UInt8) : Pending :=
  { p with data := p.data.insert index payload }

/-- A parity shard put into its map. -/
def withParity (p : Pending) (slot : Nat) (payload : List UInt8) : Pending :=
  { p with parity := p.parity.insert slot payload }

theorem missing_withData (p : Pending) (payload : List UInt8)
    (h : p.data.contains index = true ∨ p.pinnedDataCount ≤ index ∨ q ≠ index / g) :
    (p.withData index payload).missing g q = p.missing g q := by
  refine countP_range_congr fun i (hi : i < p.pinnedDataCount) => ?_
  by_cases heq : i = index
  · subst heq
    rcases h with hold | hout | hne
    · simp [withData, hold]
    · omega
    · simp [Ne.symm hne]
  · simp [withData, Ne.symm heq]

theorem missing_withData_own (p : Pending) (payload : List UInt8)
    (hnew : p.data.contains index = false) (hin : index < p.pinnedDataCount) :
    (p.withData index payload).missing g (index / g) + 1 = p.missing g (index / g) := by
  have hupdate := countP_range_update
    (fun i => decide (i / g = index / g ∧ (!(p.data.insert index payload).contains i) = true))
    (fun i => decide (i / g = index / g ∧ (!p.data.contains i) = true)) hin
    fun i _ hne => by simp [Ne.symm hne]
  simpa [missing, missingData, withData, hnew] using hupdate

theorem surviving_withParity (p : Pending) (payload : List UInt8) (hm : 0 < p.m)
    (h : p.parity.contains slot = true ∨ q ≠ slot / p.m) :
    (p.withParity slot payload).surviving q = p.surviving q := by
  refine countP_range_congr fun rank (hrank : rank < p.m) => ?_
  by_cases heq : q * p.m + rank = slot
  · rcases h with hold | hne
    · rw [← heq] at hold
      simp [withParity, hold]
    · refine absurd ?_ hne
      rw [← heq, Nat.add_comm, Nat.add_mul_div_right _ _ hm, Nat.div_eq_of_lt hrank, Nat.zero_add]
  · simp [withParity, Ne.symm heq]

theorem surviving_withParity_own (p : Pending) (payload : List UInt8) (hm : 0 < p.m)
    (hnew : p.parity.contains slot = false) :
    (p.withParity slot payload).surviving (slot / p.m) = p.surviving (slot / p.m) + 1 := by
  have hslot : slot / p.m * p.m + slot % p.m = slot := by
    rw [Nat.mul_comm]
    exact Nat.div_add_mod slot p.m
  have hupdate := countP_range_update
    (fun rank => (!!(p.parity.insert slot payload).contains (slot / p.m * p.m + rank)))
    (fun rank => (!!p.parity.contains (slot / p.m * p.m + rank))) (Nat.mod_lt slot hm)
    fun rank _ hne => by
      grind
  simp only [hslot, hnew] at hupdate
  simpa [surviving, survivingParity, withParity] using hupdate

/-- A group taken out of its class and put back: the counters are those of
a scan again if they were, and the lists are. -/
theorem CountedGroups.regroup {missing' surviving' : Nat → Nat}
    (h : p.CountedGroups g) (stored : Pending) (hgroup : group < blockCount p.pinnedDataCount g)
    (hstored : stored.missingPerGroup = p.missingPerGroup ∧
      stored.survivingPerGroup = p.survivingPerGroup ∧ stored.m = p.m ∧ stored.counter = p.counter)
    (hfields : p'.groupSize = p.groupSize ∧ p'.m = p.m ∧ p'.pinnedDataCount = p.pinnedDataCount)
    (hcounter : ∀ c, p'.counter c = (stored.tally group false).counter c)
    (hmissing : ∀ q, p'.missing g q = missing' q) (hsurviving : ∀ q, p'.surviving q = surviving' q)
    (hmissingList : ∀ q, p'.missingPerGroup[q]? =
      if q < blockCount p.pinnedDataCount g then some (missing' q) else none)
    (hsurvivingList : ∀ q, p'.survivingPerGroup[q]? =
      if q < blockCount p.pinnedDataCount g then some (surviving' q) else none)
    (hother : ∀ q, q ≠ group → missing' q = p.missing g q ∧ surviving' q = p.surviving q) :
    (p'.tally group true).CountedGroups g := by
  obtain ⟨hgroupSize, hm, hpinned⟩ := hfields
  obtain ⟨hstoredMissing, hstoredSurviving, hstoredM, hstoredCounter⟩ := hstored
  have hback := sameGroups_tally p' group true
  refine ⟨by rw [hback.groupSize, hgroupSize, h.groupSize], h.pos, by rw [hback.m, hm]; exact h.m_pos,
    fun q => ?_, fun q => ?_, fun c => ?_⟩
  · rw [hback.missing, hback.missing_eq, hback.pinned, hpinned, hmissingList, hmissing]
  · rw [hback.surviving, hback.surviving_eq, hback.pinned, hpinned, hsurvivingList, hsurviving]
  · have hcount := counter_regroup (p.missing g) p.surviving missing' surviving' hgroup
      (by rw [hstoredMissing, h.missing, if_pos hgroup])
      (by rw [hstoredSurviving, h.surviving, if_pos hgroup])
      (by rw [hmissingList, if_pos hgroup]) (by rw [hsurvivingList, if_pos hgroup])
      (by rw [hm, hstoredM]) hcounter (fun q _ hq => hother q hq)
      (fun c => by rw [hstoredCounter, hstoredM]; exact h.counters c) c
    simp only [hback.missing_eq, hback.surviving_eq, hback.m, hback.pinned, hpinned, hm, hmissing, hsurviving]
    rw [hcount, hstoredM]

theorem CountedGroups.noteData (h : p.CountedGroups g)
    (hnew : p.data.contains index = false) (payload : List UInt8) :
    ((p.withData index payload).noteDataArrived index).CountedGroups g := by
  unfold noteDataArrived
  have hgroupSize : (p.withData index payload).groupSize = some g := h.groupSize
  simp only [hgroupSize]
  split
  · rename_i hout
    have hsame : ∀ q, (p.withData index payload).missing g q = p.missing g q :=
      fun q => p.missing_withData payload (.inr (.inl hout))
    exact ⟨h.groupSize, h.pos, h.m_pos, fun q => by rw [hsame]; exact h.missing q, h.surviving,
      fun c => by simp only [hsame]; exact h.counters c⟩
  · rename_i hin
    have hin' : index < p.pinnedDataCount := Nat.lt_of_not_le hin
    have hgroup : index / g < blockCount p.pinnedDataCount g := (lt_blockCount h.pos).mpr (div_mul_lt hin')
    have hown := p.missing_withData_own (g := g) payload hnew hin'
    have hother : ∀ q, q ≠ index / g → (p.withData index payload).missing g q = p.missing g q :=
      fun q hq => p.missing_withData payload (.inr (.inr hq))
    have hout := sameGroups_tally (p.withData index payload) (index / g) false
    refine h.regroup (p.withData index payload) hgroup ⟨rfl, rfl, rfl, rfl⟩
      ⟨hout.groupSize, hout.m, hout.pinned⟩ (fun c => by cases c <;> rfl)
      (fun q => hout.missing_eq g q) (fun q => hout.surviving_eq q) (fun q => ?_)
      (fun q => hout.surviving ▸ h.surviving q) fun q hq => ⟨hother q hq, rfl⟩
    have hlist : (p.withData index payload).missingPerGroup[q]? = _ := h.missing q
    rw [hout.missing, List.getElem?_modify, hlist]
    by_cases hq : index / g = q
    · grind
    · simp [hq, hother q (Ne.symm hq)]

theorem CountedGroups.noteParity (h : p.CountedGroups g)
    (hnew : p.parity.contains slot = false) (payload : List UInt8) :
    ((p.withParity slot payload).noteParityArrived slot).CountedGroups g := by
  have hlength : p.survivingPerGroup.length = blockCount p.pinnedDataCount g := by
    refine Nat.le_antisymm (Nat.le_of_not_lt fun hlt => ?_) (Nat.le_of_not_lt fun hlt => ?_)
    · have hlist := h.surviving (blockCount p.pinnedDataCount g)
      rw [if_neg (Nat.lt_irrefl _), List.getElem?_eq_none_iff] at hlist
      omega
    · have hlist := h.surviving p.survivingPerGroup.length
      simp [hlt] at hlist
  have hother : ∀ q, q ≠ slot / p.m → (p.withParity slot payload).surviving q = p.surviving q :=
    fun q hq => p.surviving_withParity payload h.m_pos (.inr hq)
  unfold noteParityArrived
  have hgroupSize : (p.withParity slot payload).groupSize.isNone = false := by
    show p.groupSize.isNone = false
    simp [h.groupSize]
  simp only [hgroupSize, Bool.false_eq_true, if_false]
  split
  · rename_i hout
    have hout' : blockCount p.pinnedDataCount g ≤ slot / p.m := hlength ▸ hout
    have hsame : ∀ q < blockCount p.pinnedDataCount g,
        (p.withParity slot payload).surviving q = p.surviving q := fun q hq => hother q (by omega)
    refine ⟨h.groupSize, h.pos, h.m_pos, h.missing, fun q => ?_, fun c => ?_⟩
    · show p.survivingPerGroup[q]? = if q < blockCount p.pinnedDataCount g then _ else none
      rw [h.surviving]
      split
      · rw [hsame q ‹_›]
      · rfl
    · refine (h.counters c).trans (countP_range_congr fun q hq => ?_)
      rw [hsame q hq]
      rfl
  · rename_i hin
    have hgroup : slot / p.m < blockCount p.pinnedDataCount g := hlength ▸ Nat.lt_of_not_le hin
    have hown := p.surviving_withParity_own payload h.m_pos hnew
    have hout := sameGroups_tally (p.withParity slot payload) (slot / p.m) false
    refine h.regroup (p.withParity slot payload) hgroup ⟨rfl, rfl, rfl, rfl⟩
      ⟨hout.groupSize, hout.m, hout.pinned⟩ (fun c => by cases c <;> rfl)
      (fun q => hout.missing_eq g q) (fun q => hout.surviving_eq q)
      (fun q => hout.missing ▸ h.missing q) (fun q => ?_) fun q hq => ⟨rfl, hother q hq⟩
    show (((p.withParity slot payload).tally (slot / p.m) false).survivingPerGroup.modify
      (slot / p.m) (· + 1))[q]? = _
    have hlist : (p.withParity slot payload).survivingPerGroup[q]? = _ := h.surviving q
    rw [hout.surviving, List.getElem?_modify, hlist]
    by_cases hq : slot / p.m = q
    · grind
    · simp [hq, hother q (Ne.symm hq)]

theorem storeData_eq (p : Pending) (index : Nat) (payload : List UInt8) : p.storeData index payload =
      if p.data.contains index then p.withData index payload
      else (p.withData index payload).noteDataArrived index := rfl

theorem storeParity_eq (p : Pending) (parityIndex : Nat) (payload : List UInt8) :
    p.storeParity parityIndex payload =
      let slot := parityIndex - if p.groupSize.isSome then p.pinnedDataCount else parityIndex
      let observed := p.noteObservedParityBoundary parityIndex
      if observed.parity.contains slot then observed.withParity slot payload
      else (observed.withParity slot payload).noteParityArrived slot := rfl

theorem sameMaps_storeData (p : Pending) (index : Nat) (payload : List UInt8) :
    SameMaps (p.storeData index payload) (p.withData index payload) := by
  rw [storeData_eq]
  split
  · exact .refl _
  · exact sameMaps_noteDataArrived ..

theorem sameMaps_storeParity (p : Pending) (parityIndex : Nat) (payload : List UInt8) :
    SameMaps (p.storeParity parityIndex payload)
      ((p.noteObservedParityBoundary parityIndex).withParity
        (parityIndex - if p.groupSize.isSome then p.pinnedDataCount else parityIndex) payload) := by
  rw [storeParity_eq]
  generalize (parityIndex - if p.groupSize.isSome then p.pinnedDataCount else parityIndex) = slot
  dsimp only
  split
  · exact .refl _
  · exact sameMaps_noteParityArrived ..

theorem counted_plain (hgroup : p.groupSize = none) : p.Counted ↔ p.dataPresentBelowBoundary =
      (List.range p.observedBoundary).countP fun i => p.data.contains i := by
  simp [Counted, hgroup]

theorem Counted.storeData (h : p.Counted) (index : Nat) (payload : List UInt8) :
    (p.storeData index payload).Counted := by
  rw [storeData_eq]
  cases hgroup : p.groupSize with
  | some g =>
    have hgroups := h.groups hgroup
    split
    · rename_i hold
      have hsame : ∀ q, (p.withData index payload).missing g q = p.missing g q :=
        fun q => p.missing_withData payload (.inl hold)
      have hkept : (p.withData index payload).CountedGroups g :=
        ⟨hgroup, hgroups.pos, hgroups.m_pos, fun q => by rw [hsame]; exact hgroups.missing q,
          hgroups.surviving, fun c => by simp only [hsame]; exact hgroups.counters c⟩
      exact hkept.counted
    · rename_i hnew
      exact (hgroups.noteData (Bool.eq_false_iff.mpr hnew) payload).counted
  | none =>
    have hcount := (counted_plain hgroup).mp h
    have hgroup' : (p.withData index payload).groupSize = none := hgroup
    have hother : ∀ i, i ≠ index → (p.withData index payload).data.contains i = p.data.contains i :=
      fun i hi => by simp [withData, Ne.symm hi]
    have hown : (p.withData index payload).data.contains index = true := by simp [withData]
    split
    · rename_i hold
      refine (counted_plain hgroup').mpr (hcount.trans (countP_range_congr fun i _ => ?_))
      by_cases hi : i = index
      · rw [hi, hown, hold]
      · exact (hother i hi).symm
    · rename_i hnew
      unfold noteDataArrived
      simp only [hgroup']
      split
      · rename_i hin
        have hupdate := countP_range_update (fun i => (p.withData index payload).data.contains i)
          (fun i => p.data.contains i) hin
          fun i _ hi => hother i hi
        simp only [hown, Bool.eq_false_iff.mpr hnew] at hupdate
        show p.dataPresentBelowBoundary + 1 = _
        rw [hcount]
        exact hupdate.symm
      · rename_i hout
        refine (counted_plain hgroup').mpr (hcount.trans (countP_range_congr fun i hi => ?_))
        exact (hother i fun heq => hout (heq ▸ hi)).symm

/-- A parity fragment lowers the boundary of a frame without groups to its
own index, and the counter by the data that is now past it. -/
theorem Counted.noteBoundary (h : p.Counted) (hgroup : p.groupSize = none)
    (hindex : parityIndex < p.fragCount.toNat) : (p.noteObservedParityBoundary parityIndex).Counted := by
  have hcount := (counted_plain hgroup).mp h
  have hboundary : (p.noteObservedParityBoundary parityIndex).observedBoundary =
      min p.observedBoundary parityIndex := by
    unfold noteObservedParityBoundary observedBoundary
    cases hseen : p.observedDataCount with
    | none => simp [hgroup]; omega
    | some seen => simp [hgroup]
  have hsplit : List.range p.observedBoundary = List.range (min p.observedBoundary parityIndex) ++
      List.range' (min p.observedBoundary parityIndex)
        (p.observedBoundary - min p.observedBoundary parityIndex) := by
    have happend := List.range'_append_1 (s := 0) (m := min p.observedBoundary parityIndex)
      (n := p.observedBoundary - min p.observedBoundary parityIndex)
    rw [Nat.zero_add, Nat.add_sub_cancel' (Nat.min_le_left ..)] at happend
    rw [List.range_eq_range', List.range_eq_range', happend]
  refine (counted_plain (by simp [noteObservedParityBoundary, hgroup])).mpr ?_
  rw [hboundary]
  simp only [noteObservedParityBoundary, hgroup, Option.isNone_none, if_true]
  rw [hcount, hsplit, List.countP_append, Nat.add_sub_cancel]

theorem Counted.storeParity (h : p.Counted)
    (hindex : parityIndex < p.fragCount.toNat) (payload : List UInt8) :
    (p.storeParity parityIndex payload).Counted := by
  rw [storeParity_eq]
  cases hgroup : p.groupSize with
  | some g =>
    have hgroups := h.groups hgroup
    have hobserved : (p.noteObservedParityBoundary parityIndex).CountedGroups g := by
      unfold noteObservedParityBoundary
      simp only [hgroup, Option.isNone_some, Bool.false_eq_true, if_false]
      exact ⟨rfl, hgroups.pos, hgroups.m_pos, hgroups.missing, hgroups.surviving, hgroups.counters⟩
    dsimp only
    generalize p.noteObservedParityBoundary parityIndex = p' at hobserved
    generalize parityIndex - _ = slot
    split
    · rename_i hold
      have hsame : ∀ q, (p'.withParity slot payload).surviving q = p'.surviving q :=
        fun q => p'.surviving_withParity payload hobserved.m_pos (.inl hold)
      have hkept : (p'.withParity slot payload).CountedGroups g :=
        ⟨hobserved.groupSize, hobserved.pos, hobserved.m_pos, hobserved.missing,
          fun q => by rw [hsame]; exact hobserved.surviving q,
          fun c => by simp only [hsame]; exact hobserved.counters c⟩
      exact hkept.counted
    · rename_i hnew
      exact (hobserved.noteParity (Bool.eq_false_iff.mpr hnew) payload).counted
  | none =>
    have hobserved := h.noteBoundary hgroup hindex
    have hnone : (p.noteObservedParityBoundary parityIndex).groupSize = none := by
      simp [noteObservedParityBoundary, hgroup]
    dsimp only
    generalize p.noteObservedParityBoundary parityIndex = p' at hobserved hnone
    generalize parityIndex - _ = slot
    -- without groups a parity shard repairs nothing and is not counted
    have hnote : (p'.withParity slot payload).noteParityArrived slot = p'.withParity slot payload := by
      have hkept : (p'.withParity slot payload).groupSize = none := hnone
      simp [noteParityArrived, hkept]
    rw [hnote, ite_self]
    exact (counted_plain (p := p'.withParity slot payload) hnone).mpr ((counted_plain hnone).mp hobserved)

theorem Counted.store (h : p.Counted) {fragment : FrameFragment}
    (hindex : fragment.header.fragIndex.toNat < p.fragCount.toNat) : (p.store fragment).Counted := by
  have hlatch : (p.latch fragment.header.flags).Counted := by
    cases hgroup : p.groupSize with
    | none => exact (counted_plain (p := p.latch fragment.header.flags) hgroup).mpr ((counted_plain hgroup).mp h)
    | some g =>
      have hgroups := h.groups hgroup
      have hkept : (p.latch fragment.header.flags).CountedGroups g :=
        ⟨hgroup, hgroups.pos, hgroups.m_pos, hgroups.missing, hgroups.surviving, hgroups.counters⟩
      exact hkept.counted
  unfold Pending.store
  split
  · exact hlatch.storeParity hindex fragment.payload
  · exact hlatch.storeData _ fragment.payload

theorem missingData_all (hg : 0 < g) (n q : Nat) :
    missingData n g (fun _ => true) q = min g (n - q * g) := by
  induction n with
  | zero => simp [missingData]
  | succ n ih =>
    rw [missingData] at ih ⊢
    rw [countP_range_succ, ih]
    have hblock : n / g = q ↔ q * g ≤ n ∧ n < q * g + g := by
      rw [Nat.div_eq_iff hg]
      omega
    by_cases hlast : n / g = q
    · grind
    · grind

theorem survivingParity_none (m q : Nat) : survivingParity m (fun _ => true) q = 0 := by
  simp [survivingParity]

theorem new_none {fragCount : UInt16} (h : groupSize.filter (1 ≤ ·) = none) (shards : Nat) :
    Pending.new fragCount groupSize shards = {
      fragCount, keyframe := false, crisp := false, isLtr := false, ackedAnchored := false
      data := ∅, parity := ∅, observedDataCount := none, groupSize := none, m := max shards 1
      pinnedDataCount := fragCount.toNat, missingPerGroup := [], survivingPerGroup := []
      hopelessGroups := 0, recoverableNowGroups := 0, awaitingGroups := 0
      dataPresentBelowBoundary := 0 } := by
  simp [Pending.new, h]

theorem new_some (fragCount : UInt16) (h : groupSize.filter (1 ≤ ·) = some g) (shards : Nat) :
    ∃ n, n = (invertedDataCount fragCount.toNat g (max shards 1)).getD fragCount.toNat ∧
    Pending.new fragCount groupSize shards = {
      fragCount, keyframe := false, crisp := false, isLtr := false, ackedAnchored := false
      data := ∅, parity := ∅, observedDataCount := none, groupSize := some g, m := max shards 1
      pinnedDataCount := n
      missingPerGroup := (List.range (blockCount n g)).map fun q => min g (n - q * g)
      survivingPerGroup := List.replicate (blockCount n g) 0
      hopelessGroups := (List.range (blockCount n g)).countP fun q => max shards 1 < min g (n - q * g)
      recoverableNowGroups := 0
      awaitingGroups := blockCount n g -
        (List.range (blockCount n g)).countP fun q => max shards 1 < min g (n - q * g)
      dataPresentBelowBoundary := 0 } := by
  refine ⟨_, rfl, ?_⟩
  simp only [Pending.new, h]
  simp only [List.countP_map, Function.comp_def]

theorem counted_new (fragCount : UInt16) (groupSize : Option Nat) (shards : Nat) :
    (Pending.new fragCount groupSize shards).Counted := by
  cases hgroup : groupSize.filter (1 ≤ ·) with
  | none =>
    rw [new_none hgroup]
    refine (counted_plain rfl).mpr ?_
    simp
  | some g =>
    have hg : 0 < g := Nat.lt_of_lt_of_le Nat.zero_lt_one
      (of_decide_eq_true (Option.filter_eq_some_iff.mp hgroup).2)
    obtain ⟨n, -, hnew⟩ := new_some fragCount hgroup shards
    have hm : 0 < max shards 1 := by omega
    rw [hnew]
    generalize max shards 1 = m at hm
    have hmissing : ∀ q, missingData n g (fun i => !(∅ : BTreeMap Nat (List UInt8)).contains i) q =
        min g (n - q * g) := by
      intro q
      rw [← missingData_all hg]
      simp
    have hsurviving : ∀ q, survivingParity m (fun s => !(∅ : BTreeMap Nat (List UInt8)).contains s) q = 0 := by
      intro q
      rw [← survivingParity_none m q]
      simp
    refine CountedGroups.counted (g := g) ⟨rfl, hg, hm, fun q => ?_, fun q => ?_, fun c => ?_⟩
    · simp only [missing, hmissing]
      by_cases hq : q < blockCount n g <;> simp [hq]
    · simp only [surviving, hsurviving]
      by_cases hq : q < blockCount n g <;> simp [hq]
    · -- a group misses something, and has no parity yet
      have hpos : ∀ q < blockCount n g, 0 < min g (n - q * g) := by
        intro q hq
        have hin := (lt_blockCount hg).mp hq
        omega
      have hclass : ∀ q < blockCount n g, GroupClass.of m (min g (n - q * g)) 0 =
          some (if m < min g (n - q * g) then .hopeless else .awaiting) :=
        fun q hq => GroupClass.of_zero m (hpos q hq)
      simp only [missing, surviving, hmissing, hsurviving]
      cases c with
      | hopeless =>
        refine countP_range_congr fun q hq => ?_
        rw [hclass q hq]
        generalize min g (n - q * g) = k
        by_cases hmore : m < k <;> simp [hmore]
      | recoverable =>
        refine (List.countP_eq_zero.mpr fun q hq => ?_).symm
        rw [hclass q (List.mem_range.mp hq)]
        generalize min g (n - q * g) = k
        by_cases hmore : m < k <;> simp [hmore]
      | awaiting =>
        have hrest := List.length_eq_countP_add_countP (l := List.range (blockCount n g))
          fun q => decide (m < min g (n - q * g))
        rw [List.length_range] at hrest
        have hwaiting : (List.range (blockCount n g)).countP (fun q =>
            decide (GroupClass.of m (min g (n - q * g)) 0 = some .awaiting)) =
              (List.range (blockCount n g)).countP fun q => decide ¬ decide (m < min g (n - q * g)) = true := by
          refine countP_range_congr fun q hq => ?_
          rw [hclass q hq]
          generalize min g (n - q * g) = k
          by_cases hmore : m < k <;> simp [hmore]
        simp only [counter, hwaiting]
        omega

/-! ## §3 Completing -/

theorem surviving_le (p : Pending) (q : Nat) : p.surviving q ≤ p.m := by
  have hle := List.countP_le_length (l := List.range p.m) (p := fun r => !!p.parity.contains (q * p.m + r))
  rwa [List.length_range] at hle

/-- A frame with groups can complete when no group misses more than it has
parity. -/
theorem CountedGroups.canComplete_iff (h : p.CountedGroups g)
    (hdata : p.pinnedDataCount ≠ 0) : p.canEventuallyComplete = true ↔
      ∀ q < blockCount p.pinnedDataCount g, p.missing g q ≤ p.surviving q := by
  have hcan : p.canEventuallyComplete = true ↔ p.counter .hopeless = 0 ∧ p.counter .awaiting = 0 := by
    simp [canEventuallyComplete, resolvedDataCount, h.groupSize, hdata, counter]
  rw [hcan, h.counters, h.counters, List.countP_eq_zero, List.countP_eq_zero]
  constructor
  · rintro ⟨hhopeless, hawaiting⟩ q hq
    have hnot := hhopeless q (List.mem_range.mpr hq)
    have hnot' := hawaiting q (List.mem_range.mpr hq)
    simp only [GroupClass.of] at hnot hnot'
    by_cases hnone : p.missing g q < 1
    · omega
    by_cases hmore : p.m < p.missing g q
    · simp [hnone, hmore] at hnot
    by_cases hnow : p.missing g q ≤ p.surviving q
    · exact hnow
    · simp [hnone, hmore, hnow] at hnot'
  · intro hall
    have hclass : ∀ q ∈ List.range (blockCount p.pinnedDataCount g),
        GroupClass.of p.m (p.missing g q) (p.surviving q) =
          if p.missing g q < 1 then none else some .recoverable := by
      intro q hq
      have hle := hall q (List.mem_range.mp hq)
      have hmore : ¬ p.m < p.missing g q := Nat.not_lt.mpr (Nat.le_trans hle (p.surviving_le q))
      simp [GroupClass.of, hmore, hle]
    constructor
    · grind
    · grind

theorem Counted.canComplete_plain (h : p.Counted) (hgroup : p.groupSize = none)
    (hdata : p.observedBoundary ≠ 0) : p.canEventuallyComplete = true ↔
      ∀ i < p.observedBoundary, p.data.contains i = true := by
  have hcount := (counted_plain hgroup).mp h
  have hall := List.countP_eq_length (l := List.range p.observedBoundary) (p := fun i => p.data.contains i)
  simp only [List.length_range, List.mem_range] at hall
  simp [canEventuallyComplete, resolvedDataCount, hgroup, hdata, hcount, hall]

end Pending

/-! ## §4 The inversion -/

/-- The descending scan finds the number of data fragments that was
encoded. -/
theorem invertFrom_total (d : Nat) (h : n ≤ d) : invertFrom (n + m * blockCount n g) g m d = some n := by
  induction d with
  | zero =>
    obtain rfl : n = 0 := by omega
    have hnone : blockCount 0 g = 0 := by
      unfold blockCount
      rcases Nat.eq_zero_or_pos g with rfl | hg
      · simp
      · exact Nat.div_eq_of_lt (by omega)
    simp [invertFrom, hnone]
  | succ d ih =>
    rcases Nat.eq_or_lt_of_le h with heq | hlt
    · simp [invertFrom, ← heq]
    · have hmore : m * blockCount n g ≤ m * blockCount (d + 1) g :=
        Nat.mul_le_mul_left m (blockCount_le h)
      have hne : d + 1 + m * blockCount (d + 1) g ≠ n + m * blockCount n g := by omega
      have hnot : ¬ d + 1 + m * blockCount (d + 1) g < n + m * blockCount n g := by omega
      simp [invertFrom, hne, hnot, ih (by omega)]

theorem invertedDataCount_total (hg : 1 ≤ g) (hm : 1 ≤ m) :
    invertedDataCount (n + m * blockCount n g) g m = some n := by
  have hvalid : ¬ (g < 1 ∨ m < 1) := by omega
  rw [invertedDataCount, if_neg hvalid]
  exact invertFrom_total _ (Nat.le_add_right ..)

end SlopDesk.Video
