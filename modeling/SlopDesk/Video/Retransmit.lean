/-
SlopDesk.Video.Retransmit — the packets a host keeps for retransmission, and what a
request is answered with.
-/
import SlopDesk.Video.RoundTrip

/-! # The bounded send history a selective
retransmit is answered from (`slopdesk-video/src/retransmit_ring.rs`).

§1 the ring: the datagrams of the newest frames, the first copy of each.
§2 a run of records: what is held of a frame is what it was first recorded
as.
-/

namespace SlopDesk.Video

open SlopDesk.Base

/-! ## §1 The ring -/

structure RetransmitRing where
  order : List UInt32
  byFrame : BTreeMap UInt32 (List (List UInt8))
  totalBytes : Nat
  maxFrames : Nat
  maxBytes : Nat

namespace RetransmitRing

variable {datagrams : List (List UInt8)} {frameId : UInt32}

def new (maxFrames maxBytes : Nat) : RetransmitRing :=
  ⟨[], ∅, 0, if 1 < maxFrames then maxFrames else 1, if 1 < maxBytes then maxBytes else 1⟩

/-- The bytes of a frame's datagrams. -/
def bytesOf (datagrams : List (List UInt8)) : Nat := (datagrams.map List.length).sum

/-- The loop of `record`, over the frames in record order: the oldest go
until both ceilings are met, but not the last. -/
def evict (r : RetransmitRing) : List UInt32 → RetransmitRing
  | [] => { r with order := [] }
  | evicted :: rest =>
    if r.maxFrames < rest.length + 1 ∨ (r.maxBytes < r.totalBytes ∧ 1 < rest.length + 1) then
      evict { r with
        byFrame := r.byFrame.erase evicted
        totalBytes := r.totalBytes - bytesOf ((r.byFrame[evicted]?).getD []) } rest
    else { r with order := evicted :: rest }

/-- `record`: a repeated frame keeps its first copy. -/
def record (r : RetransmitRing) (frameId : UInt32) (datagrams : List (List UInt8)) : RetransmitRing :=
  if r.byFrame.contains frameId then r
  else
    { r with
      totalBytes := r.totalBytes + bytesOf datagrams
      byFrame := r.byFrame.insert frameId datagrams }.evict (r.order ++ [frameId])

/-- Whether a datagram is one of the requested fragments. -/
def wanted (fragIndices : List Nat) (bytes : List UInt8) : Bool :=
  match FrameFragment.decode bytes with
  | some fragment => fragIndices.contains fragment.header.fragIndex.toNat
  | none => false

def fragments (r : RetransmitRing) (frameId : UInt32) (fragIndices : List Nat) : List (List UInt8) :=
  match r.byFrame[frameId]? with
  | none => []
  | some datagrams => datagrams.filter (wanted fragIndices)

/-! ## §2 Runs -/

/-- The ring after some records. -/
def recorded (maxFrames maxBytes : Nat) (entries : List (UInt32 × List (List UInt8))) : RetransmitRing :=
  entries.foldl (fun ring entry => ring.record entry.1 entry.2) (new maxFrames maxBytes)

theorem evict_sub (order : List UInt32) (r : RetransmitRing)
    (h : (r.evict order).byFrame[frameId]? = some datagrams) : r.byFrame[frameId]? = some datagrams := by
  induction order generalizing r with
  | nil => exact h
  | cons evicted rest ih =>
    unfold evict at h
    split at h
    · grind
    · exact h

theorem recorded_sub (maxFrames maxBytes : Nat) (entries : List (UInt32 × List (List UInt8)))
    (h : (recorded maxFrames maxBytes entries).byFrame[frameId]? = some datagrams) :
    (frameId, datagrams) ∈ entries := by
  induction entries using List.reverseRecOn with
  | nil => simp [recorded, new] at h
  | append_singleton entries entry ih =>
    rw [recorded, List.foldl_append] at h
    change ((recorded maxFrames maxBytes entries).record entry.1 entry.2).byFrame[frameId]? = _ at h
    unfold record at h
    split at h
    · exact List.mem_append_left _ (ih h)
    · have hkept := evict_sub _ _ h
      rw [BTreeMap.lookup_insert] at hkept
      split at hkept
      · grind
      · exact List.mem_append_left _ (ih hkept)

end RetransmitRing

end SlopDesk.Video

/-! # The repair of a frame by negative
acknowledgement: the reassembler's requests and the ring's answers.

§1 a request names exactly the missing data, within the cap. §2 what one
ingest asks for. §3 a frame is asked for at most once each time it is
opened. §4 the answer completes the frame.
-/

namespace SlopDesk.Video

open SlopDesk.Base
open SlopDesk.Base.Blocks
open ReedSolomonFec

/-! ## §1 The missing data -/

namespace Pending

variable {p : Pending} {l : Layout} {fec : Option ReedSolomonFec} {arrived : List Nat}
variable {maxFrags : Nat} {missing : List Nat}

theorem missingFrom_eq {indices found : List Nat} (h : p.missingFrom maxFrags indices found = some missing) :
    missing = found ++ indices.filter (fun i => !p.data.contains i) ∧
      (found.length ≤ maxFrags → missing.length ≤ maxFrags) := by
  induction indices generalizing found with
  | nil =>
    cases h
    simp
  | cons index rest ih =>
    unfold missingFrom at h
    split at h
    · grind
    · grind

/-- A request names the data that has not arrived, if that is something and
within the cap. -/
theorem Filled.missingDataFrags (h : p.Filled l fec arrived) (hcoded : l.Coded fec)
    (hmissing : p.missingDataFrags maxFrags = some missing) :
    missing ≠ [] ∧ missing.Nodup ∧ missing.length ≤ maxFrags ∧
      ∀ i, i ∈ missing ↔ i < l.data.length ∧ i ∉ arrived := by
  have hcount := h.resolvedDataCount hcoded
  unfold Pending.missingDataFrags at hmissing
  rw [hcount] at hmissing
  split at hmissing
  · simp at hmissing
  · split at hmissing
    · simp at hmissing
    · rename_i found hfound
      split at hmissing
      · simp at hmissing
      · rename_i hsome
        cases hmissing
        obtain ⟨heq, hle⟩ := missingFrom_eq hfound
        refine ⟨hsome, ?_, hle (Nat.zero_le _), fun i => ?_⟩
        · rw [heq]
          exact List.nodup_range.filter _
        · rw [heq, List.nil_append, List.mem_filter, List.mem_range]
          refine and_congr_right fun hi => ?_
          rw [h.contains_data hi]
          simp

end Pending

/-! ## §2 What an ingest asks for -/

namespace FrameReassembler

variable {r : FrameReassembler} {fragment : FrameFragment}

/-- The requests an ingest queues. -/
def asks (r : FrameReassembler) (fragment : FrameFragment) : List (UInt32 × List Nat) :=
  (r.ingest fragment).2.needsRetransmitQueue.drop r.needsRetransmitQueue.length

theorem asks_accepted (h : r.Accepts fragment) :
    r.asks fragment = (r.settled fragment).requests (r.frontierAfter fragment) := by
  obtain ⟨queue, hstate, -⟩ := ingest_accepts h
  obtain ⟨hseen, -, -, -, -, hqueue, -⟩ := settled_spec h.1
  obtain ⟨-, -, -, hrequests⟩ := sweep_spec hseen
  unfold asks
  rw [hstate]
  rw [hrequests, hqueue, List.drop_left]

theorem asks_refused (h : ¬ r.Accepts fragment) : r.asks fragment = [] := by
  obtain ⟨-, seen, candidates, rejected, hstate, -⟩ := ingest_refused h
  unfold asks
  rw [hstate]
  exact List.drop_length

/-- A frame that is asked for is pending, hopeless without the answer, was
not asked for before, and its missing data is within the cap. -/
theorem mem_asks {id : UInt32} {missing : List Nat} (h : (id, missing) ∈ r.asks fragment) :
    r.Accepts fragment ∧ id ∉ (r.settled fragment).nacked ∧
      ∃ entry, (r.ingest fragment).2.pending[id]? = some entry ∧
        (r.settled fragment).pending[id]? = some entry ∧
        entry.missingDataFrags r.nackMaxFrags = some missing := by
  by_cases haccepts : r.Accepts fragment
  · rw [asks_accepted haccepts] at h
    obtain ⟨entry, hentry, hverdict⟩ := mem_requests.mp h
    obtain ⟨hseen, -, -, hcap, -⟩ := settled_spec haccepts.1
    have hkept : id ∉ (r.settled fragment).hopeless (r.frontierAfter fragment) := by
      intro hmem
      obtain ⟨entry', hentry', hhopeless⟩ := mem_hopeless.mp hmem
      cases hentry.symm.trans hentry'
      simp [hverdict] at hhopeless
    have hpending : (r.ingest fragment).2.pending[id]? = some entry := by
      obtain ⟨queue, hstate, -⟩ := ingest_accepts haccepts
      rw [hstate]
      rw [(sweep_spec hseen).2.1, if_neg hkept, hentry]
    unfold verdict at hverdict
    dsimp only at hverdict
    split at hverdict
    · simp at hverdict
    split at hverdict
    · simp at hverdict
    split at hverdict
    · grind
    · simp at hverdict
  · rw [asks_refused haccepts] at h
    simp at h

/-! ## §3 Asked for once -/

theorem nodup_requests (r : FrameReassembler) (frontier : UInt32) :
    ((r.requests frontier).map Prod.fst).Nodup := by
  have hkeys : r.pending.toList.Pairwise fun a b => ¬ compare a.1 b.1 = .eq :=
    Std.ExtTreeMap.distinct_keys_toList
  refine ((List.mergeSort_perm _ _).map _).nodup_iff.mpr ?_
  rw [List.Nodup, List.pairwise_map]
  refine hkeys.filterMap _ fun a b hne wanted hwanted wanted' hwanted' => ?_
  split at hwanted
  case h_2 => simp at hwanted
  split at hwanted'
  case h_2 => simp at hwanted'
  cases hwanted
  cases hwanted'
  intro heq
  exact hne (by rw [heq]; exact Std.ReflCmp.compare_self)

theorem nacked_foldl_drop (ids : List UInt32) {r : FrameReassembler} (h : r.nacked.Nodup) :
    (ids.foldl drop r).nacked.Nodup ∧
      ∀ id, id ∈ (ids.foldl drop r).nacked ↔ id ∈ r.nacked ∧ id ∉ ids := by
  induction ids generalizing r with
  | nil => simp [h]
  | cons first ids ih =>
    have hdrop : (r.drop first).nacked = r.nacked.erase first := rfl
    obtain ⟨hnodup, hmem⟩ := ih (r := r.drop first) (by exact h.erase first)
    refine ⟨hnodup, fun id => ?_⟩
    rw [List.foldl_cons, hmem, hdrop, h.mem_erase_iff, List.mem_cons, not_or]
    constructor
    · grind
    · grind

theorem nodup_insertNew {ids : List UInt32} (h : ids.Nodup) (id : UInt32) : (insertNew id ids).Nodup := by
  unfold insertNew
  split
  · exact h
  · rename_i hnew
    exact List.nodup_cons.mpr ⟨hnew, h⟩

theorem nacked_foldl_request (wanted : List (UInt32 × List Nat)) {nacked : List UInt32} (h : nacked.Nodup) :
    (wanted.foldl (fun nacked w => insertNew w.1 nacked) nacked).Nodup ∧
      ∀ id, id ∈ wanted.foldl (fun nacked w => insertNew w.1 nacked) nacked ↔
        id ∈ nacked ∨ id ∈ wanted.map Prod.fst := by
  induction wanted generalizing nacked with
  | nil => simp [h]
  | cons first wanted ih =>
    obtain ⟨hnodup, hmem⟩ := ih (nodup_insertNew h first.1)
    refine ⟨hnodup, fun id => ?_⟩
    rw [List.foldl_cons, hmem, mem_insertNew, List.map_cons, List.mem_cons]
    constructor
    · grind
    · grind

/-- After a sweep the frames asked for are the earlier ones and the new
ones, less those given up. -/
theorem nacked_sweep {frontier : UInt32} (hseen : r.highestSeenFrameId = some frontier)
    (h : r.nacked.Nodup) : r.sweepHopelessFrames.nacked.Nodup ∧
      ∀ id, id ∈ r.sweepHopelessFrames.nacked ↔
        (id ∈ r.nacked ∨ id ∈ (r.requests frontier).map Prod.fst) ∧ id ∉ r.hopeless frontier := by
  obtain ⟨hnodup, hmem⟩ := nacked_foldl_request (r.requests frontier) h
  rw [sweep_eq hseen, foldl_request]
  obtain ⟨hnodup', hmem'⟩ := nacked_foldl_drop (r.hopeless frontier)
    (r := { r with
      nacked := (r.requests frontier).foldl (fun nacked w => insertNew w.1 nacked) r.nacked
      needsRetransmitQueue := r.needsRetransmitQueue ++ r.requests frontier }) hnodup
  refine ⟨hnodup', fun id => ?_⟩
  rw [hmem', hmem]

theorem nacked_settled (h : r.Accepts fragment) (hnodup : r.nacked.Nodup) :
    (r.settled fragment).nacked.Nodup ∧ ∀ id, id ∈ (r.settled fragment).nacked ↔
      id ∈ r.nacked ∧ ¬ (r.Completes fragment ∧ id = fragment.header.frameId) := by
  obtain ⟨-, -, -, -, -, -, -, hnacked, -⟩ := taken_spec h.1
  by_cases hdone : r.Completes fragment
  · rw [settled_of_completes hdone, nacked_retire, hnacked]
    refine ⟨hnodup.erase _, fun id => ?_⟩
    rw [hnodup.mem_erase_iff]
    simp [hdone, and_comm]
  · rw [settled_of_not_completes hdone, hnacked]
    simp [hdone, hnodup]

end FrameReassembler

namespace Stream

open FrameReassembler

variable {t : Stream}
variable {op : ReassemblerOp} {x : UInt32}

/-- Every request is of a frame's opening, which is not asked for again
while the frame is pending. -/
structure Asked (t : Stream) : Prop where
  nodup : t.reassembler.nacked.Nodup
  pending : ∀ id ∈ t.reassembler.nacked, t.reassembler.pending.contains id = true
  count : ∀ id, (t.requested.map Prod.fst).count id +
    (if t.reassembler.pending.contains id = true ∧ id ∉ t.reassembler.nacked then 1 else 0) ≤
      t.opened.count id

theorem Asked.ingest (h : t.Asked) (fragment : FrameFragment) : (t.step (.ingest fragment)).Asked := by
  by_cases haccepts : t.reassembler.Accepts fragment
  · obtain ⟨queue, hstate, -⟩ := ingest_accepts haccepts
    obtain ⟨hseen, -⟩ := settled_spec haccepts.1
    obtain ⟨hnodup, hsettled⟩ := nacked_settled haccepts h.nodup
    obtain ⟨hnodup', hswept⟩ := nacked_sweep hseen hnodup
    have hnacked : (t.reassembler.ingest fragment).2.nacked =
        (t.reassembler.settled fragment).sweepHopelessFrames.nacked := by
      rw [hstate]
    have hpending := pending_ingest haccepts
    have hasks := asks_accepted haccepts
    have hasked : ∀ id, id ∈ (t.reassembler.asks fragment).map Prod.fst →
        (t.reassembler.ingest fragment).2.pending.contains id = true ∧
          id ∉ (t.reassembler.settled fragment).nacked := by
      intro id hid
      obtain ⟨⟨id', missing⟩, hmem, rfl⟩ := List.mem_map.mp hid
      obtain ⟨-, hnew, entry, hentry, -⟩ := mem_asks hmem
      rw [Std.ExtTreeMap.contains_eq_isSome_getElem?, hentry]
      exact ⟨rfl, hnew⟩
    have hafter : ∀ id, id ∈ (t.reassembler.ingest fragment).2.nacked ↔
        (id ∈ (t.reassembler.settled fragment).nacked ∨
          id ∈ (t.reassembler.asks fragment).map Prod.fst) ∧ id ∉ t.reassembler.givenUp fragment := by
      intro id
      rw [hnacked, hswept, hasks]
      rfl
    refine ⟨hnacked ▸ hnodup', fun id hid => ?_, fun id => ?_⟩
    · obtain ⟨hmem, hkept⟩ := (hafter id).mp hid
      rcases hmem with hold | hnew
      · obtain ⟨hold, hnot⟩ := (hsettled id).mp hold
        have hbefore := h.pending id hold
        show (t.reassembler.ingest fragment).2.pending.contains id = true
        rw [Std.ExtTreeMap.contains_eq_isSome_getElem?] at hbefore ⊢
        rw [hpending, if_neg hkept]
        split
        · grind
        · exact hbefore
      · exact (hasked id hnew).1
    · have hbefore := h.count id
      have hsingle : ((t.reassembler.asks fragment).map Prod.fst).count id ≤ 1 := by
        rw [hasks]
        exact List.nodup_iff_count_le_one.mp (nodup_requests ..) id
      show ((t.requested ++ t.reassembler.asks fragment).map Prod.fst).count id +
        (if (t.reassembler.ingest fragment).2.pending.contains id = true ∧
          id ∉ (t.reassembler.ingest fragment).2.nacked then 1 else 0) ≤
        (t.opened ++ opens t.reassembler fragment).count id
      rw [List.map_append, List.count_append, List.count_append]
      -- what is asked for or still may be was so before, or is opened now
      have hkept : (t.reassembler.ingest fragment).2.pending.contains id = true →
          id ∉ t.reassembler.givenUp fragment ∧
            ¬ (t.reassembler.Completes fragment ∧ id = fragment.header.frameId) := by
        grind
      have hlive : (t.reassembler.ingest fragment).2.pending.contains id = true →
          id ∉ (t.reassembler.settled fragment).nacked →
            1 ≤ (if t.reassembler.pending.contains id = true ∧ id ∉ t.reassembler.nacked then 1 else 0) +
              (opens t.reassembler fragment).count id := by
        intro hlive hnew
        obtain ⟨hgiven, hdone⟩ := hkept hlive
        have hnot : id ∉ t.reassembler.nacked := fun hmem => hnew ((hsettled id).mpr ⟨hmem, hdone⟩)
        by_cases hopen : t.reassembler.pending.contains id = true
        · simp [hopen, hnot]
        · have hown : id = fragment.header.frameId := by
            grind
          have hopens : opens t.reassembler fragment = [fragment.header.frameId] := by
            rw [opens, if_neg]
            rintro (hstale | hpend)
            · exact Delivery.ingest_ne_stale haccepts hstale
            · exact hopen (hown ▸ hpend)
          rw [hopens, hown]
          simp
      by_cases hmem : id ∈ (t.reassembler.asks fragment).map Prod.fst
      · obtain ⟨hpend, hnew⟩ := hasked id hmem
        have hin : id ∈ (t.reassembler.ingest fragment).2.nacked :=
          (hafter id).mpr ⟨.inr hmem, (hkept hpend).1⟩
        have hpos := hlive hpend hnew
        simp only [hin, not_true, and_false, if_false]
        omega
      · rw [List.count_eq_zero.mpr hmem]
        split
        · rename_i hflag
          have hnew : id ∉ (t.reassembler.settled fragment).nacked := fun hold =>
            hflag.2 ((hafter id).mpr ⟨.inl hold, (hkept hflag.1).1⟩)
          have hpos := hlive hflag.1 hnew
          omega
        · omega
  · obtain ⟨hresult, seen, candidates, rejected, hstate, -⟩ := ingest_refused haccepts
    have hnone := asks_refused haccepts
    have hopens : opens t.reassembler fragment = [] := by simp [opens, hresult]
    have hsame : (t.reassembler.ingest fragment).2.nacked = t.reassembler.nacked ∧
        (t.reassembler.ingest fragment).2.pending = t.reassembler.pending := by
      rw [hstate]
      exact ⟨rfl, rfl⟩
    refine ⟨by rw [step, hsame.1]; exact h.nodup, fun id hid => ?_, fun id => ?_⟩
    · rw [step, hsame.1] at hid
      rw [step, hsame.2]
      exact h.pending id hid
    · have hbefore := h.count id
      show ((t.requested ++ t.reassembler.asks fragment).map Prod.fst).count id +
        (if (t.reassembler.ingest fragment).2.pending.contains id = true ∧
          id ∉ (t.reassembler.ingest fragment).2.nacked then 1 else 0) ≤
        (t.opened ++ opens t.reassembler fragment).count id
      rw [hnone, hopens, hsame.1, hsame.2, List.append_nil, List.append_nil]
      exact hbefore

theorem Asked.step (h : t.Asked) (op : ReassemblerOp) : (t.step op).Asked := by
  cases op with
  | ingest fragment => exact h.ingest fragment
  | nextDroppedFrame =>
    simp only [Stream.step, FrameReassembler.nextDroppedFrame]
    split
    · exact h
    · exact ⟨h.nodup, h.pending, h.count⟩
  | nextNeedsRetransmit =>
    simp only [Stream.step, FrameReassembler.nextNeedsRetransmit]
    split
    · exact h
    · exact ⟨h.nodup, h.pending, h.count⟩

/-- A frame that stays behind the frontier once it is reported is opened
once. -/
structure OnceOpened (x : UInt32) (t : Stream) : Prop where
  once : t.Once x
  accounted : t.Accounted
  opened : t.opened.count x ≤ 1

theorem OnceOpened.step (h : t.OnceOpened x) (hop : t.Near x op) : (t.step op).OnceOpened x := by
  refine ⟨h.once.step hop, h.accounted.step op, ?_⟩
  cases op with
  | ingest fragment =>
    have hopened := h.opened
    have haccounted := h.accounted x
    show (t.opened ++ opens t.reassembler fragment).count x ≤ 1
    rw [List.count_append]
    by_cases hmem : x ∈ opens t.reassembler fragment
    · -- it is not pending, and was not reported before
      have hsingle : (opens t.reassembler fragment).count x ≤ 1 := by
        grind [opens]
      have hpending : t.reassembler.pending.contains x = false := by
        grind [opens, List.mem_singleton.mp]
      have hunreported : x ∉ t.reported := by
        intro hreported
        have hrecent := h.once.recent hreported (hop.2 hreported)
        exact ((h.once.guarded.closed x hrecent).ingest fragment).1 hmem
      rw [List.count_eq_zero.mpr hunreported, hpending, if_neg Bool.false_ne_true] at haccounted
      omega
    · rw [List.count_eq_zero.mpr hmem]
      omega
  | nextDroppedFrame => exact h.opened
  | nextNeedsRetransmit => exact h.opened

theorem unopened_step (h : t.reassembler.pending[x]? = none)
    (hop : ∀ fragment, op = .ingest fragment → fragment.header.frameId ≠ x) :
    (t.step op).reassembler.pending[x]? = none := by
  cases op with
  | ingest fragment =>
    have hother := hop fragment rfl
    show (t.reassembler.ingest fragment).2.pending[x]? = none
    by_cases haccepts : t.reassembler.Accepts fragment
    · rw [pending_ingest haccepts, if_neg (Ne.symm hother), h, ite_self]
    · obtain ⟨-, seen, candidates, rejected, hstate, -⟩ := ingest_refused haccepts
      rw [hstate]
      exact h
  | nextDroppedFrame =>
    simp only [step, nextDroppedFrame]
    split <;> exact h
  | nextNeedsRetransmit =>
    simp only [step, nextNeedsRetransmit]
    split <;> exact h

/-- The codec and the graces are those of `r`. -/
structure SameSettings (r' r : FrameReassembler) : Prop where
  fec : r'.fec = r.fec
  reorderGrace : r'.fecReorderGrace = r.fecReorderGrace
  retransmitGrace : r'.retransmitGrace = r.retransmitGrace
  nackMaxFrags : r'.nackMaxFrags = r.nackMaxFrags

theorem sameSettings_ingest (r : FrameReassembler) (fragment : FrameFragment) :
    SameSettings (r.ingest fragment).2 r := by
  refine ⟨fec_ingest r fragment, ?_, ?_, ?_⟩
  all_goals
    by_cases haccepts : r.Accepts fragment
    · obtain ⟨queue, hstate, -⟩ := ingest_accepts haccepts
      obtain ⟨hseen, hreorder, hgrace, hcap, -⟩ := settled_spec haccepts.1
      have hsame := (sweep_spec hseen).1
      rw [hstate]
      first
        | exact hsame.reorderGrace.trans hreorder
        | exact hsame.retransmitGrace.trans hgrace
        | exact hsame.nackMaxFrags.trans hcap
    · obtain ⟨-, seen, candidates, rejected, hstate, -⟩ := ingest_refused haccepts
      rw [hstate]
      rfl

theorem sameSettings_step (t : Stream) (op : ReassemblerOp) :
    SameSettings (t.step op).reassembler t.reassembler := by
  cases op with
  | ingest fragment => exact sameSettings_ingest ..
  | nextDroppedFrame =>
    simp only [step, nextDroppedFrame]
    split <;> exact ⟨rfl, rfl, rfl, rfl⟩
  | nextNeedsRetransmit =>
    simp only [step, nextNeedsRetransmit]
    split <;> exact ⟨rfl, rfl, rfl, rfl⟩

theorem sameSettings_run (t : Stream) (ops : List ReassemblerOp) :
    SameSettings (run step t ops).reassembler t.reassembler := by
  refine run_invariant (fun t' : Stream => SameSettings t'.reassembler t.reassembler)
    (fun t' op h => ?_) ⟨rfl, rfl, rfl, rfl⟩ ops
  have hstep := t'.sameSettings_step op
  exact ⟨hstep.fec.trans h.fec, hstep.reorderGrace.trans h.reorderGrace,
    hstep.retransmitGrace.trans h.retransmitGrace, hstep.nackMaxFrags.trans h.nackMaxFrags⟩

section Run

variable (fec : Option ReedSolomonFec) (fits : ∀ codec ∈ fec, AdaptiveFec.Fits codec)
  (fecReorderGrace : Int) (retransmit : Option (Int × Nat))

theorem asked_run (ops : List ReassemblerOp) :
    (run step (start (configured fec fits fecReorderGrace retransmit)) ops).Asked := by
  obtain ⟨-, hpending, -, -, -, hnacked, -⟩ := configured_spec fec fits fecReorderGrace retransmit
  refine run_invariant Asked (fun _ op h => h.step op) ⟨?_, ?_, fun id => ?_⟩ ops
  · simp [start, hnacked]
  · simp [start, hnacked]
  · simp [start, hpending]

theorem onceOpened_start (x : UInt32) :
    (start (configured fec fits fecReorderGrace retransmit)).OnceOpened x := by
  obtain ⟨-, hpending, -⟩ := configured_spec fec fits fecReorderGrace retransmit
  refine ⟨once_start .., fun id => ?_, by simp [start]⟩
  simp [start, hpending]

theorem unopened_run {x : UInt32} {ops : List ReassemblerOp}
    (h : ∀ fragment, .ingest fragment ∈ ops → fragment.header.frameId ≠ x) :
    (run step (start (configured fec fits fecReorderGrace retransmit)) ops).reassembler.pending[x]? =
      none := by
  obtain ⟨-, hpending, -⟩ := configured_spec fec fits fecReorderGrace retransmit
  have hmeets : Meets step (fun _ op => ∀ fragment, op = .ingest fragment → fragment.header.frameId ≠ x)
      (start (configured fec fits fecReorderGrace retransmit)) ops :=
    meets_of_forall (by rintro op hop fragment rfl; exact h fragment hop) _
  refine hmeets.invariant (fun t : Stream => t.reassembler.pending[x]? = none)
    (fun _ _ hop hnone => unopened_step hnone hop) ?_
  show (configured fec fits fecReorderGrace retransmit).pending[x]? = none
  rw [hpending]
  exact Std.ExtTreeMap.getElem?_empty

end Run

end Stream

/-! ## §4 The repair -/

theorem recoverable_of_all {n m : Nat} {group : Option Nat} {arrived : List Nat}
    (h : ∀ i < n, i ∈ arrived) : Recoverable n group m arrived := by
  cases group with
  | none => exact h
  | some g =>
    intro q _
    have hnone : missingData n g (fun i => i ∉ arrived) q = 0 := by
      refine List.countP_eq_zero.mpr fun i hi => ?_
      simp [h i (List.mem_range.mp hi)]
    rw [hnone]
    exact Nat.zero_le _

namespace Delivery

open FrameReassembler

variable {l : Layout} {fec : Option ReedSolomonFec} {d : Delivery} {fragment : FrameFragment}

/-- The frame is pending. -/
def Open (x : UInt32) (d : Delivery) : Prop := d.stream.reassembler.pending.contains x = true

/-- A part of the frame comes while the frame is not a jump ahead. -/
def InReach (x : UInt32) (d : Delivery) : ReassemblerOp → Prop
  | .ingest fragment => fragment.header.frameId = x →
      isJump d.stream.reassembler.highestSeenFrameId x = false
  | _ => True

/-- Every part that comes in reach while the frame stays pending has
arrived. -/
theorem arrived_run (hcoded : l.Coded fec) (h : d.Sound l fec)
    (hremembers : d.stream.reassembler.Remembers (· ∈ d.stream.reported)) {ops : List ReassemblerOp}
    (hgenuine : ∀ op ∈ ops, Genuine l op) (hopen : Throughout (step l.frameId) (Open l.frameId) d ops)
    (hreach : Meets (step l.frameId) (InReach l.frameId) d ops) :
    (∀ i ∈ d.arrived, i ∈ (run (step l.frameId) d ops).arrived) ∧
      ∀ fragment, .ingest fragment ∈ ops → fragment.header.frameId = l.frameId →
        fragment.header.fragIndex.toNat ∈ (run (step l.frameId) d ops).arrived := by
  induction ops generalizing d with
  | nil => exact ⟨fun i hi => hi, fun fragment hmem => absurd hmem List.not_mem_nil⟩
  | cons op ops ih =>
    have hop := hgenuine op (List.mem_cons_self ..)
    obtain ⟨hkept, hparts⟩ := ih (h.step hcoded hop) (Stream.remembers_step hremembers op)
      (fun op' hop' => hgenuine op' (List.mem_cons_of_mem _ hop')) hopen.2 hreach.2
    have hnext : Open l.frameId (d.step l.frameId op) := by
      cases ops with
      | nil => exact hopen.2
      | cons _ _ => exact hopen.2.1
    have harrived : (d.step l.frameId op).arrived =
        taken l.frameId d.stream.reassembler op ++ d.arrived := if_pos hnext
    rw [harrived] at hkept
    refine ⟨fun i hi => hkept i (List.mem_append_right _ hi), fun fragment hmem hid => ?_⟩
    rcases List.mem_cons.mp hmem with rfl | hmem
    · have hstale := ingest_ne_stale (h.accepts hcoded (hop hid) hremembers (hreach.1 hid) (.inl hopen.1))
      refine hkept _ (List.mem_append_left _ ?_)
      rw [taken, if_pos ⟨hid, hstale⟩]
      exact List.mem_singleton_self _
    · exact hparts fragment hmem hid

/-- What of the data had not arrived, fed while the frame stays pending and in
reach, completes it with the last of it. -/
theorem completes_fed (hcoded : l.Coded fec) (h : d.Sound l fec)
    (hremembers : d.stream.reassembler.Remembers (· ∈ d.stream.reported)) {body : List ReassemblerOp}
    {last : FrameFragment} (hgenuine : ∀ op ∈ body, Genuine l op) (hlast : l.Has last)
    (hopen : Throughout (step l.frameId) (Open l.frameId) d body)
    (hreach : Meets (step l.frameId) (InReach l.frameId) d (body ++ [.ingest last]))
    (hfed : ∀ i < l.data.length, i ∉ d.arrived → ∃ fragment, l.Has fragment ∧
      fragment.header.fragIndex.toNat = i ∧ (fragment = last ∨ .ingest fragment ∈ body)) :
    (run (step l.frameId) d body).Sound l fec ∧
      ∃ done, ((run (step l.frameId) d body).stream.reassembler.ingest last).1 = .completed done ∧
        done.frameId = l.frameId := by
  obtain ⟨hreach, hlastReach, -⟩ := meets_append.mp hreach
  obtain ⟨hkept, harrived⟩ := arrived_run hcoded h hremembers hgenuine hopen hreach
  have hmeets : Meets (step l.frameId) (fun _ => Genuine l) d body := meets_of_forall hgenuine _
  have hsound : (run (step l.frameId) d body).Sound l fec :=
    hmeets.invariant (Sound l fec) (fun _ _ hop h => h.step hcoded hop) h
  have hremembers' : (run (step l.frameId) d body).stream.reassembler.Remembers
      (· ∈ (run (step l.frameId) d body).stream.reported) :=
    run_invariant (fun d : Delivery => d.stream.reassembler.Remembers (· ∈ d.stream.reported))
      (fun d op h => Stream.remembers_step h op) hremembers body
  have henough : (run (step l.frameId) d body).Enough l fec last := by
    refine recoverable_of_all fun i hi => ?_
    by_cases hearly : i ∈ d.arrived
    · exact List.mem_cons_of_mem _ (hkept i hearly)
    · obtain ⟨fragment, hhas, rfl, rfl | hin⟩ := hfed i hi hearly
      · exact List.mem_cons_self ..
      · exact List.mem_cons_of_mem _ (harrived fragment hin hhas.frameId)
  have haccepts := hsound.accepts hcoded hlast hremembers' (hlastReach hlast.frameId) (.inl hopen.last)
  obtain ⟨done, hdone⟩ := (completed_iff (ingest_ne_stale haccepts)).mpr
    ((hsound.completes_iff hcoded hlast).1.mpr henough)
  exact ⟨hsound, done, hdone, (frameId_completed hdone).trans hlast.frameId⟩

end Delivery

namespace VideoPacketizer

open FrameReassembler

/-- The fragments of some datagrams. -/
def parsed (datagrams : List (List UInt8)) : List FrameFragment := datagrams.filterMap FrameFragment.decode

/-- The fragments a ring answers a request with. -/
def answer (ring : RetransmitRing) (frameId : UInt32) (fragIndices : List Nat) : List FrameFragment :=
  parsed (ring.fragments frameId fragIndices)

/-- A ring that holds the datagrams answers with parts of them, and with each
that it is asked for. -/
theorem answer_spec {ring : RetransmitRing} {x : UInt32} {datagrams : List (List UInt8)}
    (hring : ring.byFrame[x]? = some datagrams) (missing : List Nat) :
    (∀ fragment ∈ answer ring x missing, fragment ∈ parsed datagrams) ∧
      ∀ datagram ∈ datagrams, ∀ fragment, FrameFragment.decode datagram = some fragment →
        fragment.header.fragIndex.toNat ∈ missing → fragment ∈ answer ring x missing := by
  simp only [answer, RetransmitRing.fragments, hring]
  constructor
  · intro fragment hmem
    obtain ⟨datagram, hdatagram, hdecode⟩ := List.mem_filterMap.mp hmem
    exact List.mem_filterMap.mpr ⟨datagram, (List.mem_filter.mp hdatagram).1, hdecode⟩
  · intro datagram hdatagram fragment hdecode hi
    have hwanted : RetransmitRing.wanted missing datagram = true := by
      simp [RetransmitRing.wanted, hdecode, hi]
    exact List.mem_filterMap.mpr ⟨datagram, List.mem_filter.mpr ⟨hdatagram, hwanted⟩, hdecode⟩

/-- The repair of a frame whose datagrams the ring still holds. A request
names exactly the data of the frame that has not arrived, at most the cap of
it; feeding the answer back while the frame stays pending, each part while
the frame is not a jump ahead of the frontier, completes the frame with its
own bytes and flags; and a frame is asked for at most once each time it is
opened, which is once while it stays behind the frontier. -/
theorem nack_repairs {host host' : VideoPacketizer} {frame : List UInt8} {options : PacketizeOptions}
    {datagrams : List (List UInt8)} (htier : AdaptiveFec.Stampable host.fec options.fecTier)
    (hsent : host.packetizeRaw frame options = some (datagrams, host')) (maxFrames maxBytes : Nat)
    (entries : List (UInt32 × List (List UInt8)))
    (hrecorded : ∀ entry ∈ entries, entry.1 = host.nextFrameId → entry.2 = datagrams)
    (hheld : (RetransmitRing.recorded maxFrames maxBytes entries).byFrame.contains host.nextFrameId = true)
    (fecReorderGrace : Int) (retransmit : Option (Int × Nat)) (ops : List ReassemblerOp)
    (hlink : ∀ fragment, .ingest fragment ∈ ops → fragment.header.frameId = host.nextFrameId →
      fragment ∈ parsed datagrams) :
    let x := host.nextFrameId
    let ring := RetransmitRing.recorded maxFrames maxBytes entries
    let start := Stream.configured host.fec host.fits fecReorderGrace retransmit
    let d := run (Delivery.step x) (.start start) ops
    (∀ fragment missing, (fragment.header.frameId = x → fragment ∈ parsed datagrams) →
      (x, missing) ∈ d.stream.reassembler.asks fragment →
        let asked := d.step x (.ingest fragment)
        (missing ≠ [] ∧ missing.Nodup ∧ missing.length ≤ start.nackMaxFrags ∧
          start.nackMaxFrags ≤ maxNackFragments ∧
          ∀ i, i ∈ missing ↔ i < (payloadsOf frame).length ∧ i ∉ asked.arrived) ∧
        ∀ body last,
          (∀ fragment, .ingest fragment ∈ body → fragment.header.frameId = x → fragment ∈ parsed datagrams) →
          Throughout (Delivery.step x) (Delivery.Open x) asked body →
          Meets (Delivery.step x) (Delivery.InReach x) asked (body ++ [.ingest last]) →
          last ∈ answer ring x missing →
          (∀ fragment ∈ answer ring x missing, fragment = last ∨ .ingest fragment ∈ body) →
            ∃ done, ((run (Delivery.step x) asked body).stream.reassembler.ingest last).1 = .completed done ∧
              done.frameId = x ∧ done.avcc = frame ∧ done.keyframe = options.keyframe ∧
              done.crisp = options.crisp ∧ done.isLtr = options.isLtr ∧
              done.ackedAnchored = options.ackedAnchored) ∧
    (∀ id, (d.stream.requested.map Prod.fst).count id ≤ d.stream.opened.count id) ∧
    (Meets Stream.step (Stream.Near x) (.start start) ops →
      (d.stream.requested.map Prod.fst).count x ≤ 1) := by
  intro x ring start d
  have hstream : d.stream = run Stream.step (.start start) ops := Delivery.stream_run ..
  have hremembers := hstream ▸ Stream.remembers_run host.fec host.fits fecReorderGrace retransmit ops
  have hcap := (Stream.configured_spec host.fec host.fits fecReorderGrace retransmit).2.2.2.2.2.2
  have hasked := hstream ▸ Stream.asked_run host.fec host.fits fecReorderGrace retransmit ops
  have hrequests : ∀ id, (d.stream.requested.map Prod.fst).count id ≤ d.stream.opened.count id :=
    fun id => Nat.le_trans (Nat.le_add_right ..) (hasked.count id)
  have honce : Meets Stream.step (Stream.Near x) (.start start) ops →
      (d.stream.requested.map Prod.fst).count x ≤ 1 := by
    intro hops
    have hopened := (hops.invariant (Stream.OnceOpened x) (fun _ _ hop h => h.step hop)
      (Stream.onceOpened_start host.fec host.fits fecReorderGrace retransmit x)).opened
    rw [← hstream] at hopened
    exact Nat.le_trans (hrequests x) hopened
  refine ⟨fun fragment missing hgenuine hmem => ?_, hrequests, honce⟩
  intro asked
  obtain ⟨-, -, entry, hentry, -, hmissing⟩ := mem_asks hmem
  obtain ⟨parity, hparity, rfl | ⟨hcount, hreads, hwrites⟩⟩ := packetizeRaw_spec hsent
  · -- nothing is sent, so the frame was never opened
    have hnone : asked.stream.reassembler.pending[x]? = none := by
      have hall : asked.stream = run Stream.step (.start start) (ops ++ [.ingest fragment]) := by
        rw [run_append, ← hstream]
        rfl
      rw [hall]
      refine Stream.unopened_run host.fec host.fits fecReorderGrace retransmit ?_
      intro fragment' hmem' hid
      rcases List.mem_append.mp hmem' with hearlier | hlast
      · exact absurd (hlink fragment' hearlier hid) List.not_mem_nil
      · cases List.mem_singleton.mp hlast
        exact absurd (hgenuine hid) List.not_mem_nil
    exact absurd (hnone.symm.trans hentry) (by simp)
  have hcoded := coded_layout htier hparity hcount
  have hparts : ∀ fragment ∈ parsed datagrams, (host.layout frame options parity).Has fragment := by
    intro fragment' hmem'
    obtain ⟨datagram, hdatagram, hdecode⟩ := List.mem_filterMap.mp hmem'
    obtain ⟨fragment'', hdecode', hhas⟩ := hreads datagram hdatagram
    cases hdecode.symm.trans hdecode'
    exact hhas
  have hsound : asked.Sound (host.layout frame options parity) host.fec := by
    have hbefore : d.Sound (host.layout frame options parity) host.fec :=
      Delivery.sound_run hcoded fun fragment' hmem' hid => hparts fragment' (hlink fragment' hmem' hid)
    exact hbefore.ingest hcoded fun hid => hparts fragment (hgenuine hid)
  have hnames : missing ≠ [] ∧ missing.Nodup ∧ missing.length ≤ start.nackMaxFrags ∧
      ∀ i, i ∈ missing ↔ i < (payloadsOf frame).length ∧ i ∉ asked.arrived := by
    have hsame : d.stream.reassembler.nackMaxFrags = start.nackMaxFrags := by
      rw [hstream]
      exact (Stream.sameSettings_run ..).nackMaxFrags
    rw [hsame] at hmissing
    exact (hsound.filled entry hentry).1.missingDataFrags hcoded hmissing
  obtain ⟨hsome, hnodup, hlength, hindices⟩ := hnames
  refine ⟨⟨hsome, hnodup, hlength, hcap, hindices⟩, fun body last hbody hopen hreach hlast hfed => ?_⟩
  have hring : ring.byFrame[x]? = some datagrams := by
    rw [Std.ExtTreeMap.contains_eq_isSome_getElem?] at hheld
    obtain ⟨held, hheld⟩ := Option.isSome_iff_exists.mp hheld
    have hentry := RetransmitRing.recorded_sub maxFrames maxBytes entries hheld
    rw [← hrecorded _ hentry rfl]
    exact hheld
  obtain ⟨hanswered, hcovers⟩ := answer_spec hring missing
  have hgenuine' : ∀ op ∈ body, Delivery.Genuine (host.layout frame options parity) op := by
    intro op hop
    cases op with
    | ingest fragment' => exact fun hid => hparts fragment' (hbody fragment' hop hid)
    | nextDroppedFrame => exact trivial
    | nextNeedsRetransmit => exact trivial
  have hremembers' : asked.stream.reassembler.Remembers (· ∈ asked.stream.reported) :=
    Stream.remembers_step hremembers (.ingest fragment)
  have hhas := hparts last (hanswered last hlast)
  obtain ⟨hsound', done, hdone, hid⟩ := Delivery.completes_fed hcoded hsound hremembers' hgenuine' hhas hopen hreach
    fun i hi hlate => by
      have hpart : i < (host.layout frame options parity).parts.length := by
        rw [Layout.length_parts]
        exact Nat.lt_of_lt_of_le hi (Nat.le_add_right ..)
      obtain ⟨datagram, hdatagram, fragment', hdecode, hhas', rfl⟩ := hwrites i hpart
      have hmem := hcovers datagram hdatagram fragment' hdecode ((hindices _).mpr ⟨hi, hlate⟩)
      exact ⟨fragment', hparts fragment' (hanswered _ hmem), rfl, hfed fragment' hmem⟩
  exact ⟨done, hdone, hid, completed_layout htier hsound' hcoded (fun _ => hhas) hdone hid⟩

/-- A frame one byte longer than a payload, without parity. -/
def twoPayloads : List UInt8 := List.replicate 1178 7

/-- Its two parts. -/
def firstPart : FrameFragment := ⟨⟨0, 0, 0, 2, ⟨8⟩, 0, 1177⟩, List.replicate 1177 7⟩
def secondPart : FrameFragment := ⟨⟨1, 0, 1, 2, ⟨8⟩, 0, 1⟩, [7]⟩

/-- The datagrams they are sent as. -/
def twoDatagrams : List (List UInt8) := [firstPart.encode, secondPart.encode]

theorem packetizeRaw_two : ∃ host', (VideoPacketizer.new (some .default) (by decide)).packetizeRaw twoPayloads
    (inTier 1) = some (twoDatagrams, host') := by
  have h : ((VideoPacketizer.new (some .default) (by decide)).packetizeRaw twoPayloads
      (inTier 1)).map Prod.fst = some twoDatagrams := by decide +kernel
  obtain ⟨⟨datagrams, host'⟩, hsome, heq⟩ := Option.map_eq_some_iff.mp h
  cases heq
  exact ⟨host', hsome⟩

theorem parsed_two : parsed twoDatagrams = [firstPart, secondPart] := by decide +kernel

/-- A ring that holds them. -/
def ringOfTwo : RetransmitRing := .recorded 8 1000000 [(0, twoDatagrams)]

theorem answer_two : answer ringOfTwo 0 [1] = [secondPart] := by decide +kernel

/-- The second part is lost, asked for when a newer frame comes, and
completes the frame. -/
theorem nack_repairs_lost :
    let d := run (Delivery.step 0) (.start (Stream.configured (some .default) (by decide) 0 (some (8, 4))))
      [.ingest firstPart]
    (0, [1]) ∈ d.stream.reassembler.asks (Stream.whole 1) ∧
      ∃ done, ((d.step 0 (.ingest (Stream.whole 1))).stream.reassembler.ingest secondPart).1 =
        .completed done ∧ done.avcc = twoPayloads := by
  intro d
  have hasked : (0, [1]) ∈ d.stream.reassembler.asks (Stream.whole 1) := by decide +kernel
  refine ⟨hasked, ?_⟩
  obtain ⟨host', hsent⟩ := packetizeRaw_two
  have htier : AdaptiveFec.Stampable (some .default) (inTier 1).fecTier := ⟨1, false, by decide, by decide⟩
  have hrecorded : ∀ entry ∈ [((0 : UInt32), twoDatagrams)], entry.1 = 0 → entry.2 = twoDatagrams := by
    simp
  have hlink : ∀ fragment, ReassemblerOp.ingest fragment ∈ [ReassemblerOp.ingest firstPart] →
      fragment.header.frameId = 0 → fragment ∈ parsed twoDatagrams := by
    rw [parsed_two]
    simp
  have hother : (Stream.whole 1).header.frameId = 0 → Stream.whole 1 ∈ parsed twoDatagrams := by
    intro hid
    exact absurd hid (by decide)
  have hopen : Throughout (Delivery.step 0) (Delivery.Open 0) (d.step 0 (.ingest (Stream.whole 1))) [] := by
    rw [Throughout, Delivery.Open]
    decide +kernel
  have hreach : FrameReassembler.isJump
      (d.step 0 (.ingest (Stream.whole 1))).stream.reassembler.highestSeenFrameId 0 = false := by
    decide +kernel
  have hlast : secondPart ∈ answer ringOfTwo 0 [1] := by
    rw [answer_two]
    exact List.mem_singleton_self _
  have hfed : ∀ fragment ∈ answer ringOfTwo 0 [1],
      fragment = secondPart ∨ ReassemblerOp.ingest fragment ∈ [] := by
    rw [answer_two]
    simp
  have hheld : ringOfTwo.byFrame.contains 0 = true := by decide +kernel
  have hnone : ∀ fragment, ReassemblerOp.ingest fragment ∈ [] → fragment.header.frameId = 0 →
      fragment ∈ parsed twoDatagrams := fun fragment hmem => absurd hmem List.not_mem_nil
  have hmeets : Meets (Delivery.step 0) (Delivery.InReach 0) (d.step 0 (.ingest (Stream.whole 1)))
      ([] ++ [.ingest secondPart]) := ⟨fun _ => hreach, trivial⟩
  obtain ⟨done, hdone, -, hbytes, -⟩ := ((nack_repairs htier hsent 8 1000000 [(0, twoDatagrams)] hrecorded
    hheld 0 (some (8, 4)) [.ingest firstPart] hlink).1 (Stream.whole 1) [1] hother hasked).2
      [] secondPart hnone hopen hmeets hlast hfed
  exact ⟨done, hdone, hbytes⟩

end VideoPacketizer

namespace Stream

open FrameReassembler
open VideoPacketizer (firstPart secondPart twoDatagrams ringOfTwo answer)

variable {r : FrameReassembler}
variable {n : Nat}

/-- The pending frame that holds the first part. -/
def halfOpen : Pending := (Pending.new 2 none 1).store firstPart

theorem opened_firstPart (hfec : r.fec = some .default) :
    (r.opened firstPart.header).store firstPart = halfOpen := by
  have hopened : r.opened firstPart.header = .new 2 none 1 := by
    rw [FrameReassembler.opened, hfec]
    rfl
  rw [hopened]
  rfl

theorem halfOpen_spec : halfOpen.canEventuallyComplete = false ∧
    halfOpen.isAwaitingRecoverableParity = false ∧ halfOpen.missingDataFrags 4 = some [1] := by
  decide +kernel

theorem verdict_young {frontier id : UInt32} {entry : Pending}
    (h : distanceWrapped frontier id ≤ 0) : r.verdict frontier id entry = .keep := by
  simp [verdict, h]

/-- After the laps frame zero is open again. -/
structure Reopened (n : Nat) (r : FrameReassembler) : Prop where
  seen : r.highestSeenFrameId = some 0
  high : r.highestRetiredFrameId = some (lap n)
  retired : ∀ id ∈ r.retired, ∃ j, id = lap j
  pending : r.pending[(0 : UInt32)]? = some halfOpen
  next : r.pending[(1 : UInt32)]? = none
  nacked : r.nacked = []

theorem Lapped.reopen (h : Lapped n r) (hback : lap (n + 1) = 0)
    (hfec : r.fec = some .default) : Reopened n (r.ingest firstPart).2 := by
  have hahead : distanceWrapped 0 (lap n) = 4096 := by
    rw [← hback]
    exact distance_lap n (i := 1) (by omega)
  have hgate : (r.advanceFrontier 0).1 = true := by
    rw [advanceFrontier_eq, h.seen]
    simp [isJump, hahead, maxFrontierJump]
  have hentry : r.entryOf firstPart = r.opened firstPart.header := by
    show (r.pending[firstPart.header.frameId]?).getD _ = _
    rw [h.pending]
    rfl
  have hstored : r.storedIn firstPart = halfOpen := by
    rw [storedIn, hentry]
    exact opened_firstPart hfec
  have haccepts : r.Accepts firstPart := by
    refine ⟨⟨by decide +kernel, ?_, hgate⟩, ?_⟩
    · show r.isRetired 0 = false
      rw [← hback]
      exact h.isRetired
    · rw [hentry, FrameReassembler.opened, hfec]
      rfl
  have hnot : ¬ r.Completes firstPart := by
    rintro ⟨hcan, -⟩
    rw [hstored, halfOpen_spec.1] at hcan
    exact absurd hcan Bool.false_ne_true
  have hfrontier : r.frontierAfter firstPart = 0 := by
    show newFrontier r.highestSeenFrameId 0 = 0
    rw [h.seen, newFrontier]
    simp [hahead]
  obtain ⟨-, hseen, -, -, -, -, -, hnacked, hretired, hhigh, hpending⟩ := taken_spec haccepts.1
  rw [hfrontier] at hseen
  rw [hstored] at hpending
  -- the sweep finds the frame at the frontier, and leaves it
  have hyoung : ∀ (id : UInt32) (entry : Pending), (r.taken firstPart).pending[id]? = some entry →
      (r.taken firstPart).verdict 0 id entry = .keep := by
    intro id entry hsome
    rw [hpending] at hsome
    split at hsome
    · rename_i hid
      have hzero : id = 0 := hid
      exact verdict_young (by rw [hzero, distanceWrapped_self])
    · simp [h.pending] at hsome
  have hswept : (r.taken firstPart).sweepHopelessFrames = r.taken firstPart := by
    have hnone : (r.taken firstPart).hopeless 0 = [] := by
      refine List.eq_nil_iff_forall_not_mem.mpr fun id hmem => ?_
      obtain ⟨entry, hentry, hhopeless⟩ := mem_hopeless.mp hmem
      simp [hyoung id entry hentry] at hhopeless
    have hquiet : (r.taken firstPart).requests 0 = [] := by
      refine List.eq_nil_iff_forall_not_mem.mpr fun wanted hmem => ?_
      obtain ⟨entry, hentry, hnack⟩ := mem_requests.mp hmem
      simp [hyoung wanted.1 entry hentry] at hnack
    rw [sweep_eq hseen, hnone, hquiet]
    rfl
  obtain ⟨queue, hstate, -⟩ := ingest_accepts haccepts
  rw [settled_of_not_completes hnot, hswept] at hstate
  rw [hstate]
  refine ⟨hseen, hhigh.trans h.high, fun id hid => ?_, (hpending 0).trans (if_pos rfl), ?_,
    hnacked.trans h.nacked⟩
  · obtain ⟨i, -, -, heq⟩ := h.newest id (hretired ▸ hid)
    exact ⟨_, heq⟩
  · refine (hpending 1).trans ?_
    rw [if_neg (by decide +kernel), h.pending]

theorem Reopened.asks (h : Reopened n r) (hback : lap (n + 1) = 0)
    (hgrace : r.retransmitGrace = 4096) (hcap : r.nackMaxFrags = 4) : (0, [1]) ∈ r.asks (whole 1) := by
  have hone : (1 : UInt32) = offset (lap n) 4097 := by
    have hahead : distanceWrapped 0 (lap n) = 4096 := by
      rw [← hback]
      exact distance_lap n (i := 1) (by omega)
    rw [show (4097 : Int) = 4096 + 1 by decide, ← offset_offset, ← hahead, offset_distance]
    decide
  have hopen : r.isRetired 1 = false := by
    have hnot : (1 : UInt32) ∉ r.retired := by
      intro hmem
      obtain ⟨j, hj⟩ := h.retired 1 hmem
      have hvalue := congrArg UInt32.toNat hj
      simp only [lap, UInt32.toNat_ofNat', UInt32.toNat_one] at hvalue
      omega
    have hpast : 0 < distanceWrapped 1 (lap n) := by
      simp [hone, distance_offset]
    simp [FrameReassembler.isRetired, hnot, h.high, hpast]
  have hstep : distanceWrapped 1 0 = 1 := by decide
  have hgate : (r.advanceFrontier 1).1 = true := by
    rw [advanceFrontier_eq, h.seen]
    simp [isJump, hstep, maxFrontierJump]
  obtain ⟨haccepts, hdone⟩ := whole_completes hopen hgate h.next
  have hfrontier : r.frontierAfter (whole 1) = 1 := by
    show newFrontier r.highestSeenFrameId 1 = 1
    rw [h.seen, newFrontier]
    simp [hstep]
  obtain ⟨-, -, hresend, hmax, -, -, hpending⟩ := settled_spec haccepts.1
  have hnew : (0 : UInt32) ∉ (r.settled (whole 1)).nacked := by
    rw [(nacked_settled haccepts (by rw [h.nacked]; exact List.nodup_nil)).2, h.nacked]
    simp
  rw [asks_accepted haccepts, hfrontier]
  refine mem_requests.mpr ⟨halfOpen, ?_, ?_⟩
  · rw [hpending, if_neg (by decide), h.pending]
  · obtain ⟨hcan, hwaiting, hmissing⟩ := halfOpen_spec
    simp [verdict, hstep, hcan, hwaiting, hresend, hgrace, hnew, hmax, hcap, hmissing]

theorem requested_ingest (t : Stream) (fragment : FrameFragment) :
    (t.step (.ingest fragment)).requested = t.requested ++ t.reassembler.asks fragment := rfl

theorem count_requested_run (t : Stream) (ops : List ReassemblerOp) (id : UInt32) :
    (t.requested.map Prod.fst).count id ≤ ((run step t ops).requested.map Prod.fst).count id := by
  induction ops generalizing t with
  | nil => exact Nat.le_refl _
  | cons op ops ih =>
    refine Nat.le_trans ?_ (ih (t.step op))
    cases op with
    | ingest fragment =>
      rw [Stream.step, List.map_append, List.count_append]
      exact Nat.le_add_right ..
    | nextDroppedFrame => exact Nat.le_refl _
    | nextNeedsRetransmit => exact Nat.le_refl _

theorem count_requested_two (t : Stream) (fragment fragment' : FrameFragment) (id : UInt32) :
    (t.requested.map Prod.fst).count id +
      (((t.reassembler.ingest fragment).2.asks fragment').map Prod.fst).count id ≤
        ((run step t [.ingest fragment, .ingest fragment']).requested.map Prod.fst).count id := by
  have hmore := count_requested_run t [.ingest fragment] id
  rw [run_cons, run_cons, run_nil, requested_ingest, List.map_append, List.count_append]
  exact Nat.add_le_add_right hmore _

/-- Frame zero, whose second part is lost, is asked for and given up. -/
def lostOnce : Stream :=
  run step (start (configured (some .default) fits_default 0 (some (4096, 4))))
    [.ingest firstPart, .ingest (whole (lap 1)), .ingest (whole (lap 2))]

theorem lostOnce_spec : Lapped 2 lostOnce.reassembler ∧ (lostOnce.requested.map Prod.fst).count 0 = 1 ∧
    lostOnce.reassembler.fec = some .default ∧ lostOnce.reassembler.retransmitGrace = 4096 ∧
      lostOnce.reassembler.nackMaxFrags = 4 := by
  have hnone : lostOnce.reassembler.pending.toList = [] := by decide +kernel
  have hnewest : (lostOnce.reassembler.retired.all fun id : UInt32 =>
      decide (∃ i < lostOnce.reassembler.retired.length, i ≤ 2 ∧ id = lap (2 - i))) = true := by
    decide +kernel
  refine ⟨⟨by decide +kernel, by decide +kernel, fun id => ?_, by decide +kernel, by decide +kernel,
    fun id hid => of_decide_eq_true (List.all_eq_true.mp hnewest id hid)⟩, by decide +kernel, by decide +kernel, by decide +kernel, by decide +kernel⟩
  rw [Option.eq_none_iff_forall_ne_some]
  intro entry hentry
  have hmem : (id, entry) ∈ lostOnce.reassembler.pending.toList := BTreeMap.mem_toList.mpr hentry
  rw [hnone] at hmem
  simp at hmem

/-- A jump of the frontier past half the id space turns the answer away
while the frame is still pending; and once around the id space a frame that
was given up is opened and asked for again. -/
theorem nack_repairs_fails :
    (let ops := [.ingest firstPart, .ingest (whole 200)] ++
        List.replicate 8 (.ingest (fragmentOf 2147483748 0 2 ⟨8⟩ []))
      let t := run step (start (configured (some .default) (by decide) 0 (some (300, 4)))) ops
      t.requested = [(0, [1])] ∧ t.reassembler.pending.contains 0 = true ∧
        answer ringOfTwo 0 [1] = [secondPart] ∧ (t.reassembler.ingest secondPart).1 = .stale) ∧
    ∃ ops, 2 ≤ ((run step (start (configured (some .default) (by decide) 0 (some (4096, 4)))) ops).requested.map
      Prod.fst).count 0 := by
  refine ⟨by decide +kernel, ?_⟩
  obtain ⟨hlapped, hcount, hfec, hgrace, hcap⟩ := lostOnce_spec
  obtain ⟨n, hback⟩ : ∃ n, lap (2 + n + 1) = 0 := ⟨1048573, by decide⟩
  refine ⟨[.ingest firstPart, .ingest (whole (lap 1)), .ingest (whole (lap 2))] ++
    (laps 2 n ++ [.ingest firstPart, .ingest (whole 1)]), ?_⟩
  rw [run_append, run_append]
  have hlost : run step (start (configured (some .default) (by decide) 0 (some (4096, 4))))
      [.ingest firstPart, .ingest (whole (lap 1)), .ingest (whole (lap 2))] = lostOnce := rfl
  rw [hlost]
  have hlater := count_requested_run lostOnce (laps 2 n) 0
  have hsame := sameSettings_run lostOnce (laps 2 n)
  have hlapped' := (run_laps hlapped n).2
  generalize run step lostOnce (laps 2 n) = t at *
  have hsame' := sameSettings_ingest t.reassembler firstPart
  have hasks := (hlapped'.reopen hback (hsame.fec.trans hfec)).asks hback
    (hsame'.retransmitGrace.trans (hsame.retransmitGrace.trans hgrace))
    (hsame'.nackMaxFrags.trans (hsame.nackMaxFrags.trans hcap))
  have hagain : 1 ≤ (((t.reassembler.ingest firstPart).2.asks (whole 1)).map Prod.fst).count 0 :=
    List.count_pos_iff.mpr (List.mem_map.mpr ⟨_, hasks, rfl⟩)
  have hboth := count_requested_two t firstPart (whole 1) 0
  exact Nat.le_trans (Nat.add_le_add (Nat.le_trans (Nat.le_of_eq hcount.symm) hlater) hagain) hboth

end Stream

end SlopDesk.Video
