/-
SlopDesk.Video.RoundTrip — a frame through the packetizer, a lossy and
reordering link, and the reassembler.

§1 what the reassembler remembers is what it reported, and a frame that
stays behind the frontier is reported once. §2 the ledger of one frame: the
indices of its parts that the reassembler took since it opened the frame.
§3 the round trip: the frame is reported with its own bytes and flags, by
the part that brings every group within its parity.
-/
import SlopDesk.Video.FrameFill
import SlopDesk.Video.ReassemblerFrontier

namespace SlopDesk.Video

open SlopDesk.Base
open SlopDesk.Base.Blocks

/-! ## §1 What is remembered -/

namespace FrameReassembler

variable {r : FrameReassembler} {id frameId : UInt32} {fragment : FrameFragment} {known : UInt32 → Prop}
variable {ids : List UInt32}

/-- What is remembered as reported is known, and not pending. -/
structure Remembers (r : FrameReassembler) (known : UInt32 → Prop) : Prop where
  retired : ∀ id ∈ r.retired, known id ∧ r.pending[id]? = none
  high : ∀ high, r.highestRetiredFrameId = some high → known high

theorem mem_insertNew : id ∈ insertNew frameId ids ↔ id = frameId ∨ id ∈ ids := by
  unfold insertNew
  split
  · grind
  · simp

theorem mem_of_mem_retire (h : id ∈ (r.retire frameId).retired) : id = frameId ∨ id ∈ r.retired := by
  have hmem : id ∈ insertNew frameId r.retired := by
    grind [retire]
  exact mem_insertNew.mp hmem

theorem Remembers.retire (h : r.Remembers known) (hknown : known frameId) :
    (r.retire frameId).Remembers known where
  retired id hid := by
    rw [pending_retire]
    rcases mem_of_mem_retire hid with rfl | hmem
    · exact ⟨hknown, if_pos rfl⟩
    · obtain ⟨hid, hnone⟩ := h.retired id hmem
      exact ⟨hid, by rw [hnone, ite_self]⟩
  high high hhigh := by
    rw [highestRetired_retire] at hhigh
    cases hhigh
    unfold newFrontier
    split
    · exact hknown
    · rename_i seen hseen
      split
      · exact hknown
      · exact h.high seen hseen

theorem Remembers.foldl_drop (h : r.Remembers known) (hknown : ∀ id ∈ ids, known id) :
    (ids.foldl drop r).Remembers known := by
  induction ids generalizing r with
  | nil => exact h
  | cons first ids ih =>
    have hretire := h.retire (hknown first (List.mem_cons_self ..))
    have hdrop : (r.drop first).Remembers known := ⟨hretire.retired, hretire.high⟩
    exact ih hdrop fun id hid => hknown id (List.mem_cons_of_mem _ hid)

theorem Remembers.sweep {frontier : UInt32} (h : r.Remembers known)
    (hseen : r.highestSeenFrameId = some frontier) (hknown : ∀ id ∈ r.hopeless frontier, known id) :
    r.sweepHopelessFrames.Remembers known := by
  rw [sweep_eq hseen]
  have hasked : ((r.requests frontier).foldl request r).Remembers known := by
    rw [foldl_request]
    exact ⟨h.retired, h.high⟩
  exact hasked.foldl_drop hknown

theorem Remembers.mono {known' : UInt32 → Prop} (h : r.Remembers known) (hle : ∀ id, known id → known' id) :
    r.Remembers known' :=
  ⟨fun id hid => ⟨hle id (h.retired id hid).1, (h.retired id hid).2⟩,
    fun high hhigh => hle high (h.high high hhigh)⟩

theorem mem_reports_iff (h : r.Accepts fragment) : id ∈ Stream.reports r fragment ↔
    (r.Completes fragment ∧ id = fragment.header.frameId) ∨ id ∈ r.givenUp fragment := by
  constructor
  · exact mem_reports h
  · intro hmem
    refine List.count_pos_iff.mp ?_
    rw [count_reports h]
    rcases hmem with hdone | hgiven
    · rw [if_pos hdone]
      omega
    · rw [if_pos hgiven]
      omega

theorem Remembers.ingest (h : r.Remembers known) (fragment : FrameFragment)
    (hknown : ∀ id ∈ Stream.reports r fragment, known id) : (r.ingest fragment).2.Remembers known := by
  by_cases haccepts : r.Accepts fragment
  · obtain ⟨queue, hstate, -⟩ := ingest_accepts haccepts
    obtain ⟨hseen, -⟩ := settled_spec haccepts.1
    obtain ⟨-, -, -, -, -, -, -, -, hretired, hhigh, hpending⟩ := taken_spec haccepts.1
    have htaken : (r.taken fragment).Remembers known := by
      refine ⟨fun id hid => ?_, fun high => by rw [hhigh]; exact h.high high⟩
      rw [hretired] at hid
      have hother : id ≠ fragment.header.frameId := by
        rintro rfl
        have hopen := haccepts.1.2.1
        simp [isRetired, hid] at hopen
      rw [hpending, if_neg hother]
      exact h.retired id hid
    have hsettled : (r.settled fragment).Remembers known := by
      by_cases hdone : r.Completes fragment
      · rw [settled_of_completes hdone]
        exact htaken.retire (hknown _ ((mem_reports_iff haccepts).mpr (.inl ⟨hdone, rfl⟩)))
      · rw [settled_of_not_completes hdone]
        exact htaken
    have hswept := hsettled.sweep hseen fun id hid =>
      hknown id ((mem_reports_iff haccepts).mpr (.inr hid))
    rw [hstate]
    exact ⟨hswept.retired, hswept.high⟩
  · obtain ⟨-, seen, candidates, rejected, hstate, -⟩ := ingest_refused haccepts
    rw [hstate]
    exact ⟨h.retired, h.high⟩

/-- A frame that is pending, or past everything reported, is not turned
away as reported. -/
theorem Remembers.isRetired (h : r.Remembers known)
    (hopen : r.pending.contains id = true ∨ ∀ reported, known reported → 0 < distanceWrapped id reported) :
    r.isRetired id = false := by
  have hnot : id ∉ r.retired := by
    intro hmem
    obtain ⟨hid, hnone⟩ := h.retired id hmem
    rcases hopen with hpending | hpast
    · grind
    · have hself := hpast id hid
      simp at hself
  cases hhigh : r.highestRetiredFrameId with
  | none => simp [FrameReassembler.isRetired, hnot, hhigh]
  | some high =>
    rcases hopen with hpending | hpast
    · simp [FrameReassembler.isRetired, hnot, hhigh, hpending]
    · have hahead := hpast high (h.high high hhigh)
      simp [FrameReassembler.isRetired, hnot, hhigh, hahead]

theorem fec_ingest (r : FrameReassembler) (fragment : FrameFragment) : (r.ingest fragment).2.fec = r.fec := by
  rcases r.ingest_cases fragment with ⟨-, candidates, rejected, heq⟩ |
    ⟨-, -, candidates, rejected, heq⟩ | ⟨haccepts, heq⟩
  · rw [heq]
    rfl
  · rw [heq]
    rfl
  · rw [heq]
    exact (sameStream_finish ..).fec.trans (taken_spec haccepts.1).1

end FrameReassembler

namespace Stream

variable {t : Stream}

/-- In order, and a frame that was reported is behind the frontier. -/
def Near (x : UInt32) (t : Stream) (op : ReassemblerOp) : Prop :=
  t.InOrder op ∧ (x ∈ t.reported → isBehind t.reassembler x = true)

/-- A frame is reported once while it stays behind the frontier. -/
structure Once (x : UInt32) (t : Stream) : Prop where
  guarded : t.Guarded
  count : t.reported.count x ≤ 1
  recent : x ∈ t.reported → isBehind t.reassembler x = true → x ∈ t.recent

open FrameReassembler in
theorem Once.step {x : UInt32} (h : t.Once x) {op : ReassemblerOp} (hop : t.Near x op) :
    (t.step op).Once x := by
  refine ⟨h.guarded.step hop.1, ?_, ?_⟩
  · cases op with
    | ingest fragment =>
      have hsingle := List.nodup_iff_count_le_one.mp (nodup_reports t.reassembler fragment) x
      simp only [Stream.step, List.count_append]
      by_cases hmem : x ∈ t.reported
      · have hrecent := h.recent hmem (hop.2 hmem)
        have hclosed := (h.guarded.closed x hrecent).ingest fragment
        have hcount := h.count
        rw [List.count_eq_zero.mpr hclosed.2]
        omega
      · rw [List.count_eq_zero.mpr hmem]
        omega
    | nextDroppedFrame => exact h.count
    | nextNeedsRetransmit => exact h.count
  · intro hmem hbehind
    cases op with
    | ingest fragment =>
      simp only [Stream.step, List.mem_append, List.mem_filter] at hmem hbehind ⊢
      refine ⟨?_, hbehind⟩
      rcases hmem with hold | hnew
      · exact .inl (h.recent hold (hop.2 hold))
      · exact .inr hnew
    | nextDroppedFrame => exact h.recent hmem (hop.2 hmem)
    | nextNeedsRetransmit => exact h.recent hmem (hop.2 hmem)

theorem remembers_step (h : t.reassembler.Remembers (· ∈ t.reported)) (op : ReassemblerOp) :
    (t.step op).reassembler.Remembers (· ∈ (t.step op).reported) := by
  cases op with
  | ingest fragment =>
    exact (h.mono fun id => List.mem_append_left _).ingest fragment fun id => List.mem_append_right _
  | nextDroppedFrame =>
    simp only [Stream.step, FrameReassembler.nextDroppedFrame]
    split
    · exact h
    · exact ⟨h.retired, h.high⟩
  | nextNeedsRetransmit =>
    simp only [Stream.step, FrameReassembler.nextNeedsRetransmit]
    split
    · exact h
    · exact ⟨h.retired, h.high⟩

theorem configured_spec (fec : Option ReedSolomonFec) (fits : ∀ codec ∈ fec, AdaptiveFec.Fits codec)
    (fecReorderGrace : Int) (retransmit : Option (Int × Nat)) :
    let r := configured fec fits fecReorderGrace retransmit
    r.fec = fec ∧ r.pending = ∅ ∧ r.retired = [] ∧ r.highestRetiredFrameId = none ∧
      r.highestSeenFrameId = none ∧ r.nacked = [] ∧ r.nackMaxFrags ≤ maxNackFragments := by
  cases retransmit with
  | none => exact ⟨rfl, rfl, rfl, rfl, rfl, rfl, Nat.zero_le _⟩
  | some wanted => exact ⟨rfl, rfl, rfl, rfl, rfl, rfl, Nat.min_le_right ..⟩

section Run

variable (fec : Option ReedSolomonFec) (fits : ∀ codec ∈ fec, AdaptiveFec.Fits codec)
  (fecReorderGrace : Int) (retransmit : Option (Int × Nat))

theorem remembers_run (ops : List ReassemblerOp) :
    (run step (start (configured fec fits fecReorderGrace retransmit)) ops).reassembler.Remembers
      (· ∈ (run step (start (configured fec fits fecReorderGrace retransmit)) ops).reported) := by
  obtain ⟨-, -, hretired, hhigh, -⟩ := configured_spec fec fits fecReorderGrace retransmit
  refine run_invariant (fun t : Stream => t.reassembler.Remembers (· ∈ t.reported))
    (fun _ op h => remembers_step h op) ⟨?_, ?_⟩ ops
  · simp [start, hretired]
  · simp [start, hhigh]

theorem once_start (x : UInt32) : (start (configured fec fits fecReorderGrace retransmit)).Once x := by
  obtain ⟨-, -, -, hhigh, hseen, -⟩ := configured_spec fec fits fecReorderGrace retransmit
  exact ⟨⟨fun _ => hhigh, fun seen hsome => by simp [start, hseen] at hsome, by simp [start]⟩,
    by simp [start], by simp [start]⟩

end Run

end Stream

/-! ## §2 The ledger of a frame -/

/-- A reassembler, and the indices of the parts of one frame it has taken
since it opened that frame. -/
structure Delivery where
  stream : Stream
  arrived : List Nat

namespace Delivery

/-- Before the first fragment. -/
def start (reassembler : FrameReassembler) : Delivery := ⟨.start reassembler, []⟩

/-- The part of frame `x` an operation brings: a fragment that is not
turned away. -/
def taken (x : UInt32) (r : FrameReassembler) : ReassemblerOp → List Nat
  | .ingest fragment =>
    if fragment.header.frameId = x ∧ (r.ingest fragment).1 ≠ .stale then
      [fragment.header.fragIndex.toNat]
    else []
  | _ => []

/-- One operation, in the stream and in the ledger. -/
def step (x : UInt32) (d : Delivery) (op : ReassemblerOp) : Delivery :=
  let stream := d.stream.step op
  { stream
    arrived :=
      if stream.reassembler.pending.contains x then taken x d.stream.reassembler op ++ d.arrived
      else [] }

theorem stream_run (x : UInt32) (d : Delivery) (ops : List ReassemblerOp) :
    (run (step x) d ops).stream = run Stream.step d.stream ops := by
  induction ops generalizing d with
  | nil => rfl
  | cons op ops ih => exact ih (d.step x op)

/-- Every fragment of the layout's frame is one of the layout's. -/
def Genuine (l : Layout) : ReassemblerOp → Prop
  | .ingest fragment => fragment.header.frameId = l.frameId → l.Has fragment
  | _ => True

/-- The frame, while it is pending, holds what the ledger says. -/
structure Sound (l : Layout) (fec : Option ReedSolomonFec) (d : Delivery) : Prop where
  codec : d.stream.reassembler.fec = fec
  filled : ∀ p, d.stream.reassembler.pending[l.frameId]? = some p → p.Filled l fec d.arrived ∧ p.Counted
  unopened : d.stream.reassembler.pending[l.frameId]? = none → d.arrived = []

variable {l : Layout} {fec : Option ReedSolomonFec} {d : Delivery} {fragment : FrameFragment}
variable {r : FrameReassembler}
variable {op : ReassemblerOp} {done : ReassembledFrame}

open FrameReassembler in
theorem Sound.entryOf (h : d.Sound l fec) (hcoded : l.Coded fec) (hhas : l.Has fragment) :
    (d.stream.reassembler.entryOf fragment).Filled l fec d.arrived ∧
      (d.stream.reassembler.entryOf fragment).Counted := by
  unfold FrameReassembler.entryOf
  rw [hhas.frameId]
  cases hpending : d.stream.reassembler.pending[l.frameId]? with
  | some p => exact h.filled p hpending
  | none =>
    rw [h.unopened hpending, ← h.codec]
    exact ⟨Pending.filled_opened (h.codec.symm ▸ hcoded) hhas, Pending.counted_new ..⟩

theorem Sound.storedIn (h : d.Sound l fec) (hcoded : l.Coded fec) (hhas : l.Has fragment) :
    (d.stream.reassembler.storedIn fragment).Filled l fec (fragment.header.fragIndex.toNat :: d.arrived) ∧
      (d.stream.reassembler.storedIn fragment).Counted := by
  obtain ⟨hfilled, hcounted⟩ := h.entryOf hcoded hhas
  refine ⟨hfilled.store hcoded hhas, hcounted.store ?_⟩
  rw [hfilled.fragCount]
  exact (List.getElem?_eq_some_iff.mp hhas.part).1

/-- The parts that bring the frame within its parity. -/
def Enough (l : Layout) (fec : Option ReedSolomonFec) (d : Delivery) (fragment : FrameFragment) : Prop :=
  Recoverable l.data.length (tierGroup fec l.flags.fecTier) (tierParity fec l.flags.fecTier)
    (fragment.header.fragIndex.toNat :: d.arrived)

open FrameReassembler in
/-- A part completes the frame when it is enough, and then it decodes to
the frame's bytes. -/
theorem Sound.completes_iff (h : d.Sound l fec) (hcoded : l.Coded fec) (hhas : l.Has fragment) :
    (d.stream.reassembler.Completes fragment ↔ d.Enough l fec fragment) ∧
      (d.Enough l fec fragment → ∃ recovered,
        (d.stream.reassembler.storedIn fragment).assemble d.stream.reassembler.fec =
          some (l.data.flatten, recovered)) := by
  obtain ⟨hfilled, hcounted⟩ := h.storedIn hcoded hhas
  have hcan := hfilled.canComplete_iff hcoded hcounted
  have hassemble : d.Enough l fec fragment → ∃ recovered,
      (d.stream.reassembler.storedIn fragment).assemble d.stream.reassembler.fec =
        some (l.data.flatten, recovered) := by
    intro henough
    rw [h.codec]
    exact hfilled.assemble hcoded henough
  refine ⟨⟨fun hdone => hcan.mp hdone.1, fun henough => ⟨hcan.mpr henough, ?_⟩⟩, hassemble⟩
  obtain ⟨recovered, heq⟩ := hassemble henough
  rw [heq]
  rfl

open FrameReassembler in
theorem ingest_ne_stale (h : r.Accepts fragment) : (r.ingest fragment).1 ≠ .stale := by
  obtain ⟨_, -, hcases⟩ := ingest_accepts h
  rcases hcases with ⟨-, -, _, _, -, hresult⟩ | ⟨-, -, -, hresult⟩ | ⟨-, -, -, hresult⟩ <;> simp [hresult]

theorem Sound.unchanged (h : d.Sound l fec) (hcodec : (d.stream.step op).reassembler.fec = fec)
    (hpending : (d.stream.step op).reassembler.pending = d.stream.reassembler.pending)
    (htaken : taken l.frameId d.stream.reassembler op = []) : (d.step l.frameId op).Sound l fec := by
  have harrived : (d.step l.frameId op).arrived = d.arrived := by
    show (if (d.stream.step op).reassembler.pending.contains l.frameId then _ else []) = d.arrived
    rw [hpending, htaken, List.nil_append]
    split
    · rfl
    · rename_i hnot
      rw [Std.ExtTreeMap.contains_eq_isSome_getElem?, Bool.not_eq_true, Option.isSome_eq_false_iff,
        Option.isNone_iff_eq_none] at hnot
      exact (h.unopened hnot).symm
  refine ⟨hcodec, fun p hp => ?_, fun hnone => ?_⟩
  · rw [harrived]
    exact h.filled p (hpending ▸ hp)
  · rw [harrived]
    exact h.unopened (hpending ▸ hnone)

open FrameReassembler in
theorem Sound.ingest (h : d.Sound l fec) (hcoded : l.Coded fec)
    (hgenuine : Genuine l (.ingest fragment)) : (d.step l.frameId (.ingest fragment)).Sound l fec := by
  have hcodec : (d.stream.reassembler.ingest fragment).2.fec = fec :=
    (fec_ingest ..).trans h.codec
  by_cases haccepts : d.stream.reassembler.Accepts fragment
  · have hpending := pending_ingest haccepts l.frameId
    have hstale := ingest_ne_stale haccepts
    refine ⟨hcodec, fun p hp => ?_, fun hnone => ?_⟩
    · change (d.stream.reassembler.ingest fragment).2.pending[l.frameId]? = some p at hp
      have harrived : (d.step l.frameId (.ingest fragment)).arrived =
          taken l.frameId d.stream.reassembler (.ingest fragment) ++ d.arrived := by
        refine if_pos ?_
        show (d.stream.reassembler.ingest fragment).2.pending.contains l.frameId = true
        rw [Std.ExtTreeMap.contains_eq_isSome_getElem?, hp]
        rfl
      rw [harrived]
      rw [hpending] at hp
      by_cases hown : l.frameId = fragment.header.frameId
      · have htaken : taken l.frameId d.stream.reassembler (.ingest fragment) =
            [fragment.header.fragIndex.toNat] := if_pos ⟨hown.symm, hstale⟩
        rw [htaken]
        have hstored := h.storedIn hcoded (hgenuine hown.symm)
        split at hp
        · simp at hp
        · split at hp
          · simp at hp
          · cases hp
            exact hstored
      · have htaken : taken l.frameId d.stream.reassembler (.ingest fragment) = [] :=
          if_neg fun heq => hown heq.1.symm
        rw [htaken, List.nil_append]
        split at hp
        · simp at hp
        · exact h.filled p hp
    · refine if_neg ?_
      change (d.stream.reassembler.ingest fragment).2.pending[l.frameId]? = none at hnone
      show ¬ (d.stream.reassembler.ingest fragment).2.pending.contains l.frameId = true
      simp [Std.ExtTreeMap.contains_eq_isSome_getElem?, hnone]
  · obtain ⟨hresult, seen, candidates, rejected, hstate, -⟩ := ingest_refused haccepts
    have hpending : (d.stream.reassembler.ingest fragment).2.pending = d.stream.reassembler.pending := by
      rw [hstate]
      rfl
    exact h.unchanged hcodec hpending (if_neg fun heq => heq.2 hresult)

theorem Sound.step (h : d.Sound l fec) (hcoded : l.Coded fec)
    (hgenuine : Genuine l op) : (d.step l.frameId op).Sound l fec := by
  cases op with
  | ingest fragment => exact h.ingest hcoded hgenuine
  | nextDroppedFrame =>
    have hsame : d.stream.reassembler.nextDroppedFrame.2.fec = d.stream.reassembler.fec ∧
        d.stream.reassembler.nextDroppedFrame.2.pending = d.stream.reassembler.pending := by
      grind [FrameReassembler.nextDroppedFrame]
    exact h.unchanged (hsame.1.trans h.codec) hsame.2 rfl
  | nextNeedsRetransmit =>
    have hsame : d.stream.reassembler.nextNeedsRetransmit.2.fec = d.stream.reassembler.fec ∧
        d.stream.reassembler.nextNeedsRetransmit.2.pending = d.stream.reassembler.pending := by
      grind [FrameReassembler.nextNeedsRetransmit]
    exact h.unchanged (hsame.1.trans h.codec) hsame.2 rfl

theorem sound_run {fits : ∀ codec ∈ fec, AdaptiveFec.Fits codec} {fecReorderGrace : Int}
    {retransmit : Option (Int × Nat)} {ops : List ReassemblerOp} (hcoded : l.Coded fec)
    (hlink : ∀ fragment, .ingest fragment ∈ ops → fragment.header.frameId = l.frameId → l.Has fragment) :
    (run (step l.frameId) (start (Stream.configured fec fits fecReorderGrace retransmit)) ops).Sound
      l fec := by
  obtain ⟨hcodec, hpending, -⟩ := Stream.configured_spec fec fits fecReorderGrace retransmit
  have hnone : (Stream.configured fec fits fecReorderGrace retransmit).pending[l.frameId]? = none := by
    rw [hpending]
    exact Std.ExtTreeMap.getElem?_empty
  have hgenuine : ∀ op ∈ ops, Genuine l op := by
    intro op hop
    cases op with
    | ingest fragment => exact hlink fragment hop
    | nextDroppedFrame => exact trivial
    | nextNeedsRetransmit => exact trivial
  have hmeets : Meets (step l.frameId) (fun _ => Genuine l)
      (start (Stream.configured fec fits fecReorderGrace retransmit)) ops := meets_of_forall hgenuine _
  exact hmeets.invariant (Sound l fec) (fun _ _ hop h => h.step hcoded hop)
    ⟨hcodec, fun p hp => absurd (hnone.symm.trans hp) (by simp), fun _ => rfl⟩

theorem completed_iff (h : (r.ingest fragment).1 ≠ .stale) :
    (∃ done, (r.ingest fragment).1 = .completed done) ↔ r.Completes fragment := by
  by_cases haccepts : r.Accepts fragment
  · obtain ⟨_, -, hcases⟩ := FrameReassembler.ingest_accepts haccepts
    rcases hcases with ⟨hdone, -, _, _, -, hresult⟩ | ⟨hnot, -, -, hresult⟩ | ⟨hnot, -, -, hresult⟩
    · simp [hresult, hdone]
    · simp [hresult, hnot]
    · simp [hresult, hnot]
  · exact absurd (FrameReassembler.ingest_refused haccepts).1 h

theorem frameId_completed
    (h : (r.ingest fragment).1 = .completed done) : done.frameId = fragment.header.frameId := by
  by_cases haccepts : r.Accepts fragment
  · obtain ⟨_, -, hcases⟩ := FrameReassembler.ingest_accepts haccepts
    rcases hcases with ⟨-, -, _, _, -, hresult⟩ | ⟨-, -, -, hresult⟩ | ⟨-, -, -, hresult⟩
    · cases h.symm.trans hresult
      rfl
    · simp [h] at hresult
    · simp [h] at hresult
  · simp [(FrameReassembler.ingest_refused haccepts).1] at h

theorem Sound.completed (h : d.Sound l fec) (hcoded : l.Coded fec) (hgenuine : Genuine l (.ingest fragment))
    (hdone : (d.stream.reassembler.ingest fragment).1 = .completed done) (hid : done.frameId = l.frameId) :
    done.avcc = l.data.flatten ∧ done.keyframe = l.flags.contains .keyframe ∧
      done.crisp = l.flags.contains .crisp ∧ done.isLtr = l.flags.contains .isLtr ∧
      done.ackedAnchored = l.flags.contains .ackedAnchored := by
  have haccepts : d.stream.reassembler.Accepts fragment := by
    by_contra hnot
    rw [(FrameReassembler.ingest_refused hnot).1] at hdone
    simp at hdone
  obtain ⟨_, -, hcases⟩ := FrameReassembler.ingest_accepts haccepts
  rcases hcases with ⟨hcompletes, -, avcc, recovered, hassemble, hresult⟩ | ⟨-, -, -, hresult⟩ |
    ⟨-, -, -, hresult⟩
  · obtain rfl : done = FrameReassembler.finished (d.stream.reassembler.storedIn fragment)
        fragment.header.frameId avcc recovered := by
      simpa [hdone] using hresult
    have hhas := hgenuine hid
    obtain ⟨hiff, hbytes⟩ := h.completes_iff hcoded hhas
    obtain ⟨recovered', heq⟩ := hbytes (hiff.mp hcompletes)
    obtain ⟨hfilled, -⟩ := h.storedIn hcoded hhas
    refine ⟨?_, ?_, ?_, ?_, ?_⟩
    · have hsame := hassemble.symm.trans heq
      simp only [Option.some.injEq, Prod.mk.injEq] at hsame
      exact hsame.1
    · simpa [FrameReassembler.finished] using hfilled.keyframe
    · simpa [FrameReassembler.finished] using hfilled.crisp
    · simpa [FrameReassembler.finished] using hfilled.isLtr
    · simpa [FrameReassembler.finished] using hfilled.ackedAnchored
  · simp [hdone] at hresult
  · simp [hdone] at hresult

open FrameReassembler in
/-- A part is taken while its frame is pending or past everything reported,
unless it jumps the frontier. -/
theorem Sound.accepts (h : d.Sound l fec) (hcoded : l.Coded fec) (hhas : l.Has fragment)
    (hremembers : d.stream.reassembler.Remembers (· ∈ d.stream.reported))
    (hnear : isJump d.stream.reassembler.highestSeenFrameId l.frameId = false)
    (hopen : d.stream.reassembler.pending.contains l.frameId = true ∨
      ∀ id ∈ d.stream.reported, 0 < distanceWrapped l.frameId id) :
    d.stream.reassembler.Accepts fragment := by
  have hindex := (List.getElem?_eq_some_iff.mp hhas.part).1
  have hroom := hcoded.room _ (List.mem_of_getElem? hhas.part)
  have hcount := hcoded.count
  have hformed : malformed fragment = false := by
    have htotal := hhas.fragCount
    have hpos : fragment.header.fragCount ≠ 0 := by
      intro hzero
      rw [hzero] at htotal
      simp only [UInt16.toNat_zero] at htotal
      omega
    have hbelow : ¬ fragment.header.fragCount ≤ fragment.header.fragIndex := by
      rw [UInt16.le_iff_toNat_le]
      omega
    have hfew : ¬ maxFragmentsPerFrame < fragment.header.fragCount.toNat := by omega
    have hshort : ¬ maxDatagramSize - headerSize < fragment.payload.length := Nat.not_lt.mpr hroom
    simp [malformed, hpos, hbelow, hfew, hshort]
  have hgate : (d.stream.reassembler.advanceFrontier fragment.header.frameId).1 = true := by
    rw [hhas.frameId, advanceFrontier_eq, hnear]
    rfl
  refine ⟨⟨hformed, ?_, hgate⟩, ?_⟩
  · rw [hhas.frameId]
    exact hremembers.isRetired hopen
  · exact UInt16.toNat_inj.mp (hhas.fragCount.trans (h.entryOf hcoded hhas).1.fragCount.symm)

end Delivery

/-! ## §3 The round trip -/

namespace VideoPacketizer

open FrameReassembler

variable {frame : List UInt8} {host : VideoPacketizer} {options : PacketizeOptions}
variable {sent : List FrameFragment}

theorem packetize_spec {host' : VideoPacketizer} (htier : AdaptiveFec.Stampable host.fec options.fecTier)
    (hsent : host.packetize frame options = some (sent, host')) : sent = [] ∨
      ∃ parity, (host.layout frame options parity).Coded host.fec ∧
        ∀ fragment ∈ sent, (host.layout frame options parity).Has fragment := by
  obtain ⟨⟨datagrams, host₁⟩, hraw, hsent⟩ := Option.bind_eq_some_iff.mp hsent
  cases hsent
  obtain ⟨parity, hparity, hnone | ⟨hcount, hreads, -⟩⟩ := packetizeRaw_spec hraw
  · exact .inl (by simp [hnone])
  · refine .inr ⟨parity, coded_layout htier hparity hcount, fun fragment hmem => ?_⟩
    obtain ⟨datagram, hdatagram, hdecode⟩ := List.mem_filterMap.mp hmem
    obtain ⟨fragment', hdecode', hhas⟩ := hreads datagram hdatagram
    cases hdecode.symm.trans hdecode'
    exact hhas

/-- A frame completed from its own parts has the bytes and the flags it was
sent with. -/
theorem completed_layout
    {parity : List (List UInt8)} {d : Delivery} {fragment : FrameFragment} {done : ReassembledFrame}
    (htier : AdaptiveFec.Stampable host.fec options.fecTier)
    (hsound : d.Sound (host.layout frame options parity) host.fec)
    (hcoded : (host.layout frame options parity).Coded host.fec)
    (hgenuine : Delivery.Genuine (host.layout frame options parity) (.ingest fragment))
    (hdone : (d.stream.reassembler.ingest fragment).1 = .completed done)
    (hid : done.frameId = host.nextFrameId) :
    done.avcc = frame ∧ done.keyframe = options.keyframe ∧ done.crisp = options.crisp ∧
      done.isLtr = options.isLtr ∧ done.ackedAnchored = options.ackedAnchored := by
  obtain ⟨-, hkeyframe, hcrisp, hltr, hacked, -⟩ := baseFlags_spec htier.spec.1
  obtain ⟨hbytes, hkeyframe', hcrisp', hltr', hacked'⟩ := hsound.completed hcoded hgenuine hdone hid
  exact ⟨hbytes.trans (flatten_payloadsOf frame), hkeyframe'.trans hkeyframe, hcrisp'.trans hcrisp,
    hltr'.trans hltr, hacked'.trans hacked⟩

/-- The round trip of a frame over a link that loses, repeats and reorders
its parts among those of any other frames. A frame is completed only with
its own bytes and flags; a part the reassembler takes completes it exactly
when it brings every group within its parity; a part is taken while the
frame is pending or past everything reported, unless it jumps the frontier;
and a frame that stays behind the frontier is reported at most once. -/
theorem round_trip {host host' : VideoPacketizer} {frame : List UInt8} {options : PacketizeOptions}
    {sent : List FrameFragment} (htier : AdaptiveFec.Stampable host.fec options.fecTier)
    (hsent : host.packetize frame options = some (sent, host')) (fecReorderGrace : Int)
    (retransmit : Option (Int × Nat)) (ops : List ReassemblerOp)
    (hlink : ∀ fragment, .ingest fragment ∈ ops → fragment.header.frameId = host.nextFrameId →
      fragment ∈ sent) :
    let x := host.nextFrameId
    let start := Stream.configured host.fec host.fits fecReorderGrace retransmit
    let d := run (Delivery.step x) (.start start) ops
    let r := d.stream.reassembler
    (∀ fragment done, (fragment.header.frameId = x → fragment ∈ sent) →
      (r.ingest fragment).1 = .completed done → done.frameId = x →
        done.avcc = frame ∧ done.keyframe = options.keyframe ∧ done.crisp = options.crisp ∧
          done.isLtr = options.isLtr ∧ done.ackedAnchored = options.ackedAnchored) ∧
    (∀ fragment ∈ sent, (r.ingest fragment).1 ≠ .stale →
      ((∃ done, (r.ingest fragment).1 = .completed done) ↔
        Recoverable (payloadsOf frame).length (tierGroup host.fec options.fecTier)
          (tierParity host.fec options.fecTier) (fragment.header.fragIndex.toNat :: d.arrived))) ∧
    (∀ fragment ∈ sent, isJump r.highestSeenFrameId x = false →
      (r.pending.contains x = true ∨ ∀ id ∈ d.stream.reported, 0 < distanceWrapped x id) →
        (r.ingest fragment).1 ≠ .stale) ∧
    (Meets Stream.step (Stream.Near x) (.start start) ops → d.stream.reported.count x ≤ 1) := by
  intro x start d r
  have hstream : d.stream = run Stream.step (.start start) ops := Delivery.stream_run ..
  have hremembers := hstream ▸ Stream.remembers_run host.fec host.fits fecReorderGrace retransmit ops
  have honce : Meets Stream.step (Stream.Near x) (.start start) ops → d.stream.reported.count x ≤ 1 := by
    intro hops
    rw [hstream]
    exact (hops.invariant (Stream.Once x) (fun _ _ hop h => h.step hop) (Stream.once_start ..)).count
  rcases packetize_spec htier hsent with rfl | ⟨parity, hcoded, hparts⟩
  · -- nothing is sent, and nothing of the frame arrives
    refine ⟨fun fragment done hgenuine hdone hid => ?_, by simp, by simp, honce⟩
    have hmem := hgenuine ((Delivery.frameId_completed hdone).symm.trans hid)
    simp at hmem
  have hsound : d.Sound (host.layout frame options parity) host.fec :=
    Delivery.sound_run hcoded fun fragment hmem hid => hparts fragment (hlink fragment hmem hid)
  have htierFlag := (baseFlags_spec htier.spec.1).1
  refine ⟨fun fragment done hgenuine hdone hid => ?_, fun fragment hmem hstale => ?_,
    fun fragment hmem hnear hopen => ?_, honce⟩
  · exact completed_layout htier hsound hcoded (fun hid => hparts fragment (hgenuine hid)) hdone hid
  · rw [Delivery.completed_iff hstale, (hsound.completes_iff hcoded (hparts fragment hmem)).1,
      ← htierFlag]
    rfl
  · exact Delivery.ingest_ne_stale (hsound.accepts hcoded (hparts fragment hmem) hremembers hnear hopen)

/-- What is sent of a frame of one byte. -/
def single : List FrameFragment :=
  [⟨⟨0, 0, 0, 2, .empty, 0, 1⟩, [7]⟩, ⟨⟨1, 0, 1, 2, .parity, 0, 5⟩, [0, 0, 0, 1, 7]⟩]

/-- A plain frame in some tier, interleaved. -/
def inTier (fecTier : UInt8) : PacketizeOptions := ⟨false, false, 0, fecTier, false, false, true⟩

theorem packetize_fragments (h : (host.packetize frame options).map Prod.fst = some sent) :
    ∃ host', host.packetize frame options = some (sent, host') := by
  obtain ⟨⟨fragments, host'⟩, hsome, heq⟩ := Option.map_eq_some_iff.mp h
  cases heq
  exact ⟨host', hsome⟩

/-- Either part of a frame of one byte is enough. -/
theorem round_trip_single :
    let host := VideoPacketizer.new (some .default) (by decide)
    let r := Stream.configured (some .default) (by decide) 2 none
    ∃ host', host.packetize [7] (inTier 0) = some (single, host') ∧
      ∀ fragment ∈ single, ∃ done, (r.ingest fragment).1 = .completed done ∧ done.avcc = [7] := by
  intro host r
  have htier : AdaptiveFec.Stampable (some .default) (inTier 0).fecTier := ⟨0, false, by decide, by decide⟩
  obtain ⟨host', hsent⟩ : ∃ host', host.packetize [7] (inTier 0) = some (single, host') :=
    packetize_fragments (by decide +kernel)
  refine ⟨host', hsent, fun fragment hmem => ?_⟩
  have hlink : ∀ fragment, ReassemblerOp.ingest fragment ∈ [] →
      fragment.header.frameId = host.nextFrameId → fragment ∈ single := by simp
  have htaken : (r.ingest fragment).1 ≠ .stale :=
    (round_trip htier hsent 2 none [] hlink).2.2.1 fragment hmem rfl
      (.inr fun id hid => absurd hid List.not_mem_nil)
  have henough : ∀ fragment ∈ single,
      Recoverable 1 (some 5) 1 [fragment.header.fragIndex.toNat] := by decide +kernel
  obtain ⟨done, hdone⟩ : ∃ done, (r.ingest fragment).1 = .completed done :=
    ((round_trip htier hsent 2 none [] hlink).2.1 fragment hmem htaken).mpr (henough fragment hmem)
  have hid : fragment.header.frameId = host.nextFrameId := by
    have hall : ∀ fragment ∈ single, fragment.header.frameId = 0 := by decide
    exact hall fragment hmem
  have hbytes := (round_trip htier hsent 2 none [] hlink).1 fragment done (fun _ => hmem) hdone
    ((Delivery.frameId_completed hdone).trans hid)
  exact ⟨done, hdone, hbytes.1⟩

end VideoPacketizer

/-! ## §4 Around the id space -/

namespace Stream

open FrameReassembler

variable {n : Nat} {r : FrameReassembler}
variable {t : Stream}

/-- A fragment within the jump of the frontier, either way. -/
def InWindow (t : Stream) : ReassemblerOp → Prop
  | .ingest fragment => ∀ seen ∈ t.reassembler.highestSeenFrameId,
      (distanceWrapped fragment.header.frameId seen).natAbs ≤ maxFrontierJump
  | _ => True

instance (t : Stream) : (op : ReassemblerOp) → Decidable (t.InWindow op)
  | .ingest _ => t.reassembler.highestSeenFrameId.decidableForallMem
  | .nextDroppedFrame | .nextNeedsRetransmit => .isTrue trivial

/-- Whole frames, each as far past the one before as the frontier goes. -/
def lap (i : Nat) : UInt32 := .ofNat (4096 * i)

theorem distance_lap (n : Nat) {i : Nat} (hi : i < 524288) :
    distanceWrapped (lap (n + i)) (lap n) = 4096 * i := by
  have hstep : lap (n + i) = offset (lap n) (4096 * i : Nat) := by
    rw [lap, Nat.mul_add, UInt32.ofNat_add, offset, ← UInt32.toBitVec_inj]
    rfl
  rw [hstep, distance_offset _ (by omega) (by omega)]
  omega

/-- The frames after `n` laps, of which only the newest are remembered. -/
structure Lapped (n : Nat) (r : FrameReassembler) : Prop where
  seen : r.highestSeenFrameId = some (lap n)
  high : r.highestRetiredFrameId = some (lap n)
  pending : ∀ id : UInt32, r.pending[id]? = none
  nacked : r.nacked = []
  few : r.retired.length ≤ retiredSoftCap
  newest : ∀ id ∈ r.retired, ∃ i < r.retired.length, i ≤ n ∧ id = lap (n - i)

theorem Lapped.notRetired (h : Lapped n r) : lap (n + 1) ∉ r.retired := by
  intro hmem
  obtain ⟨i, hi, hn, heq⟩ := h.newest _ hmem
  have hbound : r.retired.length ≤ 512 := h.few
  have hdistance := distance_lap (n - i) (i := i + 1) (by omega)
  have hsame : n - i + (i + 1) = n + 1 := by omega
  rw [hsame, heq, distanceWrapped_self] at hdistance
  omega

theorem Lapped.isRetired (h : Lapped n r) : r.isRetired (lap (n + 1)) = false := by
  have hahead : distanceWrapped (lap (n + 1)) (lap n) = 4096 := distance_lap n (i := 1) (by omega)
  simp [FrameReassembler.isRetired, h.notRetired, h.high, hahead]

theorem Lapped.step (h : Lapped n r) : Lapped (n + 1) (r.ingest (whole (lap (n + 1)))).2 := by
  have hahead : distanceWrapped (lap (n + 1)) (lap n) = 4096 := distance_lap n (i := 1) (by omega)
  have hhigh : ∀ high, r.highestRetiredFrameId = some high → 0 < distanceWrapped (lap (n + 1)) high := by
    intro high hsome
    cases h.high.symm.trans hsome
    omega
  rw [ingest_whole h.notRetired hhigh h.seen (by omega) (by rw [hahead]; decide) (h.pending _)
    fun id entry hentry => by simp [h.pending] at hentry]
  have hnewest := highestRetired_retire (r.atGate (some (lap (n + 1))) [] r.frontierJumpRejectedCount)
    (lap (n + 1))
  have hfrontier : newFrontier r.highestRetiredFrameId (lap (n + 1)) = lap (n + 1) := by
    rw [h.high, newFrontier]
    simp [hahead]
  rw [show (r.atGate (some (lap (n + 1))) [] r.frontierJumpRejectedCount).highestRetiredFrameId =
    r.highestRetiredFrameId from rfl, hfrontier] at hnewest
  have hnew : insertNew (lap (n + 1)) r.retired = lap (n + 1) :: r.retired := if_neg h.notRetired
  have hlist : ((r.atGate (some (lap (n + 1))) [] r.frontierJumpRejectedCount).retire
      (lap (n + 1))).retired = if retiredSoftCap < r.retired.length + 1 then
        (lap (n + 1) :: r.retired).filter
          fun id => distanceWrapped (lap (n + 1)) id ≤ retiredKeepDistance
      else lap (n + 1) :: r.retired := by
    simp only [FrameReassembler.retire] at hnewest ⊢
    rw [hnewest]
    show (if retiredSoftCap < (insertNew (lap (n + 1)) r.retired).length then
      (insertNew (lap (n + 1)) r.retired).filter _ else insertNew (lap (n + 1)) r.retired) = _
    rw [hnew, List.length_cons]
  have hnone : (r.nacked.erase (lap (n + 1))) = [] := by
    rw [h.nacked]
    rfl
  have hpending : ∀ id : UInt32, ((r.atGate (some (lap (n + 1))) [] r.frontierJumpRejectedCount).retire
      (lap (n + 1))).pending[id]? = none := by
    intro id
    rw [pending_retire]
    split
    · rfl
    · exact h.pending id
  have hfar : ∀ id ∈ r.retired, ¬ distanceWrapped (lap (n + 1)) id ≤ retiredKeepDistance := by
    intro id hid
    obtain ⟨i, hi, hle, rfl⟩ := h.newest id hid
    have hbound : r.retired.length ≤ 512 := h.few
    have hdistance := distance_lap (n - i) (i := i + 1) (by omega)
    rw [show n - i + (i + 1) = n + 1 by omega] at hdistance
    unfold retiredKeepDistance
    omega
  by_cases hfull : retiredSoftCap < r.retired.length + 1
  · -- only the newest is near enough to be kept
    have honly : (lap (n + 1) :: r.retired).filter
        (fun id => distanceWrapped (lap (n + 1)) id ≤ retiredKeepDistance) = [lap (n + 1)] := by
      rw [List.filter_cons_of_pos (by simp [retiredKeepDistance]), List.filter_eq_nil_iff.mpr]
      simpa using hfar
    rw [if_pos hfull, honly] at hlist
    refine ⟨rfl, hnewest, hpending, hnone, by rw [hlist, List.length_singleton]; decide, fun id hid => ?_⟩
    rw [hlist] at hid ⊢
    exact ⟨0, by simp, by omega, List.mem_singleton.mp hid⟩
  · rw [if_neg hfull] at hlist
    refine ⟨rfl, hnewest, hpending, hnone, by rw [hlist, List.length_cons]; omega, fun id hid => ?_⟩
    rw [hlist] at hid ⊢
    rw [List.length_cons]
    rcases List.mem_cons.mp hid with rfl | hid
    · exact ⟨0, by omega, by omega, rfl⟩
    · obtain ⟨i, hi, hle, rfl⟩ := h.newest id hid
      exact ⟨i + 1, by omega, by omega, by rw [Nat.add_sub_add_right]⟩

/-- The frames of `n` laps after the first `k`. -/
def laps (k n : Nat) : List ReassemblerOp := (List.range n).map fun i => .ingest (whole (lap (k + i + 1)))

theorem laps_succ (k n : Nat) : laps k (n + 1) = laps k n ++ [.ingest (whole (lap (k + n + 1)))] := by
  simp [laps, List.range_succ]

theorem run_laps {k : Nat} (h : Lapped k t.reassembler) (n : Nat) :
    Meets step InWindow t (laps k n) ∧ Lapped (k + n) (run step t (laps k n)).reassembler := by
  induction n with
  | zero => exact ⟨trivial, h⟩
  | succ n ih =>
    obtain ⟨hmeets, hlapped⟩ := ih
    rw [laps_succ, run_append, meets_append]
    refine ⟨⟨hmeets, fun seen hseen => ?_, trivial⟩, hlapped.step⟩
    cases hlapped.seen.symm.trans hseen
    have hahead : distanceWrapped (lap (k + n + 1)) (lap (k + n)) = 4096 :=
      distance_lap (k + n) (i := 1) (by omega)
    show ((distanceWrapped (lap (k + n + 1)) (lap (k + n))).natAbs : Int) ≤ maxFrontierJump
    rw [hahead]
    decide

theorem count_reported_run (t : Stream) (ops : List ReassemblerOp) (id : UInt32) :
    t.reported.count id ≤ (run step t ops).reported.count id := by
  induction ops generalizing t with
  | nil => exact Nat.le_refl _
  | cons op ops ih =>
    refine Nat.le_trans ?_ (ih (t.step op))
    cases op with
    | ingest fragment =>
      rw [Stream.step, List.count_append]
      exact Nat.le_add_right ..
    | nextDroppedFrame => exact Nat.le_refl _
    | nextNeedsRetransmit => exact Nat.le_refl _

theorem fits_default : ∀ codec ∈ some ReedSolomonFec.default, AdaptiveFec.Fits codec := by decide

/-- The receiver after the first frame. -/
def firstLap : Stream := step (start (configured (some .default) fits_default 2 none)) (.ingest (whole 0))

theorem lapped_first : Lapped 0 (step (start (configured (some .default) (by decide) 2 none))
    (.ingest (whole 0))).reassembler := by
  have hnone : (step (start (configured (some .default) (by decide) 2 none))
      (.ingest (whole 0))).reassembler.pending.toList = [] := by decide +kernel
  have hnewest : (firstLap.reassembler.retired.all fun id : UInt32 =>
      decide (∃ i < firstLap.reassembler.retired.length, i ≤ 0 ∧ id = lap (0 - i))) = true := by
    decide +kernel
  refine ⟨by decide +kernel, by decide +kernel, fun id => ?_, by decide +kernel, by decide +kernel,
    fun id hid => of_decide_eq_true (List.all_eq_true.mp hnewest id hid)⟩
  rw [Option.eq_none_iff_forall_ne_some]
  intro entry hentry
  have hmem : (id, entry) ∈ (step (start (configured (some .default) (by decide) 2 none))
      (.ingest (whole 0))).reassembler.pending.toList := BTreeMap.mem_toList.mpr hentry
  rw [hnone] at hmem
  simp at hmem

theorem reported_again (h : Lapped n t.reassembler) (hback : lap (n + 1) = 0)
    (hfirst : 1 ≤ t.reported.count 0) :
    t.InWindow (.ingest (whole 0)) ∧ 2 ≤ (t.step (.ingest (whole 0))).reported.count 0 := by
  have hahead : distanceWrapped (lap (n + 1)) (lap n) = 4096 := distance_lap n (i := 1) (by omega)
  have hgate : (t.reassembler.advanceFrontier (lap (n + 1))).1 = true := by
    rw [advanceFrontier_eq, h.seen]
    simp [isJump, hahead, maxFrontierJump]
  have hdone := whole_completes h.isRetired hgate (h.pending _)
  have hreports := (mem_reports_iff hdone.1).mpr (.inl ⟨hdone.2, rfl⟩)
  have hagain : 1 ≤ (reports t.reassembler (whole 0)).count 0 := by
    rw [← hback]
    exact List.count_pos_iff.mpr hreports
  constructor
  · intro seen hseen
    cases h.seen.symm.trans hseen
    show ((distanceWrapped 0 (lap n)).natAbs : Int) ≤ maxFrontierJump
    rw [← hback, hahead]
    decide
  · rw [step, List.count_append]
    omega

/-- Once around the id space, each frame whole and within the jump of the
frontier: frame zero is reported a second time. And a frame that was
overtaken is turned away with all its parts. -/
theorem round_trip_fails :
    let start := start (configured (some .default) (by decide) 2 none)
    (∃ host', (VideoPacketizer.new (some .default) (by decide)).packetize [] (VideoPacketizer.inTier 1) =
        some ([whole 0], host') ∧ ∃ n,
      let ops := .ingest (whole 0) :: (laps 0 n ++ [.ingest (whole 0)])
      Meets step InWindow start ops ∧ 2 ≤ (run step start ops).reported.count 0) ∧
    ∃ host', (VideoPacketizer.new (some .default) (by decide)).packetize [7] (VideoPacketizer.inTier 0) =
        some (VideoPacketizer.single, host') ∧
      let ops := .ingest (whole 1) :: VideoPacketizer.single.map .ingest
      Meets step InWindow start ops ∧ (run step start ops).reported = [1] := by
  intro start
  have hwhole : ((VideoPacketizer.new (some .default) (by decide)).packetize []
      (VideoPacketizer.inTier 1)).map Prod.fst = some [whole 0] := by decide +kernel
  have hsingle : ((VideoPacketizer.new (some .default) (by decide)).packetize [7]
      (VideoPacketizer.inTier 0)).map Prod.fst = some VideoPacketizer.single := by decide +kernel
  obtain ⟨host₁, hwhole⟩ := VideoPacketizer.packetize_fragments hwhole
  obtain ⟨host₂, hsingle⟩ := VideoPacketizer.packetize_fragments hsingle
  refine ⟨⟨host₁, hwhole, ?_⟩, host₂, hsingle, by decide +kernel⟩
  have hfirst : 1 ≤ (start.step (.ingest (whole 0))).reported.count 0 := by decide +kernel
  obtain ⟨n, hback⟩ : ∃ n, lap (n + 1) = 0 := ⟨1048575, by decide⟩
  obtain ⟨hmeets, hlapped⟩ := run_laps lapped_first n
  have hcount := count_reported_run (start.step (.ingest (whole 0))) (laps 0 n) 0
  rw [Nat.zero_add] at hlapped
  obtain ⟨hwindow, hagain⟩ := reported_again hlapped hback (Nat.le_trans hfirst hcount)
  refine ⟨n, ⟨fun seen hseen => by simp [start, Stream.start, configured, FrameReassembler.new] at hseen,
    meets_append.mpr ⟨hmeets, hwindow, trivial⟩⟩, ?_⟩
  rw [run_cons, run_append]
  exact hagain

end Stream

end SlopDesk.Video
