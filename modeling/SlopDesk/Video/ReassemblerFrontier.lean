/-
SlopDesk.Video.ReassemblerFrontier — what a run does to the frontier, and
which frames it keeps closed.

§1 the frontier moves far only after a streak of jumps that agree with
each other, and a jump that is turned away changes no frame. §2 a frame
that was reported stays closed while it is behind the frontier, as long as
no fragment moves the frontier onto a frame the newest report has passed.
-/
import Mathlib.Data.List.Chain
import SlopDesk.Video.ReassemblerTheorems

namespace SlopDesk.Video

open SlopDesk.Base

/-! ## §1 The streak -/

namespace FrameReassembler

variable {r r' r'' : FrameReassembler} {frameId : UInt32} {fragment : FrameFragment}

theorem SameStream.trans (h : SameStream r'' r') (h' : SameStream r' r) : SameStream r'' r :=
  ⟨h.fec.trans h'.fec, h.highestSeen.trans h'.highestSeen, h.candidates.trans h'.candidates,
    h.reorderGrace.trans h'.reorderGrace, h.retransmitGrace.trans h'.retransmitGrace,
    h.nackMaxFrags.trans h'.nackMaxFrags⟩

theorem sameStream_tryComplete (r : FrameReassembler) (frameId : UInt32) :
    SameStream (r.tryComplete frameId).2 r := by
  unfold tryComplete
  repeat' split
  all_goals exact ⟨rfl, rfl, rfl, rfl, rfl, rfl⟩

theorem sameStream_sweep (r : FrameReassembler) : SameStream r.sweepHopelessFrames r := by
  cases hseen : r.highestSeenFrameId with
  | none =>
    simp only [sweepHopelessFrames, hseen]
    exact .refl r
  | some frontier => exact (sweep_spec hseen).1

theorem sameStream_answer (r : FrameReassembler) (result : ReassemblyResult) (frameId : UInt32) :
    SameStream (r.answer result frameId).2 r := by
  unfold answer
  repeat' split
  all_goals exact ⟨rfl, rfl, rfl, rfl, rfl, rfl⟩

theorem sameStream_finish (r : FrameReassembler) (frameId : UInt32) :
    SameStream ((r.tryComplete frameId).2.sweepHopelessFrames.answer
      (r.tryComplete frameId).1 frameId).2 r :=
  ((sameStream_answer _ _ _).trans (sameStream_sweep _)).trans (sameStream_tryComplete r frameId)

/-- Past the checks, the gate alone decides the frontier and its
candidates. -/
theorem frontier_ingest (hformed : malformed fragment = false)
    (hopen : r.isRetired fragment.header.frameId = false) : (r.ingest fragment).2.highestSeenFrameId =
        (r.advanceFrontier fragment.header.frameId).2.highestSeenFrameId ∧
      (r.ingest fragment).2.frontierJumpCandidates =
        (r.advanceFrontier fragment.header.frameId).2.frontierJumpCandidates := by
  unfold ingest
  simp only [hformed, hopen, Bool.false_eq_true, if_false]
  split
  · rename_i hgate
    simp [hgate]
  · rename_i hgate
    simp only [hgate]
    split
    · simp
    · exact ⟨(sameStream_finish ..).highestSeen, (sameStream_finish ..).candidates⟩

theorem ingest_turned (h : malformed fragment ∨ r.isRetired fragment.header.frameId) :
    (r.ingest fragment).2 = r := by
  unfold ingest
  rcases h with hformed | hretired
  · simp [hformed]
  · simp [hretired]

theorem gate_cases (hformed : malformed fragment = false)
    (hopen : r.isRetired fragment.header.frameId = false) :
    (isJump r.highestSeenFrameId fragment.header.frameId = false ∧
        (r.ingest fragment).2.highestSeenFrameId =
          some (newFrontier r.highestSeenFrameId fragment.header.frameId) ∧
        (r.ingest fragment).2.frontierJumpCandidates =
          if r.highestSeenFrameId = none then r.frontierJumpCandidates else []) ∨
      (isJump r.highestSeenFrameId fragment.header.frameId = true ∧
        resyncStreak ≤ (cluster r.frontierJumpCandidates fragment.header.frameId).length + 1 ∧
        (r.ingest fragment).2.highestSeenFrameId = some fragment.header.frameId ∧
        (r.ingest fragment).2.frontierJumpCandidates = []) ∨
      (isJump r.highestSeenFrameId fragment.header.frameId = true ∧
        (cluster r.frontierJumpCandidates fragment.header.frameId).length + 1 < resyncStreak ∧
        (r.ingest fragment).2.highestSeenFrameId = r.highestSeenFrameId ∧
        (r.ingest fragment).2.frontierJumpCandidates =
          cluster r.frontierJumpCandidates fragment.header.frameId ++ [fragment.header.frameId]) := by
  obtain ⟨hseen, hcandidates⟩ := frontier_ingest hformed hopen
  rw [hseen, hcandidates, advanceFrontier_eq]
  by_cases hjump : isJump r.highestSeenFrameId fragment.header.frameId = true
  · by_cases hstreak :
        resyncStreak ≤ (cluster r.frontierJumpCandidates fragment.header.frameId).length + 1
    · simp [hjump, hstreak, atGate]
    · simp [hjump, hstreak, Nat.lt_of_not_le hstreak, atGate]
  · simp [hjump, atGate]

theorem ingest_rejected (h : (r.advanceFrontier fragment.header.frameId).1 = false) :
    (r.ingest fragment).1 = .stale ∧ (r.ingest fragment).2.pending = r.pending ∧
      (r.ingest fragment).2.highestSeenFrameId = r.highestSeenFrameId := by
  rcases r.ingest_cases fragment with ⟨-, candidates, rejected, heq⟩ | ⟨hadmits, -⟩ | ⟨haccepts, -⟩
  · simp [heq, atGate]
  · simp [h, Admits] at hadmits
  · simp [h, Accepts, Admits] at haccepts

end FrameReassembler

/-- Close enough to be the same attempt at a resync. -/
def SameAttempt (earlier later : UInt32) : Prop :=
  (distanceWrapped later earlier).natAbs ≤ resyncClusterWindow

/-- The candidates a jump joins are the newest of the earlier ones, and it
is close to the last of them. -/
theorem cluster_spec (candidates : List UInt32) (frameId : UInt32) (h : candidates.IsChain SameAttempt) :
    FrameReassembler.cluster candidates frameId <:+ candidates ∧
      (FrameReassembler.cluster candidates frameId ++ [frameId]).IsChain SameAttempt := by
  unfold FrameReassembler.cluster
  split
  · rename_i last hlast
    split
    · simp
    · rename_i hnear
      refine ⟨List.suffix_rfl, List.isChain_append.mpr ⟨h, by simp, ?_⟩⟩
      intro newest hnewest next hnext
      rw [hlast] at hnewest
      simp only [Option.mem_def, Option.some.injEq, List.head?_cons] at hnewest hnext
      subst hnewest hnext
      exact Nat.le_of_not_lt hnear
  · rename_i hnone
    simp [List.getLast?_eq_none_iff.mp hnone]

namespace Stream

variable {t : Stream}

/-- The candidates are the newest fragments the gate tested, all of them
jumps, each close to the one before, and too few to be a streak. -/
structure Streak (t : Stream) : Prop where
  newest : ∃ earlier, t.tested =
    earlier ++ t.reassembler.frontierJumpCandidates.map fun frameId => (frameId, true)
  chain : t.reassembler.frontierJumpCandidates.IsChain SameAttempt
  short : t.reassembler.frontierJumpCandidates.length < resyncStreak
  unseen : t.reassembler.highestSeenFrameId = none → t.reassembler.frontierJumpCandidates = []

theorem Streak.of_none (h : t.reassembler.frontierJumpCandidates = []) : t.Streak where
  newest := ⟨t.tested, by simp [h]⟩
  chain := by simp [h]
  short := by simp [h, resyncStreak]
  unseen := fun _ => h

open FrameReassembler in
theorem Streak.jumps (h : t.Streak) (frameId : UInt32) :
    ∃ earlier, t.tested ++ [(frameId, true)] = earlier ++
      (cluster t.reassembler.frontierJumpCandidates frameId ++ [frameId]).map fun frameId =>
        (frameId, true) := by
  obtain ⟨earlier, htested⟩ := h.newest
  obtain ⟨older, holder⟩ := (cluster_spec _ frameId h.chain).1
  refine ⟨earlier ++ older.map fun frameId => (frameId, true), ?_⟩
  rw [htested]
  conv_lhs => rw [← holder]
  simp

open FrameReassembler in
theorem Streak.ingest (h : t.Streak) (fragment : FrameFragment) : (t.step (.ingest fragment)).Streak := by
  by_cases hturned : malformed fragment ∨ t.reassembler.isRetired fragment.header.frameId
  · have hsame := ingest_turned hturned
    refine ⟨?_, ?_, ?_, ?_⟩
    all_goals simp only [step, hsame, hturned, if_true]
    · exact h.newest
    · exact h.chain
    · exact h.short
    · exact h.unseen
  · obtain ⟨hformed, hopen⟩ := not_or.mp hturned
    have hchain := (cluster_spec _ fragment.header.frameId h.chain).2
    obtain ⟨earlier, hjumps⟩ := h.jumps fragment.header.frameId
    rcases gate_cases (by simpa using hformed) (by simpa using hopen) with
      ⟨hjump, hseen, hcandidates⟩ | ⟨hjump, -, hseen, hcandidates⟩ | ⟨hjump, hshort, hseen, hcandidates⟩
    · have hnone : (t.reassembler.ingest fragment).2.frontierJumpCandidates = [] := by
        rw [hcandidates]
        split
        · exact h.unseen ‹_›
        · rfl
      exact .of_none hnone
    · exact .of_none hcandidates
    · refine ⟨⟨earlier, ?_⟩, by simpa [step, hcandidates] using hchain,
        by simpa [step, hcandidates] using hshort, ?_⟩
      · simp only [step, if_neg hturned, hjump, hcandidates]
        exact hjumps
      · intro hnone
        simp only [step, hseen] at hnone
        simp [hnone, isJump] at hjump

theorem Streak.step (h : t.Streak) (op : ReassemblerOp) : (t.step op).Streak := by
  cases op with
  | ingest fragment => exact h.ingest fragment
  | nextDroppedFrame =>
    simp only [Stream.step, FrameReassembler.nextDroppedFrame]
    split
    · exact h
    · exact ⟨h.newest, h.chain, h.short, h.unseen⟩
  | nextNeedsRetransmit =>
    simp only [Stream.step, FrameReassembler.nextNeedsRetransmit]
    split
    · exact h
    · exact ⟨h.newest, h.chain, h.short, h.unseen⟩

open FrameReassembler in
theorem Streak.far (h : t.Streak) {fragment : FrameFragment} {seen seen' : UInt32}
    (hseen : t.reassembler.highestSeenFrameId = some seen)
    (hseen' : (t.reassembler.ingest fragment).2.highestSeenFrameId = some seen')
    (hfar : maxFrontierJump < distanceWrapped seen' seen) :
    ∃ earlier jumps, (t.step (.ingest fragment)).tested = earlier ++ jumps ∧
      jumps.length = resyncStreak ∧ (∀ jump ∈ jumps, jump.2 = true) ∧
      jumps.IsChain fun jump next => SameAttempt jump.1 next.1 := by
  have hmoved : seen' ≠ seen := by
    rintro rfl
    simp [maxFrontierJump] at hfar
  by_cases hturned : malformed fragment ∨ t.reassembler.isRetired fragment.header.frameId
  · have hsame := ingest_turned hturned
    rw [hsame, hseen] at hseen'
    exact absurd (Option.some.inj hseen').symm hmoved
  obtain ⟨hformed, hopen⟩ := not_or.mp hturned
  obtain ⟨earlier, hjumps⟩ := h.jumps fragment.header.frameId
  rcases gate_cases (by simpa using hformed) (by simpa using hopen) with
    ⟨hjump, hnew, -⟩ | ⟨hjump, hlong, -, -⟩ | ⟨-, -, hnew, -⟩
  · -- a fragment that is no jump moves the frontier by its own distance at most
    rw [hnew, hseen] at hseen'
    simp only [isJump, hseen, decide_eq_false_iff_not, newFrontier, Option.some.injEq] at hjump hseen'
    split at hseen'
    · exact absurd (hseen' ▸ hfar) hjump
    · exact absurd hseen'.symm hmoved
  · obtain ⟨hsuffix, hchain⟩ := cluster_spec _ fragment.header.frameId h.chain
    have htested : (t.step (.ingest fragment)).tested = t.tested ++ [(fragment.header.frameId, true)] := by
      simp only [Stream.step, if_neg hturned, hjump]
    have hle := hsuffix.length_le
    have hshort := h.short
    exact ⟨earlier, _, htested.trans hjumps, by simp; omega, by simp, (List.isChain_map _).mpr hchain⟩
  · rw [hnew, hseen] at hseen'
    exact absurd (Option.some.inj hseen').symm hmoved

end Stream

/-! ## §2 Closed frames -/

namespace FrameReassembler

variable {r : FrameReassembler} {frameId frontier id : UInt32} {fragment : FrameFragment}

/-- No report was of a frame past the frontier. -/
def Behind (r : FrameReassembler) (frontier : UInt32) : Prop :=
  ∀ high, r.highestRetiredFrameId = some high → distanceWrapped high frontier ≤ 0

/-- A frame that is not open and cannot be opened: its report is
remembered, or something newer was reported. -/
structure Closed (r : FrameReassembler) (id : UInt32) : Prop where
  notPending : r.pending[id]? = none
  remembered : id ∈ r.retired ∨
    ∃ high, r.highestRetiredFrameId = some high ∧ 0 ≤ distanceWrapped high id

theorem Closed.isRetired (h : r.Closed id) : r.isRetired id = true := by
  rcases h.remembered with hmem | ⟨high, hhigh, hle⟩
  · simp [FrameReassembler.isRetired, hmem]
  · have hbehind : distanceWrapped id high ≤ 0 := by
      rw [distance_symm (by omega)]
      omega
    simp [FrameReassembler.isRetired, hhigh, hbehind, Std.ExtTreeMap.contains_eq_isSome_getElem?,
      h.notPending]

theorem highestRetired_retire (r : FrameReassembler) (frameId : UInt32) :
    (r.retire frameId).highestRetiredFrameId =
      some (newFrontier r.highestRetiredFrameId frameId) := by
  cases hhigh : r.highestRetiredFrameId with
  | none => simp [retire, newFrontier, hhigh]
  | some high =>
    by_cases hahead : 0 < distanceWrapped frameId high
    · simp [retire, newFrontier, hhigh, hahead]
    · simp [retire, newFrontier, hhigh, hahead]

theorem mem_retired_retire (h : id = frameId ∨ id ∈ r.retired) : id ∈ (r.retire frameId).retired ∨
      retiredKeepDistance < distanceWrapped (newFrontier r.highestRetiredFrameId frameId) id := by
  have hmem : id ∈ insertNew frameId r.retired := by
    grind [insertNew]
  have hhigh := r.highestRetired_retire frameId
  by_cases hfar : retiredKeepDistance < distanceWrapped (newFrontier r.highestRetiredFrameId frameId) id
  · exact .inr hfar
  · left
    simp only [retire] at hhigh ⊢
    rw [hhigh]
    simp only
    split
    · simp [hmem, Int.not_lt.mp hfar]
    · exact hmem

theorem Behind.retire (h : r.Behind frontier) (hle : distanceWrapped frameId frontier ≤ 0) :
    (r.retire frameId).Behind frontier := by
  intro high hhigh
  rw [highestRetired_retire] at hhigh
  cases hhigh
  unfold newFrontier
  split
  · exact hle
  · split
    · exact hle
    · exact h _ ‹_›

/-- Behind the frontier, what is closed stays closed, and so is what is
reported. -/
theorem closed_retire (hbehind : r.Behind frontier) (hle : distanceWrapped frameId frontier ≤ 0)
    (hage : 0 ≤ distanceWrapped frontier id) (h : id = frameId ∨ r.Closed id) :
    (r.retire frameId).Closed id := by
  have hpending : (r.retire frameId).pending[id]? = none := by
    rw [pending_retire]
    split
    · rfl
    · exact (h.resolve_left ‹_›).notPending
  have hhigh := r.highestRetired_retire frameId
  refine ⟨hpending, ?_⟩
  have hmem : id = frameId ∨ id ∈ r.retired → id ∈ (r.retire frameId).retired ∨
      ∃ high, (r.retire frameId).highestRetiredFrameId = some high ∧ 0 ≤ distanceWrapped high id := by
    intro hmem
    rcases mem_retired_retire hmem with hkept | hfar
    · exact .inl hkept
    · exact .inr ⟨_, hhigh, by unfold retiredKeepDistance at hfar; omega⟩
  rcases h with rfl | ⟨-, hretired | ⟨high, hbefore, hage'⟩⟩
  · exact hmem (.inl rfl)
  · exact hmem (.inr hretired)
  · -- the newest report moves forward but not past the frontier, so it does
    -- not go around the id space and end up behind the frame
    refine .inr ⟨_, hhigh, ?_⟩
    have hnotPast := hbehind high hbefore
    rw [hbefore, newFrontier]
    split
    · obtain ⟨turns₁, _, _, hthrough⟩ := distance_trans frameId frontier id
      obtain ⟨turns₂, _, _, hover⟩ := distance_trans frameId high id
      obtain ⟨turns₃, _, _, hnewest⟩ := distance_trans high frontier id
      have h₁ := distanceWrapped_ge frameId frontier
      have h₂ := distanceWrapped_lt frontier id
      have h₃ := distanceWrapped_ge high frontier
      have h₄ := distanceWrapped_ge frameId id
      have h₆ := distanceWrapped_lt frameId high
      have h₇ := distanceWrapped_lt high id
      omega
    · exact hage'

theorem closed_foldl_drop (ids : List UInt32) (hbehind : r.Behind frontier)
    (hle : ∀ frameId ∈ ids, distanceWrapped frameId frontier ≤ 0) :
    (ids.foldl drop r).Behind frontier ∧ ∀ id, 0 ≤ distanceWrapped frontier id →
      (id ∈ ids ∨ r.Closed id) → (ids.foldl drop r).Closed id := by
  induction ids generalizing r with
  | nil => exact ⟨hbehind, by simp⟩
  | cons first ids ih =>
    have hfirst := hle first (List.mem_cons_self ..)
    have hdropped : (r.drop first).Behind frontier := hbehind.retire hfirst
    obtain ⟨hbehind', hclosed⟩ := ih hdropped fun id hid => hle id (List.mem_cons_of_mem _ hid)
    refine ⟨hbehind', fun id hage h => hclosed id hage ?_⟩
    have hdrop : id = first ∨ r.Closed id → (r.drop first).Closed id := fun h =>
      have hretire := closed_retire hbehind hfirst hage h
      ⟨hretire.notPending, hretire.remembered⟩
    rcases h with hmem | hclosed
    · grind
    · exact .inr (hdrop (.inr hclosed))

theorem age_pos_of_hopeless {entry : Pending} (h : r.verdict frontier frameId entry = .hopeless) :
    0 < distanceWrapped frontier frameId := by
  by_cases hage : distanceWrapped frontier frameId ≤ 0
  · simp [verdict, hage] at h
  · omega

theorem closed_sweep (hseen : r.highestSeenFrameId = some frontier) (hbehind : r.Behind frontier) :
    r.sweepHopelessFrames.Behind frontier ∧ ∀ id, 0 ≤ distanceWrapped frontier id →
      (id ∈ r.hopeless frontier ∨ r.Closed id) → r.sweepHopelessFrames.Closed id := by
  have hle : ∀ frameId ∈ r.hopeless frontier, distanceWrapped frameId frontier ≤ 0 := by
    intro frameId hmem
    obtain ⟨entry, -, hverdict⟩ := mem_hopeless.mp hmem
    have hage := age_pos_of_hopeless hverdict
    rw [distance_symm (by omega)]
    omega
  -- the requests of a sweep close nothing
  have hasked : ((r.requests frontier).foldl request r).Behind frontier ∧
      ∀ id, r.Closed id → ((r.requests frontier).foldl request r).Closed id := by
    rw [foldl_request]
    exact ⟨hbehind, fun id h => ⟨h.notPending, h.remembered⟩⟩
  rw [sweep_eq hseen]
  obtain ⟨hbehind', hclosed⟩ := closed_foldl_drop _ hasked.1 hle
  exact ⟨hbehind', fun id hage h => hclosed id hage (h.imp_right (hasked.2 id))⟩

theorem mem_reports (h : r.Accepts fragment) (hmem : id ∈ Stream.reports r fragment) :
    (r.Completes fragment ∧ id = fragment.header.frameId) ∨ id ∈ r.givenUp fragment := by
  have hcount := List.count_pos_iff.mpr hmem
  rw [count_reports h] at hcount
  split at hcount
  · exact .inl ‹_›
  · grind

theorem reports_refused (h : ¬ r.Accepts fragment) : Stream.reports r fragment = [] := by
  obtain ⟨hresult, seen, candidates, rejected, hstate, -⟩ := ingest_refused h
  have hnone : r.droppedQueue.diff r.droppedQueue = [] :=
    List.eq_nil_iff_forall_not_mem.mpr fun id hmem => by
      have hcount := List.count_pos_iff.mpr hmem
      simp [List.count_diff] at hcount
  simp [Stream.reports, hresult, hstate, atGate, ReassemblyResult.reports, hnone]

theorem nodup_reports (r : FrameReassembler) (fragment : FrameFragment) :
    (Stream.reports r fragment).Nodup := by
  by_cases h : r.Accepts fragment
  · refine List.nodup_iff_count_le_one.mpr fun id => ?_
    rw [count_reports h]
    by_cases hdone : r.Completes fragment ∧ id = fragment.header.frameId
    · have hkept : id ∉ r.givenUp fragment := hdone.2 ▸ not_givenUp_of_completes h hdone.1
      simp [hdone, hdone.2 ▸ hkept]
    · simp only [hdone, if_false]
      split <;> omega
  · rw [reports_refused h]
    exact List.nodup_nil

theorem Closed.ingest (h : r.Closed id) (fragment : FrameFragment) :
    id ∉ Stream.opens r fragment ∧ id ∉ Stream.reports r fragment := by
  have hother : r.Admits fragment → id ≠ fragment.header.frameId := by
    rintro ⟨-, hopen, -⟩ rfl
    simp [h.isRetired] at hopen
  by_cases haccepts : r.Accepts fragment
  · constructor
    · unfold Stream.opens
      split
      · simp
      · simpa using hother haccepts.1
    · intro hmem
      rcases mem_reports haccepts hmem with ⟨-, hid⟩ | hmem
      · exact hother haccepts.1 hid
      · obtain ⟨entry, hentry, -⟩ := mem_givenUp hmem
        obtain ⟨-, -, -, -, -, -, hpending⟩ := settled_spec haccepts.1
        rw [hpending, if_neg (hother haccepts.1), h.notPending] at hentry
        simp at hentry
  · obtain ⟨hresult, -⟩ := ingest_refused haccepts
    exact ⟨by simp [Stream.opens, hresult], by simp [reports_refused haccepts]⟩

end FrameReassembler

namespace Stream

variable {t : Stream} {frameId : UInt32} {r : FrameReassembler}

/-- A fragment that moves the frontier is of a frame past the newest
report. -/
def InOrder (t : Stream) : ReassemblerOp → Prop
  | .ingest fragment => t.reassembler.Admits fragment →
      ∀ seen ∈ t.reassembler.highestSeenFrameId, 0 < distanceWrapped fragment.header.frameId seen →
        ∀ high ∈ t.reassembler.highestRetiredFrameId, 0 < distanceWrapped fragment.header.frameId high
  | _ => True

instance (t : Stream) : (op : ReassemblerOp) → Decidable (t.InOrder op)
  | .ingest fragment =>
    have : DecidablePred fun seen => 0 < distanceWrapped fragment.header.frameId seen →
        ∀ high ∈ t.reassembler.highestRetiredFrameId, 0 < distanceWrapped fragment.header.frameId high :=
      fun _ => @instDecidableForall _ _ _ t.reassembler.highestRetiredFrameId.decidableForallMem
    @instDecidableForall _ _ _ t.reassembler.highestSeenFrameId.decidableForallMem
  | .nextDroppedFrame | .nextNeedsRetransmit => .isTrue trivial

/-- What was reported and is behind the frontier is closed. -/
structure Guarded (t : Stream) : Prop where
  unseen : t.reassembler.highestSeenFrameId = none → t.reassembler.highestRetiredFrameId = none
  behind : ∀ seen, t.reassembler.highestSeenFrameId = some seen → t.reassembler.Behind seen
  closed : ∀ id ∈ t.recent, t.reassembler.Closed id

theorem Guarded.frontierAfter (h : t.Guarded) {fragment : FrameFragment}
    (hadmits : t.reassembler.Admits fragment) (hop : t.InOrder (.ingest fragment)) :
    t.reassembler.Behind (t.reassembler.frontierAfter fragment) := by
  intro high hhigh
  cases hseen : t.reassembler.highestSeenFrameId with
  | none => simp [h.unseen hseen] at hhigh
  | some seen =>
    unfold FrameReassembler.frontierAfter FrameReassembler.newFrontier
    rw [hseen]
    simp only
    split
    · rename_i hahead
      have hpast := hop hadmits seen hseen hahead high hhigh
      rw [distance_symm (by omega)]
      omega
    · exact h.behind seen hseen high hhigh

open FrameReassembler in
theorem Guarded.ingest (h : t.Guarded) {fragment : FrameFragment}
    (hop : t.InOrder (.ingest fragment)) : (t.step (.ingest fragment)).Guarded := by
  by_cases haccepts : t.reassembler.Accepts fragment
  · obtain ⟨queue, hstate, -⟩ := ingest_accepts haccepts
    obtain ⟨hseen, -⟩ := settled_spec haccepts.1
    obtain ⟨-, -, -, -, -, -, -, -, hretired, hhigh, hpending⟩ := taken_spec haccepts.1
    have hafter := h.frontierAfter haccepts.1 hop
    have hown : distanceWrapped fragment.header.frameId (t.reassembler.frontierAfter fragment) ≤ 0 :=
      distance_newFrontier ..
    have htaken : (t.reassembler.taken fragment).Behind (t.reassembler.frontierAfter fragment) := by
      intro high hbefore
      exact hafter high (hhigh ▸ hbefore)
    have hclosedTaken : ∀ id ∈ t.recent, (t.reassembler.taken fragment).Closed id := by
      intro id hmem
      have hclosed := h.closed id hmem
      have hother : id ≠ fragment.header.frameId := by
        rintro rfl
        have hopen := haccepts.1.2.1
        simp [hclosed.isRetired] at hopen
      refine ⟨?_, by rw [hretired, hhigh]; exact hclosed.remembered⟩
      rw [hpending, if_neg hother]
      exact hclosed.notPending
    have hsettled : (t.reassembler.settled fragment).Behind (t.reassembler.frontierAfter fragment) ∧
        ∀ id, 0 ≤ distanceWrapped (t.reassembler.frontierAfter fragment) id →
          (t.reassembler.Completes fragment ∧ id = fragment.header.frameId ∨ id ∈ t.recent) →
            (t.reassembler.settled fragment).Closed id := by
      by_cases hdone : t.reassembler.Completes fragment
      · rw [settled_of_completes hdone]
        refine ⟨htaken.retire hown, fun id hage h => closed_retire htaken hown hage ?_⟩
        exact h.imp And.right (hclosedTaken id)
      · rw [settled_of_not_completes hdone]
        exact ⟨htaken, fun id _ h => hclosedTaken id (h.resolve_left fun h => hdone h.1)⟩
    obtain ⟨hbehind, hclosed⟩ := closed_sweep hseen hsettled.1
    have hsame := (sweep_spec hseen).1
    have hfrontier : (t.reassembler.ingest fragment).2.highestSeenFrameId =
        some (t.reassembler.frontierAfter fragment) := by
      rw [hstate]
      exact hsame.highestSeen.trans hseen
    refine ⟨fun hnone => ?_, fun seen hseen' => ?_, fun id hmem => ?_⟩
    · simp [step, hfrontier] at hnone
    · simp only [step, hfrontier, Option.some.injEq] at hseen'
      simp only [step, hstate, ← hseen']
      exact hbehind
    · simp only [step, List.mem_filter, List.mem_append, isBehind, hfrontier, decide_eq_true_eq] at hmem
      have hgone : (t.reassembler.settled fragment).sweepHopelessFrames.Closed id := by
        refine hclosed id hmem.2 ?_
        rcases hmem.1 with hrecent | hreported
        · exact .inr (hsettled.2 id hmem.2 (.inr hrecent))
        · rcases mem_reports haccepts hreported with hdone | hgiven
          · exact .inr (hsettled.2 id hmem.2 (.inl hdone))
          · exact .inl hgiven
      simp only [step, hstate]
      exact ⟨hgone.notPending, hgone.remembered⟩
  · obtain ⟨-, seen, candidates, rejected, hstate, hseen⟩ := ingest_refused haccepts
    refine ⟨fun hnone => ?_, fun seen' hseen' => ?_, fun id hmem => ?_⟩
    · simp only [step, hstate, atGate] at hnone ⊢
      refine h.unseen ?_
      split at hseen
      · simp [hseen] at hnone
      · exact hseen ▸ hnone
    · simp only [step, hstate, atGate] at hseen' ⊢
      rw [hseen] at hseen'
      split at hseen'
      · cases hseen'
        exact h.frontierAfter ‹_› hop
      · exact h.behind seen' hseen'
    · simp only [step, reports_refused haccepts, List.append_nil, List.mem_filter] at hmem
      have hclosed := h.closed id hmem.1
      simp only [step, hstate]
      exact ⟨hclosed.notPending, hclosed.remembered⟩

theorem Guarded.step (h : t.Guarded) {op : ReassemblerOp} (hop : t.InOrder op) : (t.step op).Guarded := by
  cases op with
  | ingest fragment => exact h.ingest hop
  | nextDroppedFrame =>
    simp only [Stream.step, FrameReassembler.nextDroppedFrame]
    split
    · exact h
    · exact ⟨h.unseen, h.behind, fun id hid => ⟨(h.closed id hid).notPending, (h.closed id hid).remembered⟩⟩
  | nextNeedsRetransmit =>
    simp only [Stream.step, FrameReassembler.nextNeedsRetransmit]
    split
    · exact h
    · exact ⟨h.unseen, h.behind, fun id hid => ⟨(h.closed id hid).notPending, (h.closed id hid).remembered⟩⟩

/-- The frontier is safe. It moves far only at the end of a streak of jumps
that agree; a jump the gate turns away changes neither the frames nor the
frontier; one ingest reports no frame twice; and in a run that stays in
order, a reported frame is neither open, opened nor reported again while it
is behind the frontier. -/
theorem frontier_safe (fec : Option ReedSolomonFec)
    (fits : ∀ codec ∈ fec, AdaptiveFec.Fits codec) (fecReorderGrace : Int)
    (retransmit : Option (Int × Nat)) (ops : List ReassemblerOp) (fragment : FrameFragment) :
    let r := configured fec fits fecReorderGrace retransmit
    let t := run step (start r) ops
    let t' := t.step (.ingest fragment)
    (∀ seen seen', t.reassembler.highestSeenFrameId = some seen →
        t'.reassembler.highestSeenFrameId = some seen' →
        maxFrontierJump < distanceWrapped seen' seen →
        ∃ earlier jumps, t'.tested = earlier ++ jumps ∧ jumps.length = resyncStreak ∧
          (∀ jump ∈ jumps, jump.2 = true) ∧
          jumps.IsChain fun jump next =>
            (distanceWrapped next.1 jump.1).natAbs ≤ resyncClusterWindow) ∧
      ((t.reassembler.advanceFrontier fragment.header.frameId).1 = false →
        t'.reassembler.pending = t.reassembler.pending ∧
          t'.reassembler.highestSeenFrameId = t.reassembler.highestSeenFrameId) ∧
      (reports t.reassembler fragment).Nodup ∧
      (Meets step InOrder (start r) ops → ∀ id ∈ t.recent,
        t.reassembler.pending.contains id = false ∧ id ∉ opens t.reassembler fragment ∧
          id ∉ reports t.reassembler fragment) := by
  intro r t t'
  have hunseen : r.highestSeenFrameId = none ∧ r.highestRetiredFrameId = none ∧
      r.frontierJumpCandidates = [] := by
    cases retransmit <;> exact ⟨rfl, rfl, rfl⟩
  have hstreak : t.Streak := run_invariant Streak (fun _ op h => h.step op) (.of_none hunseen.2.2) ops
  refine ⟨fun seen seen' hseen hseen' hfar => hstreak.far hseen hseen' hfar, fun hrejected =>
    (FrameReassembler.ingest_rejected hrejected).2, FrameReassembler.nodup_reports .., ?_⟩
  intro hops id hmem
  have hstart : (start r).Guarded :=
    ⟨fun _ => hunseen.2.1, fun seen hseen => by simp [start, hunseen.1] at hseen, by simp [start]⟩
  have hclosed := (hops.invariant Guarded (fun _ _ hop h => h.step hop) hstart).closed id hmem
  refine ⟨?_, hclosed.ingest fragment⟩
  rw [Std.ExtTreeMap.contains_eq_isSome_getElem?, hclosed.notPending]
  rfl

/-- A frame of one fragment, in the OFF tier. -/
def whole (frameId : UInt32) : FrameFragment := fragmentOf frameId 0 1 ⟨8⟩ []

/-- Eight fragments of a far frame take the frontier there; the frame
reported before stays closed. -/
theorem frontier_safe_resync :
    let r := configured (some .default) (by decide) 2 none
    let ops := .ingest (whole 5) :: List.replicate 7 (.ingest (whole 10000))
    let t := run step (start r) ops
    let t' := t.step (.ingest (whole 10000))
    t.reassembler.highestSeenFrameId = some 5 ∧ t'.reassembler.highestSeenFrameId = some 10000 ∧
      (∃ earlier jumps, t'.tested = earlier ++ jumps ∧ jumps.length = resyncStreak ∧
        (∀ jump ∈ jumps, jump.2 = true) ∧ jumps.IsChain fun jump next =>
          (distanceWrapped next.1 jump.1).natAbs ≤ resyncClusterWindow) ∧
      5 ∈ t.recent ∧ t.reassembler.pending.contains 5 = false ∧
        5 ∉ opens t.reassembler (whole 10000) ∧ 5 ∉ reports t.reassembler (whole 10000) := by
  intro r ops t t'
  have hseen : t.reassembler.highestSeenFrameId = some 5 := by decide +kernel
  have hseen' : t'.reassembler.highestSeenFrameId = some 10000 := by decide +kernel
  have hops : Meets step InOrder (start r) ops := by decide +kernel
  have hrecent : 5 ∈ t.recent := by decide +kernel
  have hdistance : maxFrontierJump < distanceWrapped 10000 5 := by decide +kernel
  exact ⟨hseen, hseen',
    (frontier_safe (some .default) (by decide) 2 none ops (whole 10000)).1 5 10000 hseen hseen' hdistance,
    hrecent,
    (frontier_safe (some .default) (by decide) 2 none ops (whole 10000)).2.2.2 hops 5 hrecent⟩

open FrameReassembler in
/-- A frame that arrives whole, is not open and passes the checks and the
gate completes. -/
theorem whole_completes (hopen : r.isRetired frameId = false)
    (hgate : (r.advanceFrontier frameId).1 = true) (hpending : r.pending[frameId]? = none) :
    r.Accepts (whole frameId) ∧ r.Completes (whole frameId) := by
  have hentry : r.entryOf (whole frameId) = .new 1 none 1 := by
    have hopened : r.opened (whole frameId).header = .new 1 none 1 := by
      have htier : (whole frameId).header.flags.fecTier = 1 := by
        show (Flags.mk 8).fecTier = 1
        decide
      have hcount : (whole frameId).header.fragCount = 1 := rfl
      cases hfec : r.fec with
      | none => simp [FrameReassembler.opened, hfec, htier, hcount, AdaptiveFec.parityCount]
      | some codec =>
        simp [FrameReassembler.opened, hfec, htier, hcount, AdaptiveFec.groupSize, AdaptiveFec.parityCount]
    change (r.pending[frameId]?).getD _ = _
    rw [hpending]
    exact hopened
  have hcount : (whole frameId).header.fragCount = (r.entryOf (whole frameId)).fragCount := by
    rw [hentry]
    rfl
  refine ⟨⟨⟨rfl, hopen, hgate⟩, hcount⟩, ?_⟩
  have hstored : r.storedIn (whole frameId) = (Pending.new 1 none 1).store (whole 0) := by
    rw [storedIn, hentry]
    rfl
  have hassemble : ∀ fec, ((Pending.new 1 none 1).store (whole 0)).assemble fec = some ([], false) := by
    intro fec
    rfl
  unfold Completes
  rw [hstored, hassemble]
  exact ⟨by decide +kernel, rfl⟩

open FrameReassembler in
/-- A frame that arrives whole and next in order is retired at once, and
the sweep leaves what can complete. -/
theorem ingest_whole {seen : UInt32} (hnew : frameId ∉ r.retired)
    (hhigh : ∀ high, r.highestRetiredFrameId = some high → 0 < distanceWrapped frameId high)
    (hseen : r.highestSeenFrameId = some seen) (hahead : 0 < distanceWrapped frameId seen)
    (hnear : distanceWrapped frameId seen ≤ maxFrontierJump) (hpending : r.pending[frameId]? = none)
    (hkeep : ∀ (id : UInt32) (entry : Pending), r.pending[id]? = some entry →
      entry.canEventuallyComplete = true) :
    (r.ingest (whole frameId)).2 =
      (r.atGate (some frameId) [] r.frontierJumpRejectedCount).retire frameId := by
  have hopen : r.isRetired frameId = false := by
    cases hbefore : r.highestRetiredFrameId with
    | none => simp [isRetired, hnew, hbefore]
    | some high => simp [isRetired, hnew, hbefore, hhigh high hbefore]
  have hgate : r.advanceFrontier frameId =
      (true, r.atGate (some frameId) [] r.frontierJumpRejectedCount) := by
    rw [advanceFrontier_eq]
    simp [isJump, newFrontier, hseen, hahead, Int.not_lt.mpr hnear]
  obtain ⟨haccepts, hdone⟩ := whole_completes hopen (by rw [hgate]) hpending
  have hsettled : r.settled (whole frameId) =
      (r.atGate (some frameId) [] r.frontierJumpRejectedCount).retire frameId := by
    have herase : (r.pending.insert frameId (r.storedIn (whole frameId))).erase frameId =
        r.pending.erase frameId := by
      apply Std.ExtTreeMap.ext_getElem?
      intro id
      rw [BTreeMap.lookup_erase, BTreeMap.lookup_erase, BTreeMap.lookup_insert]
      by_cases hid : id = frameId <;> simp [hid]
    rw [settled_of_completes hdone, taken]
    show FrameReassembler.retire { (r.advanceFrontier frameId).2 with
      pending := (r.advanceFrontier frameId).2.pending.insert frameId (r.storedIn (whole frameId)) }
        frameId = _
    rw [hgate]
    show { (r.atGate (some frameId) [] r.frontierJumpRejectedCount).retire frameId with
      pending := (r.pending.insert frameId (r.storedIn (whole frameId))).erase frameId } = _
    rw [herase]
    rfl
  -- what is left pending can complete, so the sweep keeps it
  have hverdict : ∀ (id : UInt32) (entry : Pending), (r.settled (whole frameId)).pending[id]? = some entry →
      (r.settled (whole frameId)).verdict frameId id entry = .keep := by
    intro id entry hentry
    rw [hsettled, pending_retire] at hentry
    split at hentry
    · simp at hentry
    · simp [verdict, hkeep id entry hentry]
  have hnone : (r.settled (whole frameId)).hopeless frameId = [] := by
    refine List.eq_nil_iff_forall_not_mem.mpr fun id hmem => ?_
    obtain ⟨entry, hentry, hhopeless⟩ := mem_hopeless.mp hmem
    simp [hverdict id entry hentry] at hhopeless
  have hquiet : (r.settled (whole frameId)).requests frameId = [] := by
    refine List.eq_nil_iff_forall_not_mem.mpr fun wanted hmem => ?_
    obtain ⟨entry, hentry, hnack⟩ := mem_requests.mp hmem
    simp [hverdict wanted.1 entry hentry] at hnack
  have hfrontier : r.frontierAfter (whole frameId) = frameId := by
    show newFrontier r.highestSeenFrameId frameId = frameId
    simp [newFrontier, hseen, hahead]
  have hswept : (r.settled (whole frameId)).sweepHopelessFrames = r.settled (whole frameId) := by
    rw [sweep_eq (hsettled ▸ rfl : (r.settled (whole frameId)).highestSeenFrameId = some frameId), hnone,
      hquiet]
    rfl
  obtain ⟨queue, hstate, hcases⟩ := ingest_accepts haccepts
  have hqueue : queue = r.droppedQueue := by
    rcases hcases with ⟨-, hqueue, -⟩ | ⟨hnot, -⟩ | ⟨hnot, -⟩
    · rw [hqueue, givenUp, hfrontier, hnone, List.append_nil]
    · exact absurd hdone hnot
    · exact absurd hdone hnot
  rw [hstate, hswept, hqueue, hsettled]
  rfl

/-- Frames one to `n`, each whole and in order. -/
def wholes (n : Nat) : List ReassemblerOp :=
  (List.range n).map fun i => .ingest (whole (.ofNat (i + 1)))

theorem retire_newest (hnew : frameId ∉ r.retired)
    (hhigh : ∀ high, r.highestRetiredFrameId = some high → 0 < distanceWrapped frameId high)
    (hpending : r.pending[frameId]? = none) (hnacked : r.nacked = [])
    (hroom : r.retired.length < retiredSoftCap) : r.retire frameId =
      { r with highestRetiredFrameId := some frameId, retired := frameId :: r.retired } := by
  have herase : r.pending.erase frameId = r.pending := by
    grind
  have hroom' : ¬ retiredSoftCap < r.retired.length + 1 := by omega
  cases hbefore : r.highestRetiredFrameId with
  | none => simp [FrameReassembler.retire, insertNew, hnew, hbefore, herase, hnacked, hroom']
  | some high =>
    simp [FrameReassembler.retire, insertNew, hnew, hbefore, herase, hnacked, hroom', hhigh high hbefore]

/-- What frames one to `n` leave. -/
def passed (r : FrameReassembler) (n : Nat) : FrameReassembler :=
  { r with
    highestSeenFrameId := some (.ofNat n)
    highestRetiredFrameId := if n = 0 then none else some (.ofNat n)
    retired := (List.range n).reverse.map fun i => .ofNat (i + 1) }

/-- Frame zero is open and can complete, and nothing else happened. -/
structure AtZero (r : FrameReassembler) : Prop where
  seen : r.highestSeenFrameId = some 0
  high : r.highestRetiredFrameId = none
  retired : r.retired = []
  nacked : r.nacked = []
  candidates : r.frontierJumpCandidates = []
  keep : ∀ (id : UInt32) (entry : Pending), r.pending[id]? = some entry →
    id = 0 ∧ entry.canEventuallyComplete = true

theorem distance_ofNat_succ (n : Nat) : distanceWrapped (UInt32.ofNat (n + 1)) (UInt32.ofNat n) = 1 := by
  have hnext : UInt32.ofNat (n + 1) = offset (.ofNat n) (0 + 1) := by
    exact UInt32.ofNat_add n 1
  rw [hnext, distance_offset _ (by decide) (by decide)]
  rfl

theorem passed_succ (h : AtZero r) {n : Nat} (hn : n < retiredSoftCap) :
    ((passed r n).ingest (whole (.ofNat (n + 1)))).2 = passed r (n + 1) := by
  have hbound : n < 512 := hn
  have hdistance := distance_ofNat_succ n
  have hnew : UInt32.ofNat (n + 1) ∉ (passed r n).retired := by
    simp only [passed, List.mem_map, List.mem_reverse, List.mem_range, not_exists, not_and]
    intro i hi heq
    have hvalue := congrArg UInt32.toNat heq
    simp only [UInt32.toNat_ofNat'] at hvalue
    omega
  have hnone : (passed r n).pending[UInt32.ofNat (n + 1)]? = none := by
    cases hentry : (passed r n).pending[UInt32.ofNat (n + 1)]? with
    | none => rfl
    | some entry =>
      have hvalue := congrArg UInt32.toNat (h.keep _ entry hentry).1
      simp only [UInt32.toNat_ofNat', UInt32.toNat_zero] at hvalue
      omega
  have hhigh : ∀ high, (passed r n).highestRetiredFrameId = some high →
      0 < distanceWrapped (.ofNat (n + 1)) high := by
    grind [passed]
  rw [ingest_whole hnew hhigh rfl (by omega) (by rw [hdistance]; decide) hnone
    fun id entry hentry => (h.keep id entry hentry).2]
  have hretire := retire_newest (r := (passed r n).atGate (some (.ofNat (n + 1))) []
    (passed r n).frontierJumpRejectedCount) hnew hhigh hnone h.nacked
    (by simpa [passed, FrameReassembler.atGate] using hn)
  rw [hretire]
  simp [passed, FrameReassembler.atGate, List.range_succ, h.candidates]

theorem run_wholes (h : AtZero t.reassembler) {n : Nat} (hn : n ≤ retiredSoftCap) :
    (run step t (wholes n)).reassembler = passed t.reassembler n := by
  induction n with
  | zero =>
    simp [wholes, passed, ← h.seen, ← h.high, ← h.retired]
  | succ n ih =>
    have hsplit : wholes (n + 1) = wholes n ++ [.ingest (whole (.ofNat (n + 1)))] := by
      simp [wholes, List.range_succ]
    rw [hsplit, run_append]
    show ((run step t (wholes n)).reassembler.ingest (whole (.ofNat (n + 1)))).2 = _
    rw [ih (by omega), passed_succ h hn]

theorem reassembler_run {t' : Stream} (h : t.reassembler = t'.reassembler) (ops : List ReassemblerOp) :
    (run step t ops).reassembler = (run step t' ops).reassembler := by
  induction ops generalizing t t' with
  | nil => exact h
  | cons op ops ih =>
    refine ih ?_
    cases op <;> simp [step, h]

/-- The parity shard that is all there is of frame zero, and has no bytes. -/
def stuck : FrameFragment := fragmentOf 0 1 2 .parity []

/-- A streak just short of half the id space ahead, then all but the last
fragment of one back to frame zero. -/
def detour : List ReassemblerOp :=
  List.replicate 8 (.ingest (fragmentOf 2147484159 0 2 ⟨8⟩ [])) ++
    List.replicate 7 (.ingest (fragmentOf 0 0 2 .empty []))

/-- Frame zero is still open after five hundred and twelve newer reports,
and two streaks take the frontier around the id space and back onto it. Its
report is forgotten at once, the newest report then moves to the far frame,
and the next fragment of frame zero opens and reports it again. -/
theorem frontier_reopens :
    let ops := .ingest stuck :: wholes 512 ++ detour ++ [.ingest (fragmentOf 0 0 2 .empty [])]
    let t := run step (start (configured (some .default) (by decide) 2 none)) ops
    0 ∈ t.recent ∧ 0 ∈ opens t.reassembler (whole 0) ∧ 0 ∈ reports t.reassembler (whole 0) := by
  intro ops t
  let t₀ := step (start (configured (some .default) (by decide) 2 none)) (.ingest stuck)
  have hzero : AtZero t₀.reassembler := by
    have hkeep : t₀.reassembler.pending.toList.all
        (fun e => e.1 = 0 ∧ e.2.canEventuallyComplete = true) = true := by decide +kernel
    refine ⟨by decide +kernel, by decide +kernel, by decide +kernel, by decide +kernel,
      by decide +kernel, fun id entry hentry => ?_⟩
    simpa using List.all_eq_true.mp hkeep (id, entry) (BTreeMap.mem_toList.mpr hentry)
  have hsplit : t = step (run step (run step t₀ (wholes 512)) detour)
      (.ingest (fragmentOf 0 0 2 .empty [])) := by
    simp only [t, ops, List.cons_append, run_cons, run_append, run_nil]
    rfl
  have hpassed : (run step (run step t₀ (wholes 512)) detour).reassembler =
      (run step (start (passed t₀.reassembler 512)) detour).reassembler :=
    reassembler_run (run_wholes hzero (Nat.le_refl 512)) detour
  have hlast : let r := (run step (start (passed t₀.reassembler 512)) detour).reassembler
      let r' := (r.ingest (fragmentOf 0 0 2 .empty [])).2
      0 ∈ reports r (fragmentOf 0 0 2 .empty []) ∧ isBehind r' 0 = true ∧ 0 ∈ opens r' (whole 0) ∧
        0 ∈ reports r' (whole 0) := by
    decide +kernel
  obtain ⟨hreported, hbehind, hopens, hreports⟩ := hlast
  rw [hsplit]
  refine ⟨?_, ?_, ?_⟩
  all_goals simp only [step, hpassed]
  · exact List.mem_filter.mpr ⟨List.mem_append_right _ hreported, hbehind⟩
  · exact hopens
  · exact hreports

end Stream

end SlopDesk.Video
