/-
SlopDesk.Video.ReassemblerTheorems — what one packet does to the reassembler, and what
a run of them does.
-/
import Mathlib.Data.List.Count
import SlopDesk.Base.Runs
import SlopDesk.Video.Reassembler

/-! # What one ingest does.

§1 the frontier gate. §2 retiring a frame and sweeping the hopeless ones:
which frames are left, and what is queued. §3 one ingest, by how far the
fragment gets. Each section says everything its functions do to the parts
later proofs are about, so that these never unfold them.
-/

namespace SlopDesk.Video

open SlopDesk.Base

namespace FrameReassembler

variable {r : FrameReassembler} {frameId : UInt32}
variable {frontier : UInt32} {fragment : FrameFragment}

/-! ## §1 The frontier gate -/

/-- The frontier after a fragment that passed the gate. -/
def newFrontier (seen : Option UInt32) (frameId : UInt32) : UInt32 :=
  match seen with
  | none => frameId
  | some seen => if 0 < distanceWrapped frameId seen then frameId else seen

/-- Nothing but the frontier and its candidates. -/
def atGate (r : FrameReassembler) (seen : Option UInt32) (candidates : List UInt32)
    (rejected : Nat) : FrameReassembler :=
  { r with
    highestSeenFrameId := seen
    frontierJumpCandidates := candidates
    frontierJumpRejectedCount := rejected }

/-- A jump too far for the frontier. -/
def isJump (seen : Option UInt32) (frameId : UInt32) : Bool :=
  match seen with
  | none => false
  | some seen => maxFrontierJump < distanceWrapped frameId seen

/-- A fragment passes unless it is a jump that does not yet make a streak;
the candidates are the jumps since the last fragment that was none. -/
theorem advanceFrontier_eq (r : FrameReassembler) (frameId : UInt32) : r.advanceFrontier frameId =
      if isJump r.highestSeenFrameId frameId then
        if resyncStreak ≤ (cluster r.frontierJumpCandidates frameId ++ [frameId]).length then
          (true, r.atGate (some frameId) [] (r.frontierJumpRejectedCount + 1))
        else (false, r.atGate r.highestSeenFrameId
          (cluster r.frontierJumpCandidates frameId ++ [frameId]) (r.frontierJumpRejectedCount + 1))
      else (true, r.atGate (some (newFrontier r.highestSeenFrameId frameId))
        (if r.highestSeenFrameId = none then r.frontierJumpCandidates else [])
        r.frontierJumpRejectedCount) := by
  cases hseen : r.highestSeenFrameId with
  | none => simp [advanceFrontier, isJump, newFrontier, atGate, hseen]
  | some seen =>
    by_cases hjump : maxFrontierJump < distanceWrapped frameId seen
    · have hpos : 0 < distanceWrapped frameId seen := Int.lt_trans (by decide) hjump
      by_cases hstreak : resyncStreak ≤ (cluster r.frontierJumpCandidates frameId).length + 1
      · simp [advanceFrontier, resyncOnConsistentJump, isJump, atGate, hseen, hjump, hpos, hstreak]
      · simp [advanceFrontier, resyncOnConsistentJump, isJump, atGate, hseen, hjump, hstreak]
    · by_cases hpos : 0 < distanceWrapped frameId seen
      · simp [advanceFrontier, isJump, newFrontier, atGate, hseen, hjump, hpos]
      · simp [advanceFrontier, isJump, newFrontier, atGate, hseen, hjump, hpos]

theorem distance_newFrontier (seen : Option UInt32) (frameId : UInt32) :
    distanceWrapped frameId (newFrontier seen frameId) ≤ 0 := by
  unfold newFrontier
  split
  · simp
  · split
    · simp
    · omega

/-! ## §2 Retiring and sweeping -/

section Retire

variable (r : FrameReassembler) (frameId : UInt32)

theorem pending_retire (id : UInt32) :
    (r.retire frameId).pending[id]? = if id = frameId then none else r.pending[id]? :=
  BTreeMap.lookup_erase ..

@[simp] theorem nacked_retire : (r.retire frameId).nacked = r.nacked.erase frameId := rfl

end Retire

/-- The configuration and the frontier are those of `r`. -/
structure SameStream (r' r : FrameReassembler) : Prop where
  fec : r'.fec = r.fec
  highestSeen : r'.highestSeenFrameId = r.highestSeenFrameId
  candidates : r'.frontierJumpCandidates = r.frontierJumpCandidates
  reorderGrace : r'.fecReorderGrace = r.fecReorderGrace
  retransmitGrace : r'.retransmitGrace = r.retransmitGrace
  nackMaxFrags : r'.nackMaxFrags = r.nackMaxFrags

theorem SameStream.refl (r : FrameReassembler) : SameStream r r := ⟨rfl, rfl, rfl, rfl, rfl, rfl⟩

theorem foldl_request (wanted : List (UInt32 × List Nat)) (r : FrameReassembler) :
    wanted.foldl request r = { r with
      nacked := wanted.foldl (fun nacked w => insertNew w.1 nacked) r.nacked
      needsRetransmitQueue := r.needsRetransmitQueue ++ wanted } := by
  induction wanted generalizing r with
  | nil => simp
  | cons w wanted ih => simp [ih, request]

theorem foldl_drop (ids : List UInt32) (r : FrameReassembler) : SameStream (ids.foldl drop r) r ∧
      (∀ id, (ids.foldl drop r).pending[id]? = if id ∈ ids then none else r.pending[id]?) ∧
      (ids.foldl drop r).droppedQueue = r.droppedQueue ++ ids ∧
      (ids.foldl drop r).needsRetransmitQueue = r.needsRetransmitQueue := by
  induction ids generalizing r with
  | nil => simp [SameStream.refl]
  | cons first ids ih =>
    obtain ⟨hsame, hpending, hqueue, hrequests⟩ := ih (r.drop first)
    refine ⟨⟨hsame.fec, hsame.highestSeen, hsame.candidates, hsame.reorderGrace,
      hsame.retransmitGrace, hsame.nackMaxFrags⟩, fun id => ?_, ?_, hrequests⟩
    · have hdrop : (r.drop first).pending[id]? = if id = first then none else r.pending[id]? :=
        r.pending_retire first id
      rw [List.foldl_cons, hpending, hdrop]
      by_cases hmem : id ∈ ids
      · simp [hmem]
      · simp [hmem]
    · rw [List.foldl_cons, hqueue]
      simp [drop]

theorem mem_hopeless {id : UInt32} : id ∈ r.hopeless frontier ↔
    ∃ entry, r.pending[id]? = some entry ∧ r.verdict frontier id entry = .hopeless := by
  simp only [hopeless, List.mem_mergeSort, List.mem_filterMap, Prod.exists, BTreeMap.mem_toList]
  constructor
  · simp
  · simp

theorem nodup_hopeless (frontier : UInt32) : (r.hopeless frontier).Nodup := by
  have hkeys : r.pending.toList.Pairwise fun a b => ¬ compare a.1 b.1 = .eq :=
    Std.ExtTreeMap.distinct_keys_toList
  refine (List.mergeSort_perm _ _).nodup_iff.mpr (hkeys.filterMap _ fun a b hne id hid id' hid' => ?_)
  simp only [Option.ite_none_right_eq_some, Option.some.injEq] at hid hid'
  rintro rfl
  exact hne (by rw [hid.2, hid'.2]; exact Std.ReflCmp.compare_self)

theorem mem_requests {id : UInt32} {missing : List Nat} : (id, missing) ∈ r.requests frontier ↔
      ∃ entry, r.pending[id]? = some entry ∧ r.verdict frontier id entry = .nack missing := by
  simp only [requests, List.mem_mergeSort, List.mem_filterMap, Prod.exists, BTreeMap.mem_toList]
  constructor
  · grind
  · grind

theorem sweep_eq (hseen : r.highestSeenFrameId = some frontier) : r.sweepHopelessFrames =
      (r.hopeless frontier).foldl drop ((r.requests frontier).foldl request r) := by
  unfold sweepHopelessFrames
  split
  · simp_all
  · rename_i hseen'
    cases hseen.symm.trans hseen'
    rfl

/-- A sweep gives up exactly the hopeless frames and asks for the rest of
those worth it. -/
theorem sweep_spec (hseen : r.highestSeenFrameId = some frontier) : SameStream r.sweepHopelessFrames r ∧
      (∀ id, r.sweepHopelessFrames.pending[id]? =
        if id ∈ r.hopeless frontier then none else r.pending[id]?) ∧
      r.sweepHopelessFrames.droppedQueue = r.droppedQueue ++ r.hopeless frontier ∧
      r.sweepHopelessFrames.needsRetransmitQueue =
        r.needsRetransmitQueue ++ r.requests frontier := by
  obtain ⟨hsame, hpending, hqueue, hrequests⟩ :=
    foldl_drop (r.hopeless frontier) ((r.requests frontier).foldl request r)
  simp only [foldl_request] at hsame hpending hqueue hrequests
  rw [sweep_eq hseen, foldl_request]
  exact ⟨⟨hsame.fec, hsame.highestSeen, hsame.candidates, hsame.reorderGrace,
    hsame.retransmitGrace, hsame.nackMaxFrags⟩, hpending, hqueue, hrequests⟩

/-! ## §3 One ingest -/

/-- The frame a fragment belongs to, before it is stored. -/
def entryOf (r : FrameReassembler) (fragment : FrameFragment) : Pending :=
  (r.pending[fragment.header.frameId]?).getD (r.opened fragment.header)

/-- That frame with the fragment stored. -/
def storedIn (r : FrameReassembler) (fragment : FrameFragment) : Pending :=
  (r.entryOf fragment).store fragment

/-- The fragment passes the checks and the gate. -/
def Admits (r : FrameReassembler) (fragment : FrameFragment) : Prop :=
  malformed fragment = false ∧ r.isRetired fragment.header.frameId = false ∧
    (r.advanceFrontier fragment.header.frameId).1 = true

/-- It also agrees with its frame about the number of fragments. -/
def Accepts (r : FrameReassembler) (fragment : FrameFragment) : Prop :=
  r.Admits fragment ∧ fragment.header.fragCount = (r.entryOf fragment).fragCount

instance (r : FrameReassembler) (fragment : FrameFragment) : Decidable (r.Admits fragment) :=
  inferInstanceAs (Decidable (_ ∧ _ ∧ _))

instance (r : FrameReassembler) (fragment : FrameFragment) : Decidable (r.Accepts fragment) :=
  inferInstanceAs (Decidable (_ ∧ _))

/-- The frontier after a fragment that passed. -/
def frontierAfter (r : FrameReassembler) (fragment : FrameFragment) : UInt32 :=
  newFrontier r.highestSeenFrameId fragment.header.frameId

/-- The stream with the fragment stored. -/
def taken (r : FrameReassembler) (fragment : FrameFragment) : FrameReassembler :=
  let r' := (r.advanceFrontier fragment.header.frameId).2
  { r' with pending := r'.pending.insert fragment.header.frameId (r.storedIn fragment) }

theorem advanceFrontier_atGate (r : FrameReassembler) (frameId : UInt32) :
    ∃ seen candidates rejected, (r.advanceFrontier frameId).2 = r.atGate seen candidates rejected ∧
      seen = if (r.advanceFrontier frameId).1 then some (newFrontier r.highestSeenFrameId frameId)
        else r.highestSeenFrameId := by
  rw [advanceFrontier_eq]
  split
  · rename_i hjump
    have hnew : newFrontier r.highestSeenFrameId frameId = frameId := by
      unfold isJump at hjump
      unfold newFrontier
      split
      · rfl
      · rename_i seen hseen
        simp only [hseen, decide_eq_true_eq] at hjump
        rw [if_pos (Int.lt_trans (by decide) hjump)]
    split
    · exact ⟨_, _, _, rfl, by simp [hnew]⟩
    · exact ⟨_, _, _, rfl, by simp⟩
  · exact ⟨_, _, _, rfl, by simp⟩

theorem taken_spec (h : r.Admits fragment) : (r.taken fragment).fec = r.fec ∧
      (r.taken fragment).highestSeenFrameId = some (r.frontierAfter fragment) ∧
      (r.taken fragment).fecReorderGrace = r.fecReorderGrace ∧
      (r.taken fragment).retransmitGrace = r.retransmitGrace ∧
      (r.taken fragment).nackMaxFrags = r.nackMaxFrags ∧
      (r.taken fragment).droppedQueue = r.droppedQueue ∧
      (r.taken fragment).needsRetransmitQueue = r.needsRetransmitQueue ∧
      (r.taken fragment).nacked = r.nacked ∧ (r.taken fragment).retired = r.retired ∧
      (r.taken fragment).highestRetiredFrameId = r.highestRetiredFrameId ∧
      ∀ id, (r.taken fragment).pending[id]? =
        if id = fragment.header.frameId then some (r.storedIn fragment) else r.pending[id]? := by
  obtain ⟨seen, candidates, rejected, hgate, hseen⟩ :=
    r.advanceFrontier_atGate fragment.header.frameId
  rw [if_pos h.2.2] at hseen
  simp only [taken, hgate, atGate, hseen, frontierAfter, true_and]
  exact fun id => BTreeMap.lookup_insert ..

theorem ingest_cases (r : FrameReassembler) (fragment : FrameFragment) :
    (¬ r.Admits fragment ∧ ∃ candidates rejected,
        r.ingest fragment = (.stale, r.atGate r.highestSeenFrameId candidates rejected)) ∨
      (r.Admits fragment ∧ ¬ r.Accepts fragment ∧ ∃ candidates rejected, r.ingest fragment =
        (.stale, r.atGate (some (r.frontierAfter fragment)) candidates rejected)) ∨
      (r.Accepts fragment ∧ r.ingest fragment =
        ((r.taken fragment).tryComplete fragment.header.frameId).2.sweepHopelessFrames.answer
          ((r.taken fragment).tryComplete fragment.header.frameId).1 fragment.header.frameId) := by
  obtain ⟨seen, candidates, rejected, hgate, hseen⟩ :=
    r.advanceFrontier_atGate fragment.header.frameId
  by_cases hmalformed : malformed fragment = true
  · left
    refine ⟨fun h => by simp [h.1] at hmalformed, r.frontierJumpCandidates,
      r.frontierJumpRejectedCount, by simp [ingest, hmalformed, atGate]⟩
  by_cases hretired : r.isRetired fragment.header.frameId = true
  · left
    refine ⟨fun h => by simp [h.2.1] at hretired, r.frontierJumpCandidates,
      r.frontierJumpRejectedCount, by simp [ingest, hmalformed, hretired, atGate]⟩
  cases hpass : (r.advanceFrontier fragment.header.frameId).1 with
  | false =>
    left
    rw [hpass, if_neg (by decide)] at hseen
    have hpair : r.advanceFrontier fragment.header.frameId =
        (false, r.atGate r.highestSeenFrameId candidates rejected) :=
      Prod.ext hpass (hseen ▸ hgate)
    exact ⟨fun h => by simp [h.2.2] at hpass, candidates, rejected,
      by simp [ingest, hmalformed, hretired, hpair]⟩
  | true =>
    right
    have hadmits : r.Admits fragment := ⟨by simpa using hmalformed, by simpa using hretired, hpass⟩
    rw [hpass, if_pos rfl] at hseen
    have hpair : r.advanceFrontier fragment.header.frameId =
        (true, r.atGate (some (r.frontierAfter fragment)) candidates rejected) :=
      Prod.ext hpass (hseen ▸ hgate)
    -- the gate leaves the pending frames and the codec alone
    have hentry : (((r.atGate (some (r.frontierAfter fragment)) candidates rejected).pending[
        fragment.header.frameId]?).getD ((r.atGate (some (r.frontierAfter fragment)) candidates
          rejected).opened fragment.header)) = r.entryOf fragment := rfl
    by_cases hcount : fragment.header.fragCount = (r.entryOf fragment).fragCount
    · right
      refine ⟨⟨hadmits, hcount⟩, ?_⟩
      simp [ingest, hmalformed, hretired, hpair, hentry, hcount, taken, storedIn]
    · left
      refine ⟨hadmits, fun h => hcount h.2, candidates, rejected, ?_⟩
      simp [ingest, hmalformed, hretired, hpair, hentry, hcount]

/-- The frame a pending one is reported as. -/
def finished (entry : Pending) (frameId : UInt32) (avcc : List UInt8) (recoveredViaFec : Bool) :
    ReassembledFrame :=
  ⟨frameId, entry.keyframe, entry.crisp, avcc, recoveredViaFec, entry.isLtr, entry.ackedAnchored⟩

/-- The fragment completes its frame: the counters say so and the decoder
fills every hole. -/
def Completes (r : FrameReassembler) (fragment : FrameFragment) : Prop :=
  (r.storedIn fragment).canEventuallyComplete = true ∧ ((r.storedIn fragment).assemble r.fec).isSome

instance (r : FrameReassembler) (fragment : FrameFragment) : Decidable (r.Completes fragment) :=
  inferInstanceAs (Decidable (_ ∧ _))

/-- What the sweep of an accepted fragment finds. -/
def settled (r : FrameReassembler) (fragment : FrameFragment) : FrameReassembler :=
  if r.Completes fragment then (r.taken fragment).retire fragment.header.frameId
  else r.taken fragment

/-- The frames an accepted fragment's sweep gives up. -/
def givenUp (r : FrameReassembler) (fragment : FrameFragment) : List UInt32 :=
  (r.settled fragment).hopeless (r.frontierAfter fragment)

theorem settled_of_completes (h : r.Completes fragment) :
    r.settled fragment = (r.taken fragment).retire fragment.header.frameId := if_pos h

theorem settled_of_not_completes (h : ¬ r.Completes fragment) :
    r.settled fragment = r.taken fragment := if_neg h

theorem tryComplete_taken (h : r.Admits fragment) :
    ((r.taken fragment).tryComplete fragment.header.frameId).2 = r.settled fragment ∧
      ((r.Completes fragment ∧ ∃ avcc recovered,
          (r.storedIn fragment).assemble r.fec = some (avcc, recovered) ∧
          ((r.taken fragment).tryComplete fragment.header.frameId).1 =
            .completed (finished (r.storedIn fragment) fragment.header.frameId avcc recovered)) ∨
        (¬ r.Completes fragment ∧
          ((r.taken fragment).tryComplete fragment.header.frameId).1 = .incomplete)) := by
  obtain ⟨hfec, -, -, -, -, -, -, -, -, -, hpending⟩ := taken_spec h
  have hentry := hpending fragment.header.frameId
  simp only [tryComplete, hentry, hfec, settled]
  by_cases hcan : (r.storedIn fragment).canEventuallyComplete = true
  · cases hassemble : (r.storedIn fragment).assemble r.fec with
    | none => simp [Completes, hcan, hassemble]
    | some bytes => simp [Completes, hcan, hassemble, finished]
  · simp [Completes, hcan]

theorem settled_spec (h : r.Admits fragment) :
    (r.settled fragment).highestSeenFrameId = some (r.frontierAfter fragment) ∧
      (r.settled fragment).fecReorderGrace = r.fecReorderGrace ∧
      (r.settled fragment).retransmitGrace = r.retransmitGrace ∧
      (r.settled fragment).nackMaxFrags = r.nackMaxFrags ∧
      (r.settled fragment).droppedQueue = r.droppedQueue ∧
      (r.settled fragment).needsRetransmitQueue = r.needsRetransmitQueue ∧
      ∀ id, (r.settled fragment).pending[id]? =
        if id = fragment.header.frameId then
          if r.Completes fragment then none else some (r.storedIn fragment)
        else r.pending[id]? := by
  obtain ⟨-, hseen, hreorder, hgrace, hmax, hqueue, hrequests, -, -, -, hpending⟩ := taken_spec h
  unfold settled
  split
  · refine ⟨hseen, hreorder, hgrace, hmax, hqueue, hrequests, fun id => ?_⟩
    rw [pending_retire, hpending]
    split <;> rfl
  · exact ⟨hseen, hreorder, hgrace, hmax, hqueue, hrequests, hpending⟩

/-- An accepted fragment: its frame completes or not, then the hopeless
frames go, and its own frame's drop is told at once. -/
theorem ingest_accepts (h : r.Accepts fragment) :
    ∃ queue, (r.ingest fragment).2 =
        { (r.settled fragment).sweepHopelessFrames with droppedQueue := queue } ∧
      ((r.Completes fragment ∧ queue = r.droppedQueue ++ r.givenUp fragment ∧ ∃ avcc recovered,
          (r.storedIn fragment).assemble r.fec = some (avcc, recovered) ∧ (r.ingest fragment).1 =
            .completed (finished (r.storedIn fragment) fragment.header.frameId avcc recovered)) ∨
        (¬ r.Completes fragment ∧ fragment.header.frameId ∈ r.givenUp fragment ∧
          queue = (r.droppedQueue ++ r.givenUp fragment).filter (· ≠ fragment.header.frameId) ∧
          (r.ingest fragment).1 = .dropped fragment.header.frameId) ∨
        (¬ r.Completes fragment ∧ fragment.header.frameId ∉ r.givenUp fragment ∧
          queue = r.droppedQueue ++ r.givenUp fragment ∧ (r.ingest fragment).1 = .incomplete)) := by
  obtain ⟨hseen, -, -, -, hqueue, -, hpending⟩ := settled_spec h.1
  obtain ⟨-, hswept, hdropped, -⟩ := sweep_spec hseen
  have hgiven : (r.settled fragment).hopeless (r.frontierAfter fragment) = r.givenUp fragment := rfl
  rw [hqueue] at hdropped
  rw [hgiven] at hdropped
  simp only [hgiven] at hswept
  obtain ⟨hstate, hresult⟩ := tryComplete_taken h.1
  rcases r.ingest_cases fragment with ⟨hnot, -⟩ | ⟨-, hnot, -⟩ | ⟨-, hingest⟩
  · exact absurd h.1 hnot
  · exact absurd h hnot
  rw [hstate] at hingest
  rcases hresult with ⟨hcompletes, avcc, recovered, hassemble, hresult⟩ | ⟨hnot, hresult⟩
  · rw [hresult] at hingest
    exact ⟨_, by rw [hingest]; rfl,
      .inl ⟨hcompletes, hdropped, avcc, recovered, hassemble, by rw [hingest]; rfl⟩⟩
  · rw [hresult] at hingest
    -- what has not completed is pending unless the sweep gave it up
    have hown := hswept fragment.header.frameId
    rw [hpending, if_pos rfl, if_neg hnot] at hown
    by_cases hmem : fragment.header.frameId ∈ r.givenUp fragment
    · rw [if_pos hmem] at hown
      have hin : fragment.header.frameId ∈ (r.settled fragment).sweepHopelessFrames.droppedQueue := by
        rw [hdropped]
        exact List.mem_append_right _ hmem
      have hanswer : (r.settled fragment).sweepHopelessFrames.answer .incomplete fragment.header.frameId =
          (.dropped fragment.header.frameId, { (r.settled fragment).sweepHopelessFrames with
            droppedQueue := (r.settled fragment).sweepHopelessFrames.droppedQueue.filter
              (· ≠ fragment.header.frameId) }) := by
        simp [answer, hin, Std.ExtTreeMap.contains_eq_isSome_getElem?, hown]
      rw [hingest, hanswer]
      exact ⟨_, rfl, .inr (.inl ⟨hnot, hmem, by rw [hdropped], rfl⟩)⟩
    · rw [if_neg hmem] at hown
      have hanswer : (r.settled fragment).sweepHopelessFrames.answer .incomplete fragment.header.frameId =
          (.incomplete, (r.settled fragment).sweepHopelessFrames) := by
        simp [answer, Std.ExtTreeMap.contains_eq_isSome_getElem?, hown]
      rw [hingest, hanswer]
      exact ⟨_, rfl, .inr (.inr ⟨hnot, hmem, hdropped, rfl⟩)⟩

end FrameReassembler

end SlopDesk.Video

/-! # Runs of the reassembler, beside a ledger
of what its caller sees.

§1 the ledger and what one fragment adds to it. §2 every frame that was
opened is reported once or still pending. §3 no frame wedges: as long as
the counters and the decoder agree and no fragment moves the frontier past
its own frame's disagreement, what is pending is within the graces of the
frontier.
-/

namespace SlopDesk.Video

open SlopDesk.Base

/-! ## §1 The ledger -/

/-- What a caller does with a reassembler. -/
inductive ReassemblerOp where
  | ingest (fragment : FrameFragment)
  | nextDroppedFrame
  | nextNeedsRetransmit
  deriving DecidableEq

/-- The frame a result reports. -/
def ReassemblyResult.reports : ReassemblyResult → List UInt32
  | .completed frame => [frame.frameId]
  | .dropped frameId => [frameId]
  | _ => []

/-- A reassembler and what was seen of it: the frames opened and reported
so far, the requests queued, the reported frames that have since stayed
within half the id space behind the frontier, and the ids that reached the
frontier gate with whether they were jumps. -/
structure Stream where
  reassembler : FrameReassembler
  opened : List UInt32
  reported : List UInt32
  requested : List (UInt32 × List Nat)
  recent : List UInt32
  tested : List (UInt32 × Bool)

namespace Stream

/-- Before the first fragment. -/
def start (reassembler : FrameReassembler) : Stream := ⟨reassembler, [], [], [], [], []⟩

/-- The frames an ingest reports: in its result, and new in the queue. -/
def reports (r : FrameReassembler) (fragment : FrameFragment) : List UInt32 :=
  (r.ingest fragment).1.reports ++ (r.ingest fragment).2.droppedQueue.diff r.droppedQueue

/-- The frame an ingest opens. -/
def opens (r : FrameReassembler) (fragment : FrameFragment) : List UInt32 :=
  if (r.ingest fragment).1 = .stale ∨ r.pending.contains fragment.header.frameId then []
  else [fragment.header.frameId]

/-- Within half the id space behind the frontier. -/
def isBehind (r : FrameReassembler) (frameId : UInt32) : Bool :=
  match r.highestSeenFrameId with
  | none => false
  | some seen => 0 ≤ distanceWrapped seen frameId

/-- One operation, in the reassembler and in the ledger. -/
def step (t : Stream) : ReassemblerOp → Stream
  | .ingest fragment =>
    let r' := (t.reassembler.ingest fragment).2
    { reassembler := r'
      opened := t.opened ++ opens t.reassembler fragment
      reported := t.reported ++ reports t.reassembler fragment
      requested := t.requested ++
        r'.needsRetransmitQueue.drop t.reassembler.needsRetransmitQueue.length
      recent := (t.recent ++ reports t.reassembler fragment).filter (isBehind r')
      tested :=
        if FrameReassembler.malformed fragment ∨ t.reassembler.isRetired fragment.header.frameId then
          t.tested
        else t.tested ++ [(fragment.header.frameId,
          FrameReassembler.isJump t.reassembler.highestSeenFrameId fragment.header.frameId)] }
  | .nextDroppedFrame => { t with reassembler := t.reassembler.nextDroppedFrame.2 }
  | .nextNeedsRetransmit => { t with reassembler := t.reassembler.nextNeedsRetransmit.2 }

end Stream

namespace FrameReassembler

variable {r : FrameReassembler} {fragment : FrameFragment}

theorem pending_ingest (h : r.Accepts fragment) (id : UInt32) : (r.ingest fragment).2.pending[id]? =
      if id ∈ r.givenUp fragment then none
      else if id = fragment.header.frameId then
        if r.Completes fragment then none else some (r.storedIn fragment)
      else r.pending[id]? := by
  obtain ⟨queue, hstate, -⟩ := ingest_accepts h
  obtain ⟨hseen, -, -, -, -, -, hpending⟩ := settled_spec h.1
  rw [hstate]
  rw [(sweep_spec hseen).2.1, hpending]
  rfl

theorem ingest_refused (h : ¬ r.Accepts fragment) :
    (r.ingest fragment).1 = .stale ∧ ∃ seen candidates rejected,
      (r.ingest fragment).2 = r.atGate seen candidates rejected ∧
      seen = if r.Admits fragment then some (r.frontierAfter fragment) else r.highestSeenFrameId := by
  rcases r.ingest_cases fragment with ⟨hnot, candidates, rejected, heq⟩ |
    ⟨hadmits, -, candidates, rejected, heq⟩ | ⟨haccepts, -⟩
  · exact ⟨by rw [heq], _, candidates, rejected, by rw [heq], by rw [if_neg hnot]⟩
  · exact ⟨by rw [heq], _, candidates, rejected, by rw [heq], by rw [if_pos hadmits]⟩
  · exact absurd haccepts h

theorem mem_givenUp {id : UInt32} (h : id ∈ r.givenUp fragment) :
    ∃ entry, (r.settled fragment).pending[id]? = some entry ∧
      (r.settled fragment).verdict (r.frontierAfter fragment) id entry = .hopeless :=
  mem_hopeless.mp h

/-- How often an accepted fragment reports a frame: once if it completes
it, once if its sweep gives it up. -/
theorem count_reports (h : r.Accepts fragment) (id : UInt32) : (Stream.reports r fragment).count id =
      (if r.Completes fragment ∧ id = fragment.header.frameId then 1 else 0) +
        if id ∈ r.givenUp fragment then 1 else 0 := by
  obtain ⟨queue, hstate, hcases⟩ := ingest_accepts h
  have hqueue : (r.ingest fragment).2.droppedQueue = queue := by rw [hstate]
  have hnodup : ∀ id, (r.givenUp fragment).count id = if id ∈ r.givenUp fragment then 1 else 0 :=
    fun _ => (nodup_hopeless _).count
  simp only [Stream.reports, List.count_append, List.count_diff, hqueue]
  rcases hcases with ⟨hdone, hqueue, avcc, recovered, -, hresult⟩ | ⟨hnot, hmem, hqueue, hresult⟩ |
    ⟨hnot, hmem, hqueue, hresult⟩
  · by_cases hid : id = fragment.header.frameId
    · simp [hresult, hqueue, ReassemblyResult.reports, finished, hnodup, hdone, hid]
    · simp [hresult, hqueue, ReassemblyResult.reports, finished, hnodup, hid, Ne.symm hid]
  · by_cases hid : id = fragment.header.frameId
    · have hgone : ((r.droppedQueue ++ r.givenUp fragment).filter
          (· ≠ fragment.header.frameId)).count fragment.header.frameId = 0 :=
        List.count_eq_zero.mpr (by simp)
      rw [hid, hqueue, hgone]
      simp [hresult, ReassemblyResult.reports, hnot, hmem]
    · have hkept : (r.droppedQueue ++ r.givenUp fragment).count id =
          ((r.droppedQueue ++ r.givenUp fragment).filter (· ≠ fragment.header.frameId)).count id :=
        (List.count_filter (by simpa using hid)).symm
      rw [hqueue, ← hkept]
      simp [hresult, ReassemblyResult.reports, hnot, hnodup, Ne.symm hid]
  · simp [hresult, hqueue, ReassemblyResult.reports, hnodup, hnot]

theorem not_givenUp_of_completes (h : r.Accepts fragment) (hdone : r.Completes fragment) :
    fragment.header.frameId ∉ r.givenUp fragment := by
  intro hmem
  obtain ⟨entry, hentry, -⟩ := mem_givenUp hmem
  obtain ⟨-, -, -, -, -, -, hpending⟩ := settled_spec h.1
  rw [hpending, if_pos rfl, if_pos hdone] at hentry
  simp at hentry

end FrameReassembler

namespace Stream

variable {t : Stream}

/-! ## §2 Reported once -/

/-- Every opening of a frame has been reported, or the frame is pending. -/
def Accounted (t : Stream) : Prop :=
  ∀ id, t.opened.count id = t.reported.count id +
    if t.reassembler.pending.contains id then 1 else 0

open FrameReassembler in
theorem Accounted.ingest (h : t.Accounted) (fragment : FrameFragment) :
    (t.step (.ingest fragment)).Accounted := by
  intro id
  have hbefore := h id
  by_cases haccepts : t.reassembler.Accepts fragment
  · have hpending := pending_ingest haccepts id
    have hreports := count_reports haccepts id
    have hstale : (t.reassembler.ingest fragment).1 ≠ .stale := by
      obtain ⟨_, -, hcases⟩ := ingest_accepts haccepts
      rcases hcases with ⟨-, -, _, _, -, hresult⟩ | ⟨-, -, -, hresult⟩ | ⟨-, -, -, hresult⟩ <;>
        simp [hresult]
    have hgiven : id ∈ t.reassembler.givenUp fragment → id ≠ fragment.header.frameId →
        (t.reassembler.pending[id]?).isSome := by
      intro hmem hid
      obtain ⟨entry, hentry, -⟩ := mem_givenUp hmem
      obtain ⟨-, -, -, -, -, -, hsettled⟩ := settled_spec haccepts.1
      rw [hsettled, if_neg hid] at hentry
      simp [hentry]
    simp only [step, List.count_append, opens, hstale, false_or,
      Std.ExtTreeMap.contains_eq_isSome_getElem?, hpending, hreports] at hbefore ⊢
    by_cases hid : id = fragment.header.frameId
    · subst hid
      have hdisjoint := not_givenUp_of_completes haccepts
      by_cases hopen : (t.reassembler.pending[fragment.header.frameId]?).isSome <;>
        by_cases hdone : t.reassembler.Completes fragment <;>
        by_cases hmem : fragment.header.frameId ∈ t.reassembler.givenUp fragment <;>
        simp_all
    · have hopens : (if (t.reassembler.pending[fragment.header.frameId]?).isSome then []
          else [fragment.header.frameId]).count id = 0 := by
        split
        · simp
        · simp [Ne.symm hid]
      rw [hopens]
      by_cases hmem : id ∈ t.reassembler.givenUp fragment
      · simp [hid, hmem, hgiven hmem hid, hbefore]
      · simp [hid, hmem, hbefore]
  · obtain ⟨hresult, seen, candidates, rejected, hstate, -⟩ := ingest_refused haccepts
    simp [step, opens, reports, hresult, hstate, FrameReassembler.atGate, ReassemblyResult.reports,
      hbefore, List.count_diff]

theorem Accounted.step (h : t.Accounted) (op : ReassemblerOp) : (t.step op).Accounted := by
  cases op with
  | ingest fragment => exact h.ingest fragment
  | nextDroppedFrame =>
    have hsame : t.reassembler.nextDroppedFrame.2.pending = t.reassembler.pending := by
      unfold FrameReassembler.nextDroppedFrame
      split <;> rfl
    simpa [Accounted, Stream.step, hsame] using h
  | nextNeedsRetransmit =>
    have hsame : t.reassembler.nextNeedsRetransmit.2.pending = t.reassembler.pending := by
      unfold FrameReassembler.nextNeedsRetransmit
      split <;> rfl
    simpa [Accounted, Stream.step, hsame] using h

/-! ## §3 No frame wedges -/

/-- A reassembler as its owner configures it, with or without the
retransmission of lost fragments. -/
def configured (fec : Option ReedSolomonFec) (fits : ∀ codec ∈ fec, AdaptiveFec.Fits codec)
    (fecReorderGrace : Int) (retransmit : Option (Int × Nat)) : FrameReassembler :=
  match retransmit with
  | none => .new fec fits fecReorderGrace
  | some (grace, maxFrags) => (FrameReassembler.new fec fits fecReorderGrace).enableRetransmit grace maxFrags

/-- Where the counters of its frame say a fragment completes it, the
decoder fills every hole; and a fragment that disagrees with its frame
about the number of fragments is not past the frontier. -/
def InStep (t : Stream) : ReassemblerOp → Prop
  | .ingest fragment => t.reassembler.Admits fragment →
      if fragment.header.fragCount = (t.reassembler.entryOf fragment).fragCount then
        (t.reassembler.storedIn fragment).canEventuallyComplete = true →
          ((t.reassembler.storedIn fragment).assemble t.reassembler.fec).isSome
      else ∀ seen ∈ t.reassembler.highestSeenFrameId,
        distanceWrapped fragment.header.frameId seen ≤ 0
  | _ => True

instance (t : Stream) : (op : ReassemblerOp) → Decidable (t.InStep op)
  | .ingest fragment =>
    have : Decidable (∀ seen ∈ t.reassembler.highestSeenFrameId,
        distanceWrapped fragment.header.frameId seen ≤ 0) := Option.decidableForallMem _
    inferInstanceAs (Decidable (_ → ite _ _ _))
  | .nextDroppedFrame | .nextNeedsRetransmit => .isTrue trivial

/-- The longer of the two graces. -/
def grace (r : FrameReassembler) : Int := max r.fecReorderGrace r.retransmitGrace

/-- What is pending cannot complete yet and is within the graces. -/
structure Unwedged (r : FrameReassembler) : Prop where
  nonneg : 0 ≤ grace r
  short : ∀ (id : UInt32) (entry : Pending), r.pending[id]? = some entry → entry.canEventuallyComplete = false
  aged : ∀ (id : UInt32) (entry : Pending), r.pending[id]? = some entry → ∃ frontier,
    r.highestSeenFrameId = some frontier ∧ distanceWrapped frontier id ≤ grace r

theorem age_le_of_not_hopeless {r : FrameReassembler} {frontier id : UInt32} {entry : Pending}
    (hgrace : 0 ≤ grace r) (hshort : entry.canEventuallyComplete = false)
    (h : r.verdict frontier id entry ≠ .hopeless) : distanceWrapped frontier id ≤ grace r := by
  unfold grace at hgrace ⊢
  simp only [FrameReassembler.verdict, hshort] at h
  by_cases hage : distanceWrapped frontier id ≤ 0
  · omega
  by_cases hreorder : distanceWrapped frontier id ≤ r.fecReorderGrace
  · omega
  by_cases hretransmit : distanceWrapped frontier id ≤ r.retransmitGrace
  · omega
  · simp [hage, hreorder, hretransmit] at h

open FrameReassembler in
theorem Unwedged.ingest (h : Unwedged t.reassembler) {fragment : FrameFragment}
    (hstep : t.InStep (.ingest fragment)) : Unwedged (t.reassembler.ingest fragment).2 := by
  by_cases haccepts : t.reassembler.Accepts fragment
  · obtain ⟨queue, hstate, -⟩ := ingest_accepts haccepts
    obtain ⟨hseen, hreorder, hretransmit, -, -, -, hsettled⟩ := settled_spec haccepts.1
    obtain ⟨hsame, -⟩ := sweep_spec hseen
    have hfrontier : (t.reassembler.ingest fragment).2.highestSeenFrameId =
        some (t.reassembler.frontierAfter fragment) := by
      rw [hstate]
      exact hsame.highestSeen.trans hseen
    have hgrace' : grace (t.reassembler.settled fragment) = grace t.reassembler := by
      rw [grace, grace, hreorder, hretransmit]
    have hgrace : grace (t.reassembler.ingest fragment).2 = grace (t.reassembler.settled fragment) := by
      rw [hstate]
      simp only [grace, hsame.reorderGrace, hsame.retransmitGrace]
    -- what is left was not given up, and still cannot complete
    have hleft : ∀ id entry, (t.reassembler.ingest fragment).2.pending[id]? = some entry →
        id ∉ t.reassembler.givenUp fragment ∧
          (t.reassembler.settled fragment).pending[id]? = some entry ∧
          entry.canEventuallyComplete = false := by
      intro id entry hentry
      rw [pending_ingest haccepts] at hentry
      split at hentry
      · simp at hentry
      rename_i hmem
      refine ⟨hmem, by rw [hsettled]; exact hentry, ?_⟩
      split at hentry
      · split at hentry
        · simp at hentry
        · rename_i hnot
          cases hentry
          have hdecodes := hstep haccepts.1
          rw [if_pos haccepts.2] at hdecodes
          rw [← Bool.not_eq_true]
          exact fun hcan => hnot ⟨hcan, hdecodes hcan⟩
      · exact h.short id entry hentry
    refine ⟨by rw [hgrace, hgrace']; exact h.nonneg, fun id entry hentry => (hleft id entry hentry).2.2,
      fun id entry hentry => ⟨_, hfrontier, ?_⟩⟩
    obtain ⟨hmem, hentry, hshort⟩ := hleft id entry hentry
    rw [hgrace]
    refine age_le_of_not_hopeless (by rw [hgrace']; exact h.nonneg) hshort fun hhopeless => ?_
    exact hmem (mem_hopeless.mpr ⟨entry, hentry, hhopeless⟩)
  · obtain ⟨-, seen, candidates, rejected, hstate, hseen⟩ := ingest_refused haccepts
    rw [hstate]
    refine ⟨h.nonneg, h.short, fun id entry hentry => ?_⟩
    obtain ⟨frontier, hfrontier, hage⟩ := h.aged id entry hentry
    refine ⟨frontier, ?_, hage⟩
    -- a fragment that disagrees with its frame has not moved the frontier
    change seen = some frontier
    split at hseen
    · rename_i hadmits
      have hbehind := hstep hadmits
      rw [if_neg fun hcount => haccepts ⟨hadmits, hcount⟩] at hbehind
      have hle := hbehind frontier hfrontier
      rw [hseen, frontierAfter, hfrontier]
      simp only [newFrontier]
      rw [if_neg (by omega)]
    · exact hseen.trans hfrontier

theorem Unwedged.step (h : Unwedged t.reassembler) {op : ReassemblerOp}
    (hop : t.InStep op) : Unwedged (t.step op).reassembler := by
  cases op with
  | ingest fragment => exact h.ingest hop
  | nextDroppedFrame =>
    simp only [Stream.step, FrameReassembler.nextDroppedFrame]
    split
    · exact h
    · exact ⟨h.nonneg, h.short, h.aged⟩
  | nextNeedsRetransmit =>
    simp only [Stream.step, FrameReassembler.nextNeedsRetransmit]
    split
    · exact h
    · exact ⟨h.nonneg, h.short, h.aged⟩

theorem unwedged_configured (fec : Option ReedSolomonFec)
    (fits : ∀ codec ∈ fec, AdaptiveFec.Fits codec) (fecReorderGrace : Int)
    (retransmit : Option (Int × Nat)) : Unwedged (configured fec fits fecReorderGrace retransmit) := by
  have hgrace : 0 ≤ (configured fec fits fecReorderGrace retransmit).fecReorderGrace := by
    cases retransmit <;> exact Int.le_max_right ..
  have hnone : ∀ id : UInt32, (configured fec fits fecReorderGrace retransmit).pending[id]? = none := by
    intro id
    cases retransmit <;> exact Std.ExtTreeMap.getElem?_empty
  refine ⟨by unfold grace; omega, fun id entry hentry => ?_, fun id entry hentry => ?_⟩
  · simp [hnone] at hentry
  · simp [hnone] at hentry

/-- No frame wedges. Every opening of a frame is reported exactly once
unless the frame is still pending; and in a run that stays in step, a frame
still pending is at most the longer grace behind the frontier. -/
theorem no_frame_wedges (fec : Option ReedSolomonFec)
    (fits : ∀ codec ∈ fec, AdaptiveFec.Fits codec) (fecReorderGrace : Int)
    (retransmit : Option (Int × Nat)) (ops : List ReassemblerOp) :
    let r := configured fec fits fecReorderGrace retransmit
    let t := run step (start r) ops
    (∀ id, t.opened.count id = t.reported.count id +
        if t.reassembler.pending.contains id then 1 else 0) ∧
      (Meets step InStep (start r) ops → ∀ (id : UInt32) (entry : Pending),
        t.reassembler.pending[id]? = some entry → ∃ frontier,
          t.reassembler.highestSeenFrameId = some frontier ∧ distanceWrapped frontier id ≤
            max t.reassembler.fecReorderGrace t.reassembler.retransmitGrace) := by
  intro r t
  have hstart := unwedged_configured fec fits fecReorderGrace retransmit
  constructor
  · have hempty : (start r).Accounted := by
      intro id
      have hnone : r.pending.contains id = false := by
        cases retransmit <;> exact Std.ExtTreeMap.contains_empty
      simp [start, hnone]
    exact run_invariant Accounted (fun _ op h => h.step op) hempty ops
  · intro hops
    exact (hops.invariant (fun t => Unwedged t.reassembler) (fun _ _ hop h => h.step hop) hstart).aged

/-- Fragment `index` of `count` of a frame, in the default tier or the OFF
tier. -/
def fragmentOf (frameId : UInt32) (index count : UInt16) (flags : Flags) (payload : List UInt8) :
    FrameFragment :=
  ⟨⟨0, frameId, index, count, flags, 0, .ofNat payload.length⟩, payload⟩

/-- A frame waits for its last fragment while a newer one completes. -/
theorem no_frame_wedges_waiting :
    let r := configured (some .default) (by decide) 2 none
    let ops := [.ingest (fragmentOf 0 0 3 .empty [1]), .ingest (fragmentOf 1 0 1 ⟨8⟩ [5]),
      .nextDroppedFrame]
    let t := run step (start r) ops
    Meets step InStep (start r) ops ∧ t.reassembler.pending.contains 0 = true ∧
      ∀ (id : UInt32) (entry : Pending), t.reassembler.pending[id]? = some entry → ∃ frontier,
        t.reassembler.highestSeenFrameId = some frontier ∧ distanceWrapped frontier id ≤
          max t.reassembler.fecReorderGrace t.reassembler.retransmitGrace := by
  intro r ops t
  have hops : Meets step InStep (start r) ops := by decide +kernel
  have hwaiting : t.reassembler.pending.contains 0 = true := by decide +kernel
  exact ⟨hops, hwaiting, (no_frame_wedges (some .default) (by decide) 2 none ops).2 hops⟩

/-- One parity shard with no bytes: the counters call the frame complete,
the decoder finds no length to cut to, and the sweep holds the frame for
good. -/
theorem frame_wedges :
    let ops := [.ingest (fragmentOf 0 1 2 .parity []), .ingest (fragmentOf 1 0 1 ⟨8⟩ []),
      .ingest (fragmentOf 2 0 1 ⟨8⟩ []), .ingest (fragmentOf 3 0 1 ⟨8⟩ [])]
    let t := run step (start (configured (some .default) (by decide) 2 none)) ops
    t.reassembler.pending.contains 0 = true ∧ t.reassembler.highestSeenFrameId = some 3 ∧
      t.reassembler.fecReorderGrace = 2 ∧ t.reassembler.retransmitGrace = 0 := by
  decide +kernel

end Stream

end SlopDesk.Video
