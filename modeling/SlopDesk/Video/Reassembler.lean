/-
SlopDesk.Video.Reassembler — fragments back into frames
(`slopdesk-video/src/reassembler.rs`).

§1 one pending frame: what of it arrived, and per FEC group how many data
shards are missing and how many parity shards are there. §2 the
reassembler: the frontier gate, completion, and the sweep of what is
hopeless. Fragment indices are at most sixteen bits wide, so the maps by
index are maps by number; the sets of retired and requested ids are lists
without repetition. The codec is one whose every tier fits the field, so
that recovery does not panic.
-/
import SlopDesk.Base.BTree
import SlopDesk.Base.SequenceSpace
import SlopDesk.Video.Fragment

namespace SlopDesk.Video

open SlopDesk.Base
open SlopDesk.Base.Blocks

/-- `MAX_FRAGMENTS_PER_FRAME`. -/
def maxFragmentsPerFrame : Nat := 8192
/-- `MAX_FRONTIER_JUMP`. -/
def maxFrontierJump : Int := 4096
/-- `RESYNC_STREAK`. -/
def resyncStreak : Nat := 8
/-- `RESYNC_CLUSTER_WINDOW`. -/
def resyncClusterWindow : Nat := 256
/-- `RETIRED_SOFT_CAP`. -/
def retiredSoftCap : Nat := 512
/-- `RETIRED_KEEP_DISTANCE`. -/
def retiredKeepDistance : Int := 256
/-- `MAX_NACK_FRAGMENTS`. -/
def maxNackFragments : Nat := 64

structure ReassembledFrame where
  frameId : UInt32
  keyframe : Bool
  crisp : Bool
  avcc : List UInt8
  recoveredViaFec : Bool
  isLtr : Bool
  ackedAnchored : Bool
  deriving DecidableEq, Repr

inductive ReassemblyResult where
  | incomplete
  | completed (frame : ReassembledFrame)
  | dropped (frameId : UInt32)
  | stale
  deriving DecidableEq, Repr

/-! ## §1 A pending frame -/

/-- The loop of `inverted_data_count`. -/
def invertFrom (total groupSize m : Nat) : Nat → Option Nat
  | 0 => if total = 0 then some 0 else none
  | dataCount + 1 =>
    let parity := m * blockCount (dataCount + 1) groupSize
    if dataCount + 1 + parity = total then some (dataCount + 1)
    else if dataCount + 1 + parity < total then none
    else invertFrom total groupSize m dataCount

/-- `inverted_data_count`: the data count that makes the total, if one does. -/
def invertedDataCount (total groupSize m : Nat) : Option Nat :=
  if groupSize < 1 ∨ m < 1 then none else invertFrom total groupSize m total

structure Pending where
  fragCount : UInt16
  keyframe : Bool
  crisp : Bool
  isLtr : Bool
  ackedAnchored : Bool
  data : BTreeMap Nat (List UInt8)
  parity : BTreeMap Nat (List UInt8)
  observedDataCount : Option Nat
  groupSize : Option Nat
  m : Nat
  pinnedDataCount : Nat
  missingPerGroup : List Nat
  survivingPerGroup : List Nat
  hopelessGroups : Nat
  recoverableNowGroups : Nat
  awaitingGroups : Nat
  dataPresentBelowBoundary : Nat

namespace Pending

def new (fragCount : UInt16) (groupSize : Option Nat) (parityShardsPerGroup : Nat) : Pending :=
  let group := groupSize.filter (1 ≤ ·)
  let m := max parityShardsPerGroup 1
  let total := fragCount.toNat
  let pending : Pending := {
    fragCount, keyframe := false, crisp := false, isLtr := false, ackedAnchored := false
    data := ∅, parity := ∅, observedDataCount := none, groupSize := group, m
    pinnedDataCount := total, missingPerGroup := [], survivingPerGroup := []
    hopelessGroups := 0, recoverableNowGroups := 0, awaitingGroups := 0
    dataPresentBelowBoundary := 0 }
  match group with
  | none => pending
  | some group =>
    let dataCount := (invertedDataCount total group m).getD total
    let groups := blockCount dataCount group
    let missingPerGroup := (List.range groups).map fun index => min group (dataCount - index * group)
    let hopelessGroups := missingPerGroup.countP (m < ·)
    { pending with
      pinnedDataCount := dataCount
      missingPerGroup
      survivingPerGroup := List.replicate groups 0
      hopelessGroups
      awaitingGroups := groups - hopelessGroups }

def observedBoundary (p : Pending) : Nat := p.observedDataCount.getD p.fragCount.toNat

def resolvedDataCount (p : Pending) : Nat :=
  if p.groupSize.isSome then p.pinnedDataCount else p.observedBoundary

def canEventuallyComplete (p : Pending) : Bool :=
  if p.resolvedDataCount = 0 then p.data.contains 0
  else if p.groupSize.isNone then p.dataPresentBelowBoundary = p.resolvedDataCount
  else p.hopelessGroups = 0 ∧ p.awaitingGroups = 0

def isAwaitingRecoverableParity (p : Pending) : Bool :=
  p.groupSize.isSome ∧ p.hopelessGroups = 0 ∧ p.recoverableNowGroups = 0 ∧ 0 < p.awaitingGroups

/-- `tally`: one group enters or leaves the class its counters put it in. A
group that misses nothing is in none. -/
def tally (p : Pending) (group : Nat) (add : Bool) : Pending :=
  let bump := fun n : Nat => if add then n + 1 else n - 1
  match p.missingPerGroup[group]? with
  | none => p
  | some missing =>
    if missing < 1 then p
    else
      let surviving := p.survivingPerGroup[group]?.getD 0
      if p.m < missing then { p with hopelessGroups := bump p.hopelessGroups }
      else if missing ≤ surviving then { p with recoverableNowGroups := bump p.recoverableNowGroups }
      else { p with awaitingGroups := bump p.awaitingGroups }

def noteDataArrived (p : Pending) (index : Nat) : Pending :=
  match p.groupSize with
  | none =>
    if index < p.observedBoundary then
      { p with dataPresentBelowBoundary := p.dataPresentBelowBoundary + 1 }
    else p
  | some groupSize =>
    if p.pinnedDataCount ≤ index then p
    else
      let group := index / groupSize
      let p := p.tally group false
      { p with missingPerGroup := p.missingPerGroup.modify group (· - 1) }.tally group true

def noteParityArrived (p : Pending) (slot : Nat) : Pending :=
  if p.groupSize.isNone then p
  else
    let group := slot / p.m
    if p.survivingPerGroup.length ≤ group then p
    else
      let p := p.tally group false
      { p with survivingPerGroup := p.survivingPerGroup.modify group (· + 1) }.tally group true

def noteObservedParityBoundary (p : Pending) (parityIndex : Nat) : Pending :=
  let observed := some (match p.observedDataCount with
    | none => parityIndex
    | some seen => min seen parityIndex)
  if p.groupSize.isNone then
    let old := p.observedBoundary
    let new := min old parityIndex
    { p with
      observedDataCount := observed
      dataPresentBelowBoundary := p.dataPresentBelowBoundary -
        (List.range' new (old - new)).countP fun index => p.data.contains index }
  else { p with observedDataCount := observed }

/-- The loop of `missing_data_frags`. -/
def missingFrom (p : Pending) (maxFrags : Nat) : List Nat → List Nat → Option (List Nat)
  | [], missing => some missing
  | index :: rest, missing =>
    if p.data.contains index then p.missingFrom maxFrags rest missing
    else if maxFrags < missing.length + 1 then none
    else p.missingFrom maxFrags rest (missing ++ [index])

def missingDataFrags (p : Pending) (maxFrags : Nat) : Option (List Nat) :=
  if p.resolvedDataCount = 0 then none
  else
    match p.missingFrom maxFrags (List.range p.resolvedDataCount) [] with
    | none => none
    | some missing => if missing = [] then none else some missing

/-- The flag bits a fragment latches. -/
def latch (p : Pending) (flags : Flags) : Pending :=
  { p with
    keyframe := p.keyframe || flags.contains .keyframe
    crisp := p.crisp || flags.contains .crisp
    isLtr := p.isLtr || flags.contains .isLtr
    ackedAnchored := p.ackedAnchored || flags.contains .ackedAnchored }

/-- A parity fragment is stored; one with a slot of its own is counted. -/
def storeParity (p : Pending) (parityIndex : Nat) (payload : List UInt8) : Pending :=
  let boundary := if p.groupSize.isSome then p.pinnedDataCount else parityIndex
  let p := p.noteObservedParityBoundary parityIndex
  let slot := parityIndex - boundary
  let stored := { p with parity := p.parity.insert slot payload }
  if p.parity.contains slot then stored else stored.noteParityArrived slot

/-- A data fragment is stored; one with an index of its own is counted. -/
def storeData (p : Pending) (index : Nat) (payload : List UInt8) : Pending :=
  let stored := { p with data := p.data.insert index payload }
  if p.data.contains index then stored else stored.noteDataArrived index

/-- What `ingest` does to the frame of an accepted fragment. -/
def store (p : Pending) (fragment : FrameFragment) : Pending :=
  let p := p.latch fragment.header.flags
  if fragment.header.flags.contains .parity then
    p.storeParity fragment.header.fragIndex.toNat fragment.payload
  else p.storeData fragment.header.fragIndex.toNat fragment.payload

/-- `assemble`: the bytes, and whether a hole was filled. -/
def assemble (p : Pending) (fec : Option ReedSolomonFec) : Option (List UInt8 × Bool) :=
  let dataCount := p.resolvedDataCount
  if dataCount = 0 then p.data[0]?.map fun only => (only, false)
  else
    let present := (List.range dataCount).map fun index => p.data[index]?
    if present.all Option.isSome then some ((present.filterMap id).flatten, false)
    else
      match fec, p.groupSize with
      | some fec, some groupSize =>
        let parity := (List.range (p.fragCount.toNat - dataCount)).map fun slot => p.parity[slot]?
        match fec.recoverWithM present parity groupSize p.m with
        | none => none
        | some data =>
          if data.all Option.isSome then some ((data.filterMap id).flatten, true) else none
      | _, _ => none

end Pending

/-! ## §2 The reassembler -/

structure FrameReassembler where
  fec : Option ReedSolomonFec
  pending : BTreeMap UInt32 Pending
  highestRetiredFrameId : Option UInt32
  highestSeenFrameId : Option UInt32
  retired : List UInt32
  droppedQueue : List UInt32
  fecReorderGrace : Int
  retransmitGrace : Int
  nacked : List UInt32
  needsRetransmitQueue : List (UInt32 × List Nat)
  nackMaxFrags : Nat
  frontierJumpCandidates : List UInt32
  frontierJumpRejectedCount : Nat
  fits : ∀ codec ∈ fec, AdaptiveFec.Fits codec

/-- `BTreeSet::insert`. -/
def insertNew (id : UInt32) (ids : List UInt32) : List UInt32 :=
  if id ∈ ids then ids else id :: ids

/-- What the sweep does with a frame. -/
inductive Verdict where
  | keep
  | nack (missing : List Nat)
  | hopeless
  deriving DecidableEq, Repr

namespace FrameReassembler

/-- `new`; a codec has at least one parity shard. -/
def new (fec : Option ReedSolomonFec) (fits : ∀ codec ∈ fec, AdaptiveFec.Fits codec)
    (fecReorderGrace : Int) : FrameReassembler where
  fec
  pending := ∅
  highestRetiredFrameId := none
  highestSeenFrameId := none
  retired := []
  droppedQueue := []
  fecReorderGrace := max fecReorderGrace 0
  retransmitGrace := 0
  nacked := []
  needsRetransmitQueue := []
  nackMaxFrags := 0
  frontierJumpCandidates := []
  frontierJumpRejectedCount := 0
  fits

def enableRetransmit (r : FrameReassembler) (grace : Int) (maxFrags : Nat) : FrameReassembler :=
  { r with retransmitGrace := max grace 0, nackMaxFrags := min maxFrags maxNackFragments }

def nextNeedsRetransmit (r : FrameReassembler) : Option (UInt32 × List Nat) × FrameReassembler :=
  match r.needsRetransmitQueue with
  | [] => (none, r)
  | first :: rest => (some first, { r with needsRetransmitQueue := rest })

def nextDroppedFrame (r : FrameReassembler) : Option UInt32 × FrameReassembler :=
  match r.droppedQueue with
  | [] => (none, r)
  | first :: rest => (some first, { r with droppedQueue := rest })

/-- The candidates a jump joins: none when it is too far from the last. -/
def cluster (candidates : List UInt32) (frameId : UInt32) : List UInt32 :=
  match candidates.getLast? with
  | some last =>
    if resyncClusterWindow < (distanceWrapped frameId last).natAbs then [] else candidates
  | none => candidates

def resyncOnConsistentJump (r : FrameReassembler) (frameId : UInt32) : Bool × FrameReassembler :=
  let candidates := cluster r.frontierJumpCandidates frameId ++ [frameId]
  if resyncStreak ≤ candidates.length then (true, { r with frontierJumpCandidates := [] })
  else (false, { r with frontierJumpCandidates := candidates })

/-- `advance_frontier`, with whether the fragment may be taken. -/
def advanceFrontier (r : FrameReassembler) (frameId : UInt32) : Bool × FrameReassembler :=
  match r.highestSeenFrameId with
  | none => (true, { r with highestSeenFrameId := some frameId })
  | some seen =>
    let jump := distanceWrapped frameId seen
    let (accepted, r) :=
      if maxFrontierJump < jump then
        { r with frontierJumpRejectedCount := r.frontierJumpRejectedCount + 1 }.resyncOnConsistentJump
          frameId
      else (true, { r with frontierJumpCandidates := [] })
    if accepted ∧ 0 < jump then (true, { r with highestSeenFrameId := some frameId }) else (accepted, r)

def retire (r : FrameReassembler) (frameId : UInt32) : FrameReassembler :=
  let ahead := match r.highestRetiredFrameId with
    | none => true
    | some high => 0 < distanceWrapped frameId high
  let high := if ahead then some frameId else r.highestRetiredFrameId
  let retired := insertNew frameId r.retired
  { r with
    pending := r.pending.erase frameId
    nacked := r.nacked.erase frameId
    highestRetiredFrameId := high
    retired := match high with
      | some high =>
        if retiredSoftCap < retired.length then
          retired.filter fun id => distanceWrapped high id ≤ retiredKeepDistance
        else retired
      | none => retired }

def tryComplete (r : FrameReassembler) (frameId : UInt32) : ReassemblyResult × FrameReassembler :=
  match r.pending[frameId]? with
  | none => (.stale, r)
  | some entry =>
    if entry.canEventuallyComplete then
      match entry.assemble r.fec with
      | none => (.incomplete, r)
      | some (avcc, recoveredViaFec) =>
        (.completed {
          frameId, avcc, recoveredViaFec
          keyframe := entry.keyframe
          crisp := entry.crisp
          isLtr := entry.isLtr
          ackedAnchored := entry.ackedAnchored }, r.retire frameId)
    else (.incomplete, r)

/-- What `sweep_hopeless_frames` finds for one frame. -/
def verdict (r : FrameReassembler) (frontier frameId : UInt32) (entry : Pending) : Verdict :=
  let age := distanceWrapped frontier frameId
  if age ≤ 0 ∨ entry.canEventuallyComplete then .keep
  else if entry.isAwaitingRecoverableParity ∧ age ≤ r.fecReorderGrace then .keep
  else if 0 < r.retransmitGrace ∧ age ≤ r.retransmitGrace then
    if frameId ∈ r.nacked then .keep
    else
      match entry.missingDataFrags r.nackMaxFrags with
      | some missing => .nack missing
      | none => .hopeless
  else .hopeless

/-- The requests a sweep queues, oldest first. -/
def requests (r : FrameReassembler) (frontier : UInt32) : List (UInt32 × List Nat) :=
  (r.pending.toList.filterMap fun e =>
    match r.verdict frontier e.1 e.2 with
    | .nack missing => some (e.1, missing)
    | _ => none).mergeSort fun left right => distanceWrapped left.1 right.1 ≤ 0

/-- The frames a sweep gives up, oldest first. -/
def hopeless (r : FrameReassembler) (frontier : UInt32) : List UInt32 :=
  (r.pending.toList.filterMap fun e =>
    if r.verdict frontier e.1 e.2 = .hopeless then some e.1 else none).mergeSort
      fun left right => distanceWrapped left right ≤ 0

/-- One request of a sweep. -/
def request (r : FrameReassembler) (wanted : UInt32 × List Nat) : FrameReassembler :=
  { r with
    nacked := insertNew wanted.1 r.nacked
    needsRetransmitQueue := r.needsRetransmitQueue ++ [wanted] }

/-- One frame a sweep gives up. -/
def drop (r : FrameReassembler) (frameId : UInt32) : FrameReassembler :=
  { r.retire frameId with droppedQueue := r.droppedQueue ++ [frameId] }

def sweepHopelessFrames (r : FrameReassembler) : FrameReassembler :=
  match r.highestSeenFrameId with
  | none => r
  | some frontier => (r.hopeless frontier).foldl drop ((r.requests frontier).foldl request r)

/-- A header no packetizer produces. -/
def malformed (fragment : FrameFragment) : Bool :=
  fragment.header.fragCount = 0 ∨ maxFragmentsPerFrame < fragment.header.fragCount.toNat ∨
    fragment.header.fragCount ≤ fragment.header.fragIndex ∨
    maxDatagramSize - headerSize < fragment.payload.length

/-- A frame already reported, or one behind the newest reported frame that
is not open. -/
def isRetired (r : FrameReassembler) (frameId : UInt32) : Bool :=
  frameId ∈ r.retired || match r.highestRetiredFrameId with
    | none => false
    | some high => distanceWrapped frameId high ≤ 0 ∧ ¬ r.pending.contains frameId

/-- The frame a first fragment opens. -/
def opened (r : FrameReassembler) (header : FrameFragmentHeader) : Pending :=
  let tier := header.flags.fecTier
  .new header.fragCount (r.fec.bind fun scheme => AdaptiveFec.groupSize tier scheme.groupSize)
    (AdaptiveFec.parityCount tier (match r.fec with
      | none => 1
      | some scheme => scheme.parity))

/-- The end of `ingest`: what the caller is told. -/
def answer (r : FrameReassembler) (result : ReassemblyResult) (frameId : UInt32) :
    ReassemblyResult × FrameReassembler :=
  match result with
  | .completed frame => (.completed frame, r)
  | _ =>
    if ¬ r.pending.contains frameId ∧ frameId ∈ r.droppedQueue then
      (.dropped frameId, { r with droppedQueue := r.droppedQueue.filter (· ≠ frameId) })
    else (.incomplete, r)

def ingest (r : FrameReassembler) (fragment : FrameFragment) : ReassemblyResult × FrameReassembler :=
  let frameId := fragment.header.frameId
  if malformed fragment then (.stale, r)
  else if r.isRetired frameId then (.stale, r)
  else
    match r.advanceFrontier frameId with
    | (false, r) => (.stale, r)
    | (true, r) =>
      let entry := (r.pending[frameId]?).getD (r.opened fragment.header)
      if fragment.header.fragCount ≠ entry.fragCount then (.stale, r)
      else
        let r := { r with pending := r.pending.insert frameId (entry.store fragment) }
        let (result, r) := r.tryComplete frameId
        r.sweepHopelessFrames.answer result frameId

end FrameReassembler

end SlopDesk.Video
