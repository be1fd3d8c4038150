/-
SlopDesk.Video.AudioJitter — the audio jitter stage
(`slopdesk-video/src/audio_jitter.rs`), over any type of samples with a
silent one.

§1 the stage. §2 offering a frame: what is refused, where it goes, and what
is dropped past the high water. §3 copying samples out, and what plays from
it. The leading blocks are played and are only reclaimed by the next push.
The counters are unbounded here.
-/
import SlopDesk.Base.SequenceSpace

namespace SlopDesk.Video

open SlopDesk.Base

/-! ## §1 The stage -/

structure AudioJitterStats where
  framesPushed : Nat
  lateDropped : Nat
  duplicateDropped : Nat
  overflowDropped : Nat
  underruns : Nat
  silenceSamples : Nat
  deriving DecidableEq, Repr

structure Block (α : Type u) where
  seq : UInt32
  samples : List α
  deriving DecidableEq, Repr

structure AudioJitterBuffer (α : Type u) where
  channels : Nat
  targetDepthFrames : Nat
  highWaterFrames : Nat
  blocks : List (Block α)
  consumedBlocks : Nat
  headSampleOffset : Nat
  playFrontier : Option UInt32
  primed : Bool
  stats : AudioJitterStats
  deriving DecidableEq, Repr

namespace AudioJitterBuffer

variable {α : Type u}

def new (channels targetDepthFrames highWaterFrames : Nat) : AudioJitterBuffer α :=
  let target := if 1 < targetDepthFrames then targetDepthFrames else 1
  { channels := if 1 < channels then channels else 1
    targetDepthFrames := target
    highWaterFrames := if target < highWaterFrames then highWaterFrames else target
    blocks := []
    consumedBlocks := 0
    headSampleOffset := 0
    playFrontier := none
    primed := false
    stats := ⟨0, 0, 0, 0, 0, 0⟩ }

def pendingFrames (s : AudioJitterBuffer α) : Nat := s.blocks.length - s.consumedBlocks

/-- The block that plays next or is playing. -/
def head? (s : AudioJitterBuffer α) : Option (Block α) := s.blocks[s.consumedBlocks]?

/-- `effective_frontier`: the head, once it has begun to play. -/
def effectiveFrontier (s : AudioJitterBuffer α) : Option UInt32 :=
  match s.head? with
  | some head => if 0 < s.headSampleOffset then some head.seq else s.playFrontier
  | none => s.playFrontier

/-! ## §2 Offering a frame -/

/-- The reclaim of `push`. -/
def reclaim (s : AudioJitterBuffer α) : AudioJitterBuffer α :=
  { s with blocks := s.blocks.drop s.consumedBlocks, consumedBlocks := 0 }

/-- The walk of `push` from the end. -/
def insertIndex (seq : UInt32) (blocks : List (Block α)) : Nat → Nat
  | 0 => 0
  | index + 1 =>
    match blocks[index]? with
    | some block => if distanceWrapped seq block.seq < 0 then insertIndex seq blocks index else index + 1
    | none => index + 1

/-- `Vec::insert` of the frame at its place. -/
def inserted (s : AudioJitterBuffer α) (block : Block α) : AudioJitterBuffer α :=
  let index := insertIndex block.seq s.blocks s.blocks.length
  { s with
    blocks := s.blocks.take index ++ block :: s.blocks.drop index
    stats := { s.stats with framesPushed := s.stats.framesPushed + 1 } }

/-- The high-water loop of `push`; it cannot run more often than there are
blocks. -/
def dropPastHighWater : Nat → AudioJitterBuffer α → AudioJitterBuffer α
  | 0, s => s
  | fuel + 1, s =>
    if s.highWaterFrames < s.pendingFrames then
      match s.blocks with
      | [] => s
      | dropped :: rest => dropPastHighWater fuel { s with
          blocks := rest
          headSampleOffset := 0
          playFrontier := some dropped.seq
          stats := { s.stats with overflowDropped := s.stats.overflowDropped + 1 } }
    else s

/-- Primed once the target depth is there. -/
def prime (s : AudioJitterBuffer α) : AudioJitterBuffer α :=
  if ¬ s.primed ∧ s.targetDepthFrames ≤ s.pendingFrames then { s with primed := true } else s

/-- At or behind the effective frontier. -/
def isLate (s : AudioJitterBuffer α) (seq : UInt32) : Bool :=
  match s.effectiveFrontier with
  | some frontier => distanceWrapped seq frontier ≤ 0
  | none => false

def push (s : AudioJitterBuffer α) (seq : UInt32) (samples : List α) : AudioJitterBuffer α :=
  if samples.isEmpty then s
  else
    let s := s.reclaim
    if s.blocks.any (·.seq = seq) then
      { s with stats := { s.stats with duplicateDropped := s.stats.duplicateDropped + 1 } }
    else if s.isLate seq then
      { s with stats := { s.stats with lateDropped := s.stats.lateDropped + 1 } }
    else
      let s := s.inserted ⟨seq, samples⟩
      (s.dropPastHighWater s.blocks.length).prime

/-! ## §3 Playing -/

/-- The loop of `copy_available`, over the blocks from the head on. A block
that is not finished has filled the destination. -/
def copyFrom : List (Block α) → Nat → AudioJitterBuffer α → List α × AudioJitterBuffer α
  | [], _, s => ([], s)
  | block :: rest, room, s =>
    if room = 0 then ([], s)
    else if block.samples.length < s.headSampleOffset then ([], s)
    else
      let source := (block.samples.drop s.headSampleOffset).take room
      let offset := s.headSampleOffset + source.length
      if block.samples.length ≤ offset then
        let (out, s) := copyFrom rest (room - source.length) { s with
          playFrontier := some block.seq
          consumedBlocks := s.consumedBlocks + 1
          headSampleOffset := 0 }
        (source ++ out, s)
      else (source, { s with headSampleOffset := offset })

/-- `copy_available`, into a destination of so many samples. -/
def copyAvailable (s : AudioJitterBuffer α) (room : Nat) : List α × AudioJitterBuffer α :=
  copyFrom (s.blocks.drop s.consumedBlocks) room s

/-- `pull`: the samples it writes over a destination of this length. -/
def pull [Zero α] (s : AudioJitterBuffer α) (length : Nat) : List α × AudioJitterBuffer α :=
  if length = 0 then ([], s)
  else
    let (wrote, s) := if s.primed then s.copyAvailable length else ([], s)
    if length ≤ wrote.length then (wrote, s)
    else
      let silence := length - wrote.length
      let s := { s with stats := { s.stats with silenceSamples := s.stats.silenceSamples + silence } }
      (wrote ++ List.replicate silence 0,
        if s.primed then
          { s with stats := { s.stats with underruns := s.stats.underruns + 1 }, primed := false }
        else s)

/-- `drain_available`: what it hands off, of at most this length. -/
def drainAvailable (s : AudioJitterBuffer α) (length : Nat) : List α × AudioJitterBuffer α :=
  if ¬ s.primed ∨ length = 0 then ([], s) else s.copyAvailable length

def noteConsumerStarved (s : AudioJitterBuffer α) : AudioJitterBuffer α :=
  if ¬ s.primed then s
  else { s with stats := { s.stats with underruns := s.stats.underruns + 1 }, primed := false }

def dropOldestPending (s : AudioJitterBuffer α) : AudioJitterBuffer α :=
  match s.head? with
  | none => s
  | some dropped =>
    { s with
      blocks := s.blocks.eraseIdx s.consumedBlocks
      headSampleOffset := 0
      playFrontier := some dropped.seq
      stats := { s.stats with overflowDropped := s.stats.overflowDropped + 1 } }

def clear (s : AudioJitterBuffer α) : AudioJitterBuffer α :=
  { s with blocks := [], consumedBlocks := 0, headSampleOffset := 0, primed := false }

end AudioJitterBuffer

end SlopDesk.Video
