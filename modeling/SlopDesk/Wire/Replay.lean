/-
SlopDesk.Wire.Replay — the host's replay buffer
(`slopdesk-wire/src/replay.rs`): the un-acked tail of a pane's output, and
the bounded ring of acked history kept for a cold reattach.

Sequence numbers are `Int` and counters `Nat`; the source's are `i64`,
`u64` and `usize`, and a buffer would have to append 2^63 times to leave
them. A message is its sequence number and payload, `OutputMessage.toWire`
being the `WireMessage.output` it stands for. The distiller is any
function on bytes.
-/
import SlopDesk.AltScreen.Reopen
import SlopDesk.Mux.Flow
import SlopDesk.Wire.Codec

namespace SlopDesk.Wire

open SlopDesk.AltScreen
open SlopDesk.Mux

structure TailEntry where
  seq : Int
  bytes : List UInt8
  cumulativeBefore : Nat
  deriving DecidableEq, Repr

structure RingEntry where
  seq : Int
  bytes : List UInt8
  deriving DecidableEq, Repr

/-- A `WireMessage::Output`. -/
structure OutputMessage where
  seq : Int
  bytes : List UInt8
  deriving DecidableEq, Repr

def OutputMessage.toWire (m : OutputMessage) : WireMessage := .output (Int64.ofInt m.seq) m.bytes

structure SnapshotSource where
  history : List UInt8
  replaySeqs : List Int
  replayBytes : Nat
  deriving DecidableEq, Repr

structure RingFoldSource where
  bytes : List UInt8
  seqs : List Int
  generation : Nat
  deriving DecidableEq, Repr

structure ReplayBuffer where
  entries : List TailEntry
  scrollbackRing : List RingEntry
  scrollbackBytes : Nat
  pendingAltReopen : Option (List UInt8)
  highestSeq : Int
  ackedSeq : Int
  retainedBytes : Nat
  tailCumulativeBytes : Nat
  isClientOnline : Bool
  maxBackupBytesCap : Nat
  offlineGateBytesCap : Nat
  scrollbackBytesCap : Nat
  ringGeneration : Nat
  scrollbackDistiller : Option (List UInt8 → List UInt8)

/-- The payloads of a run of ring entries, concatenated. -/
def ringContent (ring : List RingEntry) : List UInt8 := ring.flatMap RingEntry.bytes

/-- The payloads of a run of tail entries, concatenated. -/
def tailContent (entries : List TailEntry) : List UInt8 := entries.flatMap TailEntry.bytes

/-- The payloads of a run of messages, concatenated. -/
def messageContent (messages : List OutputMessage) : List UInt8 :=
  messages.flatMap OutputMessage.bytes

/-! ## Rechunking -/

/-- `RECHUNK_FLOOR_BYTES`. -/
def rechunkFloorBytes : Nat := 32 * 1024

/-- `max_output_frame_payload_bytes` as a `usize`. -/
def payloadCap (mux : MuxFlowControl) : Nat := mux.maxOutputFramePayloadBytes.toNat

def divCeil (n d : Nat) : Nat := (n + d - 1) / d

/-- The chunk size `rechunk` uses. -/
def chunkSize (mux : MuxFlowControl) (dataLen maxChunks : Nat) : Nat :=
  max 1 (min (payloadCap mux) (max rechunkFloorBytes (divCeil dataLen maxChunks)))

/-- The loop of `rechunk`: one chunk per sequence number while there are
bytes, the last number taking all that is left. -/
def chunkLoop (size : Nat) : List Int → List UInt8 → List OutputMessage
  | [], _ => []
  | _, [] => []
  | [seq], data => [⟨seq, data⟩]
  | seq :: seqs, data => ⟨seq, data.take size⟩ :: chunkLoop size seqs (data.drop size)

/-- The last message under another sequence number. -/
def relabelLast (seq : Int) : List OutputMessage → List OutputMessage
  | [] => []
  | [message] => [{ message with seq }]
  | message :: rest => message :: relabelLast seq rest

def rechunk (mux : MuxFlowControl) (data : List UInt8) (seqs : List Int)
    (mustCoverLastSeq : Bool) : List OutputMessage :=
  match seqs.getLast? with
  | none => []
  | some lastSeq =>
    if data.isEmpty then
      if mustCoverLastSeq then [⟨lastSeq, []⟩] else []
    else
      let result := chunkLoop (chunkSize mux data.length seqs.length) seqs data
      if mustCoverLastSeq then relabelLast lastSeq result else result

/-- What an eviction is about to leave behind: the bytes it drops from the
front, and the ring and byte count that stay. -/
structure Eviction where
  dropped : List UInt8
  ring : List RingEntry
  bytes : Nat
  deriving DecidableEq, Repr

/-- The counting loop of an eviction: entries from the front, until what is
left fits `cap`. -/
def evictionPrefix (bytes cap : Nat) : (dropCount droppedBytes : Nat) → List RingEntry → Nat × Nat
  | dropCount, droppedBytes, [] => (dropCount, droppedBytes)
  | dropCount, droppedBytes, entry :: rest =>
    if bytes - droppedBytes > cap then
      evictionPrefix bytes cap (dropCount + 1) (droppedBytes + entry.bytes.length) rest
    else (dropCount, droppedBytes)

/-- The line alignment: the new head loses everything up to its first
newline. -/
def alignToLine (cap : Nat) (cut : Eviction) : Eviction :=
  if cut.bytes ≤ cap then
    match cut.ring with
    | [] => cut
    | head :: rest =>
      match head.bytes.findIdx? (· == 0x0A) with
      | none => cut
      | some newline =>
        { dropped := cut.dropped ++ head.bytes.take (newline + 1)
          ring := { head with bytes := head.bytes.drop (newline + 1) } :: rest
          bytes := cut.bytes - (newline + 1) }
  else cut

/-- The bytes the alt-screen scan may peek at. -/
def keptHead (ring : List RingEntry) : List UInt8 :=
  match ring with
  | [] => []
  | head :: _ => head.bytes

namespace ReplayBuffer

def withCaps (maxBackupBytes offlineGateBytes scrollbackBytes : Nat) : ReplayBuffer where
  entries := []
  scrollbackRing := []
  scrollbackBytes := 0
  pendingAltReopen := none
  highestSeq := 0
  ackedSeq := 0
  retainedBytes := 0
  tailCumulativeBytes := 0
  isClientOnline := true
  maxBackupBytesCap := maxBackupBytes
  offlineGateBytesCap := offlineGateBytes
  scrollbackBytesCap := scrollbackBytes
  ringGeneration := 0
  scrollbackDistiller := none

def distilling (b : ReplayBuffer) (distiller : List UInt8 → List UInt8) : ReplayBuffer :=
  { b with scrollbackDistiller := some distiller }

def setClientOnline (b : ReplayBuffer) (online : Bool) : ReplayBuffer :=
  { b with isClientOnline := online }

def append (b : ReplayBuffer) (bytes : List UInt8) : ReplayBuffer :=
  { b with
    highestSeq := b.highestSeq + 1
    entries := b.entries ++ [⟨b.highestSeq + 1, bytes, b.tailCumulativeBytes⟩]
    tailCumulativeBytes := b.tailCumulativeBytes + bytes.length
    retainedBytes := b.retainedBytes + bytes.length }

/-! ## The ring -/

def attachPendingReopen (b : ReplayBuffer) : ReplayBuffer :=
  match b.scrollbackRing, b.pendingAltReopen with
  | head :: rest, some reopen =>
    { b with
      pendingAltReopen := none
      scrollbackRing := { head with bytes := reopen ++ head.bytes } :: rest
      scrollbackBytes := b.scrollbackBytes + reopen.length }
  | _, _ => b

/-- What `evict_scrollback_to_fit` drops and keeps, once it has to. -/
def evictionCut (b : ReplayBuffer) : Eviction :=
  let counted := evictionPrefix b.scrollbackBytes b.scrollbackBytesCap 0 0 b.scrollbackRing
  alignToLine b.scrollbackBytesCap
    { dropped := ringContent (b.scrollbackRing.take counted.1)
      ring := b.scrollbackRing.drop counted.1
      bytes := b.scrollbackBytes - counted.2 }

/-- Whether `evict_scrollback_to_fit` has anything to do. -/
def evicts (b : ReplayBuffer) : Bool :=
  b.scrollbackBytesCap < b.scrollbackBytes && !b.scrollbackRing.isEmpty

/-- The buffer with its ring cut. -/
def cutRing (b : ReplayBuffer) : ReplayBuffer :=
  { b with scrollbackRing := b.evictionCut.ring, scrollbackBytes := b.evictionCut.bytes }

/-- The re-opener the cut calls for, if it falls inside an open alt segment. -/
def cutReopen (b : ReplayBuffer) : Option (List UInt8) :=
  reopenSequence b.evictionCut.dropped (keptHead b.evictionCut.ring)

/-- The buffer carrying a re-opener. -/
def carrying (b : ReplayBuffer) (reopen : List UInt8) : ReplayBuffer :=
  { b with pendingAltReopen := some reopen }

def evictScrollbackToFit (b : ReplayBuffer) : ReplayBuffer :=
  if b.evicts then
    match b.cutReopen with
    | none => b.cutRing
    | some reopen => (b.cutRing.carrying reopen).attachPendingReopen
  else b

/-- The released entries behind the ring's own. -/
def joined (b : ReplayBuffer) (released : List TailEntry) : ReplayBuffer :=
  { b with
    scrollbackBytes := b.scrollbackBytes + (released.map fun e => e.bytes.length).sum
    scrollbackRing := b.scrollbackRing ++ released.map fun e => ⟨e.seq, e.bytes⟩ }

/-- The released entries moved into the ring, before the ring is trimmed: a
ring that was empty takes the carried re-opener. -/
def moveToRing (b : ReplayBuffer) (released : List TailEntry) : ReplayBuffer :=
  if b.scrollbackRing.isEmpty then (b.joined released).attachPendingReopen
  else b.joined released

/-- `partition_point` over the un-acked tail. -/
def partitionPoint (p : TailEntry → Bool) (entries : List TailEntry) : Nat :=
  (entries.takeWhile p).length

/-- The tail without its first `dropCount` entries, any fold in flight stale. -/
def drainTail (b : ReplayBuffer) (dropCount : Nat) : ReplayBuffer :=
  { b with
    ringGeneration := b.ringGeneration + 1
    entries := b.entries.drop dropCount }

/-- The released entries in the ring, if there is one. -/
def retire (b : ReplayBuffer) (released : List TailEntry) : ReplayBuffer :=
  if b.scrollbackBytesCap > 0 then (b.moveToRing released).evictScrollbackToFit else b

/-- The part of `ack` behind its two early returns. -/
def releasePrefix (b : ReplayBuffer) (dropCount : Nat) : ReplayBuffer :=
  let released := b.entries.take dropCount
  let retired := (b.drainTail dropCount).retire released
  { retired with
    retainedBytes := retired.retainedBytes - (released.map fun e => e.bytes.length).sum }

/-- The buffer with its acked number moved. -/
def advance (b : ReplayBuffer) (seq : Int) : ReplayBuffer := { b with ackedSeq := seq }

def ack (b : ReplayBuffer) (upTo : Int) : ReplayBuffer :=
  let clamped := min upTo b.highestSeq
  if clamped ≤ b.ackedSeq then b
  else
    let dropCount := partitionPoint (fun e => e.seq ≤ clamped) b.entries
    if dropCount = 0 then b.advance clamped else (b.advance clamped).releasePrefix dropCount

/-! ## Reading back -/

def messages (b : ReplayBuffer) (lastReceivedSeq : Int) : List OutputMessage :=
  ((b.scrollbackRing.filter fun e => e.seq > lastReceivedSeq).map fun e => ⟨e.seq, e.bytes⟩) ++
    ((b.entries.filter fun e => e.seq > lastReceivedSeq).map fun e => ⟨e.seq, e.bytes⟩)

def snapshotSource (b : ReplayBuffer) (lastReceivedSeq : Int) : SnapshotSource where
  history := ringContent b.scrollbackRing ++ tailContent b.entries
  replaySeqs := (b.messages lastReceivedSeq).map OutputMessage.seq
  replayBytes := ((b.messages lastReceivedSeq).map fun m => m.bytes.length).sum

def replay (mux : MuxFlowControl) (b : ReplayBuffer) (lastReceivedSeq : Int) :
    List OutputMessage :=
  let scrollback := b.scrollbackRing.filter fun e => e.seq > lastReceivedSeq
  let live := (b.entries.filter fun e => e.seq > lastReceivedSeq).map
    fun e => (⟨e.seq, e.bytes⟩ : OutputMessage)
  match b.scrollbackDistiller with
  | none => (scrollback.map fun e => ⟨e.seq, e.bytes⟩) ++ live
  | some distiller =>
    -- a fresh client: ring and tail are one stream
    if lastReceivedSeq = 0 ∧ b.entries ≠ [] then
      rechunk mux (distiller (ringContent scrollback ++ tailContent b.entries))
        (scrollback.map RingEntry.seq ++ b.entries.map TailEntry.seq) true
    else if scrollback.isEmpty then live
    else
      rechunk mux (distiller (ringContent scrollback)) (scrollback.map RingEntry.seq) false ++ live

def rechunkSnapshot (mux : MuxFlowControl) (data : List UInt8) (seqs : List Int) :
    List OutputMessage :=
  rechunk mux data seqs true

/-! ## Canonical history -/

def ringFoldSource (b : ReplayBuffer) : Option RingFoldSource :=
  if b.scrollbackRing.isEmpty then none
  else some {
    bytes := ringContent b.scrollbackRing
    seqs := b.scrollbackRing.map RingEntry.seq
    generation := b.ringGeneration }

/-- `adopt_folded_ring`: whether it took the fold, and the buffer after. -/
def adoptFoldedRing (mux : MuxFlowControl) (b : ReplayBuffer) (rendered : List UInt8)
    (source : RingFoldSource) : Bool × ReplayBuffer :=
  if source.generation ≠ b.ringGeneration then (false, b)
  else
    (true, { b with
      ringGeneration := b.ringGeneration + 1
      scrollbackRing := (rechunk mux rendered source.seqs true).map fun m => ⟨m.seq, m.bytes⟩
      scrollbackBytes := rendered.length
      pendingAltReopen := none })

/-- The tail of an adopted snapshot, its running labels counted on from
`total`. -/
def labelled (total : Nat) : List OutputMessage → List TailEntry
  | [] => []
  | m :: rest => ⟨m.seq, m.bytes, total⟩ :: labelled (total + m.bytes.length) rest

/-- A snapshot stream as the retained history: the numbers acked so far in
the ring, if there is one, and the rest as the tail. -/
def adopted (b : ReplayBuffer) (stream : List OutputMessage) : ReplayBuffer :=
  let acked := stream.filter fun m => m.seq ≤ b.ackedSeq
  let live := stream.filter fun m => ¬ m.seq ≤ b.ackedSeq
  let ring := if b.scrollbackBytesCap > 0 then acked else []
  let liveBytes := (live.map fun m => m.bytes.length).sum
  { b with
    ringGeneration := b.ringGeneration + 1
    scrollbackRing := ring.map fun m => ⟨m.seq, m.bytes⟩
    scrollbackBytes := (ring.map fun m => m.bytes.length).sum
    entries := labelled b.tailCumulativeBytes live
    tailCumulativeBytes := b.tailCumulativeBytes + liveBytes
    retainedBytes := liveBytes
    pendingAltReopen := none }

def adoptSnapshotReplay (b : ReplayBuffer) (stream : List OutputMessage) : ReplayBuffer :=
  (b.adopted stream).evictScrollbackToFit

/-- The snapshot compose of a reattach, once its policy has asked for one
(`slopdesk-hostsession/src/snapshot.rs`): it declines without sequence
numbers or history to ride, or when the render does not fit them. -/
def composeSnapshot (mux : MuxFlowControl) (b : ReplayBuffer) (after : Int)
    (rendered : List UInt8) : ReplayBuffer :=
  let source := b.snapshotSource after
  if source.replaySeqs.isEmpty ∨ source.history.isEmpty then b
  else if rendered.length > source.replaySeqs.length * payloadCap mux then b
  else b.adoptSnapshotReplay (rechunkSnapshot mux rendered source.replaySeqs)

def shouldPauseDrain (b : ReplayBuffer) : Bool :=
  if b.retainedBytes ≥ b.maxBackupBytesCap then true
  else !b.isClientOnline && b.retainedBytes ≥ b.offlineGateBytesCap

def retainedBytesAbove (b : ReplayBuffer) (seq : Int) : Nat :=
  match b.entries[partitionPoint (fun e => e.seq ≤ seq) b.entries]? with
  | some entry => b.tailCumulativeBytes - entry.cumulativeBefore
  | none => 0

end ReplayBuffer

/-! ## Runs -/

/-- One operation on a buffer. A fold is captured at one time and adopted,
rendered, at another; `adoptFold` names the capture by its index.
`setPendingAltReopen` overwrites the carried re-opener by any value, which
no method of the source does on its own. -/
inductive ReplayOp where
  | append (bytes : List UInt8)
  | ack (upTo : Int)
  | setClientOnline (online : Bool)
  | setPendingAltReopen (reopen : Option (List UInt8))
  | captureFold
  | adoptFold (index : Nat) (rendered : List UInt8)
  deriving DecidableEq, Repr

/-- A buffer with the fold sources captured from it and the payloads it was
ever handed. -/
structure ReplaySession where
  buffer : ReplayBuffer
  captured : List RingFoldSource
  appended : List (List UInt8)

namespace ReplaySession

def start (b : ReplayBuffer) : ReplaySession := ⟨b, [], []⟩

def step (mux : MuxFlowControl) (s : ReplaySession) : ReplayOp → ReplaySession
  | .append bytes =>
    { s with buffer := s.buffer.append bytes, appended := s.appended ++ [bytes] }
  | .ack upTo => { s with buffer := s.buffer.ack upTo }
  | .setClientOnline online => { s with buffer := s.buffer.setClientOnline online }
  | .setPendingAltReopen reopen =>
    { s with buffer := { s.buffer with pendingAltReopen := reopen } }
  | .captureFold => { s with captured := s.captured ++ s.buffer.ringFoldSource.toList }
  | .adoptFold index rendered =>
    match s.captured[index]? with
    | some source => { s with buffer := (s.buffer.adoptFoldedRing mux rendered source).2 }
    | none => s

end ReplaySession

/-- What a pane does to its buffer over its life: the operations above, and
the snapshot compose of a reattach. -/
inductive PaneOp where
  | replay (op : ReplayOp)
  | composeSnapshot (after : Int) (rendered : List UInt8)
  deriving DecidableEq, Repr

def ReplaySession.paneStep (mux : MuxFlowControl) (s : ReplaySession) : PaneOp → ReplaySession
  | .replay op => s.step mux op
  | .composeSnapshot after rendered =>
    { s with buffer := s.buffer.composeSnapshot mux after rendered }

end SlopDesk.Wire
