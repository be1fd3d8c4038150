/-
SlopDesk.Wire.Framing — the length-prefixed receive buffer and the frame
decoder over it (`slopdesk-wire/src/framing.rs`, `frame.rs`).

Bytes go in by `append`, whole messages come out one call at a time. The
consumed head of the buffer is dropped lazily; an eliding call answers a
span into the buffer and so only owes the move, which the next mutating
call pays. A fault poisons the reader for good.

The cursor never passes the end of the buffer: that is a field of
`PrefixedReader`, so the source's unchecked subtraction and its `drain`
have nothing to go wrong on.
-/
import SlopDesk.Wire.Codec

namespace SlopDesk.Wire

open SlopDesk.Base

/-- `PREFIX_LENGTH`. -/
def prefixLength : Nat := 4

/-- `COMPACTION_THRESHOLD`. -/
def compactionThreshold : Nat := 64 * 1024

/-- `MAX_FRAME_PAYLOAD_LENGTH`. -/
def maxFramePayloadLength : Nat := 16 * 1024 * 1024

structure PrefixedReader where
  buffer : List UInt8
  readOffset : Nat
  fault : Option WireError
  deferredCompaction : Bool
  cursor_le : readOffset ≤ buffer.length

namespace PrefixedReader

def new : PrefixedReader := ⟨[], 0, none, false, Nat.le_refl 0⟩

/-- `compact_consumed`: drops the consumed prefix from the front. -/
def compactConsumed (r : PrefixedReader) : PrefixedReader :=
  if r.readOffset > 0 then
    { r with buffer := r.buffer.drop r.readOffset, readOffset := 0, cursor_le := Nat.zero_le _ }
  else r

/-- `compact`: an eliding call owes the move instead of making it. -/
def compact (r : PrefixedReader) (elide : Bool) : PrefixedReader :=
  if elide then { r with deferredCompaction := true } else r.compactConsumed

def settleOwedCompaction (r : PrefixedReader) : PrefixedReader :=
  if r.deferredCompaction then { r with deferredCompaction := false }.compactConsumed else r

/-- `append`: dropped entirely once poisoned. -/
def append (r : PrefixedReader) (data : List UInt8) : PrefixedReader :=
  if r.fault.isSome then r
  else
    let r := r.settleOwedCompaction
    { r with
      buffer := r.buffer ++ data
      cursor_le := Nat.le_trans r.cursor_le (List.length_append ▸ Nat.le_add_right _ _) }

def bufferedByteCount (r : PrefixedReader) : Nat := r.buffer.length

/-- `bytes`: empty for a span the buffer has since outlived. -/
def bytes (r : PrefixedReader) (run : ByteRange) : List UInt8 := (run.get? r.buffer).getD []

/-- `poison`: frees the buffer and keeps the fault. -/
def poison (_ : PrefixedReader) (error : WireError) : PrefixedReader :=
  ⟨[], 0, some error, false, Nat.le_refl 0⟩

/-- `read_prefix`: zero where the four bytes are not there. -/
def readPrefix (r : PrefixedReader) : Nat :=
  match ByteRange.get? ⟨r.readOffset, r.readOffset + prefixLength⟩ r.buffer with
  | some bytes => ofBe 0 bytes
  | none => 0

/-- The cursor moved over `count` buffered bytes. -/
def advance (r : PrefixedReader) (count : Nat) (h : r.readOffset + count ≤ r.buffer.length) :
    PrefixedReader :=
  { r with readOffset := r.readOffset + count, cursor_le := h }

/-- The tail of `next_payload`, once a whole frame of `payloadLength` bytes
is known to be buffered: decode it where it lies, move the cursor, and
answer the run in the reader's own coordinates. -/
def takeFrame (r : PrefixedReader) (elide : Bool)
    (decode : List UInt8 → Outcome WireError (τ × ByteRange)) (payloadLength : Nat)
    (h : r.readOffset + (prefixLength + payloadLength) ≤ r.buffer.length) :
    Outcome WireError (Option (τ × ByteRange)) × PrefixedReader :=
  let frameLength := prefixLength + payloadLength
  let payloadStart := r.readOffset + prefixLength
  let payloadEnd := r.readOffset + frameLength
  let decoded := match ByteRange.get? ⟨payloadStart, payloadEnd⟩ r.buffer with
    | some payload => decode payload
    | none => .fault .truncated
  let moved := r.advance frameLength h
  let settled := if moved.readOffset ≥ compactionThreshold then moved.compact elide else moved
  match decoded with
  | .ok (value, run) =>
    (.ok (some (value, ⟨payloadStart + run.start, payloadStart + run.stop⟩)), settled)
  | .fault error => (.fault error, settled.poison error)
  | .panicked => (.panicked, settled)

def nextPayload (r : PrefixedReader) (elide : Bool)
    (decode : List UInt8 → Outcome WireError (τ × ByteRange)) :
    Outcome WireError (Option (τ × ByteRange)) × PrefixedReader :=
  match r.fault with
  | some fault => (.fault fault, r)
  | none =>
    let r := r.settleOwedCompaction
    let available := r.buffer.length - r.readOffset
    if available < prefixLength then (.ok none, r.compact elide)
    else
      let payloadLength := r.readPrefix
      -- a prefix exactly at the cap waits for its body
      if payloadLength > maxFramePayloadLength then
        (.fault (.frameTooLarge payloadLength), r.poison (.frameTooLarge payloadLength))
      else if h : r.buffer.length - r.readOffset < prefixLength + payloadLength then
        (.ok none, r.compact elide)
      else
        r.takeFrame elide decode payloadLength (by have := r.cursor_le; omega)

end PrefixedReader

structure FrameDecoder where
  reader : PrefixedReader

namespace FrameDecoder

def new : FrameDecoder := ⟨.new⟩

def append (d : FrameDecoder) (data : List UInt8) : FrameDecoder := ⟨d.reader.append data⟩

def bufferedByteCount (d : FrameDecoder) : Nat := d.reader.bufferedByteCount

/-- What the payload closure of `next_inner` decodes with. -/
def decodePayload (elide : Bool) (payload : List UInt8) :
    Outcome WireError (WireMessage × ByteRange) :=
  if elide then decodeLeavingOpaqueRun payload
  else decode payload >>= fun message => pure (message, ⟨0, 0⟩)

def nextInner (d : FrameDecoder) (elide : Bool) :
    Outcome WireError (Option (WireMessage × ByteRange)) × FrameDecoder :=
  let r := d.reader.nextPayload elide (decodePayload elide)
  (r.1, ⟨r.2⟩)

def nextMessage (d : FrameDecoder) : Outcome WireError (Option WireMessage) × FrameDecoder :=
  let r := d.nextInner false
  (r.1 >>= fun answer => pure (answer.map Prod.fst), r.2)

def nextMessageLeavingOpaqueRun (d : FrameDecoder) :
    Outcome WireError (Option (WireMessage × ByteRange)) × FrameDecoder :=
  d.nextInner true

def runBytes (d : FrameDecoder) (run : ByteRange) : List UInt8 := d.reader.bytes run

end FrameDecoder

end SlopDesk.Wire
