/-
SlopDesk.Mux.Envelope — the outer frame that carries many logical
channels over one connection (`slopdesk-wire/src/mux/envelope.rs`).

`[u32 length][u32 channel_id][u8 mux_type][body…]`. Three kinds end in a
field that may be absent, and whether it is there is read off the bytes
remaining. The size of a frame is counted by running the encoder over a
lent buffer of no bytes.
-/
import SlopDesk.Wire.Codec

namespace SlopDesk.Mux

open SlopDesk.Base
open SlopDesk.Wire

inductive MuxFrameType where
  | channelOpen
  | channelOpenAck
  | channelData
  | channelClose
  | windowAdjust
  deriving DecidableEq, Repr

def MuxFrameType.fromByte (byte : UInt8) : Option MuxFrameType :=
  match byte with
  | 1 => some .channelOpen
  | 2 => some .channelOpenAck
  | 3 => some .channelData
  | 4 => some .channelClose
  | 5 => some .windowAdjust
  | _ => none

def MuxFrameType.asByte : MuxFrameType → UInt8
  | .channelOpen => 1
  | .channelOpenAck => 2
  | .channelData => 3
  | .channelClose => 4
  | .windowAdjust => 5

inductive MuxCloseReason where
  | retired
  | subscriberEvicted
  deriving DecidableEq, Repr

/-- `from_byte_or_retired`: total, a close always closes. -/
def MuxCloseReason.fromByteOrRetired (byte : UInt8) : MuxCloseReason :=
  match byte with
  | 1 => .subscriberEvicted
  | _ => .retired

def MuxCloseReason.asByte : MuxCloseReason → UInt8
  | .retired => 0
  | .subscriberEvicted => 1

inductive MuxFrame where
  | channelOpen (channelId : UInt32) (sessionId : RawUuid) (lastReceivedSeq : Int64)
      (channelClass : UInt8) (initialCwd : Option String)
  | channelOpenAck (channelId : UInt32) (accepted : Bool) (resumeFromSeq : Int64)
  | channelData (channelId : UInt32) (payload : List UInt8)
  | channelClose (channelId : UInt32) (reason : MuxCloseReason)
  | windowAdjust (channelId : UInt32) (bytesToAdd : UInt32)
  deriving DecidableEq

namespace MuxFrame

def channelId : MuxFrame → UInt32
  | .channelOpen channelId .. => channelId
  | .channelOpenAck channelId .. => channelId
  | .channelData channelId .. => channelId
  | .channelClose channelId .. => channelId
  | .windowAdjust channelId .. => channelId

def muxType : MuxFrame → MuxFrameType
  | .channelOpen .. => .channelOpen
  | .channelOpenAck .. => .channelOpenAck
  | .channelData .. => .channelData
  | .channelClose .. => .channelClose
  | .windowAdjust .. => .windowAdjust

/-- `opaque_payload`: empty for the kinds that do not carry one. -/
def opaquePayload : MuxFrame → List UInt8
  | .channelData _ payload => payload
  | _ => []

/-- The frame with `payload` in its opaque field; a kind without one is
left alone. -/
def withPayload (f : MuxFrame) (payload : List UInt8) : MuxFrame :=
  match f with
  | .channelData channelId _ => .channelData channelId payload
  | f => f

/-! ## Encoding -/

/-- The body of one kind, its payload supplied apart from the frame. -/
def encodeBody (f : MuxFrame) (payload : List UInt8) : Put :=
  match f with
  -- an absent cwd is an absent field, not a zero-length one
  | .channelOpen _ sessionId lastReceivedSeq channelClass initialCwd => do
    putBytes sessionId.bytes
    putI64 lastReceivedSeq
    putU8 channelClass
    match initialCwd with
    | some cwd => putLengthPrefixedStr cwd
    | none => pure ()
  | .channelOpenAck _ accepted resumeFromSeq => do
    putBool accepted
    putI64 resumeFromSeq
  | .channelData .. => putBytes payload
  -- `retired` is the absent body
  | .channelClose _ reason => if reason ≠ .retired then putU8 reason.asByte else pure ()
  | .windowAdjust _ bytesToAdd => putU32 bytesToAdd

/-- What the prefix says of a length: saturating at 32 bits. -/
def innerLength (value : Nat) : UInt32 :=
  if value < 2 ^ 32 then UInt32.ofNat value else UInt32.ofNat (2 ^ 32 - 1)

def encodeInto (f : MuxFrame) (payload : List UInt8) : Put := do
  putU32 0
  putU32 f.channelId
  putU8 f.muxType.asByte
  encodeBody f payload
  modify fun w => w.patchU32 0 (innerLength (w.len - 4))

def encode (f : MuxFrame) : List UInt8 :=
  ((encodeInto f f.opaquePayload).run ByteWriter.new).2.intoVec

def encodedByteCountWithPayload (f : MuxFrame) (payloadLen : Nat) : Nat :=
  ((encodeInto f []).run (ByteWriter.borrowing [])).2.len + payloadLen

/-- `encode_with_payload_into`: the size it answers, and the lent buffer after. -/
def encodeWithPayloadInto (f : MuxFrame) (payload out : List UInt8) : Nat × List UInt8 :=
  let needed := f.encodedByteCountWithPayload payload.length
  if needed > out.length then (needed, out)
  else
    let w := ((encodeInto f payload).run (ByteWriter.borrowing out)).2
    (w.len, w.memory)

/-! ## Decoding -/

/-- The trailing cwd of a channel open. -/
def readInitialCwd : Decoder (Option String) := do
  let left ← bytesRemaining
  if left = 0 then pure none
  else do
    let length ← readU16
    let bytes ← readBytes length.toNat
    let left ← bytesRemaining
    if left ≠ 0 then .throw (.malformedBody "channelOpen: trailing cwd bytes")
    else if length = 0 then pure none
    else
      match String.fromUTF8? ⟨bytes.toArray⟩ with
      | some cwd => pure (some cwd)
      | none => .throw (.malformedBody "channelOpen: invalid cwd UTF-8")

/-- The trailing resume verdict of an open's answer. -/
def readResumeFromSeq : Decoder Int64 := do
  let left ← bytesRemaining
  if left = 0 then pure 0
  else do
    let seq ← readI64
    let left ← bytesRemaining
    if left ≠ 0 then .throw (.malformedBody "channelOpenAck: trailing bytes")
    else pure seq

/-- The trailing reason of a close. -/
def readCloseReason : Decoder MuxCloseReason := do
  let left ← bytesRemaining
  if left = 0 then pure .retired
  else do
    let reason ← readU8
    let left ← bytesRemaining
    if left ≠ 0 then .throw (.malformedBody "channelClose: trailing bytes")
    else pure (.fromByteOrRetired reason)

/-- A kind with no payload leaves the reported range empty. -/
def withoutPayload (p : Decoder MuxFrame) : Decoder (MuxFrame × ByteRange) := do
  let frame ← p
  pure (frame, ⟨0, 0⟩)

/-- One arm of `decode_inner` per mux type. -/
def decodeBody (elide : Bool) (channelId : UInt32) : MuxFrameType → Decoder (MuxFrame × ByteRange)
  | .channelOpen => withoutPayload do
    let idBytes ← readBytes sessionIdByteCount
    let lastReceivedSeq ← readI64
    let channelClass ← readU8
    if h : idBytes.length = sessionIdByteCount then do
      let initialCwd ← readInitialCwd
      pure (.channelOpen channelId ⟨idBytes, h⟩ lastReceivedSeq channelClass initialCwd)
    else .throw (.malformedBody "channelOpen: invalid sessionID bytes")
  | .channelOpenAck => withoutPayload do
    let accepted ← readBool
    let resumeFromSeq ← readResumeFromSeq
    pure (.channelOpenAck channelId accepted resumeFromSeq)
  | .channelData => do
    let run ← readTrailingPayload elide
    pure (.channelData channelId run.1, run.2)
  | .channelClose => withoutPayload do
    let reason ← readCloseReason
    pure (.channelClose channelId reason)
  | .windowAdjust => withoutPayload do
    let bytesToAdd ← readU32
    pure (.windowAdjust channelId bytesToAdd)

def decodeInner (elide : Bool) : Decoder (MuxFrame × ByteRange) := do
  let channelId ← readU32
  let typeByte ← readU8
  match MuxFrameType.fromByte typeByte with
  | none => .throw (.unknownMessageType typeByte)
  | some muxType => decodeBody elide channelId muxType

/-- `decode`: a complete inner run, without its length prefix. -/
def decode (inner : List UInt8) : Outcome WireError MuxFrame := do
  let r ← (decodeInner false).run inner 0
  pure r.1.1

def decodeLeavingPayload (inner : List UInt8) : Outcome WireError (MuxFrame × ByteRange) := do
  let r ← (decodeInner true).run inner 0
  pure r.1

end MuxFrame

end SlopDesk.Mux
