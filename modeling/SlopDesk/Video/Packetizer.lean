/-
SlopDesk.Video.Packetizer — one encoded frame into wire datagrams
(`slopdesk-video/src/packetizer.rs`), and the order they are sent in
(`interleaver.rs`).

§1 the burst-resilient order: the first shard of every group, then the
second, the data before the parity. §2 the packetizer: the two counters,
the payloads, the parity of the frame's tier, one datagram each. The codec
is one whose every tier fits the field; `none` is the panic of the encoder
when one does not.
-/
import SlopDesk.Video.Reassembler

namespace SlopDesk.Video

open SlopDesk.Base.Blocks

/-! ## §1 Interleaving -/

/-- The walk of `take_column_major`: rank outer, group inner. -/
def columnMajor (stride numGroups : Nat) : List Nat :=
  (List.range stride).flatMap fun rank =>
    (List.range numGroups).map fun group => group * stride + rank

/-- One visit: an item still in its slot is moved to the end. -/
def takeSlot {α : Type*} (state : List (Option α) × List α) (index : Nat) : List (Option α) × List α :=
  match state.1[index]? with
  | some (some item) => (state.1.set index none, state.2 ++ [item])
  | _ => state

/-- `take_column_major`: the slots left, and the order so far. -/
def takeColumnMajor {α : Type*} (slots : List (Option α)) (stride numGroups : Nat) (ordered : List α) :
    List (Option α) × List α :=
  (columnMajor stride numGroups).foldl takeSlot (slots, ordered)

def interleave {α : Type*} (items : List α) (dataCount groupSize : Nat) : List α :=
  if groupSize ≤ 1 ∨ items.length ≤ groupSize then items
  else
    let dataCount := min dataCount items.length
    if dataCount ≤ groupSize then items
    else
      let data := (items.take dataCount).map some
      let parity := (items.drop dataCount).map some
      let numGroups := blockCount dataCount groupSize
      let ordered := (takeColumnMajor data groupSize numGroups []).2
      let m := parity.length / numGroups
      let swept := takeColumnMajor parity m numGroups ordered
      swept.2 ++ swept.1.filterMap id

/-! ## §2 The packetizer -/

structure PacketizeOptions where
  keyframe : Bool
  crisp : Bool
  hostSendTsMillis : UInt32
  fecTier : UInt8
  isLtr : Bool
  ackedAnchored : Bool
  interleave : Bool
  deriving DecidableEq, Repr

structure VideoPacketizer where
  fec : Option ReedSolomonFec
  nextStreamSeq : UInt32
  nextFrameId : UInt32
  fits : ∀ codec ∈ fec, AdaptiveFec.Fits codec

/-- The flags of a frame's data fragments. -/
def baseFlags (options : PacketizeOptions) : Flags :=
  let flags := Flags.empty
  let flags := if options.keyframe then flags.union .keyframe else flags
  let flags := if options.crisp then flags.union .crisp else flags
  let flags := if options.isLtr then flags.union .isLtr else flags
  let flags := if options.ackedAnchored then flags.union .ackedAnchored else flags
  flags.setFecTier options.fecTier

/-- The payloads of a frame; a frame of no bytes still has one. -/
def payloadsOf (frame : List UInt8) : List (List UInt8) :=
  if frame = [] then [[]] else chunks maxPayloadSize frame

namespace VideoPacketizer

def new (fec : Option ReedSolomonFec) (fits : ∀ codec ∈ fec, AdaptiveFec.Fits codec) :
    VideoPacketizer := ⟨fec, 0, 0, fits⟩

def parityPayloads (host : VideoPacketizer) (payloads : List (List UInt8)) (fecTier : UInt8) :
    Option (List (List UInt8)) :=
  match host.fec with
  | none => some []
  | some scheme =>
    match AdaptiveFec.groupSize fecTier scheme.groupSize with
    | none => some []
    | some group =>
      scheme.parityWithM payloads group (AdaptiveFec.parityCount fecTier scheme.parity)

def writeDatagram (host : VideoPacketizer) (frameId : UInt32) (fragIndex fragCount : UInt16)
    (flags : Flags) (payload : List UInt8) (hostSendTsMillis : UInt32) :
    List UInt8 × VideoPacketizer :=
  (encodeDatagram {
      streamSeq := host.nextStreamSeq, frameId, fragIndex, fragCount, flags, hostSendTsMillis
      payloadLength := .ofNat payload.length } payload,
    { host with nextStreamSeq := host.nextStreamSeq + 1 })

/-- The two loops of `packetize_datagrams`, over the data and then the
parity; the index wraps. -/
def writeAll (host : VideoPacketizer) (frameId : UInt32) (fragCount : UInt16)
    (hostSendTsMillis : UInt32) : UInt16 → List (Flags × List UInt8) → List (List UInt8) × VideoPacketizer
  | _, [] => ([], host)
  | fragIndex, (flags, payload) :: rest =>
    let first := host.writeDatagram frameId fragIndex fragCount flags payload hostSendTsMillis
    let others := first.2.writeAll frameId fragCount hostSendTsMillis (fragIndex + 1) rest
    (first.1 :: others.1, others.2)

/-- `packetize_datagrams`: the datagrams, and how many of them are data. -/
def packetizeDatagrams (host : VideoPacketizer) (frame : List UInt8) (options : PacketizeOptions) :
    Option ((List (List UInt8) × Nat) × VideoPacketizer) := do
  let frameId := host.nextFrameId
  let host := { host with nextFrameId := host.nextFrameId + 1 }
  let payloads := payloadsOf frame
  let parity ← host.parityPayloads payloads options.fecTier
  if maxFragmentsPerFrame < payloads.length + parity.length then return (([], 0), host)
  let flags := baseFlags options
  let parts := payloads.map (fun payload => (flags, payload)) ++
    parity.map fun payload => (flags.union .parity, payload)
  let written := host.writeAll frameId (.ofNat (payloads.length + parity.length))
    options.hostSendTsMillis 0 parts
  return ((written.1, payloads.length), written.2)

/-- `packetize_raw`: the datagrams in send order. -/
def packetizeRaw (host : VideoPacketizer) (frame : List UInt8) (options : PacketizeOptions) :
    Option (List (List UInt8) × VideoPacketizer) := do
  let ((datagrams, dataCount), host) ← host.packetizeDatagrams frame options
  if options.interleave then
    let defaultGroup := match host.fec with
      | none => 1
      | some scheme => scheme.groupSize
    let group := (AdaptiveFec.groupSize options.fecTier defaultGroup).getD 1
    return (interleave datagrams dataCount group, host)
  else return (datagrams, host)

/-- `packetize`: the same, parsed. -/
def packetize (host : VideoPacketizer) (frame : List UInt8) (options : PacketizeOptions) :
    Option (List FrameFragment × VideoPacketizer) := do
  let (datagrams, host) ← host.packetizeRaw frame options
  return (datagrams.filterMap FrameFragment.decode, host)

end VideoPacketizer

namespace AdaptiveFec

/-- The tiers the host's two ladders emit: the parity ladder, seeded and
stepped within its own three, and the group-size ladder; the default tier
stands for either ladder while it is gated off. -/
def onLadder (adaptiveMEnabled : Bool) (tier : UInt8) : Bool :=
  tier = defaultTier ||
    if adaptiveMEnabled then
      tier = parityTierClean || tier = parityTierNormal || tier = parityTierBurst
    else tier = 1 || tier = 2 || tier = 3 || tier = 4

/-- The tiers the host can stamp for a codec. -/
def Stampable (fec : Option ReedSolomonFec) (tier : UInt8) : Prop :=
  ∃ ladderTier adaptiveMEnabled, onLadder adaptiveMEnabled ladderTier = true ∧
    tier = wireTier ladderTier adaptiveMEnabled (isActive (match fec with
      | none => 0
      | some scheme => scheme.parity))

end AdaptiveFec

end SlopDesk.Video
