/-
SlopDesk.Video.Fragment — the per-datagram video header
(`slopdesk-video/src/fragment.rs`) and the FEC tier tables both ends read
(`adaptive_fec.rs`).

§1 the flag bits. §2 the header of nineteen bytes and its payload. §3 the
tiers. §4 reading back a datagram that was written.
-/
import SlopDesk.Video.Fec

namespace SlopDesk.Video

open SlopDesk.Base

/-- `HEADER_SIZE`. -/
def headerSize : Nat := 19
/-- `MAX_DATAGRAM_SIZE`. -/
def maxDatagramSize : Nat := 1200
/-- `MAX_PAYLOAD_SIZE`. -/
def maxPayloadSize : Nat := maxDatagramSize - headerSize - prefixBytes

/-! ## §1 Flags -/

structure Flags where
  bits : UInt8
  deriving DecidableEq, Repr

namespace Flags

/-- `KEYFRAME`. -/
def keyframe : Flags := ⟨1⟩
/-- `PARITY`. -/
def parity : Flags := ⟨2⟩
/-- `CRISP`. -/
def crisp : Flags := ⟨4⟩
/-- `IS_LTR`. -/
def isLtr : Flags := ⟨64⟩
/-- `ACKED_ANCHORED`. -/
def ackedAnchored : Flags := ⟨128⟩
/-- `TIER_MASK`. -/
def tierMask : UInt8 := 0b00111000

def empty : Flags := ⟨0⟩
def contains (flags other : Flags) : Bool := flags.bits &&& other.bits = other.bits
def union (flags other : Flags) : Flags := ⟨flags.bits ||| other.bits⟩
def fecTier (flags : Flags) : UInt8 := (flags.bits &&& tierMask) >>> 3
def setFecTier (flags : Flags) (tier : UInt8) : Flags :=
  ⟨(flags.bits &&& ~~~tierMask) ||| ((tier &&& 7) <<< 3)⟩

end Flags

/-! ## §2 Fragments -/

structure FrameFragmentHeader where
  streamSeq : UInt32
  frameId : UInt32
  fragIndex : UInt16
  fragCount : UInt16
  flags : Flags
  hostSendTsMillis : UInt32
  payloadLength : UInt16
  deriving DecidableEq, Repr

structure FrameFragment where
  header : FrameFragmentHeader
  payload : List UInt8
  deriving DecidableEq, Repr

/-- `encode_datagram`: the length on the wire is the payload's, truncated. -/
def encodeDatagram (header : FrameFragmentHeader) (payload : List UInt8) : List UInt8 :=
  toBe 4 header.streamSeq.toNat ++ toBe 4 header.frameId.toNat ++ toBe 2 header.fragIndex.toNat ++
    toBe 2 header.fragCount.toNat ++ [header.flags.bits] ++ toBe 4 header.hostSendTsMillis.toNat ++
    toBe 2 payload.length ++ payload

/-- A big-endian number of `width` bytes, and what follows it. -/
def readBe (width : Nat) (bytes : List UInt8) : Option (Nat × List UInt8) :=
  if bytes.length < width then none else some (ofBe 0 (bytes.take width), bytes.drop width)

namespace FrameFragment

/-- `decode`; what follows the payload is not looked at. -/
def decode (datagram : List UInt8) : Option FrameFragment := do
  let (streamSeq, rest) ← readBe 4 datagram
  let (frameId, rest) ← readBe 4 rest
  let (fragIndex, rest) ← readBe 2 rest
  let (fragCount, rest) ← readBe 2 rest
  let (flags, rest) ← readBe 1 rest
  let (hostSendTsMillis, rest) ← readBe 4 rest
  let (payloadLength, rest) ← readBe 2 rest
  if rest.length < payloadLength then none
  else some {
    header := {
      streamSeq := .ofNat streamSeq
      frameId := .ofNat frameId
      fragIndex := .ofNat fragIndex
      fragCount := .ofNat fragCount
      flags := ⟨.ofNat flags⟩
      hostSendTsMillis := .ofNat hostSendTsMillis
      payloadLength := .ofNat payloadLength }
    payload := rest.take payloadLength }

def encode (fragment : FrameFragment) : List UInt8 :=
  encodeDatagram fragment.header fragment.payload

end FrameFragment

/-! ## §3 Tiers -/

namespace AdaptiveFec

/-- `DEFAULT_TIER`. -/
def defaultTier : UInt8 := 0
/-- `PARITY_TIER_CLEAN`. -/
def parityTierClean : UInt8 := 5
/-- `PARITY_TIER_NORMAL`. -/
def parityTierNormal : UInt8 := 6
/-- `PARITY_TIER_BURST`. -/
def parityTierBurst : UInt8 := 7
/-- `BURST_PARITY`. -/
def burstParity : Nat := 5

def isActive (parityCount : Nat) : Bool := 2 ≤ parityCount

/-- `group_size`: `none` is the OFF tier. -/
def groupSize (tier : UInt8) (defaultGroupSize : Nat) : Option Nat :=
  if tier = 1 then none
  else if tier = 2 then some 10
  else if tier = 3 then some 3
  else if tier = 4 then some 2
  else some defaultGroupSize

def parityCount (tier : UInt8) (defaultM : Nat) : Nat :=
  if tier = 1 then 1
  else if isActive defaultM then
    if tier = parityTierClean then 2
    else if tier = parityTierNormal then 3
    else if tier = parityTierBurst then burstParity
    else defaultM
  else defaultM

def wireTier (adaptiveTier : UInt8) (adaptiveMEnabled multiLossActive : Bool) : UInt8 :=
  if adaptiveMEnabled then adaptiveTier
  else if multiLossActive then defaultTier
  else adaptiveTier

/-- A codec as both ends configure it: no tier stamps more parity onto its
groups than the field has room for. -/
def Fits (codec : ReedSolomonFec) : Prop :=
  isActive codec.parity → codec.groupSize + burstParity ≤ 255

instance (codec : ReedSolomonFec) : Decidable (Fits codec) :=
  inferInstanceAs (Decidable (_ → _))

theorem parityCount_pos (tier : UInt8) {defaultM : Nat} (h : 1 ≤ defaultM) :
    1 ≤ parityCount tier defaultM := by
  unfold parityCount burstParity
  repeat' split
  all_goals omega

theorem Fits.parityCount_le {codec : ReedSolomonFec} (h : Fits codec) (tier : UInt8) :
    codec.groupSize + parityCount tier codec.parity ≤ 255 := by
  have hpos := codec.parity_pos
  have hfits := codec.fits
  unfold Fits burstParity at h
  unfold parityCount burstParity
  by_cases hactive : isActive codec.parity
  · grind
  · split <;> simp <;> omega

end AdaptiveFec

/-! ## §4 Reading back -/

theorem readBe_toBe {width n : Nat} (h : n < 256 ^ width) (rest : List UInt8) :
    readBe width (toBe width n ++ rest) = some (n, rest) := by
  have htake : (toBe width n ++ rest).take width = toBe width n := by
    simp
  have hdrop : (toBe width n ++ rest).drop width = rest := by
    simp
  simp [readBe, htake, hdrop, ofBe_toBe h]

theorem decode_encodeDatagram (header : FrameFragmentHeader) {payload : List UInt8}
    (h : payload.length < 65536) : FrameFragment.decode (encodeDatagram header payload) =
      some ⟨{ header with payloadLength := .ofNat payload.length }, payload⟩ := by
  have h32 : ∀ n : UInt32, n.toNat < 256 ^ 4 := fun n => n.toNat_lt
  have h16 : ∀ n : UInt16, n.toNat < 256 ^ 2 := fun n => n.toNat_lt
  have hflags : toBe 1 header.flags.bits.toNat = [header.flags.bits] := by simp [toBe]
  have h8 : header.flags.bits.toNat < 256 ^ 1 := header.flags.bits.toNat_lt
  have hlen : payload.length < 256 ^ 2 := h
  simp only [FrameFragment.decode, encodeDatagram, List.append_assoc, ← hflags,
    Option.bind_eq_bind, Option.bind_some, readBe_toBe (h32 _), readBe_toBe (h16 _), readBe_toBe h8,
    readBe_toBe hlen]
  simp

end SlopDesk.Video
