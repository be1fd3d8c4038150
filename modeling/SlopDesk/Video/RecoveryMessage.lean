/-
SlopDesk.Video.RecoveryMessage — the recovery requests on the wire, and the requests
that repeat.
-/
import SlopDesk.Base.Binary64
import SlopDesk.Base.Runs
import SlopDesk.Base.Spelling
import SlopDesk.Video.Reassembler

/-! # What a client asks of the host when frames
are lost (`slopdesk-video/src/recovery.rs`), over the big-endian reader of
the video path (`bytes.rs`).

  §1 The reader, and the bytes each of its reads takes.
  §2 The messages, their encoder and their decoder.
  §3 What the decoder accepts: the encodings, and nothing else.
-/

namespace SlopDesk.Video

open SlopDesk.Base
open SlopDesk.Base.Parser

/-! ## §1 The reader -/

inductive VideoProtocolError where
  | truncated
  | malformed (hint : String)
  deriving DecidableEq, Repr

/-- `ByteReader`. -/
abbrev VideoReader := Parser VideoProtocolError UInt8

namespace VideoReader

/-- `read_bytes`: whole, or truncated. -/
def readBytes (count : Nat) : VideoReader (List UInt8) :=
  ⟨fun data off =>
    if off + count ≤ data.length then .ok ((data.drop off).take count, off + count)
    else .fault .truncated⟩

def readU8 : VideoReader UInt8 :=
  ⟨fun data off =>
    match data[off]? with
    | some byte => .ok (byte, off + 1)
    | none => .fault .truncated⟩

def readU16 : VideoReader UInt16 := do
  let bytes ← readBytes 2
  pure (UInt16.ofNat (ofBe 0 bytes))

def readU32 : VideoReader UInt32 := do
  let bytes ← readBytes 4
  pure (UInt32.ofNat (ofBe 0 bytes))

/-- `remaining`: consumes everything left. -/
def remaining : VideoReader (List UInt8) := ⟨fun data off => .ok (data.drop off, data.length)⟩

theorem spells_readBytes (count : Nat) :
    Spells (readBytes count) fun v bs => v = bs ∧ bs.length = count where
  reads := by
    rintro bytes _ ⟨rfl, rfl⟩ pre post
    exact ⟨bytes, rfl, by simp [readBytes]⟩
  spelled pre rest v stop h := by
    simp only [readBytes, List.length_append, Nat.add_le_add_iff_left, List.drop_left] at h
    split at h
    case isTrue hfits =>
      have htake : (rest.take count).length = count := by simpa using hfits
      obtain ⟨rfl, rfl⟩ := Prod.mk.inj (Outcome.ok.inj h)
      exact ⟨rest.take count, rest.drop count, (List.take_append_drop count rest).symm, by rw [htake],
        rfl, htake⟩
    case isFalse => cases h
  safe := by
    intro data off hoff
    simp only [readBytes]
    split
    case isTrue hfits => exact ⟨rfl, hfits, rfl⟩
    case isFalse => rfl

theorem spells_readU8 : Spells readU8 fun byte bs => bs = [byte] where
  reads := by
    rintro byte _ rfl pre post
    exact ⟨byte, rfl, by simp [readU8]⟩
  spelled pre rest byte stop h := by
    cases rest with
    | nil => simp [readU8] at h
    | cons first rest =>
      simp only [readU8, List.getElem?_append_right (Nat.le_refl _), Nat.sub_self,
        List.getElem?_cons_zero, Outcome.ok.injEq, Prod.mk.injEq] at h
      obtain ⟨rfl, rfl⟩ := h
      exact ⟨[first], rest, rfl, rfl, rfl⟩
  safe := by
    intro data off hoff
    simp only [readU8]
    cases hbyte : data[off]? with
    | none => rfl
    | some byte =>
      obtain ⟨hlt, -⟩ := List.getElem?_eq_some_iff.mp hbyte
      exact ⟨rfl, hlt, rfl⟩

theorem spells_word {count : Nat} (ofNat : Nat → γ) (toNat : γ → Nat) (hlt : ∀ v, toNat v < 256 ^ count)
    (hinv : ∀ v, ofNat (toNat v) = v) (hback : ∀ n, n < 256 ^ count → toNat (ofNat n) = n) :
    Spells (readBytes count >>= fun bytes => pure (ofNat (ofBe 0 bytes)))
      fun v bs => bs = toBe count (toNat v) := by
  refine ((spells_readBytes count).map fun bytes => ofNat (ofBe 0 bytes)).congr fun v bs => ?_
  constructor
  · rintro ⟨bytes, ⟨rfl, rfl⟩, rfl⟩
    rw [hback _ (ofBe_spec 0 bytes).2]
    exact (toBe_ofBe bytes).symm
  · rintro rfl
    exact ⟨toBe count (toNat v), ⟨rfl, length_toBe count _⟩, by rw [ofBe_toBe (hlt v), hinv]⟩

theorem spells_readU16 : Spells readU16 fun v bs => bs = toBe 2 v.toNat :=
  spells_word UInt16.ofNat UInt16.toNat UInt16.toNat_lt (fun _ => UInt16.ofNat_toNat)
    fun _ hn => UInt16.toNat_ofNat_of_lt hn

theorem spells_readU32 : Spells readU32 fun v bs => bs = toBe 4 v.toNat :=
  spells_word UInt32.ofNat UInt32.toNat UInt32.toNat_lt (fun _ => UInt32.ofNat_toNat)
    fun _ hn => UInt32.toNat_ofNat_of_lt hn

end VideoReader

/-! ## §2 The messages -/

structure NetworkStatsReport where
  framesReceived : UInt32
  fecRecovered : UInt32
  unrecovered : UInt32
  latestHostSendTs : UInt32
  clientHoldMs : UInt32
  owdJitterMicros : UInt32
  owdTrendMilli : UInt32
  owdTrendFlags : UInt32
  pacerLateFrames : UInt32
  pacerPresentGaps : UInt32
  pacerDepth : UInt32
  deriving DecidableEq, Repr

inductive RecoveryMessage where
  | ack (streamSeq : UInt32)
  | requestLtrRefresh (fromFrameId toFrameId lastDecodedFrameId : UInt32)
  | requestIdr (lastDecodedFrameId : UInt32)
  | requestCursorShape (shapeId : UInt16)
  | networkStats (report : NetworkStatsReport)
  | requestFragments (frameId : UInt32) (fragIndices : List UInt16)
  deriving DecidableEq, Repr

def putU16 (value : UInt16) : List UInt8 := toBe 2 value.toNat

def putU32 (value : UInt32) : List UInt8 := toBe 4 value.toNat

namespace RecoveryMessage

open VideoReader

variable (message : RecoveryMessage)

def messageType : RecoveryMessage → UInt8
  | ack _ => 1
  | requestLtrRefresh _ _ _ => 2
  | requestIdr _ => 3
  | requestCursorShape _ => 4
  | networkStats _ => 5
  | requestFragments _ _ => 6

/-- The stats report of `encode`. -/
def putReport (report : NetworkStatsReport) : List UInt8 :=
  putU32 report.framesReceived ++ (putU32 report.fecRecovered ++ (putU32 report.unrecovered
    ++ (putU32 report.latestHostSendTs ++ (putU32 report.clientHoldMs ++ (putU32 report.owdJitterMicros
    ++ (putU32 report.owdTrendMilli ++ (putU32 report.owdTrendFlags ++ (putU32 report.pacerLateFrames
    ++ (putU32 report.pacerPresentGaps ++ putU32 report.pacerDepth)))))))))

/-- What `encode` writes behind the type byte. A list of fragments is cut at
the cap. -/
def putBody : RecoveryMessage → List UInt8
  | ack streamSeq => putU32 streamSeq
  | requestLtrRefresh fromFrameId toFrameId lastDecodedFrameId =>
    putU32 fromFrameId ++ (putU32 toFrameId ++ putU32 lastDecodedFrameId)
  | requestIdr lastDecodedFrameId => putU32 lastDecodedFrameId
  | requestCursorShape shapeId => putU16 shapeId
  | networkStats report => putReport report
  | requestFragments frameId fragIndices =>
    let capped := fragIndices.take maxNackFragments
    putU32 frameId ++ (putU16 (UInt16.ofNat capped.length) ++ capped.flatMap putU16)

def encode (message : RecoveryMessage) : List UInt8 := message.messageType :: message.putBody

/-- The loop over the fragment indices. -/
def readIndices : (count : Nat) → VideoReader (List UInt16)
  | 0 => pure []
  | count + 1 => do
    let index ← readU16
    let fragIndices ← readIndices count
    pure (index :: fragIndices)

/-- The stats report of `decode`. -/
def readReport : VideoReader NetworkStatsReport := do
  let framesReceived ← readU32
  let fecRecovered ← readU32
  let unrecovered ← readU32
  let latestHostSendTs ← readU32
  let clientHoldMs ← readU32
  let owdJitterMicros ← readU32
  let owdTrendMilli ← readU32
  let owdTrendFlags ← readU32
  let pacerLateFrames ← readU32
  let pacerPresentGaps ← readU32
  let pacerDepth ← readU32
  pure ⟨framesReceived, fecRecovered, unrecovered, latestHostSendTs, clientHoldMs, owdJitterMicros,
    owdTrendMilli, owdTrendFlags, pacerLateFrames, pacerPresentGaps, pacerDepth⟩

/-- The match of `decode` on the type byte. -/
def readBody (type : UInt8) : VideoReader RecoveryMessage :=
  if type = 1 then do
    let streamSeq ← readU32
    pure (ack streamSeq)
  else if type = 2 then do
    let fromFrameId ← readU32
    let toFrameId ← readU32
    let lastDecodedFrameId ← readU32
    pure (requestLtrRefresh fromFrameId toFrameId lastDecodedFrameId)
  else if type = 3 then do
    let lastDecodedFrameId ← readU32
    pure (requestIdr lastDecodedFrameId)
  else if type = 4 then do
    let shapeId ← readU16
    pure (requestCursorShape shapeId)
  else if type = 5 then do
    let report ← readReport
    pure (networkStats report)
  else if type = 6 then do
    let frameId ← readU32
    let count ← readU16
    if count.toNat > maxNackFragments then .throw (.malformed "NACK fragment count exceeds the cap")
    else do
      let fragIndices ← readIndices count.toNat
      pure (requestFragments frameId fragIndices)
  else .throw (.malformed ("unknown recovery message type " ++ toString type.toNat))

/-- The message, once nothing is left behind it. -/
def expectEnd (message : RecoveryMessage) : VideoReader RecoveryMessage := do
  let rest ← remaining
  if rest ≠ [] then .throw (.malformed "trailing bytes") else pure message

/-- The reads of `decode`. -/
def readMessage : VideoReader RecoveryMessage := do
  let type ← readU8
  let message ← readBody type
  expectEnd message

def decode (datagram : List UInt8) : Outcome VideoProtocolError RecoveryMessage := do
  let r ← readMessage.run datagram 0
  pure r.1

/-! ## §3 What is accepted -/

theorem spells_field {p : VideoReader α} {f : α → VideoReader γ} {layout : α → List UInt8}
    {H : α → γ → List UInt8 → Prop} (hp : Spells p fun v bs => bs = layout v)
    (hf : ∀ a, Spells (f a) (H a)) :
    Spells (p >>= f) fun c bs => ∃ a rest, H a c rest ∧ bs = layout a ++ rest := by
  refine (hp.bind hf).congr fun c bs => ?_
  constructor
  · rintro ⟨a, _, rest, rfl, hrest, rfl⟩
    exact ⟨a, rest, hrest, rfl⟩
  · rintro ⟨a, rest, hrest, rfl⟩
    exact ⟨a, _, rest, rfl, hrest, rfl⟩

theorem spells_readIndices (count : Nat) :
    Spells (readIndices count) fun indices bs => indices.length = count ∧ bs = indices.flatMap putU16 := by
  induction count with
  | zero =>
    refine (spells_pure []).congr fun indices bs => ?_
    rw [List.length_eq_zero_iff]
    constructor
    · rintro ⟨rfl, rfl⟩
      exact ⟨rfl, rfl⟩
    · rintro ⟨rfl, rfl⟩
      exact ⟨rfl, rfl⟩
  | succ count ih =>
    refine (spells_field spells_readU16 fun index => ih.map (index :: ·)).congr fun indices bs => ?_
    constructor
    · rintro ⟨index, _, ⟨indices, ⟨rfl, rfl⟩, rfl⟩, rfl⟩
      exact ⟨rfl, rfl⟩
    · rintro ⟨hcount, rfl⟩
      obtain ⟨index, indices, rfl⟩ := List.exists_cons_of_length_eq_add_one hcount
      exact ⟨index, _, ⟨indices, ⟨Nat.succ.inj hcount, rfl⟩, rfl⟩, rfl⟩

theorem spells_readReport : Spells readReport fun report bs => bs = putReport report := by
  refine (spells_field spells_readU32 fun framesReceived => spells_field spells_readU32 fun fecRecovered =>
    spells_field spells_readU32 fun unrecovered => spells_field spells_readU32 fun latestHostSendTs =>
    spells_field spells_readU32 fun clientHoldMs => spells_field spells_readU32 fun owdJitterMicros =>
    spells_field spells_readU32 fun owdTrendMilli => spells_field spells_readU32 fun owdTrendFlags =>
    spells_field spells_readU32 fun pacerLateFrames => spells_field spells_readU32 fun pacerPresentGaps =>
    spells_readU32.map (NetworkStatsReport.mk framesReceived fecRecovered unrecovered latestHostSendTs
      clientHoldMs owdJitterMicros owdTrendMilli owdTrendFlags pacerLateFrames
      pacerPresentGaps)).congr fun report bs => ?_
  constructor
  · rintro ⟨_, _, ⟨_, _, ⟨_, _, ⟨_, _, ⟨_, _, ⟨_, _, ⟨_, _, ⟨_, _, ⟨_, _, ⟨_, _, ⟨_, rfl, rfl⟩, rfl⟩, rfl⟩,
      rfl⟩, rfl⟩, rfl⟩, rfl⟩, rfl⟩, rfl⟩, rfl⟩, rfl⟩
    rfl
  · rintro rfl
    exact ⟨_, _, ⟨_, _, ⟨_, _, ⟨_, _, ⟨_, _, ⟨_, _, ⟨_, _, ⟨_, _, ⟨_, _, ⟨_, _, ⟨_, rfl, rfl⟩, rfl⟩, rfl⟩,
      rfl⟩, rfl⟩, rfl⟩, rfl⟩, rfl⟩, rfl⟩, rfl⟩, rfl⟩

/-- No more fragments than a message may carry. -/
def Fits : RecoveryMessage → Prop
  | requestFragments _ fragIndices => fragIndices.length ≤ maxNackFragments
  | _ => True

theorem putBody_requestFragments {frameId : UInt32} {fragIndices : List UInt16}
    (h : fragIndices.length ≤ maxNackFragments) : putBody (requestFragments frameId fragIndices) =
      putU32 frameId ++ (putU16 (UInt16.ofNat fragIndices.length) ++ fragIndices.flatMap putU16) := by
  rw [putBody, List.take_of_length_le h]

theorem spells_readFragments :
    Spells (do
      let frameId ← readU32
      let count ← readU16
      if count.toNat > maxNackFragments then .throw (.malformed "NACK fragment count exceeds the cap")
      else do
        let fragIndices ← readIndices count.toNat
        pure (requestFragments frameId fragIndices)) fun message bs =>
      ∃ frameId fragIndices, message = requestFragments frameId fragIndices ∧ message.Fits ∧
        bs = message.putBody := by
  refine (spells_field spells_readU32 fun frameId => spells_field spells_readU16 fun count =>
    Spells.unless _ fun _ => (spells_readIndices count.toNat).map
      (requestFragments frameId)).congr fun message bs => ?_
  constructor
  · rintro ⟨frameId, _, ⟨count, _, ⟨hcap, indices, ⟨hcount, rfl⟩, rfl⟩, rfl⟩, rfl⟩
    have hfits : indices.length ≤ maxNackFragments := by rw [hcount]; exact Nat.le_of_not_gt hcap
    refine ⟨frameId, indices, rfl, hfits, ?_⟩
    rw [putBody_requestFragments hfits, hcount, UInt16.ofNat_toNat]
    rfl
  · rintro ⟨frameId, indices, rfl, hfits, rfl⟩
    rw [putBody_requestFragments hfits]
    have hcount : (UInt16.ofNat indices.length).toNat = indices.length :=
      UInt16.toNat_ofNat_of_lt (Nat.lt_of_le_of_lt hfits (by decide))
    refine ⟨frameId, _, ⟨UInt16.ofNat indices.length, _, ⟨?_, indices, ⟨hcount.symm, rfl⟩, rfl⟩, rfl⟩, rfl⟩
    rw [hcount]
    exact Nat.not_lt_of_le hfits

theorem spells_readBody (type : UInt8) : Spells (readBody type) fun message bs =>
      message.messageType = type ∧ message.Fits ∧ bs = message.putBody := by
  refine (Spells.ite (fun _ => spells_readU32.map ack) fun _ =>
    Spells.ite (fun _ => spells_field spells_readU32 fun fromFrameId =>
      spells_field spells_readU32 fun toFrameId =>
        spells_readU32.map (requestLtrRefresh fromFrameId toFrameId)) fun _ =>
    Spells.ite (fun _ => spells_readU32.map requestIdr) fun _ =>
    Spells.ite (fun _ => spells_readU16.map requestCursorShape) fun _ =>
    Spells.ite (fun _ => spells_readReport.map networkStats) fun _ =>
    Spells.ite (fun _ => spells_readFragments) fun _ => spells_throw _).congr fun message bs => ?_
  constructor
  · rintro (⟨rfl, _, rfl, rfl⟩ | ⟨-, ⟨rfl, _, _, ⟨_, _, ⟨_, rfl, rfl⟩, rfl⟩, rfl⟩ | ⟨-, ⟨rfl, _, rfl, rfl⟩ |
      ⟨-, ⟨rfl, _, rfl, rfl⟩ | ⟨-, ⟨rfl, _, rfl, rfl⟩ |
      ⟨-, ⟨rfl, frameId, indices, rfl, hfits, rfl⟩ | ⟨-, hnone⟩⟩⟩⟩⟩⟩)
    · exact ⟨rfl, trivial, rfl⟩
    · exact ⟨rfl, trivial, rfl⟩
    · exact ⟨rfl, trivial, rfl⟩
    · exact ⟨rfl, trivial, rfl⟩
    · exact ⟨rfl, trivial, rfl⟩
    · exact ⟨rfl, hfits, rfl⟩
    · exact hnone.elim
  · rintro ⟨rfl, hfits, rfl⟩
    cases message with
    | ack streamSeq => exact .inl ⟨rfl, streamSeq, rfl, rfl⟩
    | requestLtrRefresh fromFrameId toFrameId lastDecodedFrameId =>
      exact .inr ⟨by simp [messageType], .inl ⟨rfl, fromFrameId, _, ⟨toFrameId, _,
        ⟨lastDecodedFrameId, rfl, rfl⟩, rfl⟩, rfl⟩⟩
    | requestIdr lastDecodedFrameId =>
      exact .inr ⟨by simp [messageType], .inr ⟨by simp [messageType], .inl
        ⟨rfl, lastDecodedFrameId, rfl, rfl⟩⟩⟩
    | requestCursorShape shapeId =>
      exact .inr ⟨by simp [messageType], .inr ⟨by simp [messageType], .inr ⟨by simp [messageType], .inl
        ⟨rfl, shapeId, rfl, rfl⟩⟩⟩⟩
    | networkStats report =>
      exact .inr ⟨by simp [messageType], .inr ⟨by simp [messageType], .inr ⟨by simp [messageType], .inr
        ⟨by simp [messageType], .inl ⟨rfl, report, rfl, rfl⟩⟩⟩⟩⟩
    | requestFragments frameId fragIndices =>
      exact .inr ⟨by simp [messageType], .inr ⟨by simp [messageType], .inr ⟨by simp [messageType], .inr
        ⟨by simp [messageType], .inr ⟨by simp [messageType], .inl
        ⟨rfl, frameId, fragIndices, rfl, hfits, rfl⟩⟩⟩⟩⟩⟩

theorem ends_expectEnd : Ends (expectEnd message) fun m bs => m = message ∧ bs = [] where
  reads := by
    rintro _ _ ⟨rfl, rfl⟩ pre
    exact ⟨_, rfl, by simp [expectEnd, remaining]⟩
  spelled pre rest m stop h := by
    obtain ⟨left, mid, hleft, h⟩ := run_bind_ok h
    obtain ⟨rfl, rfl⟩ := Prod.mk.inj (Outcome.ok.inj hleft)
    rw [List.drop_left] at h
    split at h
    case isTrue => cases h
    case isFalse hnone =>
      obtain ⟨rfl, -⟩ := Prod.mk.inj (Outcome.ok.inj h)
      exact ⟨rfl, Decidable.not_not.mp hnone⟩
  safe := by
    intro data off hoff
    simp only [expectEnd, run_bind, remaining, Outcome.ok_bind]
    split
    case isTrue => rfl
    case isFalse => exact ⟨rfl, Nat.le_refl _, rfl⟩

theorem ends_readMessage : Ends readMessage fun message bs => message.Fits ∧ bs = message.encode := by
  refine (spells_readU8.ends fun type => (spells_readBody type).ends ends_expectEnd).congr
    fun message bs => ?_
  constructor
  · rintro ⟨type, _, _, rfl, ⟨message, rest, _, ⟨rfl, hfits, rfl⟩, ⟨rfl, rfl⟩, rfl⟩, rfl⟩
    exact ⟨hfits, by simp [encode]⟩
  · rintro ⟨hfits, rfl⟩
    exact ⟨message.messageType, _, _, rfl, ⟨message, _, [], ⟨rfl, hfits, rfl⟩, ⟨rfl, rfl⟩,
      (List.append_nil _).symm⟩, rfl⟩

theorem datagrams_prefixFree :
    PrefixFree (spellings fun (message : RecoveryMessage) bs => message.Fits ∧ bs = message.encode) := by
  refine (spells_readU8.bind spells_readBody).prefixFree.mono ?_
  rintro _ ⟨message, hfits, rfl⟩
  exact ⟨message, message.messageType, _, _, rfl, ⟨rfl, hfits, rfl⟩, rfl⟩

/-- What is decoded is the encoding of a message that fits, and nothing
else is. -/
theorem decode_eq_ok {datagram : List UInt8} {message : RecoveryMessage} :
    decode datagram = .ok message ↔ message.Fits ∧ datagram = message.encode := by
  rw [← ends_readMessage.run_iff, decode]
  cases readMessage.run datagram 0 with
  | ok r =>
    obtain ⟨value, stop⟩ := r
    simp
  | fault e => simp
  | panicked => simp

/-- The message whose list is cut at the cap. -/
def capped : RecoveryMessage → RecoveryMessage
  | requestFragments frameId fragIndices => requestFragments frameId (fragIndices.take maxNackFragments)
  | message => message

theorem capped_fits : message.capped.Fits := by
  cases message with
  | requestFragments frameId fragIndices => exact List.length_take_le _ _
  | _ => exact trivial

theorem encode_capped : message.capped.encode = message.encode := by
  cases message with
  | requestFragments frameId fragIndices => simp [capped, encode, putBody, messageType, List.take_take]
  | _ => rfl

theorem decode_encode : decode message.encode = .ok message.capped :=
  decode_eq_ok.mpr ⟨capped_fits message, (encode_capped message).symm⟩

end RecoveryMessage

end SlopDesk.Video

/-! # The copies of one recovery request, brought
back to one (`slopdesk-video/src/recovery_dedupe.rs`).

A client sends each request several times over. The host keeps the datagrams
it let through lately and drops one it has. It compares bytes; that this
compares requests is what `RecoveryMessage.decode_eq_ok` is for.

  §1 The ring and one call of it.
  §2 What one call does, and what a run of calls let through.
  §3 A datagram is dropped for a copy of it, and a copy is dropped.
-/

namespace SlopDesk.Video

open SlopDesk.Base

/-! ## §1 The ring -/

structure RecoveryRequestDeduper where
  windowSeconds : F64
  capacity : Nat
  entries : List (List UInt8 × F64)
  floored : 1 ≤ capacity
  bounded : entries.length ≤ capacity

namespace RecoveryRequestDeduper

variable {capacity younger : Nat} {datagram : List UInt8} {deduper : RecoveryRequestDeduper} {now : F64}
variable {call entry : Call} {calls : List Call}

/-- `DEFAULT_WINDOW_SECONDS`: the nearest number to 0.025. -/
def defaultWindowSeconds : F64 := ⟨0x3F9999999999999A⟩

/-- `DEFAULT_CAPACITY`. -/
def defaultCapacity : Nat := 16

def new (windowSeconds : F64) (capacity : Nat) : RecoveryRequestDeduper where
  windowSeconds
  capacity := if capacity > 1 then capacity else 1
  entries := []
  floored := by split <;> omega
  bounded := Nat.zero_le _

/-- `(now - accepted_at).partial_cmp(&window_seconds) == Some(Greater)`: false
when either is NaN. -/
def aged (windowSeconds now acceptedAt : F64) : Bool := windowSeconds.lt (now.sub acceptedAt)

/-- The entries `retain` keeps. -/
def retained (deduper : RecoveryRequestDeduper) (now : F64) : List (List UInt8 × F64) :=
  deduper.entries.filter fun entry => !aged deduper.windowSeconds now entry.2

/-- The oldest entries dropped, so that one more fits. -/
def roomFor (capacity : Nat) (entries : List (List UInt8 × F64)) : List (List UInt8 × F64) :=
  if entries.length ≥ capacity then entries.drop (entries.length - capacity + 1) else entries

theorem length_roomFor (h : 1 ≤ capacity) (entries : List (List UInt8 × F64)) :
    (roomFor capacity entries).length + 1 ≤ capacity := by
  rw [roomFor]
  split
  case isTrue hfull =>
    rw [List.length_drop]
    omega
  case isFalse hroom => omega

theorem length_retained (deduper : RecoveryRequestDeduper) (now : F64) :
    (deduper.retained now).length ≤ deduper.capacity :=
  Nat.le_trans (List.length_filter_le ..) deduper.bounded

/-- `admit`: whether the datagram is to be processed, and the ring after it.
A window that is not above zero lets everything through. -/
def admitDatagram (deduper : RecoveryRequestDeduper) (datagram : List UInt8) (now : F64) :
    Bool × RecoveryRequestDeduper :=
  if F64.zero.lt deduper.windowSeconds = false then (true, deduper)
  else if (deduper.retained now).any fun entry => entry.1 = datagram then
    (false, { deduper with
      entries := deduper.retained now
      bounded := deduper.length_retained now })
  else
    (true, { deduper with
      entries := roomFor deduper.capacity (deduper.retained now) ++ [(datagram, now)]
      bounded := by
        rw [List.length_append]
        exact length_roomFor deduper.floored _ })

/-! ## §2 Calls -/

/-- A datagram, and when it came. -/
abbrev Call := List UInt8 × F64

def step (deduper : RecoveryRequestDeduper) (call : Call) : RecoveryRequestDeduper :=
  (deduper.admitDatagram call.1 call.2).2

/-- The calls of a run that were let through. -/
def admitted (deduper : RecoveryRequestDeduper) : List Call → List Call
  | [] => []
  | call :: calls =>
    if (deduper.admitDatagram call.1 call.2).1 then call :: admitted (deduper.step call) calls
    else admitted (deduper.step call) calls

@[simp] theorem windowSeconds_step (deduper : RecoveryRequestDeduper) (call : Call) :
    (deduper.step call).windowSeconds = deduper.windowSeconds := by
  rw [step, admitDatagram]
  split
  · rfl
  · split <;> rfl

@[simp] theorem capacity_step (deduper : RecoveryRequestDeduper) (call : Call) :
    (deduper.step call).capacity = deduper.capacity := by
  rw [step, admitDatagram]
  split
  · rfl
  · split <;> rfl

@[simp] theorem windowSeconds_run (deduper : RecoveryRequestDeduper) (calls : List Call) :
    (run step deduper calls).windowSeconds = deduper.windowSeconds := by
  induction calls generalizing deduper with
  | nil => rfl
  | cons call calls ih => rw [run_cons, ih, windowSeconds_step]

/-- A datagram is dropped when the ring is on and holds it, and not for so
long that it has aged. -/
theorem admitDatagram_eq_false :
    (deduper.admitDatagram datagram now).1 = false ↔ F64.zero.lt deduper.windowSeconds ∧
      ∃ acceptedAt, (datagram, acceptedAt) ∈ deduper.entries ∧
        aged deduper.windowSeconds now acceptedAt = false := by
  have hany : ((deduper.retained now).any fun entry => entry.1 = datagram) = true ↔
      ∃ acceptedAt, (datagram, acceptedAt) ∈ deduper.entries ∧
        aged deduper.windowSeconds now acceptedAt = false := by
    simp [retained]
  rw [admitDatagram, ← hany]
  cases F64.zero.lt deduper.windowSeconds with
  | false => simp
  | true =>
    grind

theorem mem_entries_step (h : entry ∈ (deduper.step call).entries) :
    entry ∈ deduper.entries ∨ entry = call ∧ (deduper.admitDatagram call.1 call.2).1 = true := by
  rw [step] at h
  rw [admitDatagram] at h ⊢
  split at h
  case isTrue => exact .inl h
  case isFalse hon =>
    rw [if_neg hon]
    split at h
    case isTrue hheld => exact .inl (List.mem_filter.mp h).1
    case isFalse hnew =>
      rw [if_neg hnew]
      rcases List.mem_append.mp h with hold | hlast
      · refine .inl (List.mem_filter.mp (?_ : entry ∈ deduper.retained call.2)).1
        rw [roomFor] at hold
        split at hold
        case isTrue => exact List.mem_of_mem_drop hold
        case isFalse => exact hold
      · exact .inr ⟨List.mem_singleton.mp hlast, rfl⟩

theorem mem_entries_run (h : entry ∈ (run step deduper calls).entries) :
    entry ∈ deduper.entries ∨ entry ∈ admitted deduper calls := by
  induction calls generalizing deduper with
  | nil => exact .inl h
  | cons call calls ih =>
    rw [admitted]
    rcases ih h with hstep | hrest
    · rcases mem_entries_step hstep with hold | ⟨rfl, hadmitted⟩
      · exact .inl hold
      · rw [if_pos hadmitted]
        exact .inr List.mem_cons_self
    · grind

/-! ## §3 Copies -/

/-- The entry is in the ring, with at most so many younger ones. -/
def HeldBefore (deduper : RecoveryRequestDeduper) (entry : Call) (younger : Nat) : Prop :=
  ∃ older newer, deduper.entries = older ++ entry :: newer ∧ newer.length ≤ younger

theorem HeldBefore.mem (h : deduper.HeldBefore entry younger) : entry ∈ deduper.entries := by
  obtain ⟨older, newer, hentries, -⟩ := h
  rw [hentries]
  exact List.mem_append_right _ List.mem_cons_self

theorem heldBefore_admitted
    (hon : F64.zero.lt deduper.windowSeconds) (h : (deduper.admitDatagram call.1 call.2).1 = true) :
    (deduper.step call).HeldBefore call 0 := by
  rw [step]
  rw [admitDatagram] at h ⊢
  rw [if_neg (by simp [hon])] at h ⊢
  split at h
  case isTrue => cases h
  case isFalse hnew =>
    rw [if_neg hnew]
    exact ⟨_, [], rfl, Nat.le_refl 0⟩

/-- Room for one more is made behind an entry that has fewer younger ones than
fit beside it. -/
theorem roomFor_keeps {older newer : List Call}
    (h : newer.length + 1 < capacity) (hfits : (older ++ entry :: newer).length ≤ capacity) :
    ∃ rest, roomFor capacity (older ++ entry :: newer) = rest ++ entry :: newer := by
  rw [roomFor]
  split
  case isFalse => exact ⟨older, rfl⟩
  case isTrue hfull =>
    grind

/-- A call before the entry has aged keeps it, with one younger entry more
when the call's own datagram was let through. -/
theorem heldBefore_step (hon : F64.zero.lt deduper.windowSeconds) (hheld : deduper.HeldBefore entry younger)
    (hage : aged deduper.windowSeconds call.2 entry.2 = false)
    (hroom : (deduper.admitDatagram call.1 call.2).1 = true → younger + 1 < deduper.capacity) :
    (deduper.step call).HeldBefore entry
      (if (deduper.admitDatagram call.1 call.2).1 then younger + 1 else younger) := by
  obtain ⟨older, newer, hentries, hnewer⟩ := hheld
  let young (entry : Call) : Bool := !aged deduper.windowSeconds call.2 entry.2
  have hretained : deduper.retained call.2 = older.filter young ++ entry :: newer.filter young := by
    rw [retained, hentries, List.filter_append, List.filter_cons_of_pos (by simp [hage])]
  have hyounger : (newer.filter young).length ≤ younger := Nat.le_trans (List.length_filter_le ..) hnewer
  rw [admitDatagram, if_neg (by simp [hon])] at hroom
  rw [step, admitDatagram, if_neg (by simp [hon])]
  split
  case isTrue => exact ⟨_, _, hretained, hyounger⟩
  case isFalse hnew =>
    have hcapacity := hroom (by rw [if_neg hnew])
    have hbound := deduper.length_retained call.2
    rw [hretained] at hbound
    obtain ⟨rest, hrest⟩ := roomFor_keeps (by omega) hbound
    refine ⟨rest, newer.filter young ++ [call], ?_, by simpa using hyounger⟩
    show roomFor _ (deduper.retained call.2) ++ [call] = _
    rw [hretained, hrest, List.append_assoc, List.cons_append]

/-- Calls before the entry has aged keep it, while those let through fit
beside it. -/
theorem heldBefore_run (hon : F64.zero.lt deduper.windowSeconds) (hheld : deduper.HeldBefore entry younger)
    (hage : ∀ call ∈ calls, aged deduper.windowSeconds call.2 entry.2 = false)
    (hroom : younger + (admitted deduper calls).length < deduper.capacity) :
    ∃ younger, (run step deduper calls).HeldBefore entry younger := by
  induction calls generalizing deduper younger with
  | nil => exact ⟨younger, hheld⟩
  | cons call calls ih =>
    obtain ⟨hcall, hcalls⟩ := List.forall_mem_cons.mp hage
    rw [admitted] at hroom
    have hnext := heldBefore_step hon hheld hcall fun hadmitted => by
      grind
    refine ih (by simpa using hon) hnext (by simpa using hcalls) ?_
    rw [capacity_step]
    split at hroom
    case isTrue hadmitted =>
      grind
    case isFalse hdropped =>
      rw [if_neg hdropped]
      exact hroom

theorem copy_of_dropped {windowSeconds : F64}
    (h : ((run step (new windowSeconds capacity) calls).admitDatagram datagram now).1 = false) :
    ∃ acceptedAt, (datagram, acceptedAt) ∈ admitted (new windowSeconds capacity) calls := by
  obtain ⟨-, acceptedAt, hentry, -⟩ := admitDatagram_eq_false.mp h
  rcases mem_entries_run hentry with hnone | hadmitted
  · cases hnone
  · exact ⟨acceptedAt, hadmitted⟩

/-- A copy of what was let through is dropped, up to the first call that comes
when it has aged, while fewer others were let through than the ring holds. -/
theorem copy_dropped {acceptedAt : F64} (hon : F64.zero.lt deduper.windowSeconds)
    (hfirst : (deduper.admitDatagram datagram acceptedAt).1 = true)
    (hage : ∀ call ∈ calls ++ [(datagram, now)], aged deduper.windowSeconds call.2 acceptedAt = false)
    (hroom : (admitted (deduper.step (datagram, acceptedAt)) calls).length < deduper.capacity) :
    ((run step (deduper.step (datagram, acceptedAt)) calls).admitDatagram datagram now).1 = false := by
  obtain ⟨hcalls, hlast⟩ := List.forall_mem_append.mp hage
  have hheld : (deduper.step (datagram, acceptedAt)).HeldBefore (datagram, acceptedAt) 0 :=
    heldBefore_admitted hon hfirst
  have hwindow := deduper.windowSeconds_step (datagram, acceptedAt)
  have hcapacity := deduper.capacity_step (datagram, acceptedAt)
  have hopen : F64.zero.lt (deduper.step (datagram, acceptedAt)).windowSeconds := hwindow ▸ hon
  rw [← hwindow] at hcalls
  rw [← hcapacity, ← Nat.zero_add (admitted _ calls).length] at hroom
  obtain ⟨younger, hstill⟩ := heldBefore_run hopen hheld hcalls hroom
  rw [admitDatagram_eq_false, windowSeconds_run, hwindow]
  exact ⟨hon, acceptedAt, hstill.mem, hlast (datagram, now) List.mem_cons_self⟩

end RecoveryRequestDeduper

open RecoveryMessage RecoveryRequestDeduper

/-- A message that fits is read back from its bytes, and whatever is read is
spelled that one way, with nothing behind it. So two datagrams of one request
are the same bytes: when the first was let through, the second is dropped while
it has not aged and fewer others than the ring holds came between; and what is
dropped is a copy of what was let through. -/
theorem RecoveryMessage.canonical_and_deduped (deduper : RecoveryRequestDeduper)
    (hon : F64.zero.lt deduper.windowSeconds) :
    (∀ message : RecoveryMessage, message.Fits → decode message.encode = .ok message) ∧
    (∀ datagram message, decode datagram = .ok message → message.encode = datagram ∧
      ∀ rest, rest ≠ [] → ∀ message', decode (datagram ++ rest) ≠ .ok message') ∧
    (∀ datagram copy message, decode datagram = .ok message → decode copy = .ok message →
      ∀ acceptedAt now calls, (deduper.admitDatagram datagram acceptedAt).1 = true →
      (∀ call ∈ calls ++ [(copy, now)], aged deduper.windowSeconds call.2 acceptedAt = false) →
      (admitted (deduper.step (datagram, acceptedAt)) calls).length < deduper.capacity →
      ((run step (deduper.step (datagram, acceptedAt)) calls).admitDatagram copy now).1 = false) ∧
    (∀ windowSeconds capacity calls datagram now,
      ((run step (new windowSeconds capacity) calls).admitDatagram datagram now).1 = false →
      ∃ acceptedAt, (datagram, acceptedAt) ∈ admitted (new windowSeconds capacity) calls) := by
  have hsame {datagram message} (h : decode datagram = .ok message) : datagram = message.encode :=
    (decode_eq_ok.mp h).2
  refine ⟨fun message hfits => decode_eq_ok.mpr ⟨hfits, rfl⟩, fun datagram message hread => ?_, ?_, ?_⟩
  · refine ⟨(hsame hread).symm, fun rest hrest message' hlonger => hrest ?_⟩
    exact datagrams_prefixFree datagram rest ⟨message, decode_eq_ok.mp hread⟩ ⟨message', decode_eq_ok.mp hlonger⟩
  · intro datagram copy message hdatagram hcopy acceptedAt now calls hfirst hage hroom
    obtain rfl : datagram = copy := (hsame hdatagram).trans (hsame hcopy).symm
    exact copy_dropped hon hfirst hage hroom
  · intro windowSeconds capacity calls datagram now hdropped
    exact copy_of_dropped hdropped

theorem RecoveryMessage.canonical_and_deduped_at_once :
    ((run step ((new defaultWindowSeconds defaultCapacity).step ((RecoveryMessage.ack 7).encode, F64.one))
      []).admitDatagram (RecoveryMessage.ack 7).encode F64.one).1 = false :=
  (RecoveryMessage.canonical_and_deduped (new defaultWindowSeconds defaultCapacity) (by decide +kernel)).2.2.1
    (RecoveryMessage.ack 7).encode (RecoveryMessage.ack 7).encode (.ack 7) (decode_encode (.ack 7))
    (decode_encode (.ack 7)) F64.one F64.one [] (by decide +kernel) (by decide +kernel) (by decide +kernel)

/-- A list past the cap is read back cut, and a copy that comes a second after
the first is let through again. -/
theorem RecoveryMessage.cut_and_let_through_again :
    decode (requestFragments 0 (List.replicate 65 7)).encode ≠
        .ok (requestFragments 0 (List.replicate 65 7)) ∧
      (((new defaultWindowSeconds defaultCapacity).step
        ((RecoveryMessage.ack 7).encode, F64.one)).admitDatagram (RecoveryMessage.ack 7).encode F64.two).1 = true := by
  constructor
  · rw [decode_encode]
    decide
  · decide +kernel

end SlopDesk.Video
