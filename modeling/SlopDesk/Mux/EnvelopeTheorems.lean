/-
SlopDesk.Mux.EnvelopeTheorems — the envelope's encoder, size count and
decoder agree.

`bodyBytes` is the layout. §1 the encoder writes it and the count counts
it. §2 the decoder reads it back; the rules for a field whose presence is
inferred come first. §3 compares the two decodes on every input; that
neither panics is part of their agreeing.
-/
import SlopDesk.Mux.Envelope
import SlopDesk.Wire.CodecTheorems

namespace SlopDesk.Mux

open SlopDesk.Base
open SlopDesk.Base.Parser
open SlopDesk.Wire

/-! ## §1 The layout, and that the encoder writes it -/

/-- A field that may be absent, and is then no bytes at all. -/
def optField (field : α → List UInt8) : Option α → List UInt8
  | some value => field value
  | none => []

/-- A reason is absent when it is the default. -/
def reasonField (reason : MuxCloseReason) : List UInt8 :=
  match reason with
  | .retired => []
  | .subscriberEvicted => [1]

namespace MuxFrame

/-- The layout of one kind's body. -/
def bodyBytes (f : MuxFrame) (payload : List UInt8) : List UInt8 :=
  match f with
  | .channelOpen _ sessionId lastReceivedSeq channelClass initialCwd =>
    sessionId.bytes ++ (toBe 8 lastReceivedSeq.toUInt64.toNat ++ ([channelClass] ++
      optField strField initialCwd))
  | .channelOpenAck _ accepted resumeFromSeq =>
    [boolByte accepted] ++ toBe 8 resumeFromSeq.toUInt64.toNat
  | .channelData .. => payload
  | .channelClose _ reason => reasonField reason
  | .windowAdjust _ bytesToAdd => toBe 4 bytesToAdd.toNat

theorem writes_encodeBody (f : MuxFrame) (payload : List UInt8) :
    Writes (encodeBody f payload) (bodyBytes f payload) := by
  cases f with
  | channelOpen channelId sessionId lastReceivedSeq channelClass initialCwd =>
    refine (writes_putBytes _).seq ((writes_putI64 _).seq ((writes_putU8 _).seq ?_))
    cases initialCwd with
    | none => exact writes_nil
    | some cwd => exact writes_putLengthPrefixedStr cwd
  | channelOpenAck channelId accepted resumeFromSeq =>
    exact (writes_putBool accepted).seq (writes_putI64 resumeFromSeq)
  | channelData channelId bytes => exact writes_putBytes payload
  | channelClose channelId reason =>
    cases reason with
    | retired => exact writes_nil
    | subscriberEvicted => exact writes_putU8 1
  | windowAdjust channelId bytesToAdd => exact writes_putU32 bytesToAdd

/-- The inner run: what the prefix counts. -/
def innerBytes (f : MuxFrame) (payload : List UInt8) : List UInt8 :=
  toBe 4 f.channelId.toNat ++ ([f.muxType.asByte] ++ bodyBytes f payload)

theorem writes_behind_length (f : MuxFrame) (payload : List UInt8) :
    Writes (do putU32 f.channelId; putU8 f.muxType.asByte; encodeBody f payload) (innerBytes f payload) :=
  (writes_putU32 _).seq ((writes_putU8 _).seq (writes_encodeBody f payload))

theorem encodeInto_eq (f : MuxFrame) (payload : List UInt8) : encodeInto f payload =
      patched (do putU32 f.channelId; putU8 f.muxType.asByte; encodeBody f payload)
        innerLength := rfl

theorem encode_eq (f : MuxFrame) : encode f = framed (innerBytes f f.opaquePayload) innerLength := by
  rw [encode, encodeInto_eq, (writes_behind_length f f.opaquePayload).patched_owned innerLength]
  rfl

theorem length_innerBytes_withPayload {f : MuxFrame} {payload : List UInt8}
    (h : (f.withPayload payload).opaquePayload = payload) :
    (innerBytes (f.withPayload payload) payload).length
      = (innerBytes f []).length + payload.length := by
  cases f with
  | channelData channelId bytes => simp [innerBytes, bodyBytes, withPayload]; omega
  | _ =>
    obtain rfl : payload = [] := h.symm
    rfl

theorem encodedByteCountWithPayload_eq {f : MuxFrame} {payload : List UInt8}
    (h : (f.withPayload payload).opaquePayload = payload) :
    f.encodedByteCountWithPayload payload.length = (encode (f.withPayload payload)).length := by
  rw [encodedByteCountWithPayload, encodeInto_eq,
    (writes_behind_length f []).patched_counted innerLength, encode_eq, h, length_framed,
    length_framed, length_innerBytes_withPayload h, Nat.add_assoc]

end MuxFrame

/-! ## §2 Reading the layout back -/

/-- An absent directory, an empty one, and one to spawn in. -/
def normalCwd : Option String → Option String
  | none => none
  | some cwd => if cwd = "" then none else some (clampU16Field cwd)

theorem utf8ByteSize_ne_zero {s : String} (h : s ≠ "") : s.utf8ByteSize ≠ 0 := by
  intro hzero
  apply h
  apply utf8Bytes_inj.mp
  apply List.eq_nil_of_length_eq_zero
  rw [length_utf8Bytes, hzero]

theorem clampU16Field_ne_empty {s : String} (h : s ≠ "") : clampU16Field s ≠ "" := by
  have hlongest := (clampUtf8_longest s maxLengthPrefixedBytes).longest
  intro hempty
  cases hchars : s.toList with
  | nil => exact h (String.toList_inj.mp hchars)
  | cons c cs =>
    have hpre : utf8Bytes (String.ofList [c]) <+: utf8Bytes s := by
      rw [utf8Bytes_isPrefix, String.toList_ofList, hchars]
      exact ⟨cs, rfl⟩
    have hsize : (String.ofList [c]).utf8ByteSize = c.utf8Size := by
      simp [charBytes]
    have hfit := hlongest (String.ofList [c]) hpre
      (by have := c.utf8Size_le_four; simp only [maxLengthPrefixedBytes]; omega)
    rw [hsize, ← clampU16Field, hempty] at hfit
    have hpos := c.utf8Size_pos
    have hzero : "".utf8ByteSize = 0 := rfl
    omega

/-- The length of a clamped string, as it travels. -/
def lengthField (s : String) : UInt16 := UInt16.ofNat (clampU16Field s).utf8ByteSize

theorem toNat_lengthField (s : String) : (lengthField s).toNat = (clampU16Field s).utf8ByteSize := by
  have hsize := clampU16Field_size s
  exact Nat.mod_eq_of_lt (by omega)

theorem reads_strField {f : UInt16 → List UInt8 → Decoder α} {Q : α → Prop} (s : String)
    (h : ReadsRestTo (f (lengthField s) (utf8Bytes (clampU16Field s))) [] Q) :
    ReadsRestTo (readU16 >>= fun length => readBytes length.toNat >>= f length) (strField s) Q := by
  have hlen := reads_readU16 (lengthField s)
  have hbytes := reads_readBytes (utf8Bytes (clampU16Field s))
  rw [toNat_lengthField] at hlen
  rw [length_utf8Bytes, ← toNat_lengthField] at hbytes
  have hfield := Reads.bindRest hbytes h
  rw [List.append_nil] at hfield
  exact Reads.bindRest hlen hfield

namespace MuxFrame

theorem readsRest_readInitialCwd (initialCwd : Option String) :
    ReadsRest readInitialCwd (optField strField initialCwd) (normalCwd initialCwd) := by
  apply readsRestTo_bytesRemaining
  cases initialCwd with
  | none => exact readsRest_pure none
  | some cwd =>
    apply reads_strField cwd
    apply readsRestTo_bytesRemaining
    by_cases hempty : cwd = ""
    case pos =>
      subst hempty
      exact readsRest_pure none
    case neg =>
      have hlen : lengthField cwd ≠ 0 := by
        intro hzero
        have hsize := toNat_lengthField cwd
        rw [hzero] at hsize
        exact utf8ByteSize_ne_zero (clampU16Field_ne_empty hempty) hsize.symm
      have hutf8 : String.fromUTF8? ⟨(utf8Bytes (clampU16Field cwd)).toArray⟩
          = some (clampU16Field cwd) := by
        exact dif_pos (clampU16Field cwd).isValidUTF8
      rw [if_neg hlen, hutf8, normalCwd, if_neg hempty]
      exact readsRest_pure _

theorem readsRest_readResumeFromSeq (seq : Int64) :
    ReadsRest readResumeFromSeq (toBe 8 seq.toUInt64.toNat) seq := by
  apply readsRestTo_bytesRemaining
  have hseq : ReadsRest (readI64 >>= fun seq => bytesRemaining >>= fun left =>
      if left ≠ 0 then .throw (.malformedBody "channelOpenAck: trailing bytes") else pure seq)
      (toBe 8 seq.toUInt64.toNat ++ []) seq := by
    apply Reads.bindRest (reads_readI64 seq)
    apply readsRestTo_bytesRemaining
    exact readsRest_pure seq
  rwa [List.append_nil] at hseq

theorem readsRest_readCloseReason (reason : MuxCloseReason) :
    ReadsRest readCloseReason (reasonField reason) reason := by
  apply readsRestTo_bytesRemaining
  cases reason with
  | retired => exact readsRest_pure _
  | subscriberEvicted =>
    apply Reads.bindRest (reads_readU8 1)
    apply readsRestTo_bytesRemaining
    exact readsRest_pure _

/-- The frame as it comes back. -/
def normalised : MuxFrame → MuxFrame
  | .channelOpen channelId sessionId lastReceivedSeq channelClass initialCwd =>
    .channelOpen channelId sessionId lastReceivedSeq channelClass (normalCwd initialCwd)
  | f => f

theorem fromByte_asByte (t : MuxFrameType) : MuxFrameType.fromByte t.asByte = some t := by
  cases t <;> rfl

theorem ReadsRestTo.withoutPayload {p : Decoder MuxFrame} {bs : List UInt8} {f : MuxFrame}
    (h : ReadsRest p bs f) : ReadsRestTo (withoutPayload p) bs fun r => r.1 = f :=
  h.map fun _ hf => hf

theorem readsRestTo_decodeBody (f : MuxFrame) :
    ReadsRestTo (decodeBody false f.channelId f.muxType) (bodyBytes f f.opaquePayload)
      fun r => r.1 = f.normalised := by
  cases f with
  | channelOpen channelId sessionId lastReceivedSeq channelClass initialCwd =>
    obtain ⟨bytes, hsize⟩ := sessionId
    have hid := reads_readBytes bytes
    rw [hsize] at hid
    apply ReadsRestTo.withoutPayload
    apply Reads.bindRest hid
    apply Reads.bindRest (reads_readI64 lastReceivedSeq)
    apply Reads.bindRest (reads_readU8 channelClass)
    rw [dif_pos hsize]
    exact (readsRest_readInitialCwd initialCwd).answer rfl
  | channelOpenAck channelId accepted resumeFromSeq =>
    apply ReadsRestTo.withoutPayload
    apply Reads.bindRest (reads_readBool accepted)
    exact (readsRest_readResumeFromSeq resumeFromSeq).answer rfl
  | channelData channelId payload =>
    exact (readsRestTo_readTrailingPayload payload).map fun r hr => by rw [hr]; rfl
  | channelClose channelId reason =>
    exact ReadsRestTo.withoutPayload ((readsRest_readCloseReason reason).answer rfl)
  | windowAdjust channelId bytesToAdd =>
    exact ReadsRestTo.withoutPayload ((reads_readU32 bytesToAdd).answer rfl).rest

theorem readsRestTo_decodeInner (f : MuxFrame) :
    ReadsRestTo (decodeInner false) (innerBytes f f.opaquePayload) fun r => r.1 = f.normalised := by
  apply Reads.bindRest (reads_readU32 f.channelId)
  apply Reads.bindRest (reads_readU8 f.muxType.asByte)
  rw [fromByte_asByte]
  exact readsRestTo_decodeBody f

/-! ## §3 The two decodes -/

/-- What the eliding decode answers against what the plain one does. -/
structure Elides (inner : List UInt8) (r : MuxFrame × ByteRange) (f : MuxFrame) : Prop where
  empty : r.1.opaquePayload = []
  inside : r.2.start ≤ r.2.stop ∧ r.2.stop ≤ inner.length
  selects : r.2.get? inner = some f.opaquePayload
  putBack : r.1.withPayload f.opaquePayload = f

/-- No run of `p` panics, and the frame it answers carries no payload. -/
def PayloadFree (p : Decoder MuxFrame) : Prop :=
  Agree (fun _ a b => a = b ∧ a.withPayload [] = a) p p

theorem payloadFree_pure {f : MuxFrame} (h : f.withPayload [] = f) : PayloadFree (pure f) :=
  agree_pure fun _ => ⟨rfl, h⟩

theorem opaquePayload_withPayload_nil (f : MuxFrame) : (f.withPayload []).opaquePayload = [] := by
  cases f <;> rfl

theorem PayloadFree.elides {p : Decoder MuxFrame} (hp : PayloadFree p) :
    Agree (fun inner r f => Elides inner r f.1) (withoutPayload p) (withoutPayload p) := by
  refine hp.map fun inner a b h => ?_
  obtain ⟨rfl, hfree⟩ := h
  have hempty := opaquePayload_withPayload_nil a
  rw [hfree] at hempty
  refine ⟨hempty, ⟨Nat.le_refl 0, Nat.zero_le _⟩, ?_, ?_⟩
  · rw [hempty]
    exact get?_of_le (Nat.le_refl 0) (Nat.zero_le _)
  · rw [hempty, hfree]

theorem safe_readInitialCwd : Safe readInitialCwd := by
  refine safe_bytesRemaining.bind fun left => ?_
  by_cases hleft : left = 0
  case pos =>
    rw [if_pos hleft]
    exact safe_pure none
  case neg =>
    rw [if_neg hleft]
    refine safe_readU16.bind fun length => (safe_readBytes _).bind fun bytes =>
      safe_bytesRemaining.bind fun left => ?_
    split
    · exact safe_throw _
    · split
      · exact safe_pure none
      · split
        · exact safe_pure _
        · exact safe_throw _

theorem safe_readResumeFromSeq : Safe readResumeFromSeq := by
  refine safe_bytesRemaining.bind fun left => ?_
  by_cases hleft : left = 0
  case pos =>
    rw [if_pos hleft]
    exact safe_pure 0
  case neg =>
    rw [if_neg hleft]
    refine safe_readI64.bind fun seq => safe_bytesRemaining.bind fun left => ?_
    split
    · exact safe_throw _
    · exact safe_pure seq

theorem safe_readCloseReason : Safe readCloseReason := by
  refine safe_bytesRemaining.bind fun left => ?_
  by_cases hleft : left = 0
  case pos =>
    rw [if_pos hleft]
    exact safe_pure _
  case neg =>
    rw [if_neg hleft]
    refine safe_readU8.bind fun reason => safe_bytesRemaining.bind fun left => ?_
    split
    · exact safe_throw _
    · exact safe_pure _

theorem agree_decodeBody (channelId : UInt32) (muxType : MuxFrameType) :
    Agree (fun inner r f => Elides inner r f.1) (decodeBody true channelId muxType)
      (decodeBody false channelId muxType) := by
  cases muxType with
  | channelOpen =>
    refine PayloadFree.elides ((safe_readBytes _).bind fun idBytes => safe_readI64.bind fun _ =>
      safe_readU8.bind fun _ => ?_)
    by_cases hsize : idBytes.length = sessionIdByteCount
    case pos =>
      rw [dif_pos hsize]
      exact safe_readInitialCwd.bind fun _ => payloadFree_pure rfl
    case neg =>
      rw [dif_neg hsize]
      exact agree_throw _
  | channelOpenAck =>
    exact PayloadFree.elides (safe_readBool.bind fun _ => safe_readResumeFromSeq.bind fun _ =>
      payloadFree_pure rfl)
  | channelData =>
    refine agree_readTrailingPayload.map fun inner a b h => ?_
    obtain ⟨hnil, hget⟩ := h
    exact ⟨hnil, inside_of_get? hget, hget, rfl⟩
  | channelClose =>
    exact PayloadFree.elides (safe_readCloseReason.bind fun _ => payloadFree_pure rfl)
  | windowAdjust =>
    exact PayloadFree.elides (safe_readU32.bind fun _ => payloadFree_pure rfl)

theorem agree_decodeInner :
    Agree (fun inner r f => Elides inner r f.1) (decodeInner true) (decodeInner false) := by
  refine safe_readU32.bind fun channelId => safe_readU8.bind fun typeByte => ?_
  cases MuxFrameType.fromByte typeByte with
  | none => exact agree_throw _
  | some muxType => exact agree_decodeBody channelId muxType

theorem decode_agrees (inner : List UInt8) :
    Outcome.Agree (Elides inner) (decodeLeavingPayload inner) (decode inner) :=
  (agree_decodeInner inner 0 (Nat.zero_le _)).bind fun _ _ h => h.2.2

theorem decode_ne_panicked (inner : List UInt8) : decode inner ≠ .panicked :=
  (decode_agrees inner).ne_panicked

theorem innerLength_of_lt {n : Nat} (h : n < 2 ^ 32) : (innerLength n).toNat = n := by
  rw [innerLength, if_pos h, UInt32.toNat_ofNat', Nat.mod_eq_of_lt h]

/-- Decoding an encoded frame gives it back, an empty directory absent and
a long one clamped to its longest prefix; the prefix is the length of the
rest; the count is the encoded length whatever payload goes with the
frame; and on every input decoding does not panic, and with the payload
left in place accepts alike and selects the same payload bytes. -/
theorem muxFrame_roundTrip (f : MuxFrame) (h : (encode f).length - 4 < 2 ^ 32) :
    decode ((encode f).drop 4) = .ok f.normalised ∧
    (encode f).take 4 = toBe 4 ((encode f).length - 4) ∧
    (∀ f' : MuxFrame, f'.withPayload f.opaquePayload = f →
      f'.encodedByteCountWithPayload f.opaquePayload.length = (encode f).length) ∧
    (∀ inner, decode inner ≠ .panicked ∧
      Outcome.Agree (Elides inner) (decodeLeavingPayload inner) (decode inner)) ∧
    ∀ s, LongestUtf8Prefix 65535 s (clampU16Field s) := by
  refine ⟨?_, ?_, ?_, fun inner => ⟨decode_ne_panicked inner, decode_agrees inner⟩,
    fun s => clampUtf8_longest s _⟩
  · obtain ⟨r, hr, hrun⟩ := readsRestTo_decodeInner f []
    have hdrop : (encode f).drop 4 = innerBytes f f.opaquePayload := by
      rw [encode_eq]
      exact List.drop_left' (length_toBe 4 _)
    rw [List.nil_append, List.length_nil] at hrun
    rw [decode, hdrop, hrun, ← hr]
    rfl
  · rw [encode_eq, length_framed, Nat.add_sub_cancel_left] at h ⊢
    rw [framed, innerLength_of_lt h]
    exact List.take_left' (length_toBe 4 _)
  · intro f' hf'
    have hown : (f'.withPayload f.opaquePayload).opaquePayload = f.opaquePayload := by rw [hf']
    rw [encodedByteCountWithPayload_eq hown, hf']

theorem muxFrame_roundTrip_open :
    let f := MuxFrame.channelOpen 7 ⟨List.replicate 16 3, rfl⟩ (-1) 0 (some "")
    (encode f).length - 4 < 2 ^ 32 ∧ decode ((encode f).drop 4) =
      .ok (.channelOpen 7 ⟨List.replicate 16 3, rfl⟩ (-1) 0 none) :=
  ⟨by decide, (muxFrame_roundTrip _ (by decide)).1⟩

end MuxFrame

end SlopDesk.Mux
