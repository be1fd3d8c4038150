/-
SlopDesk.Wire.CodecTheorems — the three tables of the message codec agree.

`bodyBytes` is the layout: the bytes of one message's body, as a list.
§1 `encodeBody` writes it, on any sink. §2 `wireByteCount` is its length
and five. §3 `decodeBody` reads it back, up to the strings the layout
clamps. §4 puts the three together with the length prefix. §5 compares
the two decodes, over every input and not only encoded ones.
-/
import SlopDesk.Wire.BytesTheorems
import SlopDesk.Wire.Codec

namespace SlopDesk.Wire

open SlopDesk.Base
open SlopDesk.Base.Parser

variable {m : WireMessage} {run : List UInt8}
variable {bs data : List UInt8} {p : Decoder WireMessage}

/-! ## §1 The layout, and that the encoder writes it -/

/-- A run behind its 32-bit length. -/
def sizedField (run : List UInt8) : List UInt8 :=
  toBe 4 (wireLength run.length).toNat ++ run

/-- A boolean's byte. -/
def boolByte (b : Bool) : UInt8 := if b then 1 else 0

/-- The layout of one kind's body. -/
def bodyBytes (m : WireMessage) (run : List UInt8) : List UInt8 :=
  match m with
  | .output seq _ => toBe 8 seq.toUInt64.toNat ++ run
  | .exit code => toBe 4 code.toUInt32.toNat
  | .input _ => run
  | .hello protocolVersion sessionId lastReceivedSeq =>
    toBe 2 protocolVersion.toNat ++ (sessionId.bytes ++ toBe 8 lastReceivedSeq.toUInt64.toNat)
  | .resize cols rows pxWidth pxHeight =>
    toBe 2 cols.toNat ++ (toBe 2 rows.toNat ++ (toBe 2 pxWidth.toNat ++ toBe 2 pxHeight.toNat))
  | .ack seq => toBe 8 seq.toUInt64.toNat
  | .bye | .bell => []
  | .ping timestampMs | .pong timestampMs => toBe 8 timestampMs.toNat
  | .requestBlockOutput index => toBe 4 index.toNat
  | .helloAck sessionId resumeFromSeq returningClient =>
    sessionId.bytes ++ (toBe 8 resumeFromSeq.toUInt64.toNat ++ [boolByte returningClient])
  | .title text | .cwd text | .projectKey text | .agentSessionIntent text => utf8Bytes text
  | .foregroundProcess name => utf8Bytes name
  | .projectGitStatus status =>
    strField status.repoRoot ++ (strField status.branch ++ (toBe 4 status.ahead.toUInt32.toNat ++
      (toBe 4 status.behind.toUInt32.toNat ++ (toBe 4 status.stashCount.toUInt32.toNat ++
      (toBe 4 status.staged.toNat ++ (toBe 4 status.modified.toNat ++
      (toBe 4 status.untracked.toNat ++ (toBe 4 status.conflicted.toNat ++
      toBe 4 status.changedCount.toNat))))))))
  | .notification name text => strField name ++ utf8Bytes text
  | .claudeStatus state kind label => [state] ++ ([kind] ++ strField label)
  | .commandBlock index exitCode durationMs complete outputLen commandText promptOrdinal =>
    toBe 4 index.toNat ++ ([boolByte exitCode.isSome] ++
      (toBe 4 (exitCode.getD 0).toUInt32.toNat ++ ([boolByte durationMs.isSome] ++
      (toBe 4 (durationMs.getD 0).toNat ++ ([boolByte complete] ++ (toBe 4 outputLen.toNat ++
      (toBe 4 promptOrdinal.toNat ++ strField commandText)))))))
  | .blockOutput index _ => toBe 4 index.toNat ++ sizedField run
  | .metadataRequest id tag _ | .metadataResponse id tag _ | .workspaceRequest id tag _ =>
    toBe 4 id.toNat ++ ([tag] ++ sizedField run)
  | .workspaceEvent kind epoch baseStateNum newStateNum _ =>
    [kind] ++ (epoch.bytes ++ (toBe 8 baseStateNum.toUInt64.toNat ++
      (toBe 8 newStateNum.toUInt64.toNat ++ sizedField run)))
  | .inputEcho enabled => [boolByte enabled]
  | .progress state percent => [state] ++ [percent]
  | .commandStatus .running => [0]
  | .commandStatus (.idle exitCode durationMs) =>
    [1] ++ ([boolByte exitCode.isSome] ++
      (toBe 4 (exitCode.getD 0).toUInt32.toNat ++ toBe 4 durationMs.toNat))

theorem writes_sizedField (run : List UInt8) :
    Writes (do putU32 (wireLength run.length); putBytes run) (sizedField run) :=
  (writes_putU32 _).seq (writes_putBytes run)

theorem writes_encodeBody (m : WireMessage) (run : List UInt8) :
    Writes (encodeBody m run) (bodyBytes m run) := by
  cases m with
  | output seq bytes => exact (writes_putI64 seq).seq (writes_putBytes run)
  | exit code => exact writes_putI32 code
  | input bytes => exact writes_putBytes run
  | hello protocolVersion sessionId lastReceivedSeq =>
    exact (writes_putU16 _).seq ((writes_putBytes _).seq (writes_putI64 _))
  | resize cols rows pxWidth pxHeight =>
    exact (writes_putU16 _).seq ((writes_putU16 _).seq ((writes_putU16 _).seq (writes_putU16 _)))
  | ack seq => exact writes_putI64 seq
  | bye => exact writes_nil
  | bell => exact writes_nil
  | ping timestampMs => exact writes_putU64 timestampMs
  | pong timestampMs => exact writes_putU64 timestampMs
  | requestBlockOutput index => exact writes_putU32 index
  | metadataRequest id tag payload =>
    exact (writes_putU32 id).seq ((writes_putU8 tag).seq (writes_sizedField run))
  | metadataResponse id tag payload =>
    exact (writes_putU32 id).seq ((writes_putU8 tag).seq (writes_sizedField run))
  | workspaceRequest id tag payload =>
    exact (writes_putU32 id).seq ((writes_putU8 tag).seq (writes_sizedField run))
  | helloAck sessionId resumeFromSeq returningClient =>
    exact (writes_putBytes _).seq ((writes_putI64 _).seq (writes_putBool _))
  | title text => exact writes_putBytes _
  | cwd text => exact writes_putBytes _
  | projectKey text => exact writes_putBytes _
  | agentSessionIntent text => exact writes_putBytes _
  | foregroundProcess name => exact writes_putBytes _
  | commandStatus status =>
    cases status with
    | running => exact writes_putU8 0
    | idle exitCode durationMs =>
      exact (writes_putU8 1).seq ((writes_putBool _).seq ((writes_putI32 _).seq (writes_putU32 _)))
  | notification name text => exact (writes_putLengthPrefixedStr _).seq (writes_putBytes _)
  | claudeStatus state kind label =>
    exact (writes_putU8 _).seq ((writes_putU8 _).seq (writes_putLengthPrefixedStr _))
  | commandBlock index exitCode durationMs complete outputLen commandText promptOrdinal =>
    exact (writes_putU32 _).seq ((writes_putBool _).seq ((writes_putI32 _).seq
      ((writes_putBool _).seq ((writes_putU32 _).seq ((writes_putBool _).seq
      ((writes_putU32 _).seq ((writes_putU32 _).seq (writes_putLengthPrefixedStr _))))))))
  | blockOutput index bytes => exact (writes_putU32 index).seq (writes_sizedField run)
  | inputEcho enabled => exact writes_putBool enabled
  | progress state percent => exact (writes_putU8 state).seq (writes_putU8 percent)
  | projectGitStatus status =>
    exact (writes_putLengthPrefixedStr _).seq ((writes_putLengthPrefixedStr _).seq
      ((writes_putI32 _).seq ((writes_putI32 _).seq ((writes_putI32 _).seq ((writes_putU32 _).seq
      ((writes_putU32 _).seq ((writes_putU32 _).seq ((writes_putU32 _).seq
      (writes_putU32 _)))))))))
  | workspaceEvent kind epoch baseStateNum newStateNum payload =>
    exact (writes_putU8 kind).seq ((writes_putBytes _).seq ((writes_putI64 _).seq
      ((writes_putI64 _).seq (writes_sizedField run))))

/-! ## §2 The size table -/

@[simp] theorem length_sizedField (run : List UInt8) : (sizedField run).length = 4 + run.length := by
  simp [sizedField]

theorem wireByteCount_eq (m : WireMessage) :
    m.wireByteCount = 4 + 1 + (bodyBytes m m.opaqueRun).length := by
  cases m with
  | commandStatus status =>
    cases status <;> simp [WireMessage.wireByteCount, bodyBytes]
  | hello protocolVersion sessionId lastReceivedSeq =>
    simp [WireMessage.wireByteCount, bodyBytes, sessionId.size, sessionIdByteCount]
  | helloAck sessionId resumeFromSeq returningClient =>
    simp [WireMessage.wireByteCount, bodyBytes, sessionId.size, sessionIdByteCount]
  | workspaceEvent kind epoch baseStateNum newStateNum payload =>
    simp [WireMessage.wireByteCount, WireMessage.opaqueRun, bodyBytes, epoch.size,
      sessionIdByteCount]
    omega
  | _ =>
    simp [WireMessage.wireByteCount, WireMessage.opaqueRun, bodyBytes] <;> omega

/-! ## §3 A run held apart from its message -/

theorem messageType_withRun (m : WireMessage) (run : List UInt8) :
    (m.withRun run).messageType = m.messageType := by
  cases m <;> rfl

theorem bodyBytes_withRun (m : WireMessage) (run' run : List UInt8) :
    bodyBytes (m.withRun run') run = bodyBytes m run := by
  cases m <;> rfl

theorem length_opaqueRun_le (m : WireMessage) : m.opaqueRun.length ≤ m.wireByteCount := by
  cases m <;> simp [WireMessage.opaqueRun, WireMessage.wireByteCount] <;> omega

theorem wireByteCount_withRun (m : WireMessage) (run : List UInt8) :
    (m.withRun run).wireByteCount + m.opaqueRun.length
      = m.wireByteCount + (m.withRun run).opaqueRun.length := by
  cases m <;>
    simp [WireMessage.withRun, WireMessage.opaqueRun, WireMessage.wireByteCount] <;> omega

theorem wireByteCountWithRun_eq (h : (m.withRun run).opaqueRun = run) :
    m.wireByteCountWithRun run.length = (m.withRun run).wireByteCount := by
  have hle := length_opaqueRun_le m
  have hsum := wireByteCount_withRun m run
  rw [h] at hsum
  rw [WireMessage.wireByteCountWithRun]
  omega

/-! ## §4 The frame around the body -/

/-- The bytes of a whole frame: the prefix counts the type byte and the body. -/
def frameBytes (m : WireMessage) (run : List UInt8) : List UInt8 :=
  framed ([m.messageType] ++ bodyBytes m run) wireLength

@[simp] theorem length_frameBytes (m : WireMessage) (run : List UInt8) :
    (frameBytes m run).length = 4 + 1 + (bodyBytes m run).length := by
  simp [frameBytes]
  omega

theorem frameBytes_withRun (m : WireMessage) (run' run : List UInt8) :
    frameBytes (m.withRun run') run = frameBytes m run := by
  rw [frameBytes, frameBytes, bodyBytes_withRun, messageType_withRun]

theorem writes_behind_length (m : WireMessage) (run : List UInt8) :
    Writes (do putU8 m.messageType; encodeBody m run) ([m.messageType] ++ bodyBytes m run) :=
  (writes_putU8 m.messageType).seq (writes_encodeBody m run)

theorem encodeInto_eq (m : WireMessage) (run : List UInt8) :
    encodeInto m run = patched (do putU8 m.messageType; encodeBody m run) wireLength := rfl

theorem encode_eq (m : WireMessage) : encode m = frameBytes m m.opaqueRun := by
  rw [encode, encodeInto_eq, (writes_behind_length m m.opaqueRun).patched_owned wireLength]
  rfl

/-- Lent room enough, the frame is written at the front of it and the rest
stays; lent less, nothing is written and the room it takes is answered. -/
theorem encodeWithRunInto_eq (h : (m.withRun run).opaqueRun = run) (out : List UInt8) :
    encodeWithRunInto m run out =
      if (frameBytes m run).length ≤ out.length
      then ((frameBytes m run).length, frameBytes m run ++ out.drop (frameBytes m run).length)
      else ((frameBytes m run).length, out) := by
  have hneeded : m.wireByteCountWithRun run.length = (frameBytes m run).length := by
    rw [wireByteCountWithRun_eq h, wireByteCount_eq, length_frameBytes, h, bodyBytes_withRun]
  unfold encodeWithRunInto
  simp only [hneeded, gt_iff_lt]
  by_cases hfit : (frameBytes m run).length ≤ out.length
  case neg => rw [if_pos (by omega), if_neg hfit]
  case pos =>
    rw [if_neg (by omega), if_pos hfit, encodeInto_eq,
      (writes_behind_length m run).patched_lent wireLength hfit]
    rfl

/-! ## §5 Reading the layout back -/

theorem readsTo_position {f : Nat → Decoder α} {Q : α → Prop}
    (h : ∀ start, ReadsTo (f start) bs Q) : ReadsTo (position >>= f) bs Q := by
  intro pre post
  exact h pre.length pre post

theorem readsTo_readSizedPayload (h : run.length < 2 ^ 32) :
    ReadsTo (readSizedPayload false) (sizedField run) fun r => r.1 = run := by
  have hlen : (wireLength run.length).toNat = run.length := by
    have hand : run.length &&& 0xFFFFFFFF = run.length % 2 ^ 32 :=
      Nat.and_two_pow_sub_one_eq_mod run.length 32
    rw [wireLength, hand, UInt32.toNat_ofNat', Nat.mod_mod, Nat.mod_eq_of_lt h]
  refine Reads.bind (reads_readU32 _) (readsTo_position fun start => ?_)
  rw [hlen]
  refine (reads_readBytes run).map fun bytes hbytes => ?_
  rw [hbytes]
  rfl

theorem readsRestTo_readTrailingPayload (run : List UInt8) :
    ReadsRestTo (readTrailingPayload false) run fun r => r.1 = run := by
  intro pre
  exact ⟨located false pre.length run, rfl, by simp [readTrailingPayload, position, remaining]⟩

theorem reads_readUuid (id : RawUuid) (field : String) : Reads (readUuid field) id.bytes id := by
  obtain ⟨bytes, hsize⟩ := id
  have hread := reads_readBytes bytes
  rw [hsize] at hread
  have h : Reads (readUuid field) (bytes ++ []) ⟨bytes, hsize⟩ := by
    refine Reads.bind hread ?_
    rw [dif_pos hsize]
    exact reads_pure rfl
  rwa [List.append_nil] at h

theorem ReadsRestTo.withoutRun (h : ReadsRest p bs m) : ReadsRestTo (withoutRun p) bs fun r => r.1 = m :=
  h.map fun _ hm => hm

/-- The message as it comes back: every length-prefixed string clamped. -/
def WireMessage.clamped : WireMessage → WireMessage
  | .notification name text => .notification (clampU16Field name) text
  | .claudeStatus state kind label => .claudeStatus state kind (clampU16Field label)
  | .commandBlock index exitCode durationMs complete outputLen commandText promptOrdinal =>
    .commandBlock index exitCode durationMs complete outputLen (clampU16Field commandText)
      promptOrdinal
  | .projectGitStatus status =>
    .projectGitStatus { status with
      repoRoot := clampU16Field status.repoRoot
      branch := clampU16Field status.branch }
  | m => m

theorem optional_back {α : Type} (o : Option α) (default : α) :
    (if o.isSome then some (o.getD default) else none) = o := by
  cases o <;> rfl

theorem readsRestTo_decodeBody (m : WireMessage) (h : (bodyBytes m m.opaqueRun).length < 2 ^ 32) :
    ReadsRestTo (decodeBody false m.messageType) (bodyBytes m m.opaqueRun)
      fun r => r.1 = m.clamped := by
  cases m with
  | output seq bytes =>
    exact Reads.bindRest (reads_readI64 seq)
      ((readsRestTo_readTrailingPayload bytes).map fun r hr => by rw [hr]; rfl)
  | exit code =>
    exact ReadsRestTo.withoutRun ((reads_readI32 code).answer rfl).rest
  | input bytes =>
    exact (readsRestTo_readTrailingPayload bytes).map fun r hr => by rw [hr]; rfl
  | hello protocolVersion sessionId lastReceivedSeq =>
    exact ReadsRestTo.withoutRun (Reads.bindRest (reads_readU16 _) (Reads.bindRest
      (reads_readUuid _ _) ((reads_readI64 _).answer rfl).rest))
  | resize cols rows pxWidth pxHeight =>
    exact ReadsRestTo.withoutRun (Reads.bindRest (reads_readU16 _) (Reads.bindRest
      (reads_readU16 _) (Reads.bindRest (reads_readU16 _) ((reads_readU16 _).answer rfl).rest)))
  | ack seq =>
    exact ReadsRestTo.withoutRun ((reads_readI64 seq).answer rfl).rest
  | bye => exact ReadsRestTo.withoutRun (readsRest_pure WireMessage.bye)
  | bell => exact ReadsRestTo.withoutRun (readsRest_pure WireMessage.bell)
  | ping timestampMs =>
    exact ReadsRestTo.withoutRun ((reads_readU64 timestampMs).answer rfl).rest
  | pong timestampMs =>
    exact ReadsRestTo.withoutRun ((reads_readU64 timestampMs).answer rfl).rest
  | requestBlockOutput index =>
    exact ReadsRestTo.withoutRun ((reads_readU32 index).answer rfl).rest
  | metadataRequest id tag payload =>
    have hrun : payload.length < 2 ^ 32 := by simp [bodyBytes, WireMessage.opaqueRun] at h; omega
    exact Reads.bindRest (reads_readU32 id) (Reads.bindRest (reads_readU8 tag)
      ((readsTo_readSizedPayload hrun).map fun r hr => by rw [hr]; rfl).rest)
  | metadataResponse id tag payload =>
    have hrun : payload.length < 2 ^ 32 := by simp [bodyBytes, WireMessage.opaqueRun] at h; omega
    exact Reads.bindRest (reads_readU32 id) (Reads.bindRest (reads_readU8 tag)
      ((readsTo_readSizedPayload hrun).map fun r hr => by rw [hr]; rfl).rest)
  | workspaceRequest id tag payload =>
    have hrun : payload.length < 2 ^ 32 := by simp [bodyBytes, WireMessage.opaqueRun] at h; omega
    exact Reads.bindRest (reads_readU32 id) (Reads.bindRest (reads_readU8 tag)
      ((readsTo_readSizedPayload hrun).map fun r hr => by rw [hr]; rfl).rest)
  | helloAck sessionId resumeFromSeq returningClient =>
    exact ReadsRestTo.withoutRun (Reads.bindRest (reads_readUuid _ _) (Reads.bindRest
      (reads_readI64 _) ((reads_readBool _).answer rfl).rest))
  | title text => exact ReadsRestTo.withoutRun ((reads_remainingStr text _).answer rfl)
  | cwd text => exact ReadsRestTo.withoutRun ((reads_remainingStr text _).answer rfl)
  | projectKey text => exact ReadsRestTo.withoutRun ((reads_remainingStr text _).answer rfl)
  | agentSessionIntent text => exact ReadsRestTo.withoutRun ((reads_remainingStr text _).answer rfl)
  | foregroundProcess name => exact ReadsRestTo.withoutRun ((reads_remainingStr name _).answer rfl)
  | commandStatus status =>
    cases status with
    | running =>
      exact ReadsRestTo.withoutRun (Reads.bindRest (reads_readU8 0)
        (readsRest_pure (WireMessage.commandStatus .running)))
    | idle exitCode durationMs =>
      exact ReadsRestTo.withoutRun (Reads.bindRest (reads_readU8 1) (Reads.bindRest
        (reads_readBool _) (Reads.bindRest (reads_readI32 _)
        ((reads_readU32 durationMs).answer (by rw [optional_back]; rfl)).rest)))
  | notification name text =>
    exact ReadsRestTo.withoutRun (Reads.bindRest (reads_readLengthPrefixedStr name _)
      ((reads_remainingStr text _).answer rfl))
  | claudeStatus state kind label =>
    exact ReadsRestTo.withoutRun (Reads.bindRest (reads_readU8 state) (Reads.bindRest
      (reads_readU8 kind) ((reads_readLengthPrefixedStr label _).answer rfl).rest))
  | commandBlock index exitCode durationMs complete outputLen commandText promptOrdinal =>
    exact ReadsRestTo.withoutRun (Reads.bindRest (reads_readU32 index) (Reads.bindRest
      (reads_readBool _) (Reads.bindRest (reads_readI32 _) (Reads.bindRest (reads_readBool _)
      (Reads.bindRest (reads_readU32 _) (Reads.bindRest (reads_readBool complete)
      (Reads.bindRest (reads_readU32 outputLen) (Reads.bindRest (reads_readU32 promptOrdinal)
      ((reads_readLengthPrefixedStr commandText _).answer
        (by rw [optional_back, optional_back]; rfl)).rest))))))))
  | blockOutput index bytes =>
    have hrun : bytes.length < 2 ^ 32 := by simp [bodyBytes, WireMessage.opaqueRun] at h; omega
    exact Reads.bindRest (reads_readU32 index)
      ((readsTo_readSizedPayload hrun).map fun r hr => by rw [hr]; rfl).rest
  | inputEcho enabled =>
    exact ReadsRestTo.withoutRun ((reads_readBool enabled).answer rfl).rest
  | progress state percent =>
    exact ReadsRestTo.withoutRun (Reads.bindRest (reads_readU8 state)
      ((reads_readU8 percent).answer rfl).rest)
  | projectGitStatus status =>
    exact ReadsRestTo.withoutRun (Reads.bindRest (reads_readLengthPrefixedStr _ _) (Reads.bindRest
      (reads_readLengthPrefixedStr _ _) (Reads.bindRest (reads_readI32 _) (Reads.bindRest
      (reads_readI32 _) (Reads.bindRest (reads_readI32 _) (Reads.bindRest (reads_readU32 _)
      (Reads.bindRest (reads_readU32 _) (Reads.bindRest (reads_readU32 _) (Reads.bindRest
      (reads_readU32 _) ((reads_readU32 _).answer rfl).rest)))))))))
  | workspaceEvent kind epoch baseStateNum newStateNum payload =>
    have hrun : payload.length < 2 ^ 32 := by simp [bodyBytes, WireMessage.opaqueRun] at h; omega
    exact Reads.bindRest (reads_readU8 kind) (Reads.bindRest (reads_readUuid _ _) (Reads.bindRest
      (reads_readI64 _) (Reads.bindRest (reads_readI64 _)
      ((readsTo_readSizedPayload hrun).map fun r hr => by rw [hr]; rfl).rest)))

theorem readsRestTo_decodeInner (m : WireMessage) (h : (bodyBytes m m.opaqueRun).length < 2 ^ 32) :
    ReadsRestTo (decodeInner false) ([m.messageType] ++ bodyBytes m m.opaqueRun)
      fun r => r.1 = m.clamped :=
  Reads.bindRest (reads_readU8 m.messageType) (readsRestTo_decodeBody m h)

/-! ## §6 The round trip -/

/-- Decoding an encoded message gives it back with its length-prefixed
strings clamped, the clamp being the longest prefix there is; the frame
is as long as `wireByteCount` says and its prefix as it is long; and
encoding with the run lent apart writes the same frame or nothing. -/
theorem wireMessage_roundTrip (m : WireMessage) (h : (encode m).length - 4 < 2 ^ 32) :
    decode ((encode m).drop 4) = .ok m.clamped ∧
    (encode m).length = m.wireByteCount ∧
    (encode m).take 4 = toBe 4 ((encode m).length - 4) ∧
    (∀ (m' : WireMessage) (out : List UInt8), m'.withRun m.opaqueRun = m →
      encodeWithRunInto m' m.opaqueRun out =
        if (encode m).length ≤ out.length
        then ((encode m).length, encode m ++ out.drop (encode m).length)
        else ((encode m).length, out)) ∧
    ∀ s, LongestUtf8Prefix 65535 s (clampU16Field s) := by
  rw [encode_eq, length_frameBytes] at h
  rw [encode_eq]
  refine ⟨?_, ?_, ?_, ?_, fun s => clampUtf8_longest s _⟩
  · obtain ⟨r, hr, hrun⟩ := readsRestTo_decodeInner m (by omega) []
    have hdrop : (frameBytes m m.opaqueRun).drop 4 = [m.messageType] ++ bodyBytes m m.opaqueRun :=
      List.drop_left' (length_toBe 4 _)
    rw [List.nil_append, List.length_nil] at hrun
    rw [decode, hdrop, hrun, ← hr]
    rfl
  · rw [length_frameBytes, wireByteCount_eq]
  · have hand : (1 + (bodyBytes m m.opaqueRun).length) &&& 0xFFFFFFFF
        = (1 + (bodyBytes m m.opaqueRun).length) % 2 ^ 32 := Nat.and_two_pow_sub_one_eq_mod _ 32
    have hlength : (wireLength ([m.messageType] ++ bodyBytes m m.opaqueRun).length).toNat
        = (frameBytes m m.opaqueRun).length - 4 := by
      rw [List.length_append, List.length_singleton, wireLength, hand, UInt32.toNat_ofNat',
        Nat.mod_mod, length_frameBytes, Nat.mod_eq_of_lt (by omega)]
      omega
    rw [← hlength]
    exact List.take_left' (length_toBe 4 _)
  · intro m' out hm'
    have hrun : (m'.withRun m.opaqueRun).opaqueRun = m.opaqueRun := by rw [hm']
    have hframe : frameBytes m' m.opaqueRun = frameBytes m m.opaqueRun := by
      rw [← frameBytes_withRun m' m.opaqueRun, hm']
    rw [encodeWithRunInto_eq hrun, hframe]

theorem wireMessage_roundTrip_output :
    (encode (.output 5 [104, 105])).length - 4 < 2 ^ 32 ∧
    decode ((encode (.output 5 [104, 105])).drop 4) = .ok (.output 5 [104, 105]) :=
  ⟨by decide, (wireMessage_roundTrip (.output 5 [104, 105]) (by decide)).1⟩

/-! ## §7 The two decodes -/

/-- What the eliding decode answers against what the plain one does: the
message carries no run, the reported run lies inside the input and
selects the plain message's run, and putting that back gives the plain
message. -/
structure Elides (data : List UInt8) (r : WireMessage × ByteRange) (m : WireMessage) : Prop where
  empty : r.1.opaqueRun = []
  inside : r.2.start ≤ r.2.stop ∧ r.2.stop ≤ data.length
  selects : r.2.get? data = some m.opaqueRun
  putBack : r.1.withRun m.opaqueRun = m

/-- The same of a run alone. -/
def RunElides (data : List UInt8) (a b : List UInt8 × ByteRange) : Prop :=
  a.1 = [] ∧ a.2.get? data = some b.1

theorem get?_of_le {start stop : Nat} (h : start ≤ stop) (h' : stop ≤ data.length) :
    ByteRange.get? ⟨start, stop⟩ data = some ((data.drop start).take (stop - start)) :=
  if_pos ⟨h, h'⟩

theorem inside_of_get? {r : ByteRange} {bytes : List UInt8} (h : r.get? data = some bytes) :
    r.start ≤ r.stop ∧ r.stop ≤ data.length := by
  unfold ByteRange.get? at h
  split at h
  case isTrue hin => exact hin
  case isFalse => cases h

theorem agree_readTrailingPayload :
    Agree RunElides (readTrailingPayload true) (readTrailingPayload false) := by
  intro data off hoff
  have hget : ByteRange.get? ⟨off, off + (data.drop off).length⟩ data = some (data.drop off) := by
    rw [List.length_drop, get?_of_le (by omega) (by omega), List.take_of_length_le (by simp)]
  exact ⟨rfl, Nat.le_refl _, rfl, hget⟩

theorem agree_readSizedPayload : Agree RunElides (readSizedPayload true) (readSizedPayload false) := by
  refine safe_readU32.bind fun len => ?_
  intro data off hoff
  by_cases hfits : off + len.toNat ≤ data.length
  case neg => simp [position, readBytes, hfits]
  case pos =>
    have hlen : ((data.drop off).take len.toNat).length = len.toNat := by simp; omega
    have hget : ByteRange.get? ⟨off, off + ((data.drop off).take len.toNat).length⟩ data
        = some ((data.drop off).take len.toNat) := by
      rw [hlen, get?_of_le (by omega) hfits, Nat.add_sub_cancel_left]
    simp only [run_bind, position, readBytes, hfits, Outcome.ok_bind, if_true, run_pure]
    exact ⟨rfl, hfits, rfl, hget⟩

theorem safe_readUuid (field : String) : Safe (readUuid field) := by
  refine (safe_readBytes sessionIdByteCount).bind fun bytes => ?_
  split
  · exact safe_pure _
  · exact safe_throw _

/-- No run of `p` panics, and the message it answers carries no run. -/
def RunFree (p : Decoder WireMessage) : Prop :=
  Agree (fun _ a b => a = b ∧ a.withRun [] = a) p p

theorem runFree_pure (h : m.withRun [] = m) : RunFree (pure m) :=
  agree_pure fun _ => ⟨rfl, h⟩

theorem opaqueRun_withRun_nil (m : WireMessage) : (m.withRun []).opaqueRun = [] := by
  cases m <;> rfl

theorem RunFree.elides (hp : RunFree p) :
    Agree (fun data r m => Elides data r m.1) (withoutRun p) (withoutRun p) := by
  refine hp.map fun data a b h => ?_
  obtain ⟨rfl, hfree⟩ := h
  have hempty := opaqueRun_withRun_nil a
  rw [hfree] at hempty
  refine ⟨hempty, ⟨Nat.le_refl 0, Nat.zero_le _⟩, ?_, ?_⟩
  · rw [hempty]
    exact get?_of_le (Nat.le_refl 0) (Nat.zero_le _)
  · rw [hempty, hfree]

theorem elides_of_run {p q : Decoder (List UInt8 × ByteRange)} (hpq : Agree RunElides p q)
    (f : List UInt8 → WireMessage) (hrun : ∀ bytes, (f bytes).opaqueRun = bytes)
    (hwith : ∀ a b, (f a).withRun b = f b) :
    Agree (fun data r m => Elides data r m.1) (p >>= fun run => pure (f run.1, run.2))
      (q >>= fun run => pure (f run.1, run.2)) := by
  refine hpq.map fun data a b h => ?_
  obtain ⟨hnil, hget⟩ := h
  exact ⟨by rw [hrun, hnil], inside_of_get? hget, by rw [hrun, hget], by rw [hrun, hwith]⟩

theorem agree_decodeBody (messageType : UInt8) :
    Agree (fun data r m => Elides data r m.1) (decodeBody true messageType)
      (decodeBody false messageType) := by
  unfold decodeBody
  split
  -- output, exit, input
  · exact safe_readI64.bind fun seq => elides_of_run agree_readTrailingPayload (.output seq)
      (fun _ => rfl) (fun _ _ => rfl)
  · exact RunFree.elides (safe_readI32.bind fun _ => runFree_pure rfl)
  · exact elides_of_run agree_readTrailingPayload .input (fun _ => rfl) (fun _ _ => rfl)
  -- hello, resize, ack, bye, ping, requestBlockOutput
  · exact RunFree.elides (safe_readU16.bind fun _ => (safe_readUuid _).bind fun _ =>
      safe_readI64.bind fun _ => runFree_pure rfl)
  · exact RunFree.elides (safe_readU16.bind fun _ => safe_readU16.bind fun _ =>
      safe_readU16.bind fun _ => safe_readU16.bind fun _ => runFree_pure rfl)
  · exact RunFree.elides (safe_readI64.bind fun _ => runFree_pure rfl)
  · exact RunFree.elides (runFree_pure rfl)
  · exact RunFree.elides (safe_readU64.bind fun _ => runFree_pure rfl)
  · exact RunFree.elides (safe_readU32.bind fun _ => runFree_pure rfl)
  -- metadataRequest, workspaceRequest
  · exact safe_readU32.bind fun id => safe_readU8.bind fun verb =>
      elides_of_run agree_readSizedPayload (.metadataRequest id verb) (fun _ => rfl)
        (fun _ _ => rfl)
  · exact safe_readU32.bind fun seq => safe_readU8.bind fun verb =>
      elides_of_run agree_readSizedPayload (.workspaceRequest seq verb) (fun _ => rfl)
        (fun _ _ => rfl)
  -- helloAck, title, bell
  · exact RunFree.elides ((safe_readUuid _).bind fun _ => safe_readI64.bind fun _ =>
      safe_readBool.bind fun _ => runFree_pure rfl)
  · exact RunFree.elides ((safe_remainingStr _).bind fun _ => runFree_pure rfl)
  · exact RunFree.elides (runFree_pure rfl)
  -- commandStatus: one more case split, on its tag
  · refine RunFree.elides (safe_readU8.bind fun tag => ?_)
    by_cases hrunning : tag = 0
    case pos =>
      rw [if_pos hrunning]
      exact runFree_pure rfl
    case neg =>
      rw [if_neg hrunning]
      by_cases hidle : tag = 1
      case pos =>
        rw [if_pos hidle]
        exact safe_readBool.bind fun _ => safe_readI32.bind fun _ => safe_readU32.bind fun _ =>
          runFree_pure rfl
      case neg =>
        rw [if_neg hidle]
        exact agree_throw _
  -- pong, notification, foregroundProcess, claudeStatus
  · exact RunFree.elides (safe_readU64.bind fun _ => runFree_pure rfl)
  · exact RunFree.elides ((safe_readLengthPrefixedStr _).bind fun _ =>
      (safe_remainingStr _).bind fun _ => runFree_pure rfl)
  · exact RunFree.elides ((safe_remainingStr _).bind fun _ => runFree_pure rfl)
  · exact RunFree.elides (safe_readU8.bind fun _ => safe_readU8.bind fun _ =>
      (safe_readLengthPrefixedStr _).bind fun _ => runFree_pure rfl)
  -- commandBlock
  · exact RunFree.elides (safe_readU32.bind fun _ => safe_readBool.bind fun _ =>
      safe_readI32.bind fun _ => safe_readBool.bind fun _ => safe_readU32.bind fun _ =>
      safe_readBool.bind fun _ => safe_readU32.bind fun _ => safe_readU32.bind fun _ =>
      (safe_readLengthPrefixedStr _).bind fun _ => runFree_pure rfl)
  -- blockOutput, metadataResponse
  · exact safe_readU32.bind fun index => elides_of_run agree_readSizedPayload (.blockOutput index)
      (fun _ => rfl) (fun _ _ => rfl)
  · exact safe_readU32.bind fun id => safe_readU8.bind fun status =>
      elides_of_run agree_readSizedPayload (.metadataResponse id status) (fun _ => rfl)
        (fun _ _ => rfl)
  -- inputEcho, progress, cwd, projectKey
  · exact RunFree.elides (safe_readBool.bind fun _ => runFree_pure rfl)
  · exact RunFree.elides (safe_readU8.bind fun _ => safe_readU8.bind fun _ => runFree_pure rfl)
  · exact RunFree.elides ((safe_remainingStr _).bind fun _ => runFree_pure rfl)
  · exact RunFree.elides ((safe_remainingStr _).bind fun _ => runFree_pure rfl)
  -- projectGitStatus
  · exact RunFree.elides ((safe_readLengthPrefixedStr _).bind fun _ =>
      (safe_readLengthPrefixedStr _).bind fun _ => safe_readI32.bind fun _ =>
      safe_readI32.bind fun _ => safe_readI32.bind fun _ => safe_readU32.bind fun _ =>
      safe_readU32.bind fun _ => safe_readU32.bind fun _ => safe_readU32.bind fun _ =>
      safe_readU32.bind fun _ => runFree_pure rfl)
  -- agentSessionIntent, workspaceEvent
  · exact RunFree.elides ((safe_remainingStr _).bind fun _ => runFree_pure rfl)
  · exact safe_readU8.bind fun kind => (safe_readUuid _).bind fun epoch =>
      safe_readI64.bind fun base => safe_readI64.bind fun next =>
      elides_of_run agree_readSizedPayload (.workspaceEvent kind epoch base next) (fun _ => rfl)
        (fun _ _ => rfl)
  -- any other byte
  · exact agree_throw _

theorem agree_decodeInner :
    Agree (fun data r m => Elides data r m.1) (decodeInner true) (decodeInner false) :=
  safe_readU8.bind agree_decodeBody

/-- On every input the two decodes fail with the same error, or both
accept: then the reported run lies inside the input, and the elided
message with those bytes put back is the plainly decoded one. -/
theorem decodeLeavingOpaqueRun_agrees (payload : List UInt8) :
    Outcome.Agree (Elides payload) (decodeLeavingOpaqueRun payload) (decode payload) :=
  (agree_decodeInner payload 0 (Nat.zero_le _)).bind fun _ _ h => h.2.2

end SlopDesk.Wire
