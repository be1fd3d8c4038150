/-
SlopDesk.Wire.Codec — the messages of the wire and their encoding.
-/
import SlopDesk.Wire.Bytes

/-! # The message table of the terminal wire
(`slopdesk-wire/src/message.rs`): one decoded message, its type byte,
its opaque run, and the size its frame will have.

`wireByteCount` is computed without building the frame. Flow control
credits the receiver by it and debits the sender by the encoded length,
so the two have to agree on every kind.
-/

namespace SlopDesk.Wire

/-- `SESSION_ID_BYTE_COUNT`. -/
def sessionIdByteCount : Nat := 16

/-- `RawUuid`: sixteen raw bytes, in canonical order. -/
structure RawUuid where
  bytes : List UInt8
  size : bytes.length = sessionIdByteCount
  deriving DecidableEq

/-- `CommandStatus`: the foreground command's state, from OSC 133. -/
inductive CommandStatus where
  | running
  | idle (exitCode : Option Int32) (durationMs : UInt32)
  deriving DecidableEq

/-- `ProjectGitStatus`: one project's folded git status. -/
structure ProjectGitStatus where
  repoRoot : String
  branch : String
  ahead : Int32
  behind : Int32
  stashCount : Int32
  staged : UInt32
  modified : UInt32
  untracked : UInt32
  conflicted : UInt32
  changedCount : UInt32
  deriving DecidableEq

inductive WireMessage where
  | output (seq : Int64) (bytes : List UInt8)
  | exit (code : Int32)
  | input (bytes : List UInt8)
  | hello (protocolVersion : UInt16) (sessionId : RawUuid) (lastReceivedSeq : Int64)
  | resize (cols rows pxWidth pxHeight : UInt16)
  | ack (seq : Int64)
  | bye
  | ping (timestampMs : UInt64)
  | requestBlockOutput (index : UInt32)
  | metadataRequest (requestId : UInt32) (verb : UInt8) (payload : List UInt8)
  | workspaceRequest (requestSeq : UInt32) (verb : UInt8) (payload : List UInt8)
  | helloAck (sessionId : RawUuid) (resumeFromSeq : Int64) (returningClient : Bool)
  | title (text : String)
  | bell
  | commandStatus (status : CommandStatus)
  | pong (timestampMs : UInt64)
  | notification (title body : String)
  | foregroundProcess (name : String)
  | claudeStatus (state kind : UInt8) (label : String)
  | commandBlock (index : UInt32) (exitCode : Option Int32) (durationMs : Option UInt32)
      (complete : Bool) (outputLen : UInt32) (commandText : String) (promptOrdinal : UInt32)
  | blockOutput (index : UInt32) (output : List UInt8)
  | metadataResponse (requestId : UInt32) (status : UInt8) (payload : List UInt8)
  | inputEcho (enabled : Bool)
  | progress (state percent : UInt8)
  | cwd (text : String)
  | projectKey (text : String)
  | projectGitStatus (status : ProjectGitStatus)
  | agentSessionIntent (text : String)
  | workspaceEvent (kind : UInt8) (epoch : RawUuid) (baseStateNum newStateNum : Int64)
      (payload : List UInt8)
  deriving DecidableEq

namespace WireMessage

def messageType : WireMessage → UInt8
  | .output .. => 1
  | .exit .. => 2
  | .input .. => 3
  | .hello .. => 10
  | .resize .. => 11
  | .ack .. => 12
  | .bye => 13
  | .ping .. => 14
  | .requestBlockOutput .. => 15
  | .metadataRequest .. => 16
  | .workspaceRequest .. => 17
  | .helloAck .. => 20
  | .title .. => 21
  | .bell => 22
  | .commandStatus .. => 23
  | .pong .. => 24
  | .notification .. => 25
  | .foregroundProcess .. => 26
  | .claudeStatus .. => 27
  | .commandBlock .. => 28
  | .blockOutput .. => 29
  | .metadataResponse .. => 30
  | .inputEcho .. => 31
  | .progress .. => 32
  | .cwd .. => 33
  | .projectKey .. => 34
  | .projectGitStatus .. => 35
  | .agentSessionIntent .. => 36
  | .workspaceEvent .. => 37

/-- `opaque_run`: empty for the kinds that do not end in one. -/
def opaqueRun : WireMessage → List UInt8
  | .output _ bytes | .input bytes => bytes
  | .blockOutput _ bytes => bytes
  | .metadataRequest _ _ payload | .metadataResponse _ _ payload
  | .workspaceRequest _ _ payload | .workspaceEvent _ _ _ _ payload => payload
  | _ => []

/-- The message with `run` in its opaque field; a kind without one is
left alone. -/
def withRun (m : WireMessage) (run : List UInt8) : WireMessage :=
  match m with
  | .output seq _ => .output seq run
  | .input _ => .input run
  | .blockOutput index _ => .blockOutput index run
  | .metadataRequest id verb _ => .metadataRequest id verb run
  | .metadataResponse id status _ => .metadataResponse id status run
  | .workspaceRequest seq verb _ => .workspaceRequest seq verb run
  | .workspaceEvent kind epoch base next _ => .workspaceEvent kind epoch base next run
  | m => m

/-- `wire_byte_count`: four prefix bytes, the type byte, the body. -/
def wireByteCount (m : WireMessage) : Nat :=
  let body :=
    match m with
    | .output _ bytes => 8 + bytes.length
    | .exit _ | .requestBlockOutput _ => 4
    | .input bytes => bytes.length
    | .hello .. => 2 + sessionIdByteCount + 8
    | .resize .. | .ack _ | .ping _ | .pong _ => 8
    | .bye | .bell => 0
    | .metadataRequest _ _ payload | .metadataResponse _ _ payload
    | .workspaceRequest _ _ payload => 4 + 1 + 4 + payload.length
    | .workspaceEvent _ _ _ _ payload => 1 + 16 + 8 + 8 + 4 + payload.length
    | .helloAck .. => sessionIdByteCount + 8 + 1
    | .title text | .cwd text | .projectKey text | .agentSessionIntent text => text.utf8ByteSize
    | .foregroundProcess name => name.utf8ByteSize
    | .commandStatus .running => 1
    | .commandStatus (.idle ..) => 1 + 1 + 4 + 4
    | .notification name text => 2 + (clampU16Field name).utf8ByteSize + text.utf8ByteSize
    | .claudeStatus _ _ label => 1 + 1 + 2 + (clampU16Field label).utf8ByteSize
    | .commandBlock _ _ _ _ _ commandText _ =>
      4 + 1 + 4 + 1 + 4 + 1 + 4 + 4 + 2 + (clampU16Field commandText).utf8ByteSize
    | .blockOutput _ bytes => 4 + 4 + bytes.length
    | .inputEcho _ => 1
    | .progress .. => 2
    | .projectGitStatus status =>
      2 + (clampU16Field status.repoRoot).utf8ByteSize
        + 2 + (clampU16Field status.branch).utf8ByteSize + 12 + 20
  4 + 1 + body

/-- `wire_byte_count_with_run`: a run the message carries is substituted. -/
def wireByteCountWithRun (m : WireMessage) (runLen : Nat) : Nat :=
  m.wireByteCount - m.opaqueRun.length + runLen

end WireMessage

end SlopDesk.Wire

/-! # The byte layout of every message kind
(`slopdesk-wire/src/codec.rs`).

Encoding builds one buffer: a length placeholder, the type byte, the
body, then the prefix is patched with what was written. Decoding checks
every declared length before it reads, and ignores bytes behind a
fixed-size body. `decodeInner` is one parser for both decodes: with
`elide` set it leaves the opaque run where it lies and answers where
that is.
-/

namespace SlopDesk.Wire

open SlopDesk.Base

/-- `wire_length`: the low 32 bits of a length. -/
def wireLength (value : Nat) : UInt32 := UInt32.ofNat (value &&& 0xFFFFFFFF)

/-! ## Encoding -/

/-- The body of one kind, the opaque run supplied apart from the message. -/
def encodeBody (m : WireMessage) (run : List UInt8) : Put :=
  match m with
  | .output seq _ => do
    putI64 seq
    putBytes run
  | .exit code => putI32 code
  | .input _ => putBytes run
  | .hello protocolVersion sessionId lastReceivedSeq => do
    putU16 protocolVersion
    putBytes sessionId.bytes
    putI64 lastReceivedSeq
  | .resize cols rows pxWidth pxHeight => do
    putU16 cols
    putU16 rows
    putU16 pxWidth
    putU16 pxHeight
  | .ack seq => putI64 seq
  | .bye | .bell => pure ()
  | .ping timestampMs | .pong timestampMs => putU64 timestampMs
  | .requestBlockOutput index => putU32 index
  | .helloAck sessionId resumeFromSeq returningClient => do
    putBytes sessionId.bytes
    putI64 resumeFromSeq
    putBool returningClient
  | .title text | .cwd text | .projectKey text | .agentSessionIntent text =>
    putBytes (utf8Bytes text)
  | .foregroundProcess name => putBytes (utf8Bytes name)
  | .projectGitStatus status => do
    putLengthPrefixedStr status.repoRoot
    putLengthPrefixedStr status.branch
    putI32 status.ahead
    putI32 status.behind
    putI32 status.stashCount
    putU32 status.staged
    putU32 status.modified
    putU32 status.untracked
    putU32 status.conflicted
    putU32 status.changedCount
  | .notification title body => do
    putLengthPrefixedStr title
    putBytes (utf8Bytes body)
  | .claudeStatus state kind label => do
    putU8 state
    putU8 kind
    putLengthPrefixedStr label
  -- an absent optional travels as a 0 flag and a 0 value
  | .commandBlock index exitCode durationMs complete outputLen commandText promptOrdinal => do
    putU32 index
    putBool exitCode.isSome
    putI32 (exitCode.getD 0)
    putBool durationMs.isSome
    putU32 (durationMs.getD 0)
    putBool complete
    putU32 outputLen
    putU32 promptOrdinal
    putLengthPrefixedStr commandText
  | .blockOutput index _ => do
    putU32 index
    putU32 (wireLength run.length)
    putBytes run
  | .metadataRequest id tag _ | .metadataResponse id tag _ | .workspaceRequest id tag _ => do
    putU32 id
    putU8 tag
    putU32 (wireLength run.length)
    putBytes run
  | .workspaceEvent kind epoch baseStateNum newStateNum _ => do
    putU8 kind
    putBytes epoch.bytes
    putI64 baseStateNum
    putI64 newStateNum
    putU32 (wireLength run.length)
    putBytes run
  | .inputEcho enabled => putBool enabled
  | .progress state percent => do
    putU8 state
    putU8 percent
  | .commandStatus .running => putU8 0
  | .commandStatus (.idle exitCode durationMs) => do
    putU8 1
    putBool exitCode.isSome
    putI32 (exitCode.getD 0)
    putU32 durationMs

def encodeInto (m : WireMessage) (run : List UInt8) : Put := do
  putU32 0
  putU8 m.messageType
  encodeBody m run
  modify fun w => w.patchU32 0 (wireLength (w.len - 4))

def encode (m : WireMessage) : List UInt8 :=
  ((encodeInto m m.opaqueRun).run ByteWriter.new).2.intoVec

/-- `encode_with_run_into`: the size it answers, and the lent buffer after. -/
def encodeWithRunInto (m : WireMessage) (run out : List UInt8) : Nat × List UInt8 :=
  let needed := m.wireByteCountWithRun run.length
  if needed > out.length then (needed, out)
  else
    let w := ((encodeInto m run).run (ByteWriter.borrowing out)).2
    (w.len, w.memory)

/-! ## Decoding -/

def readUuid (field : String) : Decoder RawUuid := do
  let bytes ← readBytes sessionIdByteCount
  if h : bytes.length = sessionIdByteCount then pure ⟨bytes, h⟩
  else .throw (.malformedBody (field ++ ": invalid uuid bytes"))

/-- A run of the input: the bytes, or nothing when they are left in place,
and where they sit. -/
def located (elide : Bool) (start : Nat) (bytes : List UInt8) : List UInt8 × ByteRange :=
  (if elide then [] else bytes, ⟨start, start + bytes.length⟩)

def readSizedPayload (elide : Bool) : Decoder (List UInt8 × ByteRange) := do
  let len ← readU32
  let start ← position
  let bytes ← readBytes len.toNat
  pure (located elide start bytes)

def readTrailingPayload (elide : Bool) : Decoder (List UInt8 × ByteRange) := do
  let start ← position
  let bytes ← remaining
  pure (located elide start bytes)

/-- A message with no opaque run leaves the reported range empty. -/
def withoutRun (p : Decoder WireMessage) : Decoder (WireMessage × ByteRange) := do
  let message ← p
  pure (message, ⟨0, 0⟩)

/-- One arm of `decode_inner` per type byte. -/
def decodeBody (elide : Bool) (messageType : UInt8) : Decoder (WireMessage × ByteRange) :=
  match messageType with
  | 1 => do
    let seq ← readI64
    let run ← readTrailingPayload elide
    pure (.output seq run.1, run.2)
  | 2 => withoutRun do
    let code ← readI32
    pure (.exit code)
  | 3 => do
    let run ← readTrailingPayload elide
    pure (.input run.1, run.2)
  | 10 => withoutRun do
    let protocolVersion ← readU16
    let sessionId ← readUuid "hello"
    let lastReceivedSeq ← readI64
    pure (.hello protocolVersion sessionId lastReceivedSeq)
  | 11 => withoutRun do
    let cols ← readU16
    let rows ← readU16
    let pxWidth ← readU16
    let pxHeight ← readU16
    pure (.resize cols rows pxWidth pxHeight)
  | 12 => withoutRun do
    let seq ← readI64
    pure (.ack seq)
  | 13 => withoutRun (pure .bye)
  | 14 => withoutRun do
    let timestampMs ← readU64
    pure (.ping timestampMs)
  | 15 => withoutRun do
    let index ← readU32
    pure (.requestBlockOutput index)
  | 16 => do
    let requestId ← readU32
    let verb ← readU8
    let run ← readSizedPayload elide
    pure (.metadataRequest requestId verb run.1, run.2)
  | 17 => do
    let requestSeq ← readU32
    let verb ← readU8
    let run ← readSizedPayload elide
    pure (.workspaceRequest requestSeq verb run.1, run.2)
  | 20 => withoutRun do
    let sessionId ← readUuid "helloAck"
    let resumeFromSeq ← readI64
    let returningClient ← readBool
    pure (.helloAck sessionId resumeFromSeq returningClient)
  | 21 => withoutRun do
    let text ← remainingStr "title"
    pure (.title text)
  | 22 => withoutRun (pure .bell)
  | 23 => withoutRun do
    let tag ← readU8
    if tag = 0 then pure (.commandStatus .running)
    else if tag = 1 then do
      let hasExit ← readBool
      let exitRaw ← readI32
      let durationMs ← readU32
      pure (.commandStatus (.idle (if hasExit then some exitRaw else none) durationMs))
    else .throw (.malformedBody ("commandStatus: invalid tag " ++ toString tag))
  | 24 => withoutRun do
    let timestampMs ← readU64
    pure (.pong timestampMs)
  | 25 => withoutRun do
    let title ← readLengthPrefixedStr "notification title"
    let body ← remainingStr "notification body"
    pure (.notification title body)
  | 26 => withoutRun do
    let name ← remainingStr "foregroundProcess"
    pure (.foregroundProcess name)
  | 27 => withoutRun do
    let state ← readU8
    let kind ← readU8
    let label ← readLengthPrefixedStr "claudeStatus label"
    pure (.claudeStatus state kind label)
  | 28 => withoutRun do
    let index ← readU32
    let hasExit ← readBool
    let exitRaw ← readI32
    let hasDuration ← readBool
    let durationRaw ← readU32
    let complete ← readBool
    let outputLen ← readU32
    let promptOrdinal ← readU32
    let commandText ← readLengthPrefixedStr "commandBlock commandText"
    pure (.commandBlock index (if hasExit then some exitRaw else none)
      (if hasDuration then some durationRaw else none) complete outputLen commandText promptOrdinal)
  | 29 => do
    let index ← readU32
    let run ← readSizedPayload elide
    pure (.blockOutput index run.1, run.2)
  | 30 => do
    let requestId ← readU32
    let status ← readU8
    let run ← readSizedPayload elide
    pure (.metadataResponse requestId status run.1, run.2)
  | 31 => withoutRun do
    let enabled ← readBool
    pure (.inputEcho enabled)
  | 32 => withoutRun do
    let state ← readU8
    let percent ← readU8
    pure (.progress state percent)
  | 33 => withoutRun do
    let text ← remainingStr "cwd"
    pure (.cwd text)
  | 34 => withoutRun do
    let text ← remainingStr "projectKey"
    pure (.projectKey text)
  | 35 => withoutRun do
    let repoRoot ← readLengthPrefixedStr "projectGitStatus repoRoot"
    let branch ← readLengthPrefixedStr "projectGitStatus branch"
    let ahead ← readI32
    let behind ← readI32
    let stashCount ← readI32
    let staged ← readU32
    let modified ← readU32
    let untracked ← readU32
    let conflicted ← readU32
    let changedCount ← readU32
    pure (.projectGitStatus ⟨repoRoot, branch, ahead, behind, stashCount, staged, modified,
      untracked, conflicted, changedCount⟩)
  | 36 => withoutRun do
    let text ← remainingStr "agentSessionIntent"
    pure (.agentSessionIntent text)
  | 37 => do
    let kind ← readU8
    let epoch ← readUuid "workspaceEvent epoch"
    let baseStateNum ← readI64
    let newStateNum ← readI64
    let run ← readSizedPayload elide
    pure (.workspaceEvent kind epoch baseStateNum newStateNum run.1, run.2)
  | unknown => .throw (.unknownMessageType unknown)

def decodeInner (elide : Bool) : Decoder (WireMessage × ByteRange) := do
  let messageType ← readU8
  decodeBody elide messageType

/-- `decode`: a complete payload, without its length prefix. -/
def decode (payload : List UInt8) : Outcome WireError WireMessage := do
  let r ← (decodeInner false).run payload 0
  pure r.1.1

def decodeLeavingOpaqueRun (payload : List UInt8) : Outcome WireError (WireMessage × ByteRange) := do
  let r ← (decodeInner true).run payload 0
  pure r.1

end SlopDesk.Wire
