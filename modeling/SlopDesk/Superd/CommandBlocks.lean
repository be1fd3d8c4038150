/-
SlopDesk.Superd.CommandBlocks — the outbound stream segmented into one
record per command (`slopdesk-superd/src/commandblocks.rs` and the match of
`autoprogress.rs`).

The escape parser reads a byte at a time; `ingest` takes a run of plain
bytes at once. `finished` lists every payload `finish_osc` was given, in
order; the source keeps no such list. Counters are unbounded.
-/
import SlopDesk.Base.Runs
import SlopDesk.Sanitize.VtScan

namespace SlopDesk.Superd

open SlopDesk.Base SlopDesk.Sanitize

/-! ## §1 Fields of a mark -/

/-- `str::split` at one character. -/
def splitFields (sep : Char) (text : String) : List String :=
  (text.toList.splitOn sep).map String.ofList

/-- `str::parse::<i64>`. -/
def parseI64 (text : String) : Option Int64 :=
  let (negative, digits) := match text.toList with
    | '-' :: digits => (true, digits)
    | '+' :: digits => (false, digits)
    | digits => (false, digits)
  if digits ≠ [] ∧ digits.all (·.isDigit) then
    let magnitude := digits.foldl (fun value c => value * 10 + (c.toNat - '0'.toNat)) 0
    let value : Int := if negative then -magnitude else magnitude
    if -9223372036854775808 ≤ value ∧ value ≤ 9223372036854775807 then some (Int64.ofInt value) else none
  else none

/-- `parse_exit`: the low 32 bits, reinterpreted. -/
def parseExit (fields : List String) : Option Int32 := do
  let raw ← fields[2]?
  let head := String.ofList (raw.toList.takeWhile (· ≠ '='))
  let code ← parseI64 head
  return code.toInt32

def saturatingSub (a b : Int64) : Int64 :=
  Int64.ofInt (max (-9223372036854775808) (min 9223372036854775807 (a.toInt - b.toInt)))

/-- `duration_ms`: never negative, and saturating. -/
def durationMs (startMs endMs : Int64) : UInt32 :=
  let elapsed := max (saturatingSub endMs startMs).toInt 0
  if elapsed ≤ 4294967295 then UInt32.ofNat elapsed.toNat else 4294967295

def isPrimaryPromptStart (fields : List String) : Bool :=
  match (fields.drop 2).find? fun field => "k=".toList.isPrefixOf field.toList with
  | none => true
  | some kind => kind = "k=i"

/-- `decode_command`: strict UTF-8 without the trailing CR and LF. -/
def decodeCommand (bytes : List UInt8) : String :=
  let trimmed := (bytes.reverse.dropWhile fun byte => byte = 0x0A || byte = 0x0D).reverse
  (fromUtf8 trimmed).getD ""

def tokenize (text : String) : List (List Char) :=
  (text.toList.splitOnP fun c => c = ' ' || c = '\t').filter (· ≠ [])

/-- `autoprogress::matches`. -/
def autoProgressMatches (commandLine : String) (prefixes : List String) : Bool :=
  if prefixes = [] then false
  else
    let command := tokenize commandLine
    if command = [] then false
    else prefixes.any fun entry =>
      let wanted := tokenize entry
      wanted ≠ [] && wanted.isPrefixOf command

/-! ## §2 The segmenter -/

/-- `DEFAULT_OUTPUT_CAP`. -/
def defaultOutputCap : Nat := 256 * 1024
/-- `OSC_CAP`, the same in both readers. -/
def oscCap : Nat := 4096
/-- `CMD_OSC_CAP`, the same in both readers. -/
def cmdOscCap : Nat := 256

/-- `[`. -/
def leftBracket : UInt8 := 0x5B
/-- `]`. -/
def rightBracket : UInt8 := 0x5D
/-- The backslash. -/
def backslash : UInt8 := 0x5C
/-- `;`. -/
def semicolon : UInt8 := 0x3B

/-- `P`, `X`, `^` and `_`: what opens a DCS, SOS, PM or APC behind an `ESC`. -/
def stringIntroducers : List UInt8 := [0x50, 0x58, 0x5E, 0x5F]

structure CommandBlock where
  index : Nat
  commandText : String
  output : List UInt8
  exitCode : Option Int32
  durationMs : Option UInt32
  complete : Bool
  outputTruncated : Bool
  promptOrdinal : Nat
  deriving DecidableEq

inductive SyntheticProgress where
  | indeterminate
  | clear
  deriving DecidableEq, Repr

namespace Segmenter

/-- The escape parser's `State`. -/
inductive State where
  | ground | escape | csi | osc | oscEscape | oscDiscard | oscDiscardEscape | stringConsume | stringConsumeEscape
  deriving DecidableEq, Repr

inductive Phase where
  | idle | command | output
  deriving DecidableEq, Repr

end Segmenter

open Segmenter in
/-- `CommandBlockSegmenter`, and beside it the payloads it finished. -/
structure CommandBlockSegmenter where
  outputCap : Nat
  autoProgressPrefixes : List String
  state : State
  oscBuffer : List UInt8
  phase : Phase
  nextIndex : Nat
  openCommandBytes : List UInt8
  openCommandExplicit : Option (List UInt8)
  openOutputBytes : List UInt8
  openOutputTruncated : Bool
  hasOpenBlock : Bool
  runningSinceMs : Option Int64
  promptCycleCount : Nat
  openPromptOrdinal : Nat
  syntheticSpinnerActive : Bool
  sawRealProgressThisBlock : Bool
  pendingProgress : List SyntheticProgress
  finished : List (List UInt8)
  deriving DecidableEq

namespace CommandBlockSegmenter

def new (outputCap : Nat) (autoProgressPrefixes : List String) : CommandBlockSegmenter where
  outputCap := if outputCap = 0 then defaultOutputCap else outputCap
  autoProgressPrefixes := autoProgressPrefixes
  state := .ground
  oscBuffer := []
  phase := .idle
  nextIndex := 0
  openCommandBytes := []
  openCommandExplicit := none
  openOutputBytes := []
  openOutputTruncated := false
  hasOpenBlock := false
  runningSinceMs := none
  promptCycleCount := 0
  openPromptOrdinal := 0
  syntheticSpinnerActive := false
  sawRealProgressThisBlock := false
  pendingProgress := []
  finished := []

/-- `append_byte`: one opaque content byte goes to the current span. -/
def appendByte (s : CommandBlockSegmenter) (byte : UInt8) : CommandBlockSegmenter :=
  match s.phase with
  | .idle => s
  | .command =>
    if s.openCommandBytes.length < cmdOscCap then { s with openCommandBytes := s.openCommandBytes ++ [byte] }
    else s
  | .output =>
    if s.openOutputBytes.length < s.outputCap then { s with openOutputBytes := s.openOutputBytes ++ [byte] }
    else { s with openOutputTruncated := true }

/-- `append_run`, the bulk form. -/
def appendRun (s : CommandBlockSegmenter) (run : List UInt8) : CommandBlockSegmenter :=
  match s.phase with
  | .idle => s
  | .command =>
    let room := cmdOscCap - s.openCommandBytes.length
    { s with openCommandBytes := s.openCommandBytes ++ run.take (min room run.length) }
  | .output =>
    let room := s.outputCap - s.openOutputBytes.length
    { s with
      openOutputBytes := s.openOutputBytes ++ run.take (min room run.length)
      openOutputTruncated := if run.length > room then true else s.openOutputTruncated }

def currentCommandBytes (s : CommandBlockSegmenter) : List UInt8 :=
  s.openCommandExplicit.getD s.openCommandBytes

def startOpenBlock (s : CommandBlockSegmenter) : CommandBlockSegmenter :=
  { s with
    openCommandBytes := []
    openCommandExplicit := none
    openOutputBytes := []
    openOutputTruncated := false
    hasOpenBlock := true
    openPromptOrdinal := s.promptCycleCount
    syntheticSpinnerActive := false
    sawRealProgressThisBlock := false }

def discardOpenBlock (s : CommandBlockSegmenter) : CommandBlockSegmenter :=
  { s with
    syntheticSpinnerActive := false
    sawRealProgressThisBlock := false
    hasOpenBlock := false
    runningSinceMs := none
    openCommandBytes := []
    openCommandExplicit := none
    openOutputBytes := []
    openOutputTruncated := false }

def takeOpenBlock (s : CommandBlockSegmenter) (complete : Bool) (exitCode : Option Int32)
    (durationMs : Option UInt32) : CommandBlockSegmenter × List CommandBlock :=
  if s.hasOpenBlock then
    let pendingProgress :=
      if s.syntheticSpinnerActive && !s.sawRealProgressThisBlock then s.pendingProgress ++ [.clear]
      else s.pendingProgress
    let block : CommandBlock :=
      ⟨s.nextIndex, decodeCommand s.currentCommandBytes, s.openOutputBytes, exitCode, durationMs, complete,
        s.openOutputTruncated, s.openPromptOrdinal⟩
    ({ s with
        pendingProgress
        syntheticSpinnerActive := false
        sawRealProgressThisBlock := false
        nextIndex := s.nextIndex + 1
        openOutputBytes := []
        hasOpenBlock := false
        runningSinceMs := none
        openCommandBytes := []
        openCommandExplicit := none
        openOutputTruncated := false }, [block])
  else (s, [])

def closeOrDiscardOpen (s : CommandBlockSegmenter) (nowMs : Int64) :
    CommandBlockSegmenter × List CommandBlock :=
  if s.hasOpenBlock then
    if s.phase = .output then
      s.takeOpenBlock false none (s.runningSinceMs.map (Superd.durationMs · nowMs))
    else (s.discardOpenBlock, [])
  else (s, [])

/-- `A`. -/
def onPromptStart (s : CommandBlockSegmenter) (fields : List String) (nowMs : Int64) :
    CommandBlockSegmenter × List CommandBlock :=
  let (s, completed) := s.closeOrDiscardOpen nowMs
  let s := { s with phase := .idle }
  if isPrimaryPromptStart fields then ({ s with promptCycleCount := s.promptCycleCount + 1 }, completed)
  else (s, completed)

/-- `B`. -/
def onCommandStart (s : CommandBlockSegmenter) (nowMs : Int64) : CommandBlockSegmenter × List CommandBlock :=
  if s.hasOpenBlock && s.phase = .command then ({ s with openCommandBytes := [] }, [])
  else
    let (s, completed) := s.closeOrDiscardOpen nowMs
    ({ s.startOpenBlock with phase := .command }, completed)

/-- `E`. -/
def onExplicitCommand (s : CommandBlockSegmenter) (fields : List String) : CommandBlockSegmenter :=
  let s := if s.hasOpenBlock then s else { s.startOpenBlock with phase := .command }
  { s with
    openCommandExplicit :=
      some ((fields[2]?.map fun field => unescapeCommand (SlopDesk.Wire.utf8Bytes field)).getD []) }

/-- `C`. -/
def onOutputStart (s : CommandBlockSegmenter) (nowMs : Int64) : CommandBlockSegmenter :=
  let s := if s.hasOpenBlock then s else s.startOpenBlock
  let s := { s with runningSinceMs := some nowMs, phase := .output }
  if !s.syntheticSpinnerActive && !s.sawRealProgressThisBlock &&
      autoProgressMatches (decodeCommand s.currentCommandBytes) s.autoProgressPrefixes then
    { s with
      pendingProgress := s.pendingProgress ++ [.indeterminate]
      syntheticSpinnerActive := true }
  else s

/-- `D`. -/
def onCommandFinished (s : CommandBlockSegmenter) (fields : List String) (nowMs : Int64) :
    CommandBlockSegmenter × List CommandBlock :=
  if s.hasOpenBlock && s.phase = .output then
    let duration := s.runningSinceMs.map (Superd.durationMs · nowMs)
    let s := { s with runningSinceMs := none }
    let (s, completed) := s.takeOpenBlock true (parseExit fields) duration
    ({ s with phase := .idle }, completed)
  else
    let s := if s.hasOpenBlock then s.discardOpenBlock else s
    ({ s with phase := .idle }, [])

/-- The verbs of `133`. -/
def onCommandMark (s : CommandBlockSegmenter) (buffer : List UInt8) (nowMs : Int64) :
    CommandBlockSegmenter × List CommandBlock :=
  match fromUtf8 buffer with
  | none => (s, [])
  | some payload =>
    let fields := splitFields ';' payload
    match fields[1]? with
    | none => (s, [])
    | some verb =>
      if verb ≠ "E" ∧ buffer.length > cmdOscCap then (s, [])
      else
        match verb with
        | "A" => s.onPromptStart fields nowMs
        | "B" => s.onCommandStart nowMs
        | "E" => (s.onExplicitCommand fields, [])
        | "C" => (s.onOutputStart nowMs, [])
        | "D" => s.onCommandFinished fields nowMs
        | _ => (s, [])

def finishOsc (s : CommandBlockSegmenter) (nowMs : Int64) : CommandBlockSegmenter × List CommandBlock :=
  let buffer := s.oscBuffer
  let s := { s with oscBuffer := [], finished := s.finished ++ [buffer] }
  match buffer.findIdx? (· == semicolon) with
  | none => (s, [])
  | some separator =>
    let ps := fromUtf8 (buffer.take separator)
    if ps = some "9" then
      if buffer[separator + 1]? = some 0x34 ∧
          (buffer[separator + 2]? = none ∨ buffer[separator + 2]? = some semicolon) then
        ({ s with sawRealProgressThisBlock := true }, [])
      else (s, [])
    else if ps = some "133" then s.onCommandMark buffer nowMs
    else (s, [])

/-- The byte behind an `ESC`. -/
def classify (s : CommandBlockSegmenter) (byte : UInt8) : CommandBlockSegmenter :=
  if byte = leftBracket then
    let s := if s.phase = .output then (s.appendByte esc).appendByte byte else s
    { s with state := .csi }
  else if byte = rightBracket then { s with state := .osc, oscBuffer := [] }
  else if byte ∈ stringIntroducers then { s with state := .stringConsume }
  else if byte = esc then { s with state := .escape }
  else
    let s := if s.phase = .output then (s.appendByte esc).appendByte byte else s
    { s with state := .ground }

def step (nowMs : Int64) (s : CommandBlockSegmenter) (byte : UInt8) :
    CommandBlockSegmenter × List CommandBlock :=
  match s.state with
  | .ground => if byte = esc then ({ s with state := .escape }, []) else (s.appendByte byte, [])
  | .escape => (s.classify byte, [])
  | .csi =>
    let s := if s.phase = .output then s.appendByte byte else s
    if isFinal byte then ({ s with state := .ground }, [])
    else if byte = esc then ({ s with state := .escape }, [])
    else (s, [])
  | .osc =>
    if byte = bel then
      let (s, completed) := s.finishOsc nowMs
      ({ s with state := .ground }, completed)
    else if byte = esc then ({ s with state := .oscEscape }, [])
    else
      let s := { s with oscBuffer := s.oscBuffer ++ [byte] }
      if s.oscBuffer.length > oscCap then ({ s with oscBuffer := [], state := .oscDiscard }, [])
      else (s, [])
  | .oscEscape =>
    let (s, completed) := s.finishOsc nowMs
    if byte = backslash then ({ s with state := .ground }, completed)
    else ({ s with state := .escape }.classify byte, completed)
  | .oscDiscard =>
    if byte = bel then ({ s with state := .ground }, [])
    else if byte = esc then ({ s with state := .oscDiscardEscape }, [])
    else (s, [])
  | .oscDiscardEscape =>
    if byte = backslash then ({ s with state := .ground }, [])
    else ({ s with state := .escape }.classify byte, [])
  | .stringConsume =>
    if byte = bel then ({ s with state := .ground }, [])
    else if byte = esc then ({ s with state := .stringConsumeEscape }, [])
    else (s, [])
  | .stringConsumeEscape =>
    if byte = backslash then ({ s with state := .ground }, [])
    else if byte = esc then ({ s with state := .stringConsumeEscape }, [])
    else ({ s with state := .stringConsume }, [])

def ingest (nowMs : Int64) (s : CommandBlockSegmenter) : List UInt8 → CommandBlockSegmenter × List CommandBlock
  | [] => (s, [])
  | byte :: tail =>
    if s.state = .ground then
      let rest := byte :: tail
      let run := (rest.findIdx? (· == esc)).getD rest.length
      let s := if rest.take run = [] then s else s.appendRun (rest.take run)
      if run < rest.length then
        let (s, completed) := s.step nowMs esc
        let (s, more) := s.ingest nowMs (rest.drop (run + 1))
        (s, completed ++ more)
      else (s, [])
    else
      let (s, completed) := s.step nowMs byte
      let (s, more) := s.ingest nowMs tail
      (s, completed ++ more)
termination_by rest => rest.length

/-- `finish`: a still-open block, as incomplete. -/
def finish (s : CommandBlockSegmenter) : CommandBlockSegmenter × List CommandBlock :=
  s.takeOpenBlock false none none

/-- `segment`: a stream already in hand. -/
def segment (stream : List UInt8) (nowMs : Int64) (outputCap : Nat) : List CommandBlock :=
  let (s, blocks) := (new outputCap []).ingest nowMs stream
  blocks ++ s.finish.2

/-- `peek_open_block`: only a block that is executing. -/
def peekOpenBlock (s : CommandBlockSegmenter) : Option CommandBlock :=
  if !s.hasOpenBlock || s.phase ≠ .output then none
  else
    some ⟨s.nextIndex, decodeCommand s.currentCommandBytes, s.openOutputBytes, none, none, false,
      s.openOutputTruncated, s.openPromptOrdinal⟩

def drainAutoProgress (s : CommandBlockSegmenter) : CommandBlockSegmenter × List SyntheticProgress :=
  ({ s with pendingProgress := [] }, s.pendingProgress)

end CommandBlockSegmenter

end SlopDesk.Superd
