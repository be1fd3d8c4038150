/-
SlopDesk.Terminal.ModeTracker — the client's mode tracker
(`slopdesk-terminal/src/tracker.rs`).

§1 the events and the tracker. §2 what a complete sequence does. §3 the
transition table. §4 the skim, and the loop that takes chunks with it.
-/
import SlopDesk.Base.Lanes
import SlopDesk.Base.Utf8
import SlopDesk.Superd.CommandBlocks

namespace SlopDesk.Terminal

open SlopDesk.Base

/-! ## §1 The tracker -/

def esc : UInt8 := 0x1B
def bel : UInt8 := 0x07

/-- `CSI_CAP`. -/
def csiCap : Nat := 64
/-- `OSC_CAP`. -/
def oscCap : Nat := 256

inductive TerminalMode where
  | shellPrompt
  | altScreen
  deriving DecidableEq

inductive TerminalModeEvent where
  | enteredAltScreen
  | exitedAltScreen
  | promptStart
  | commandStart
  | commandStarted
  | commandFinished (exitCode : Option Int64)
  deriving DecidableEq

inductive State where
  | ground
  | escape
  | csi
  | osc
  | oscEscape
  | stringConsume
  | stringConsumeEscape
  deriving DecidableEq

structure TerminalModeTracker where
  mode : TerminalMode := .shellPrompt
  bracketedPasteActive : Bool := false
  cursorKeysApplication : Bool := false
  state : State := .ground
  csiBuffer : List UInt8 := []
  oscBuffer : List UInt8 := []
  deriving DecidableEq

/-! ## §2 Complete sequences -/

/-- The numbers between `?` and the final byte. -/
def parameters (bytes : List UInt8) : List Int64 :=
  (((Utf8.decodeLossy bytes).splitOn ';').filter (· ≠ [])).filterMap fun field =>
    Superd.parseI64 (String.ofList field)

/-- One of the modes that switch the screen. -/
def switchesScreen (modes : List Int64) : Bool := modes.any fun mode => mode = 1049 || mode = 47 || mode = 1047

namespace TerminalModeTracker

/-- The passive flags. -/
def setFlags (t : TerminalModeTracker) (modes : List Int64) (isSet : Bool) : TerminalModeTracker :=
  { t with
    bracketedPasteActive := if 2004 ∈ modes then isSet else t.bracketedPasteActive
    cursorKeysApplication := if 1 ∈ modes then isSet else t.cursorKeysApplication }

/-- The switch, and the event of one that changes something. -/
def setScreen (t : TerminalModeTracker) (isSet : Bool) : TerminalModeTracker × List TerminalModeEvent :=
  if isSet then
    if t.mode ≠ .altScreen then ({ t with mode := .altScreen }, [.enteredAltScreen]) else (t, [])
  else if t.mode ≠ .shellPrompt then ({ t with mode := .shellPrompt }, [.exitedAltScreen])
  else (t, [])

def handleCsi (t : TerminalModeTracker) : TerminalModeTracker × List TerminalModeEvent :=
  match t.csiBuffer.getLast? with
  | none => (t, [])
  | some finalByte =>
    if finalByte ≠ 0x68 ∧ finalByte ≠ 0x6C then (t, [])
    else if t.csiBuffer.head? ≠ some 0x3F then (t, [])
    else
      let modes := parameters (t.csiBuffer.dropLast.drop 1)
      let isSet : Bool := finalByte = 0x68
      if switchesScreen modes then (t.setFlags modes isSet).setScreen isSet else (t.setFlags modes isSet, [])

/-- `handle_osc`, of the payload. -/
def oscEvents (payload : List UInt8) : List TerminalModeEvent :=
  match (Utf8.decodeLossy payload).splitOn ';' with
  | mark :: kind :: more =>
    if mark ≠ "133".toList then []
    else if kind = ['A'] then [.promptStart]
    else if kind = ['B'] then [.commandStart]
    else if kind = ['C'] then [.commandStarted]
    else if kind = ['D'] then
      -- The first part of the third field that is not empty, or the field.
      let exitCode := more.head?.bind fun field =>
        Superd.parseI64 (String.ofList (((field.splitOn '=').find? (· ≠ [])).getD field))
      [.commandFinished exitCode]
    else []
  | _ => []

/-! ## §3 The transition table -/

def stepEscape (t : TerminalModeTracker) (byte : UInt8) : TerminalModeTracker :=
  if byte = 0x5B then { t with state := .csi, csiBuffer := [] }
  else if byte = 0x5D then { t with state := .osc, oscBuffer := [] }
  else if byte ∈ [0x50, 0x58, 0x5E, 0x5F] then { t with state := .stringConsume }
  else if byte = esc then { t with state := .escape }
  else { t with state := .ground }

def stepCsi (t : TerminalModeTracker) (byte : UInt8) : TerminalModeTracker × List TerminalModeEvent :=
  let pushed := { t with csiBuffer := t.csiBuffer ++ [byte] }
  if 0x40 ≤ byte ∧ byte ≤ 0x7E then
    let (handled, events) := pushed.handleCsi
    ({ handled with state := .ground }, events)
  else if csiCap < pushed.csiBuffer.length then ({ pushed with state := .ground }, [])
  else (pushed, [])

def stepOsc (t : TerminalModeTracker) (byte : UInt8) : TerminalModeTracker × List TerminalModeEvent :=
  if byte = bel then ({ t with state := .ground }, oscEvents t.oscBuffer)
  else if byte = esc then ({ t with state := .oscEscape }, [])
  else
    let pushed := { t with oscBuffer := t.oscBuffer ++ [byte] }
    if oscCap < pushed.oscBuffer.length then ({ pushed with state := .ground }, []) else (pushed, [])

def step (t : TerminalModeTracker) (byte : UInt8) : TerminalModeTracker × List TerminalModeEvent :=
  match t.state with
  | .ground => (if byte = esc then { t with state := .escape } else t, [])
  | .escape => (t.stepEscape byte, [])
  | .csi => t.stepCsi byte
  | .osc => t.stepOsc byte
  | .oscEscape =>
    -- Either way the OSC is over; an `ESC` that no `\` follows introduces.
    (if byte = 0x5C then { t with state := .ground } else { t with state := .escape }.stepEscape byte,
      oscEvents t.oscBuffer)
  | .stringConsume =>
    (if byte = bel then { t with state := .ground }
      else if byte = esc then { t with state := .stringConsumeEscape }
      else t, [])
  | .stringConsumeEscape =>
    (if byte = 0x5C then { t with state := .ground }
      else if byte = esc then t
      else { t with state := .stringConsume }, [])

end TerminalModeTracker

/-! ## §4 Chunks -/

/-- `LANES`. -/
def laneCount : Nat := 16

/-- A reader's answer to some bytes: what it is afterwards, and its events. -/
abbrev Reading := TerminalModeTracker × List TerminalModeEvent

/-- Whether a word of sixteen bytes can hold `needle`; which end of the word
comes first does not matter to the test. -/
def suspects (word : List UInt8) (needle : UInt8) : Bool :=
  let xored := BitVec.ofNat 128 (Lanes.word word) ^^^ BitVec.ofNat 128 (Lanes.lanes laneCount needle)
  (xored - BitVec.ofNat 128 (Lanes.lanes laneCount 1)) &&& ~~~ xored &&&
    BitVec.ofNat 128 (Lanes.lanes laneCount 0x80) ≠ 0

/-- The loop of `skim` with `at'` bytes behind it. -/
def skimFrom (needle : UInt8) (at' : Nat) (window : List UInt8) : Option Nat :=
  if laneCount ≤ window.length then
    let word := window.take laneCount
    match if suspects word needle then word.findIdx? (· = needle) else none with
    | some i => some (at' + i)
    | none => skimFrom needle (at' + laneCount) (window.drop laneCount)
  else (window.findIdx? (· = needle)).map (at' + ·)
termination_by window.length
decreasing_by
  rw [List.length_drop]
  simp only [laneCount] at *
  omega

def skim (window : List UInt8) (needle : UInt8) : Option Nat := skimFrom needle 0 window

namespace TerminalModeTracker

/-- `consume` of the bytes from the index on. -/
def consume (t : TerminalModeTracker) (bytes : List UInt8) : Reading :=
  match bytes with
  | [] => (t, [])
  | byte :: rest =>
    match t.state with
    | .ground =>
      match skim (byte :: rest) esc with
      | some offset =>
        let (next, events) := t.step esc
        let (last, more) := consume next ((byte :: rest).drop (offset + 1))
        (last, events ++ more)
      | none => (t, [])
    | .stringConsume =>
      let escapeAt := (skim (byte :: rest) esc).getD (byte :: rest).length
      -- The scan for `BEL` is bounded by the next `ESC`.
      match skim ((byte :: rest).take escapeAt) bel with
      | some bellAt =>
        let (next, events) := t.step bel
        let (last, more) := consume next ((byte :: rest).drop (bellAt + 1))
        (last, events ++ more)
      | none =>
        if escapeAt < (byte :: rest).length then
          let (next, events) := t.step esc
          let (last, more) := consume next ((byte :: rest).drop (escapeAt + 1))
          (last, events ++ more)
        else (t, [])
    | _ =>
      let (next, events) := t.step byte
      let (last, more) := consume next rest
      (last, events ++ more)
termination_by bytes.length

/-- `consume`, chunk after chunk. -/
def consumeChunks (t : TerminalModeTracker) : List (List UInt8) → Reading
  | [] => (t, [])
  | chunk :: chunks =>
    let (next, events) := t.consume chunk
    let (last, more) := consumeChunks next chunks
    (last, events ++ more)

/-- A transition table over bytes, one at a time. -/
def bytewise (table : TerminalModeTracker → UInt8 → Reading) (t : TerminalModeTracker) : List UInt8 → Reading
  | [] => (t, [])
  | byte :: rest =>
    let (next, events) := table t byte
    let (last, more) := bytewise table next rest
    (last, events ++ more)

/-- The table of a reader to which an `ESC` always begins a sequence, outside
the bodies that are opaque. -/
def readByte (t : TerminalModeTracker) (byte : UInt8) : Reading :=
  if t.state = .csi ∧ byte = esc then ({ t with state := .escape }, []) else t.step byte

end TerminalModeTracker

end SlopDesk.Terminal
