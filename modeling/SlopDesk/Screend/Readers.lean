/-
SlopDesk.Screend.Readers — the three readers of a pane's output.

§1 the parser of the screen model (`slopdesk-screend/src/model.rs`), §2 the
OSC tracker (`osc.rs`), §3 the synchronized-frame tracker (`syncwatch.rs`).
Of the model only the parser is here: what it does to the grid it does by the
calls `consume` answers with, and none of them reaches back into the parser.
-/
import SlopDesk.Base.Utf8
import SlopDesk.Superd.CommandBlocks

namespace SlopDesk.Screend

open SlopDesk.Base

/-- The bytes that introduce a string no BEL ends: DCS, SOS, PM and APC. -/
def introducesString (byte : UInt8) : Bool := byte ∈ [0x50, 0x58, 0x5E, 0x5F]

/-! ## §1 The screen model -/

inductive ParseState where
  | ground
  | escape
  /-- `ESC` and one intermediate: the next byte finishes it. -/
  | escapeIntermediate (intermediate : UInt8)
  | csi
  | stringBody (belTerminates sawEsc : Bool)
  deriving DecidableEq

/-- What the parser asks of the grid. -/
inductive Call where
  | carriageReturn
  | lineFeed
  | nextLine
  | backspace (clearsWrap : Bool)
  | tab
  | shift (usingG1 : Bool)
  | print (scalar : List UInt8)
  | saveCursor
  | restoreCursor
  | applicationKeypad (on : Bool)
  | reverseIndex
  | fullReset
  | escFinal (intermediate finalByte : UInt8)
  | csiDispatch (finalByte csiPrivate : UInt8) (params : List Int) (colonFlags : List Bool)
  | cursorShape (shape : Nat)
  | markPromptRow
  deriving DecidableEq

structure ModelParser where
  state : ParseState := .ground
  csiPrivate : UInt8 := 0
  csiParams : List Int := []
  csiColonFlags : List Bool := []
  csiCurrent : Option Int := none
  csiNextParamColon : Bool := false
  csiIntermediate : UInt8 := 0
  utf8Pending : List UInt8 := []
  utf8Expected : Nat := 0
  promptMarkMatch : Option Nat := none
  deriving DecidableEq

/-- `PROMPT_MARK_PATTERN`, `133;A`. -/
def promptMarkPattern : List UInt8 := [0x31, 0x33, 0x33, 0x3B, 0x41]

namespace ModelParser

/-- `consume_ground` outside a scalar. -/
def groundByte (m : ModelParser) (byte : UInt8) : ModelParser × List Call :=
  if byte = 0x1B then ({ m with state := .escape }, [])
  else if byte = 0x0D then (m, [.carriageReturn])
  else if 0x0A ≤ byte ∧ byte ≤ 0x0C then (m, [.lineFeed])
  else if byte = 0x08 then (m, [.backspace true])
  else if byte = 0x09 then (m, [.tab])
  else if byte = 0x0E then (m, [.shift true])
  else if byte = 0x0F then (m, [.shift false])
  else if byte ≤ 0x1F ∨ byte = 0x7F then (m, [])
  else if byte ≤ 0x7E then (m, [.print [byte]])
  else if byte &&& 0xE0 = 0xC0 then ({ m with utf8Pending := [byte], utf8Expected := 1 }, [])
  else if byte &&& 0xF0 = 0xE0 then ({ m with utf8Pending := [byte], utf8Expected := 2 }, [])
  else if byte &&& 0xF8 = 0xF0 then ({ m with utf8Pending := [byte], utf8Expected := 3 }, [])
  else (m, [])

def consumeGround (m : ModelParser) (byte : UInt8) : ModelParser × List Call :=
  if 0 < m.utf8Expected then
    if byte &&& 0xC0 = 0x80 then
      let m := { m with utf8Pending := m.utf8Pending ++ [byte], utf8Expected := m.utf8Expected - 1 }
      -- `flush_utf8_scalar`: the call drops what is no scalar.
      if m.utf8Expected = 0 then ({ m with utf8Pending := [] }, [.print m.utf8Pending]) else (m, [])
    else groundByte { m with utf8Pending := [], utf8Expected := 0 } byte
  else groundByte m byte

def consumeEscape (m : ModelParser) (byte : UInt8) : ModelParser × List Call :=
  if byte = 0x5B then
    ({ m with
        state := .csi, csiPrivate := 0, csiParams := [], csiColonFlags := [], csiCurrent := none
        csiNextParamColon := false, csiIntermediate := 0 }, [])
  else if byte = 0x5D then ({ m with state := .stringBody true false, promptMarkMatch := some 0 }, [])
  else if introducesString byte then ({ m with state := .stringBody false false, promptMarkMatch := none }, [])
  else if byte ∈ [0x28, 0x29, 0x23, 0x2A, 0x2B, 0x25] then ({ m with state := .escapeIntermediate byte }, [])
  else if byte = 0x37 then ({ m with state := .ground }, [.saveCursor])
  else if byte = 0x38 then ({ m with state := .ground }, [.restoreCursor])
  else if byte = 0x3D then ({ m with state := .ground }, [.applicationKeypad true])
  else if byte = 0x3E then ({ m with state := .ground }, [.applicationKeypad false])
  else if byte = 0x44 then ({ m with state := .ground }, [.lineFeed])
  else if byte = 0x45 then ({ m with state := .ground }, [.nextLine])
  else if byte = 0x4D then ({ m with state := .ground }, [.reverseIndex])
  else if byte = 0x63 then ({ m with state := .ground, promptMarkMatch := none }, [.fullReset])
  else if byte = 0x1B then ({ m with state := .escape }, [])
  else ({ m with state := .ground }, [])

/-- The parameter that is being read joins the ones before it, up to 32. -/
def pushParam (m : ModelParser) (param : Int) : ModelParser :=
  if m.csiParams.length < 32 then
    { m with csiParams := m.csiParams ++ [param], csiColonFlags := m.csiColonFlags ++ [m.csiNextParamColon] }
  else m

/-- The final byte of a control sequence, its parameters complete. -/
def csiFinal (m : ModelParser) (byte : UInt8) : List Call :=
  if m.csiIntermediate = 0 then [.csiDispatch byte m.csiPrivate m.csiParams m.csiColonFlags]
  else if m.csiIntermediate = 0x20 ∧ byte = 0x71 ∧ m.csiPrivate = 0 then
    [.cursorShape (min ((m.csiParams[0]?).getD 0).toNat 6)]
  else []

def consumeCsi (m : ModelParser) (byte : UInt8) : ModelParser × List Call :=
  if 0x30 ≤ byte ∧ byte ≤ 0x39 then
    ({ m with csiCurrent := some (min (m.csiCurrent.getD 0 * 10 + (byte.toNat - 0x30)) 9999) }, [])
  else if byte = 0x3B ∨ byte = 0x3A then
    ({ m.pushParam (m.csiCurrent.getD 0) with csiCurrent := none, csiNextParamColon := byte = 0x3A }, [])
  else if byte ∈ [0x3F, 0x3E, 0x3C, 0x3D] then ({ m with csiPrivate := byte }, [])
  else if 0x20 ≤ byte ∧ byte ≤ 0x2F then ({ m with csiIntermediate := byte }, [])
  else if 0x40 ≤ byte ∧ byte ≤ 0x7E then
    let m := match m.csiCurrent with
      | some current => m.pushParam current
      | none => m
    ({ m with state := .ground }, m.csiFinal byte)
  else if byte = 0x1B then ({ m with state := .escape }, [])
  else if byte = 0x0D then (m, [.carriageReturn])
  else if byte = 0x0A then (m, [.lineFeed])
  else if byte = 0x08 then (m, [.backspace false])
  else (m, [])

def advancePromptMarkMatch (promptMarkMatch : Option Nat) (byte : UInt8) : Option Nat :=
  promptMarkMatch.bind fun matched =>
    if matched < promptMarkPattern.length then
      if promptMarkPattern[matched]? = some byte then some (matched + 1) else none
    else if matched = promptMarkPattern.length ∧ byte ≠ 0x3B then none
    else some (matched + 1)

/-- `finish_string_body`, the state set before it. -/
def finishStringBody (m : ModelParser) : ModelParser × List Call :=
  ({ m with state := .ground, promptMarkMatch := none },
    if m.promptMarkMatch.any (promptMarkPattern.length ≤ ·) then [.markPromptRow] else [])

def consumeStringBody (m : ModelParser) (byte : UInt8) (belTerminates sawEsc : Bool) : ModelParser × List Call :=
  if sawEsc then
    if byte = 0x5C then m.finishStringBody
    else ({ m with state := .stringBody belTerminates false, promptMarkMatch := none }, [])
  else if byte = 0x1B then ({ m with state := .stringBody belTerminates true }, [])
  else if belTerminates ∧ byte = 0x07 then m.finishStringBody
  else ({ m with promptMarkMatch := advancePromptMarkMatch m.promptMarkMatch byte }, [])

def consume (m : ModelParser) (byte : UInt8) : ModelParser × List Call :=
  match m.state with
  | .ground => m.consumeGround byte
  | .escape => m.consumeEscape byte
  | .escapeIntermediate intermediate => ({ m with state := .ground }, [.escFinal intermediate byte])
  | .csi => m.consumeCsi byte
  | .stringBody belTerminates sawEsc => m.consumeStringBody byte belTerminates sawEsc

end ModelParser

/-! ## §2 The OSC tracker -/

/-- `MAX_BODY_BYTES`. -/
def maxBodyBytes : Nat := 4096
/-- `MAX_CHARS`. -/
def maxChars : Nat := 256

inductive OscState where
  | ground
  | escape
  | body
  | bodyEscape
  | ignoringString
  | ignoringStringEscape
  | discarding
  | discardingEscape
  deriving DecidableEq

structure OscTracker where
  state : OscState := .ground
  body : List UInt8 := []
  title : List Char := []
  progress : List Char := []
  deriving DecidableEq

def isControl (c : Char) : Bool := c.toNat < 0x20 || (0x7F ≤ c.toNat && c.toNat < 0xA0)

def sanitize (payload : List UInt8) : List Char :=
  ((Utf8.decodeLossy payload).filter (!isControl ·)).take maxChars

namespace OscTracker

def push (o : OscTracker) (byte : UInt8) : OscTracker :=
  if maxBodyBytes < o.body.length + 1 then { o with body := [], state := .discarding }
  else { o with body := o.body ++ [byte], state := .body }

def finish (o : OscTracker) : OscTracker :=
  let done := { o with body := [], state := .ground }
  if 0x3B ∉ o.body then done
  else
    let command := o.body.takeWhile (· ≠ 0x3B)
    let payload := o.body.drop (command.length + 1)
    if command = [0x30] ∨ command = [0x32] then { done with title := sanitize payload }
    else if command = [0x39] then { done with progress := sanitize payload }
    else done

/-- `ESC` inside a body: `push` can flip the state to `discarding`, so every
branch reads it again. -/
def stepBodyEscape (o : OscTracker) (byte : UInt8) : OscTracker :=
  if byte = 0x5C then o.finish
  else
    let pushed := o.push 0x1B
    if byte = 0x07 then
      if pushed.state = .body then pushed.finish else { pushed with state := .ground }
    else if byte = 0x1B then
      if pushed.state = .body then { pushed with state := .bodyEscape }
      else if pushed.state = .discarding then { pushed with state := .discardingEscape }
      else pushed
    else if pushed.state = .body then pushed.push byte
    else pushed

def step (o : OscTracker) (byte : UInt8) : OscTracker :=
  match o.state with
  | .ground => if byte = 0x1B then { o with state := .escape } else o
  | .escape =>
    if byte = 0x5D then { o with body := [], state := .body }
    else if byte = 0x1B then { o with state := .escape }
    else if introducesString byte then { o with state := .ignoringString }
    else { o with state := .ground }
  | .body =>
    if byte = 0x07 then o.finish
    else if byte = 0x1B then { o with state := .bodyEscape }
    else o.push byte
  | .bodyEscape => o.stepBodyEscape byte
  | .ignoringString => if byte = 0x1B then { o with state := .ignoringStringEscape } else o
  | .ignoringStringEscape =>
    if byte = 0x5C then { o with state := .ground }
    else if byte ≠ 0x1B then { o with state := .ignoringString }
    else o
  | .discarding =>
    if byte = 0x07 then { o with state := .ground }
    else if byte = 0x1B then { o with state := .discardingEscape }
    else o
  | .discardingEscape =>
    if byte = 0x5C then { o with state := .ground }
    else if byte ≠ 0x1B then { o with state := .discarding }
    else o

end OscTracker

/-! ## §3 The synchronized-frame tracker -/

/-- `MAX_PARAM_BYTES`. -/
def maxParamBytes : Nat := 64

inductive SyncState where
  | ground
  | escape
  | csi
  | str
  | strEscape
  deriving DecidableEq

structure SyncFrameTracker where
  state : SyncState := .ground
  params : List UInt8 := []
  paramsOverflowed : Bool := false
  stringIsOsc : Bool := false
  frameOpen : Bool := false
  generation : UInt64 := 0
  deriving DecidableEq

namespace SyncFrameTracker

/-- Whether one of the fields is the number 2026. The collected bytes are
ASCII, so the lossy decode changes none. -/
def contains2026 (fields : List UInt8) : Bool :=
  (fields.splitOn 0x3B).any fun field =>
    Superd.parseI64 (String.ofList (field.map fun b => Char.ofNat b.toNat)) = some 2026

def applyCsiFinal (s : SyncFrameTracker) (finalByte : UInt8) : SyncFrameTracker :=
  let done := { s with params := [], paramsOverflowed := false }
  if s.paramsOverflowed ∨ (finalByte ≠ 0x68 ∧ finalByte ≠ 0x6C) ∨ s.params.head? ≠ some 0x3F then done
  else
    let rest := s.params.tail
    if rest.any (fun byte => 0x20 ≤ byte && byte ≤ 0x2F) then done
    else if !contains2026 rest then done
    else
      let isOpen : Bool := finalByte = 0x68
      { done with
        generation := if isOpen ∧ !s.frameOpen then s.generation + 1 else s.generation, frameOpen := isOpen }

def stepCsi (s : SyncFrameTracker) (byte : UInt8) : SyncFrameTracker :=
  if 0x20 ≤ byte ∧ byte ≤ 0x3F then
    if s.params.length < maxParamBytes then { s with params := s.params ++ [byte] }
    else { s with paramsOverflowed := true }
  else if 0x40 ≤ byte ∧ byte ≤ 0x7E then { s.applyCsiFinal byte with state := .ground }
  -- `ESC` aborts the sequence and begins the next one.
  else if byte = 0x1B then { s with params := [], paramsOverflowed := false, state := .escape }
  else { s with state := .ground }

def step (s : SyncFrameTracker) (byte : UInt8) : SyncFrameTracker :=
  match s.state with
  | .ground => if byte = 0x1B then { s with state := .escape } else s
  | .escape =>
    if byte = 0x5B then { s with params := [], paramsOverflowed := false, state := .csi }
    else if byte = 0x5D then { s with stringIsOsc := true, state := .str }
    else if introducesString byte then { s with stringIsOsc := false, state := .str }
    else if byte = 0x63 then { s with frameOpen := false, state := .ground }
    else if byte = 0x1B then { s with state := .escape }
    else { s with state := .ground }
  | .csi => s.stepCsi byte
  | .str =>
    if s.stringIsOsc ∧ byte = 0x07 then { s with state := .ground }
    else if byte = 0x1B then { s with state := .strEscape }
    else s
  | .strEscape =>
    if byte = 0x5C then { s with state := .ground }
    else if byte ≠ 0x1B then { s with state := .str }
    else s

end SyncFrameTracker

end SlopDesk.Screend
