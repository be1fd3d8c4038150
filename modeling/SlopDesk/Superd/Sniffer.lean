/-
SlopDesk.Superd.Sniffer — what the shell says out of band, read off the
outbound stream (`slopdesk-superd/src/sniffer.rs`).

The reader has a state machine of its own beside the segmenter's, with two
bulk scans: one for the ground state and one for the swallowing states.
`Foreign` is what it calls outside the repository, the standard library's
`to_lowercase` and the base64 engine; nothing is assumed of either.
`finished` lists every payload `finish_osc` was given, in order; the source
keeps no such list.
-/
import SlopDesk.Superd.CommandBlocks

namespace SlopDesk.Superd

open SlopDesk.Base SlopDesk.Sanitize SlopDesk.Wire

/-- `NOTIFY_OSC_CAP`. -/
def notifyOscCap : Nat := 1024
/-- `KITTY_ASSEMBLY_MAX`. -/
def kittyAssemblyMax : Nat := 8
/-- `KITTY_ASSEMBLY_CAP`. -/
def kittyAssemblyCap : Nat := 4096

inductive CommandStatus where
  | running
  | idle (exitCode : Option Int32) (durationMs : UInt32)
  deriving DecidableEq

/-- `SniffEvent`, as far as the sniffer produces it. -/
inductive SniffEvent where
  | title (value : String)
  | bell
  | status (status : CommandStatus)
  | cwd (value : String)
  | notification (title body : String)
  | progressBody (body : String)
  deriving DecidableEq

/-- What the sniffer calls and the repository does not contain. -/
structure Foreign where
  toLowercase : String → String
  decodeBase64 : String → Option (List UInt8)

/-! ## §1 Payloads -/

/-- `str::find` and the two sides of what it found. -/
def splitOnce (sep : Char) (text : String) : Option (String × String) :=
  match text.toList.dropWhile (· ≠ sep) with
  | [] => none
  | _ :: after => some (String.ofList (text.toList.takeWhile (· ≠ sep)), String.ofList after)

/-- `str::splitn`. -/
def splitN : Nat → Char → String → List String
  | 0, _, _ => []
  | 1, _, text => [text]
  | n + 2, sep, text =>
    match splitOnce sep text with
    | none => [text]
    | some (before, after) => before :: splitN (n + 1) sep after

def osc7Path (foreign : Foreign) (body : String) (localHostnames : List String) : Option String := do
  let scheme := "file://"
  let afterScheme ← if scheme.toList.isPrefixOf body.toList then
      some (String.ofList (body.toList.drop scheme.length)) else none
  let (authority, path) ← splitOnce '/' afterScheme
  let host := foreign.toLowercase ((percentDecoded authority).getD authority)
  if !(host = "" || host = "localhost" || localHostnames.contains host) then none
  else (percentDecoded ("/" ++ path)).filter fun decoded => decoded.toList.head? = some '/'

structure KittyChunk where
  id : String
  done : Bool
  isBody : Bool
  text : String

/-- What the metadata of a kitty chunk sets. -/
structure KittyMetadata where
  id : String
  done : Bool
  encoding : String
  payloadType : String

/-- One `key=value` of the metadata. -/
def KittyMetadata.token (m : KittyMetadata) (token : String) : KittyMetadata :=
  match splitOnce '=' token with
  | none => m
  | some (key, value) =>
    match key with
    | "i" => { m with id := value }
    | "d" => { m with done := value ≠ "0" }
    | "e" => { m with encoding := value }
    | "p" => { m with payloadType := value }
    | _ => m

def parseKittyChunk (foreign : Foreign) (remainder : String) : Option KittyChunk := do
  let (metadata, payload) ← splitOnce ';' remainder
  let tokens := (splitFields ':' metadata).filter (· ≠ "")
  let m := tokens.foldl KittyMetadata.token ⟨"", true, "", "title"⟩
  if m.encoding ∉ ["", "0", "1"] ∨ m.payloadType ∉ ["title", "body"] then none
  else
    let text ← if m.encoding = "1" then (foreign.decodeBase64 payload).bind fromUtf8 else some payload
    return ⟨m.id, m.done, m.payloadType = "body", text⟩

/-! ## §2 The sniffer -/

namespace Sniffer

/-- The sniffer's `State`. -/
inductive State where
  | ground | escape | osc | oscEscape | oscDiscard | oscDiscardEscape | stringConsume | stringConsumeEscape
  deriving DecidableEq, Repr

end Sniffer

open Sniffer in
/-- `OutputSniffer`, and beside it the payloads it finished. -/
structure OutputSniffer where
  localHostnames : List String
  state : State
  oscBuffer : List UInt8
  lastTitle : Option String
  runningSinceMs : Option Int64
  idleSentSinceLastC : Bool
  kittyAssembly : List (String × String × String)
  finished : List (List UInt8)
  deriving DecidableEq

namespace OutputSniffer

variable (foreign : Foreign) (nowMs : Int64)

def new (localHostnames : List String) : OutputSniffer where
  localHostnames := localHostnames.map foreign.toLowercase
  state := .ground
  oscBuffer := []
  lastTitle := none
  runningSinceMs := none
  idleSentSinceLastC := false
  kittyAssembly := []
  finished := []

/-- OSC 0 and OSC 2. -/
def onTitle (s : OutputSniffer) (body : Option String) : OutputSniffer × List SniffEvent :=
  match body.filter (· ≠ "") with
  | none => (s, [])
  | some title =>
    if s.lastTitle = some title then (s, [])
    else ({ s with lastTitle := some title }, [.title title])

/-- OSC 133 `B`, `C` and `D`. -/
def onCommandMark (s : OutputSniffer) (buffer : List UInt8) : OutputSniffer × List SniffEvent :=
  if buffer.length > cmdOscCap then (s, [])
  else
    match fromUtf8 buffer with
    | none => (s, [])
    | some payload =>
      let fields := splitFields ';' payload
      match fields[1]? with
      | some "C" =>
        ({ s with idleSentSinceLastC := false, runningSinceMs := some nowMs }, [.status .running])
      | some "D" =>
        match s.runningSinceMs with
        | none => (s, [])
        | some started =>
          ({ s with runningSinceMs := none, idleSentSinceLastC := true },
            [.status (.idle (parseExit fields) (durationMs started nowMs))])
      | some "B" =>
        if s.runningSinceMs.isNone && !s.idleSentSinceLastC then
          ({ s with idleSentSinceLastC := true }, [.status (.idle none 0)])
        else (s, [])
      | _ => (s, [])

/-- OSC 9: progress or a notification, by the shape of the body. -/
def onOsc9 (buffer : List UInt8) (body : Option String) : List SniffEvent :=
  if buffer.length > notifyOscCap then []
  else
    match body.filter (· ≠ "") with
    | none => []
    | some body =>
      if body = "4" || "4;".toList.isPrefixOf body.toList then [.progressBody body]
      else [.notification "" body]

/-- OSC 777. -/
def onOsc777 (buffer : List UInt8) : List SniffEvent :=
  if buffer.length > notifyOscCap then []
  else
    match fromUtf8 buffer with
    | none => []
    | some payload =>
      let fields := splitN 4 ';' payload
      if fields[1]? ≠ some "notify" then []
      else
        let title := fields[2]?.getD ""
        let body := fields[3]?.getD ""
        if title = "" ∧ body = "" then [] else [.notification title body]

/-- OSC 99. -/
def onKitty (s : OutputSniffer) (buffer : List UInt8) (remainder : Option String) :
    OutputSniffer × List SniffEvent :=
  if buffer.length > notifyOscCap then (s, [])
  else
    match remainder.bind (parseKittyChunk foreign) with
    | none => (s, [])
    | some chunk =>
      let existing := s.kittyAssembly.findIdx? (·.1 = chunk.id)
      if existing.isNone ∧ s.kittyAssembly.length ≥ kittyAssemblyMax then (s, [])
      else
        let assembly := if existing.isSome then s.kittyAssembly else s.kittyAssembly ++ [(chunk.id, "", "")]
        let slot := existing.getD (assembly.length - 1)
        match assembly[slot]? with
        | none => ({ s with kittyAssembly := assembly }, [])
        | some (id, title, body) =>
          let (title, body) := if chunk.isBody then (title, body ++ chunk.text) else (title ++ chunk.text, body)
          let overCap := title.length + body.length > kittyAssemblyCap
          if overCap ∨ chunk.done then
            let s := { s with kittyAssembly := assembly.eraseIdx slot }
            if overCap then (s, [])
            else
              let (title, body) := if body = "" then ("", title) else (title, body)
              if title ≠ "" ∨ body ≠ "" then (s, [.notification title body]) else (s, [])
          else ({ s with kittyAssembly := assembly.set slot (id, title, body) }, [])

def finishOsc (s : OutputSniffer) : OutputSniffer × List SniffEvent :=
  let buffer := s.oscBuffer
  let s := { s with oscBuffer := [], finished := s.finished ++ [buffer] }
  match buffer.findIdx? (· == semicolon) with
  | none => (s, [])
  | some separator =>
    match fromUtf8 (buffer.take separator) with
    | none => (s, [])
    | some ps =>
      let afterPs := fromUtf8 (buffer.drop (separator + 1))
      match ps with
      | "0" | "2" => s.onTitle afterPs
      | "133" => s.onCommandMark nowMs buffer
      | "7" =>
        match afterPs.bind fun body => osc7Path foreign body s.localHostnames with
        | none => (s, [])
        | some cwd => (s, [.cwd cwd])
      | "9" => (s, onOsc9 buffer afterPs)
      | "777" => (s, onOsc777 buffer)
      | "99" => s.onKitty foreign buffer afterPs
      | _ => (s, [])

/-- The byte behind an `ESC`. -/
def classify (s : OutputSniffer) (byte : UInt8) : OutputSniffer :=
  if byte = rightBracket then { s with state := .osc, oscBuffer := [] }
  else if byte ∈ stringIntroducers then { s with state := .stringConsume }
  else if byte = esc then { s with state := .escape }
  else { s with state := .ground }

def step (s : OutputSniffer) (byte : UInt8) : OutputSniffer × List SniffEvent :=
  match s.state with
  | .ground =>
    if byte = esc then ({ s with state := .escape }, [])
    else if byte = bel then (s, [.bell])
    else (s, [])
  | .escape => (s.classify byte, [])
  | .osc =>
    if byte = bel then
      let (s, events) := s.finishOsc foreign nowMs
      ({ s with state := .ground }, events)
    else if byte = esc then ({ s with state := .oscEscape }, [])
    else
      let s := { s with oscBuffer := s.oscBuffer ++ [byte] }
      if s.oscBuffer.length > oscCap then ({ s with oscBuffer := [], state := .oscDiscard }, [])
      else (s, [])
  | .oscEscape =>
    let (s, events) := s.finishOsc foreign nowMs
    if byte = backslash then ({ s with state := .ground }, events)
    else ({ s with state := .escape }.classify byte, events)
  | .oscDiscard =>
    if byte = bel then ({ s with state := .ground }, [])
    else if byte = esc then ({ s with state := .oscDiscardEscape }, [])
    else (s, [])
  | .oscDiscardEscape =>
    if byte = backslash then ({ s with state := .ground }, [])
    else ({ s with state := .escape }.classify byte, [])
  | .stringConsume =>
    if byte = bel then ({ s with state := .ground }, [])
    else if byte = esc then ({ s with state := .stringConsumeEscape }, [])
    else (s, [])
  | .stringConsumeEscape =>
    if byte = backslash then ({ s with state := .ground }, [])
    else if byte = esc then ({ s with state := .stringConsumeEscape }, [])
    else ({ s with state := .stringConsume }, [])

/-- The `BEL` scan of the ground fast path, over the bytes before the next
`ESC`. -/
def skimBells (s : OutputSniffer) (run : List UInt8) : OutputSniffer × List SniffEvent :=
  match h : run.findIdx? (· == bel) with
  | none => (s, [])
  | some belAt =>
    let (s, events) := s.step foreign nowMs bel
    let (s, more) := skimBells s (run.drop (belAt + 1))
    (s, events ++ more)
termination_by run.length
decreasing_by
  have hlt := (List.findIdx?_eq_some_iff_findIdx_eq.mp h).1
  simp only [List.length_drop]
  omega

/-- `skim_ground`, with how much it read. -/
def skimGround (s : OutputSniffer) (rest : List UInt8) : Nat × OutputSniffer × List SniffEvent :=
  let escAt := (rest.findIdx? (· == esc)).getD rest.length
  let (s, events) := s.skimBells foreign nowMs (rest.take escAt)
  if escAt < rest.length then
    let (s, more) := s.step foreign nowMs esc
    (escAt + 1, s, events ++ more)
  else (rest.length, s, events)

def skimSwallowing (s : OutputSniffer) (rest : List UInt8) : Nat × OutputSniffer × List SniffEvent :=
  let escAt := (rest.findIdx? (· == esc)).getD rest.length
  match (rest.take escAt).findIdx? (· == bel) with
  | some belAt =>
    let (s, events) := s.step foreign nowMs bel
    (belAt + 1, s, events)
  | none =>
    if escAt < rest.length then
      let (s, events) := s.step foreign nowMs esc
      (escAt + 1, s, events)
    else (rest.length, s, [])

theorem skimGround_pos (s : OutputSniffer) (byte : UInt8) (tail : List UInt8) :
    0 < (s.skimGround foreign nowMs (byte :: tail)).1 := by
  simp only [skimGround]
  split <;> simp

theorem skimSwallowing_pos (s : OutputSniffer) (byte : UInt8) (tail : List UInt8) :
    0 < (s.skimSwallowing foreign nowMs (byte :: tail)).1 := by
  simp only [skimSwallowing]
  split
  · simp
  · split <;> simp

def observe (s : OutputSniffer) : List UInt8 → OutputSniffer × List SniffEvent
  | [] => (s, [])
  | byte :: tail =>
    match s.state with
    | .ground =>
      let read := s.skimGround foreign nowMs (byte :: tail)
      let (s, more) := read.2.1.observe ((byte :: tail).drop read.1)
      (s, read.2.2 ++ more)
    | .oscDiscard | .stringConsume =>
      let read := s.skimSwallowing foreign nowMs (byte :: tail)
      let (s, more) := read.2.1.observe ((byte :: tail).drop read.1)
      (s, read.2.2 ++ more)
    | _ =>
      let (s, events) := s.step foreign nowMs byte
      let (s, more) := s.observe tail
      (s, events ++ more)
termination_by rest => rest.length
decreasing_by
  · have hpos := skimGround_pos foreign nowMs s byte tail
    simp only [List.length_drop, List.length_cons]
    omega
  all_goals first
    | (have hpos := skimSwallowing_pos foreign nowMs s byte tail
       simp only [List.length_drop, List.length_cons]
       omega)
    | simp

end OutputSniffer

end SlopDesk.Superd
