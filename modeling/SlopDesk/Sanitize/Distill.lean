/-
SlopDesk.Sanitize.Distill — command lines in place of their editing
(`slopdesk-sanitize/src/distill.rs`).

A machine of one byte at a time collects an `OSC` and hands everything else
on. The `OSC 133` marks open and close the span of a command line's editing,
whose bytes wait until a mark decides what stands in their place.
-/
import Mathlib.Data.List.TakeWhile
import SlopDesk.Sanitize.VtScan

namespace SlopDesk.Sanitize

/-- `OSC_CAP`. -/
def oscCap : Nat := 4096
/-- `INPUT_SPAN_CAP`. -/
def inputSpanCap : Nat := 256 * 1024

/-- The subcommands of an `OSC 133`. -/
inductive Mark where
  /-- `A`. -/
  | prompt
  /-- `B`. -/
  | input
  /-- `E`, with the command line. -/
  | command (line : List UInt8)
  /-- `C`. -/
  | output
  /-- `D`. -/
  | finished
  | other
  deriving DecidableEq

def parseCommandField (payload : List UInt8) (sep : Nat) : List UInt8 :=
  match (payload.drop (sep + 1)).dropWhile (· ≠ 0x3B) with
  | [] => []
  | _ :: field => unescapeCommand field

/-- The mark of a payload, as `classify_osc` reads it. -/
def markOf (payload : List UInt8) : Option Mark :=
  let sep := payload.idxOf 0x3B
  if sep = payload.length ∨ payload.take sep ≠ [0x31, 0x33, 0x33] then none
  else if payload[sep + 1]? = some 0x41 then some .prompt
  else if payload[sep + 1]? = some 0x42 then some .input
  else if payload[sep + 1]? = some 0x45 then some (.command (parseCommandField payload sep))
  else if payload[sep + 1]? = some 0x43 then some .output
  else if payload[sep + 1]? = some 0x44 then some .finished
  else some .other

/-! ## Spans -/

inductive InputMode where
  | buffering
  | passthrough
  deriving DecidableEq

/-- What the marks act on. -/
structure Spans where
  out : List UInt8
  suppress : Bool
  inputMode : InputMode
  inputBuffer : List UInt8
  command : Option (List UInt8)
  deriving DecidableEq

namespace Spans

def spillIfOverCap (s : Spans) : Spans :=
  if s.inputBuffer.length > inputSpanCap then
    { s with out := s.out ++ s.inputBuffer, inputBuffer := [], inputMode := .passthrough }
  else s

/-- What `emit_content` and `emit_pending` do with bytes. -/
def emit (s : Spans) (bytes : List UInt8) : Spans :=
  if !s.suppress ∨ s.inputMode = .passthrough then { s with out := s.out ++ bytes }
  else { s with inputBuffer := s.inputBuffer ++ bytes }.spillIfOverCap

def flushOpenInputSpan (s : Spans) : Spans :=
  if !s.suppress then s
  else
    { s with
      out := if s.inputMode = .buffering then s.out ++ s.inputBuffer else s.out
      inputBuffer := []
      command := none
      suppress := false }

/-- What `classify_osc` does at a mark; `pending` is the whole sequence. -/
def heed (s : Spans) (pending : List UInt8) : Mark → Spans
  | .prompt => { s.flushOpenInputSpan with out := s.flushOpenInputSpan.out ++ pending }
  | .input => { s with suppress := true, inputMode := .buffering, inputBuffer := [], command := none }
  | .command line =>
    if s.suppress then { s with command := some line }
    else { s with command := some line, suppress := true, inputMode := .buffering, inputBuffer := [] }
  | .output =>
    if s.suppress then
      { s with
        out :=
          if s.inputMode = .buffering then
            match s.command.filter (· ≠ []) with
            | some command => s.out ++ command ++ [0x0D, 0x0A]
            | none => s.out ++ s.inputBuffer
          else s.out
        inputBuffer := []
        command := none
        suppress := false }
    else s
  | .finished => s.flushOpenInputSpan
  | .other => s

def finishOsc (s : Spans) (payload pending : List UInt8) : Spans :=
  match markOf payload with
  | some mark => s.heed pending mark
  | none => s.emit pending

end Spans

/-! ## The byte machine -/

/-- `State`. -/
inductive DistillState where
  | ground
  | afterEsc
  | osc
  | oscEsc
  | oscDiscard
  | oscDiscardEsc
  | stringConsume
  | stringConsumeEsc
  deriving DecidableEq

structure Distiller where
  spans : Spans
  pending : List UInt8
  oscPayload : List UInt8
  state : DistillState
  deriving DecidableEq

namespace Distiller

def emitPending (d : Distiller) : Distiller :=
  if d.pending = [] then d else { d with spans := d.spans.emit d.pending, pending := [] }

def finishOsc (d : Distiller) : Distiller :=
  { d with spans := d.spans.finishOsc d.oscPayload d.pending, pending := [], oscPayload := [] }

def handleAfterEsc (d : Distiller) (byte : UInt8) : Distiller :=
  if byte = 0x5D then { d with pending := d.pending ++ [byte], state := .osc, oscPayload := [] }
  else if byte = 0x50 ∨ byte = 0x58 ∨ byte = 0x5E ∨ byte = 0x5F then
    { { d with pending := d.pending ++ [byte] }.emitPending with state := .stringConsume }
  else if byte = esc then { d.emitPending with pending := [esc], state := .afterEsc }
  else { { d with pending := d.pending ++ [byte] }.emitPending with state := .ground }

def step (d : Distiller) (byte : UInt8) : Distiller :=
  match d.state with
  | .ground =>
    if byte = esc then { d with pending := [esc], state := .afterEsc }
    else { d with spans := d.spans.emit [byte] }
  | .afterEsc => d.handleAfterEsc byte
  | .stringConsume =>
    if byte = bel then { d with spans := d.spans.emit [byte], state := .ground }
    else if byte = esc then { d with pending := [esc], state := .stringConsumeEsc }
    else { d with spans := d.spans.emit [byte] }
  | .stringConsumeEsc =>
    if byte = 0x5C then { { d with pending := d.pending ++ [byte] }.emitPending with state := .ground }
    else if byte = esc then { d.emitPending with pending := [esc] }
    else { { d with pending := d.pending ++ [byte] }.emitPending with state := .stringConsume }
  | .osc =>
    if byte = bel then { { d with pending := d.pending ++ [byte] }.finishOsc with state := .ground }
    else if byte = esc then { d with pending := d.pending ++ [byte], state := .oscEsc }
    else if (d.oscPayload ++ [byte]).length > oscCap then
      { d with oscPayload := [], pending := [], state := .oscDiscard }
    else { d with pending := d.pending ++ [byte], oscPayload := d.oscPayload ++ [byte] }
  | .oscEsc =>
    if byte = 0x5C then { { d with pending := d.pending ++ [byte] }.finishOsc with state := .ground }
    else { d.finishOsc with pending := [esc] }.handleAfterEsc byte
  | .oscDiscard =>
    if byte = bel then { d with state := .ground }
    else if byte = esc then { d with state := .oscDiscardEsc }
    else d
  | .oscDiscardEsc =>
    if byte = 0x5C then { d with state := .ground }
    else { d with pending := [esc] }.handleAfterEsc byte

/-- The loop of `distill`. -/
def run (d : Distiller) (bytes : List UInt8) : Distiller := bytes.foldl step d

end Distiller

def distill (bytes : List UInt8) : List UInt8 :=
  let d : Distiller := ⟨⟨[], false, .buffering, [], none⟩, [], [], .ground⟩
  let spans := (d.run bytes).emitPending.spans
  if spans.suppress ∧ spans.inputMode = .buffering then spans.out ++ spans.inputBuffer else spans.out

/-! ## What the stream says -/

/-- A part of the stream: text that is no `OSC` or is never ended, an `OSC`
within the cap and whether an `ESC` alone ended it, or one over the cap. -/
inductive Item where
  | text (raw : List UInt8)
  | osc (raw payload : List UInt8) (bare : Bool)
  | oversized (raw : List UInt8)
  deriving DecidableEq

/-- The bytes of an item. -/
def Item.raw : Item → List UInt8
  | .text bytes => bytes
  | .osc bytes _ _ => bytes
  | .oversized bytes => bytes

/-- The rest of a string sequence, up to its terminator, and what is behind. -/
def stringBody : List UInt8 → List UInt8 × List UInt8
  | [] => ([], [])
  | [byte] => ([byte], [])
  | byte :: next :: rest =>
    if byte = bel then ([byte], next :: rest)
    else if byte = esc then
      if next = 0x5C then ([byte, next], rest)
      else if next = esc then (byte :: (stringBody (next :: rest)).1, (stringBody (next :: rest)).2)
      else (byte :: next :: (stringBody rest).1, (stringBody rest).2)
    else (byte :: (stringBody (next :: rest)).1, (stringBody (next :: rest)).2)

theorem stringBody_append (bytes : List UInt8) : (stringBody bytes).1 ++ (stringBody bytes).2 = bytes := by
  fun_induction stringBody bytes <;> simp_all

/-- What ends an `OSC`'s payload. -/
def inPayload (byte : UInt8) : Bool := byte ≠ bel && byte ≠ esc

/-- An `OSC` of this payload, `ended` by these bytes. -/
def Item.ofOsc (payload ended : List UInt8) (bare : Bool) : Item :=
  let raw := [esc, 0x5D] ++ payload ++ ended
  if payload.length > oscCap then .oversized raw else .osc raw payload bare

/-- An `OSC` of this payload that the stream does not end. -/
def Item.unended (payload ended : List UInt8) : Item :=
  let raw := [esc, 0x5D] ++ payload ++ ended
  if payload.length > oscCap then .oversized raw else .text raw

/-- The items of a stream. -/
def items (bytes : List UInt8) : List Item :=
  match bytes with
  | [] => []
  | [byte] => [.text [byte]]
  | byte :: name :: tail =>
    if byte ≠ esc then .text [byte] :: items (name :: tail)
    else if name = 0x5D then
      let payload := tail.takeWhile inPayload
      match _hrest : tail.dropWhile inPayload with
      | [] => [.unended payload []]
      | [last] => [if last = bel then .ofOsc payload [last] false else .unended payload [last]]
      | last :: next :: rest =>
        if last = bel then .ofOsc payload [last] false :: items (next :: rest)
        else if next = 0x5C then .ofOsc payload [last, next] false :: items rest
        else .ofOsc payload [] true :: items (last :: next :: rest)
    else if name = 0x50 ∨ name = 0x58 ∨ name = 0x5E ∨ name = 0x5F then
      .text (byte :: name :: (stringBody tail).1) :: items (stringBody tail).2
    else if name = esc then .text [byte] :: items (name :: tail)
    else .text [byte, name] :: items tail
termination_by bytes.length
decreasing_by
  · simp
  · have := _hrest ▸ List.length_dropWhile_le inPayload tail
    simp only [List.length_cons] at this ⊢
    omega
  · have := _hrest ▸ List.length_dropWhile_le inPayload tail
    simp only [List.length_cons] at this ⊢
    omega
  · have := _hrest ▸ List.length_dropWhile_le inPayload tail
    simp only [List.length_cons] at this ⊢
    omega
  · have := congrArg List.length (stringBody_append tail)
    simp only [List.length_append, List.length_cons] at this ⊢
    omega
  · simp
  · simp only [List.length_cons]
    omega

/-- The mark an item is. -/
def Item.mark : Item → Option Mark
  | .osc _ payload _ => markOf payload
  | _ => none

/-- Whether an item closes an open span. -/
def Item.closes (item : Item) : Bool :=
  [some .prompt, some .input, some .output, some .finished].contains item.mark

/-- Whether an item opens a span. -/
def Item.opens (item : Item) : Bool :=
  match item.mark with
  | some .input => true
  | some (.command _) => true
  | _ => false

/-- Whether an item is the mark of a prompt. -/
def Item.isPrompt (item : Item) : Bool := item.mark = some .prompt

/-- Whether an item is no mark and within the cap. -/
def Item.plain : Item → Bool
  | .text _ => true
  | .osc _ payload _ => (markOf payload).isNone
  | .oversized _ => false

/-- What of an item is text to keep. -/
def Item.content (item : Item) : List UInt8 := if item.plain then item.raw else []

/-- The command line an item commits. -/
def Item.command (item : Item) : Option (List UInt8) :=
  match item.mark with
  | some (.command line) => some line
  | _ => none

/-- Whether an item is kept although an `ESC` alone ended it, which then
comes twice. -/
def Item.doubled : Item → Bool
  | .osc _ payload bare => bare && [none, some .prompt].contains (markOf payload)
  | _ => false

/-- An item outside the spans, or a span: the item that opens it, what is in
it and the item behind it, which closes it. -/
inductive Stretch where
  | outside (item : Item)
  | span (opener : Item) (body : List Item) (closer : Option Item)

/-- The stretches of a stream. -/
def spansOf (its : List Item) : List Stretch :=
  match its with
  | [] => []
  | item :: its =>
    if item.opens then
      .span item (its.takeWhile (!·.closes)) (its.dropWhile (!·.closes)).head? ::
        spansOf (its.dropWhile (!·.closes))
    else .outside item :: spansOf its
termination_by its.length
decreasing_by
  · exact Nat.lt_succ_of_le (List.length_dropWhile_le _ its)
  · simp

namespace Stretch

/-- The items of a stretch. -/
def items : Stretch → List Item
  | outside item => [item]
  | span opener body _ => opener :: body

/-- What stands in a stretch's place: a prompt's mark and text as they are,
and of a span its text, unless its command line was committed or it was
started over. -/
def out : Stretch → List UInt8
  | outside item => if item.isPrompt then item.raw else item.content
  | span opener body closer =>
    let content := body.flatMap Item.content
    let command := ((opener :: body).filterMap Item.command).getLast?.filter (· ≠ [])
    if content.length > inputSpanCap then content
    else
      match closer.bind Item.mark with
      | some .input => []
      | some .output =>
        match command with
        | some command => command ++ [0x0D, 0x0A]
        | none => content
      | _ => content

/-- The prompt's mark a stretch is. -/
def prompt : Stretch → Option Item
  | outside item => if item.isPrompt then some item else none
  | span _ _ _ => none

end Stretch

end SlopDesk.Sanitize
