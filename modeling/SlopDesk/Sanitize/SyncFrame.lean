/-
SlopDesk.Sanitize.SyncFrame — synchronized repaints taken out of a replay
(`slopdesk-sanitize/src/syncframe.rs`).

A frame goes from a `?2026h` to the next `?2026l`. One that only repaints
is dropped, unless it is the last. Both loops of the pass are written over
the tokens they step over: a cut sequence is the last of them, and behind
it a frame has no closer.
-/
import SlopDesk.Sanitize.Sequences

namespace SlopDesk.Sanitize

/-- `SYNC_MODE`. -/
def syncMode : Nat := 2026

/-- `is_alt_mode`, of `ALT_MODES`. -/
def isAltMode (mode : Nat) : Bool := mode ∈ [47, 1047, 1049]

inductive SyncTransition where
  | begins
  | ends
  deriving DecidableEq

def syncTransition (csi : Csi) : Option SyncTransition :=
  if csi.intermediates ≠ [] ∨ (csi.finalByte ≠ 0x68 ∧ csi.finalByte ≠ 0x6C) ∨ csi.params.head? ≠ some 0x3F then none
  else if syncMode ∉ paramFields csi then none
  else some (if csi.finalByte = 0x68 then .begins else .ends)

def mustKeep (csi : Csi) : Bool :=
  if csi.intermediates ≠ [] then false
  else if csi.finalByte = 0x53 ∨ csi.finalByte = 0x54 ∨ csi.finalByte = 0x72 then true
  else if csi.finalByte = 0x4A then (paramFields csi).any fun field => field = 2 || field = 3
  else if csi.finalByte = 0x68 ∨ csi.finalByte = 0x6C then
    csi.params.head? = some 0x3F && (paramFields csi).any isAltMode
  else false

/-- A sync sequence with other parameters than its own. -/
def piggybacks (csi : Csi) : Bool := paramFields csi ≠ [syncMode]

/-- `LF`, `VT` and `FF`. -/
def isLineFeed (b : UInt8) : Bool := b = 0x0A || b = 0x0B || b = 0x0C

/-- `matches_osc_133`, of a whole string sequence: no byte of the mark ends
one. -/
def matchesOsc133 (bytes : List UInt8) : Bool := (bytes.drop 2).take 4 = [0x31, 0x33, 0x33, 0x3B]

/-- What sets `keep` inside a frame. -/
def Token.keeps : Token → Bool
  | .byte b => isLineFeed b
  | .csi c => mustKeep c
  | .string belTerminates bytes => belTerminates && matchesOsc133 bytes
  | .pair introducer => introducer ∈ [0x44, 0x45, 0x4D, 0x63]
  | .cut _ => false

/-- A `CSI` that begins or ends a frame. -/
def Token.sync : Token → Option SyncTransition
  | .csi c => syncTransition c
  | _ => none

/-- What a begun or ended frame keeps it for. -/
def Token.piggybacks : Token → Bool
  | .csi c => SlopDesk.Sanitize.piggybacks c
  | _ => false

/-- `scan_frame` behind the opener: how far the frame goes, whether it may be
dropped, and what is behind it. -/
def scanFrame (keep : Bool) : List Token → Nat × Bool × List Token
  | [] => (0, false, [])
  | t :: ts =>
    if t.sync = some .ends then (t.raw.length, !(keep || t.piggybacks), ts)
    else
      let (stop, droppable, behind) := scanFrame (keep || t.keeps) ts
      (t.raw.length + stop, droppable, behind)

theorem length_scanFrame (keep : Bool) (ts : List Token) : (scanFrame keep ts).2.2.length ≤ ts.length := by
  induction ts generalizing keep with
  | nil => simp [scanFrame]
  | cons t ts ih =>
    have := ih (keep || t.keeps)
    rw [scanFrame]
    split
    · simp
    · exact Nat.le_succ_of_le this

structure Frame where
  start : Nat
  stop : Nat
  droppable : Bool
  deriving DecidableEq

/-- The segment pass of `collapse`, from `i` on. -/
def framesFrom (i : Nat) (ts : List Token) : List Frame :=
  match ts with
  | [] => []
  | t :: ts =>
    if t.sync = some .begins then
      let scanned := scanFrame t.piggybacks ts
      let stop := i + t.raw.length + scanned.1
      ⟨i, stop, scanned.2.1⟩ :: framesFrom stop scanned.2.2
    else framesFrom (i + t.raw.length) ts
termination_by ts.length
decreasing_by
  · have := length_scanFrame t.piggybacks ts
    simp only [List.length_cons]
    omega
  · simp

/-- `bytes[start..stop]`. -/
def slice (bytes : List UInt8) (start stop : Nat) : List UInt8 := (bytes.take stop).drop start

/-- The byte pass of `collapse`, from `cursor` on. -/
def keptFrom (bytes : List UInt8) (cursor : Nat) : List Frame → List UInt8
  | [] => bytes.drop cursor
  | frame :: frames =>
    slice bytes cursor frame.start ++
      (if !frame.droppable ∨ frames = [] then slice bytes frame.start frame.stop else []) ++
      keptFrom bytes frame.stop frames

def collapse (bytes : List UInt8) : List UInt8 :=
  let frames := framesFrom 0 (tokens bytes)
  if frames.any (·.droppable) then keptFrom bytes 0 frames else bytes

/-! ## What the pass is for

The stream as the bytes outside its frames and its frames, and what in it
moves content into history or changes more than the picture. -/

/-- A token outside the frames, or a frame: its opener and what follows, the
closer included. -/
inductive Segment where
  | outside (t : Token)
  | frame (opener : Token) (body : List Token)

/-- The tokens of a segment. -/
def Segment.tokens : Segment → List Token
  | .outside t => [t]
  | .frame opener body => opener :: body

/-- Whether a segment is a frame. -/
def Segment.isFrame : Segment → Bool
  | .outside _ => false
  | .frame _ _ => true

/-- A frame's tokens, and those behind it. -/
def splitFrame : List Token → List Token × List Token
  | [] => ([], [])
  | t :: ts =>
    if t.sync = some .ends then ([t], ts) else (t :: (splitFrame ts).1, (splitFrame ts).2)

theorem splitFrame_append (ts : List Token) : (splitFrame ts).1 ++ (splitFrame ts).2 = ts := by
  induction ts with
  | nil => rfl
  | cons t ts ih =>
    rw [splitFrame]
    split
    · rfl
    · simp [ih]

/-- The segments of tokens. -/
def segments (ts : List Token) : List Segment :=
  match ts with
  | [] => []
  | t :: ts =>
    if t.sync = some .begins then .frame t (splitFrame ts).1 :: segments (splitFrame ts).2
    else .outside t :: segments ts
termination_by ts.length
decreasing_by
  · have := congrArg List.length (splitFrame_append ts)
    simp only [List.length_append, List.length_cons] at this ⊢
    omega
  · simp

/-- A token that does more than repaint. -/
def Token.matters : Token → Bool
  | .byte b => isLineFeed b
  | .csi c => mustKeep c || ((syncTransition c).isSome && SlopDesk.Sanitize.piggybacks c)
  | .string belTerminates bytes => belTerminates && matchesOsc133 bytes
  | .pair introducer => introducer ∈ [0x44, 0x45, 0x4D, 0x63] || isLineFeed introducer
  | .cut _ => false

/-- What in a stream does more than repaint, in order. -/
def effects (bytes : List UInt8) : List Token := (tokens bytes).filter Token.matters

/-- A token inside a frame that matters, and does not keep it: a line feed
right behind an `ESC`, or another opener with other modes. -/
def Token.hides (t : Token) : Bool :=
  t.matters && !t.keeps && t.sync ≠ some .ends

/-- Whether tokens come to a plain closer before any that keeps the frame. -/
def dropsFrom (keep : Bool) : List Token → Bool
  | [] => false
  | t :: ts => if t.sync = some .ends then !(keep || t.piggybacks) else dropsFrom (keep || t.keeps) ts

/-- Whether a frame is opened and closed for itself alone, and holds nothing
that keeps it. -/
def droppable (opener : Token) (body : List Token) : Bool := dropsFrom opener.piggybacks body

/-- Some frame that is not kept hides something. -/
def Hidden : List Segment → Prop
  | [] => False
  | .outside _ :: segs => Hidden segs
  | .frame opener body :: segs =>
    (droppable opener body ∧ segs.any Segment.isFrame ∧ body.any Token.hides) ∨ Hidden segs

end SlopDesk.Sanitize
