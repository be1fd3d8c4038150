/-
SlopDesk.AltScreen.Reopen — the alternate screen at a front cut, and the terminal that
reads it.
-/
import SlopDesk.Base.Runs
import SlopDesk.Sanitize.VtScan

/-! # The alternate-screen state at a front cut of a
terminal byte stream, and the sequence that re-opens the segment the cut
beheaded (`slopdesk-altscreen/src/lib.rs`).

The scan starts a sequence only inside the dropped bytes; a bounded slice
of the kept head is there to finish one that straddles the cut.
-/

namespace SlopDesk.AltScreen

open SlopDesk.Sanitize

/-- `ALT_MODES`. -/
def altModes : List Nat := [47, 1047, 1049]

/-- `STRADDLE_PEEK_BYTES`. -/
def straddlePeekBytes : Nat := 64

/-- `split` at the semicolons. -/
def splitFields : List UInt8 → List (List UInt8)
  | [] => [[]]
  | b :: rest =>
    if b = 0x3B then [] :: splitFields rest
    else
      match splitFields rest with
      | field :: fields => (b :: field) :: fields
      | [] => [[b]]

/-- `str::parse::<u32>`. -/
def parseU32 (token : List UInt8) : Option Nat :=
  let digits := match token with
    | 0x2B :: rest => rest
    | _ => token
  if digits ≠ [] ∧ digits.all fun b => 0x30 ≤ b && b ≤ 0x39 then
    let value := digits.foldl (fun value b => value * 10 + (b.toNat - 0x30)) 0
    if value < 2 ^ 32 then some value else none
  else none

def altTransitionParam (sequence : Csi) : Option Nat :=
  if sequence.finalByte ≠ 0x68 ∧ sequence.finalByte ≠ 0x6C then none
  else if sequence.intermediates ≠ [] then none
  else
    match sequence.params with
    | [] => none
    | marker :: rest =>
      if marker ≠ 0x3F then none
      else ((splitFields rest).filterMap parseU32).find? fun mode => altModes.contains mode

/-- The loop of `reopen_sequence`. Each round moves the index, so `fuel`
rounds are enough once `fuel + index` reaches the boundary. -/
def scan (bytes : List UInt8) (boundary : Nat) :
    (fuel index : Nat) → (inAlt : Bool) → (enterMode : Nat) → Bool × Nat
  | 0, _, inAlt, enterMode => (inAlt, enterMode)
  | fuel + 1, index, inAlt, enterMode =>
    if index < boundary then
      if bytes[index]? ≠ some esc ∨ index + 1 ≥ bytes.length then
        scan bytes boundary fuel (index + 1) inAlt enterMode
      else
        match bytes[index + 1]? with
        | some 0x5B =>
          match parseCsi bytes index with
          | some sequence =>
            match altTransitionParam sequence with
            | some mode =>
              let entered := sequence.finalByte = 0x68
              scan bytes boundary fuel sequence.stop entered (if entered then mode else enterMode)
            | none => scan bytes boundary fuel sequence.stop inAlt enterMode
          -- a truncated CSI ends the scan
          | none => scan bytes boundary fuel bytes.length inAlt enterMode
        | some introducer =>
          if introducer ∈ [0x5D, 0x50, 0x58, 0x5E, 0x5F] then
            match stringSequenceEnd bytes (index + 2) (.replay (introducer = 0x5D)) with
            | some sequence => scan bytes boundary fuel sequence.seqEnd inAlt enterMode
            | none => scan bytes boundary fuel bytes.length inAlt enterMode
          else scan bytes boundary fuel (index + 2) inAlt enterMode
        | none => scan bytes boundary fuel (index + 2) inAlt enterMode
    else (inAlt, enterMode)

/-- `ESC [ ? mode h`. -/
def enterSequence (mode : Nat) : List UInt8 :=
  [esc, 0x5B, 0x3F] ++ SlopDesk.Wire.utf8Bytes (toString mode) ++ [0x68]

def reopenSequence (dropped keptHead : List UInt8) : Option (List UInt8) :=
  let boundary := dropped.length
  let bytes := dropped ++ keptHead.take straddlePeekBytes
  let state := scan bytes boundary boundary 0 false 1049
  if state.1 then some (enterSequence state.2) else none

end SlopDesk.AltScreen

/-! # What a terminal makes of a byte stream, as
far as the alternate screen goes: the specification the cut scan is
compared with.

The machine has the states of a VT parser. An escape or control sequence is
read byte by byte, the body of a string sequence (OSC, DCS, SOS, PM, APC) is
opaque up to its terminator, and a DECSET or DECRST that names one of the
modes 47, 1047 and 1049 enters or leaves the alternate screen. What is after
an escape's intermediates is not told apart from text: neither can switch.

`Regular` is the discipline of well-formed output: no control character,
and no new escape, in the middle of an escape or control sequence.
-/

namespace SlopDesk.AltScreen

open SlopDesk.Base
open SlopDesk.Sanitize

/-! ## §1 The machine -/

/-- Where in a sequence the terminal is. -/
inductive Mode where
  | ground
  | escape
  | csi (params : List UInt8)
  | csiIntermediate
  | csiIgnore
  | string (belEnds : Bool)
  | stringEscape (belEnds : Bool)
  deriving DecidableEq, Repr

/-- A terminal: its mode, and whether it shows the alternate screen. -/
structure Screen where
  mode : Mode
  alt : Bool
  deriving DecidableEq, Repr

/-- The introducers of a string sequence. -/
def introducesString (b : UInt8) : Bool := b ∈ [0x5D, 0x50, 0x58, 0x5E, 0x5F]

/-- Private parameters that name an alternate-screen mode. -/
def namesAltMode : List UInt8 → Bool
  | 0x3F :: rest => ((splitFields rest).filterMap parseU32).any fun mode => altModes.contains mode
  | _ => false

/-- The screen after the final byte of a control sequence. -/
def switched (params : List UInt8) (final : UInt8) (alt : Bool) : Bool :=
  if (final = 0x68 ∨ final = 0x6C) ∧ namesAltMode params then final = 0x68 else alt

namespace Screen

variable {bytes a : List UInt8} {s : Screen}

/-- A terminal that has read nothing. -/
def init : Screen := ⟨.ground, false⟩

/-- A byte that no control sequence contains: a control character. -/
def interrupted (s : Screen) (b : UInt8) : Screen :=
  if b = esc then { s with mode := .escape }
  else if b = can ∨ b = sub then { s with mode := .ground }
  else s

/-- A byte of a string body. -/
def stringByte (s : Screen) (belEnds : Bool) (b : UInt8) : Screen :=
  if b = can ∨ b = sub ∨ (belEnds ∧ b = bel) then { s with mode := .ground }
  else if b = esc then { s with mode := .stringEscape belEnds }
  else { s with mode := .string belEnds }

/-- A byte after an escape. -/
def escapeByte (s : Screen) (b : UInt8) : Screen :=
  if b = 0x5B then { s with mode := .csi [] }
  else if introducesString b then { s with mode := .string (b = 0x5D) }
  else if b = esc then s
  else if b < 0x20 ∧ b ≠ can ∧ b ≠ sub ∨ b = 0x7F then s
  else { s with mode := .ground }

def step (s : Screen) (b : UInt8) : Screen :=
  match s.mode with
  | .ground => if b = esc then { s with mode := .escape } else s
  | .escape => s.escapeByte b
  | .csi params =>
    if isParam b then { s with mode := .csi (params ++ [b]) }
    else if isIntermediate b then { s with mode := .csiIntermediate }
    else if isFinal b then ⟨.ground, switched params b s.alt⟩
    else s.interrupted b
  | .csiIntermediate =>
    if isIntermediate b then s
    else if isParam b then { s with mode := .csiIgnore }
    else if isFinal b then { s with mode := .ground }
    else s.interrupted b
  | .csiIgnore => if isFinal b then { s with mode := .ground } else s.interrupted b
  | .string belEnds => s.stringByte belEnds b
  | .stringEscape belEnds =>
    if b = 0x5C then { s with mode := .ground } else s.stringByte belEnds b

/-- A byte that belongs where it is. -/
def ByteRegular (s : Screen) (b : UInt8) : Prop :=
  match s.mode with
  | .escape => b = can ∨ b = sub ∨ (0x20 ≤ b ∧ b ≠ 0x7F)
  | .csi _ => isParam b ∨ isIntermediate b ∨ isFinal b
  | .csiIntermediate => isIntermediate b ∨ isFinal b
  | .csiIgnore => False
  | .ground | .string _ | .stringEscape _ => True

instance (s : Screen) (b : UInt8) : Decidable (s.ByteRegular b) :=
  match s with
  | ⟨.escape, _⟩ => inferInstanceAs (Decidable (b = can ∨ b = sub ∨ (0x20 ≤ b ∧ b ≠ 0x7F)))
  | ⟨.csi _, _⟩ => inferInstanceAs (Decidable (isParam b ∨ isIntermediate b ∨ isFinal b))
  | ⟨.csiIntermediate, _⟩ => inferInstanceAs (Decidable (isIntermediate b ∨ isFinal b))
  | ⟨.csiIgnore, _⟩ => .isFalse not_false
  | ⟨.ground, _⟩ | ⟨.string _, _⟩ | ⟨.stringEscape _, _⟩ => .isTrue trivial

/-- A terminal after a stream. -/
def read (s : Screen) (bytes : List UInt8) : Screen := run step s bytes

/-- A stream whose every byte belongs where it is. -/
def Regular (s : Screen) (bytes : List UInt8) : Prop := Meets step ByteRegular s bytes

instance (s : Screen) (bytes : List UInt8) : Decidable (s.Regular bytes) := decidableMeets s bytes

@[simp] theorem read_nil (s : Screen) : s.read [] = s := rfl
@[simp] theorem read_cons (s : Screen) (b : UInt8) (bytes : List UInt8) :
    s.read (b :: bytes) = (s.step b).read bytes := rfl

theorem read_append (s : Screen) (a b : List UInt8) : s.read (a ++ b) = (s.read a).read b :=
  run_append s a b

theorem regular_cons {b : UInt8} :
    s.Regular (b :: bytes) ↔ s.ByteRegular b ∧ (s.step b).Regular bytes := Iff.rfl

theorem regular_append {b : List UInt8} :
    s.Regular (a ++ b) ↔ s.Regular a ∧ (s.read a).Regular b := meets_append

/-! ## §2 The rest of a sequence -/

/-- The bytes that finish the sequence a terminal is in, if they are there:
up to where it is first in the ground state. -/
def finish (s : Screen) : List UInt8 → Option (List UInt8)
  | [] => if s.mode = .ground then some [] else none
  | b :: rest => if s.mode = .ground then some [] else ((s.step b).finish rest).map (b :: ·)

theorem finish_ground (h : s.mode = .ground) (bytes : List UInt8) : s.finish bytes = some [] := by
  cases bytes <;> simp [finish, h]

theorem finish_nil (h : s.mode ≠ .ground) : s.finish [] = none := by
  simp [finish, h]

theorem finish_cons (h : s.mode ≠ .ground) (b : UInt8) (rest : List UInt8) :
    s.finish (b :: rest) = ((s.step b).finish rest).map (b :: ·) := by
  simp [finish, h]

/-- What finishes a sequence is a prefix of what there is, and leads to the
ground state. -/
theorem finish_spec {rest : List UInt8} (h : s.finish bytes = some rest) :
    rest <+: bytes ∧ (s.read rest).mode = .ground := by
  induction bytes generalizing s rest with
  | nil =>
    by_cases hground : s.mode = .ground
    case pos =>
      rw [finish_ground hground] at h
      cases h
      exact ⟨List.nil_prefix, hground⟩
    case neg =>
      rw [finish_nil hground] at h
      cases h
  | cons b bytes ih =>
    by_cases hground : s.mode = .ground
    case pos =>
      grind [finish_ground]
    case neg =>
      rw [finish_cons hground] at h
      obtain ⟨rest', hrest, rfl⟩ := Option.map_eq_some_iff.mp h
      obtain ⟨hpre, hmode⟩ := ih hrest
      exact ⟨List.cons_prefix_cons.mpr ⟨rfl, hpre⟩, hmode⟩

/-- A sequence that is finished already is finished the same way when more
follows. -/
theorem finish_append_of_some {rest : List UInt8} (h : s.finish a = some rest)
    (b : List UInt8) : s.finish (a ++ b) = some rest := by
  induction a generalizing s rest with
  | nil =>
    grind [finish_ground, finish_nil]
  | cons x a ih =>
    by_cases hground : s.mode = .ground
    case pos => rw [finish_ground hground] at h ⊢; exact h
    case neg =>
      rw [finish_cons hground] at h
      obtain ⟨rest', hrest, rfl⟩ := Option.map_eq_some_iff.mp h
      rw [List.cons_append, finish_cons hground, ih hrest]
      rfl

theorem finish_append_of_none (h : s.finish a = none) (b : List UInt8) :
    (s.read a).mode ≠ .ground ∧ s.finish (a ++ b) = ((s.read a).finish b).map (a ++ ·) := by
  induction a generalizing s with
  | nil =>
    have hground : s.mode ≠ .ground := by
      grind [finish_ground]
    refine ⟨hground, ?_⟩
    simp
  | cons x a ih =>
    have hground : s.mode ≠ .ground := by
      grind [finish_ground]
    rw [finish_cons hground, Option.map_eq_none_iff] at h
    obtain ⟨hmode, heq⟩ := ih h
    refine ⟨hmode, ?_⟩
    rw [List.cons_append, finish_cons hground, heq, Option.map_map]
    rfl

theorem read_text (h : esc ∉ bytes) (alt : Bool) : (Screen.mk .ground alt).read bytes = ⟨.ground, alt⟩ ∧
      (Screen.mk .ground alt).Regular bytes := by
  induction bytes with
  | nil => exact ⟨rfl, trivial⟩
  | cons b bytes ih =>
    rw [List.mem_cons, not_or] at h
    obtain ⟨hhead, htail⟩ := h
    have hstep : (Screen.mk .ground alt).step b = ⟨.ground, alt⟩ := by
      simp [step, Ne.symm hhead]
    obtain ⟨hread, hregular⟩ := ih htail
    refine ⟨?_, trivial, ?_⟩
    · rw [read_cons, hstep, hread]
    · rw [hstep]; exact hregular

end Screen

end SlopDesk.AltScreen
