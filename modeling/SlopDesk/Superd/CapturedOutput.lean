/-
SlopDesk.Superd.CapturedOutput — the tokens of a stream, and the output captured
between two marks.
-/
import SlopDesk.Superd.BlockLives

/-! # A stream as tokens, and the output between
two marks as it should be captured.

`lex` reads a stream into text, sequences and strings and loses none of it
(`lex_raw`). What of a token belongs to the output is `kept`: everything
but a complete OSC and a complete DCS, SOS, PM or APC. This is the abstract
side; nothing here looks at the segmenter.
-/

namespace SlopDesk.Superd

open SlopDesk.Base SlopDesk.Sanitize

inductive Token where
  | text (byte : UInt8)
  /-- A CSI up to its final byte, or an `ESC` with the one byte it takes. -/
  | sequence (raw : List UInt8)
  /-- A CSI that an `ESC` cuts off. -/
  | cutSequence (raw : List UInt8)
  /-- An `ESC` that another one follows. -/
  | lone
  | osc (payload ending : List UInt8)
  /-- An OSC that an `ESC` cuts off. -/
  | cutOsc (payload : List UInt8)
  /-- A DCS, SOS, PM or APC with its end. -/
  | string (raw : List UInt8)
  deriving DecidableEq

namespace Token

/-- Its bytes. -/
def raw : Token → List UInt8
  | .text byte => [byte]
  | .sequence raw | .cutSequence raw | .string raw => raw
  | .lone => [esc]
  | .osc payload ending => esc :: rightBracket :: payload ++ ending
  | .cutOsc payload => esc :: rightBracket :: payload

/-- What of it belongs to the output. -/
def kept : Token → List UInt8
  | .osc .. | .string .. => []
  | token => token.raw

/-- A token that no `ESC` cut off. -/
def isWhole : Token → Bool
  | .text .. | .sequence .. | .osc .. | .string .. => true
  | .cutSequence .. | .lone | .cutOsc .. => false

/-- What an OSC asks for, if it is a mark. -/
def mark : Token → Option Mark
  | .osc payload _ | .cutOsc payload => if payload.length ≤ oscCap then markOf payload else none
  | _ => none

/-- Its mark is a `C`. -/
def startsOutput (token : Token) : Bool := token.mark.any Mark.startsOutput

/-- Its mark is a `D`, or the `A` or `B` that interrupts. -/
def endsOutput (token : Token) : Bool := token.mark.any Mark.endsOutput

theorem startsOutput_not_endsOutput (token : Token) (h : token.startsOutput) : ¬ token.endsOutput := by
  cases hmark : token.mark with
  | none => simp [startsOutput, hmark] at h
  | some m =>
    rw [startsOutput, hmark, Option.any_some] at h
    rw [endsOutput, hmark, Option.any_some]
    exact m.startsOutput_not_endsOutput h

end Token

/-! ## The reading -/

/-- What is being read, with its bytes so far. -/
inductive Mode where
  | ground
  | escape
  | csi (raw : List UInt8)
  | osc (payload : List UInt8)
  | oscEscape (payload : List UInt8)
  | string (raw : List UInt8)
  | stringEscape (raw : List UInt8)
  deriving DecidableEq

namespace Mode

def raw : Mode → List UInt8
  | .ground => []
  | .escape => [esc]
  | .csi raw | .string raw => raw
  | .osc payload => esc :: rightBracket :: payload
  | .oscEscape payload => esc :: rightBracket :: payload ++ [esc]
  | .stringEscape raw => raw ++ [esc]

end Mode

structure Lexer where
  tokens : List Token
  mode : Mode
  deriving DecidableEq

namespace Lexer

/-- The byte behind an `ESC`. -/
def classify (tokens : List Token) (byte : UInt8) : Lexer :=
  if byte = leftBracket then ⟨tokens, .csi [esc, byte]⟩
  else if byte = rightBracket then ⟨tokens, .osc []⟩
  else if byte ∈ stringIntroducers then ⟨tokens, .string [esc, byte]⟩
  else if byte = esc then ⟨tokens ++ [.lone], .escape⟩
  else ⟨tokens ++ [.sequence [esc, byte]], .ground⟩

def next (l : Lexer) (byte : UInt8) : Lexer :=
  match l.mode with
  | .ground => if byte = esc then ⟨l.tokens, .escape⟩ else ⟨l.tokens ++ [.text byte], .ground⟩
  | .escape => classify l.tokens byte
  | .csi raw =>
    if isFinal byte then ⟨l.tokens ++ [.sequence (raw ++ [byte])], .ground⟩
    else if byte = esc then ⟨l.tokens ++ [.cutSequence raw], .escape⟩
    else ⟨l.tokens, .csi (raw ++ [byte])⟩
  | .osc payload =>
    if byte = bel then ⟨l.tokens ++ [.osc payload [bel]], .ground⟩
    else if byte = esc then ⟨l.tokens, .oscEscape payload⟩
    else ⟨l.tokens, .osc (payload ++ [byte])⟩
  | .oscEscape payload =>
    if byte = backslash then ⟨l.tokens ++ [.osc payload [esc, backslash]], .ground⟩
    else classify (l.tokens ++ [.cutOsc payload]) byte
  | .string raw =>
    if byte = bel then ⟨l.tokens ++ [.string (raw ++ [byte])], .ground⟩
    else if byte = esc then ⟨l.tokens, .stringEscape raw⟩
    else ⟨l.tokens, .string (raw ++ [byte])⟩
  | .stringEscape raw =>
    if byte = backslash then ⟨l.tokens ++ [.string (raw ++ [esc, byte])], .ground⟩
    else if byte = esc then ⟨l.tokens, .stringEscape (raw ++ [esc])⟩
    else ⟨l.tokens, .string (raw ++ [esc, byte])⟩

/-- The bytes of what was read. -/
def raw (l : Lexer) : List UInt8 := l.tokens.flatMap Token.raw ++ l.mode.raw

theorem raw_classify (tokens : List Token) (byte : UInt8) :
    (classify tokens byte).raw = tokens.flatMap Token.raw ++ [esc, byte] := by
  unfold classify
  split
  · rfl
  · split
    · rename_i hbyte
      simp [raw, Mode.raw, hbyte]
    · split
      · rfl
      · split
        · rename_i hbyte
          simp [raw, Mode.raw, Token.raw, hbyte]
        · simp [raw, Mode.raw, Token.raw]

theorem raw_next (l : Lexer) (byte : UInt8) : (l.next byte).raw = l.raw ++ [byte] := by
  obtain ⟨tokens, mode⟩ := l
  cases mode with
  | ground =>
    by_cases hesc : byte = esc
    · simp [next, raw, Mode.raw, hesc]
    · simp [next, raw, Mode.raw, Token.raw, hesc]
  | escape =>
    simp only [next]
    rw [raw_classify]
    simp [raw, Mode.raw]
  | csi pending =>
    simp only [next]
    split
    · simp [raw, Mode.raw, Token.raw]
    · split
      · rename_i hesc
        simp [raw, Mode.raw, Token.raw, hesc]
      · simp [raw, Mode.raw]
  | osc payload =>
    simp only [next]
    split
    · rename_i hbel
      simp [raw, Mode.raw, Token.raw, hbel]
    · split
      · rename_i hesc
        simp [raw, Mode.raw, hesc]
      · simp [raw, Mode.raw]
  | oscEscape payload =>
    simp only [next]
    split
    · rename_i hend
      simp [raw, Mode.raw, Token.raw, hend]
    · rw [raw_classify]
      simp [raw, Mode.raw, Token.raw]
  | string pending =>
    simp only [next]
    split
    · simp [raw, Mode.raw, Token.raw]
    · split
      · rename_i hesc
        simp [raw, Mode.raw, hesc]
      · simp [raw, Mode.raw]
  | stringEscape pending =>
    simp only [next]
    split
    · simp [raw, Mode.raw, Token.raw]
    · split
      · rename_i hesc
        simp [raw, Mode.raw, hesc]
      · simp [raw, Mode.raw]

end Lexer

/-- A stream as tokens. -/
def lex (bytes : List UInt8) : Lexer := bytes.foldl Lexer.next ⟨[], .ground⟩

theorem lex_raw (bytes : List UInt8) : (lex bytes).raw = bytes := by
  have hfold (l : Lexer) : (bytes.foldl Lexer.next l).raw = l.raw ++ bytes := by
    induction bytes generalizing l with
    | nil => simp
    | cons byte bytes ih => simp [ih, Lexer.raw_next]
  exact hfold ⟨[], .ground⟩

end SlopDesk.Superd

/-! # What of the output a block captures.

§1: appending up to the cap. §2: what a mark leaves of the output. §3: the
segmenter beside the tokens of its stream. §4: a block has what the tokens
between its marks emit, which is what they should give if none was cut off.
-/

namespace SlopDesk.Superd

open SlopDesk.Base SlopDesk.Sanitize

variable {blocks : List CommandBlock} {l : Lexer} {tokens : List Token}

/-- What the segmenter writes for a token. The `ESC` that cuts a CSI off is
written with it, and once more with what it begins. -/
def Token.emitted : Token → List UInt8
  | .text byte => [byte]
  | .sequence raw => raw
  | .cutSequence raw => raw ++ [esc]
  | .lone | .osc .. | .cutOsc .. | .string .. => []

/-- What is written and not yet a token. -/
def Mode.emitted : Mode → List UInt8
  | .csi raw => raw
  | _ => []

/-! ## §1 Up to the cap -/

/-- The longest prefix within the cap, and whether it left anything out. -/
structure Captured (cap : Nat) (all output : List UInt8) (truncated : Bool) : Prop where
  output : output = all.take cap
  truncated : truncated = decide (cap < all.length)

namespace CommandBlockSegmenter

variable {s t u : CommandBlockSegmenter} {xs ys : List UInt8}

theorem appendByte_captured (hphase : s.phase = .output) (byte : UInt8)
    (h : Captured s.outputCap xs s.openOutputBytes s.openOutputTruncated) :
    Captured s.outputCap (xs ++ [byte]) (s.appendByte byte).openOutputBytes (s.appendByte byte).openOutputTruncated := by
  obtain ⟨hout, htruncated⟩ := h
  have hlength := congrArg List.length hout
  rw [List.length_take] at hlength
  simp only [appendByte, hphase]
  split
  · have hfits : xs.length < s.outputCap := by omega
    refine ⟨?_, ?_⟩
    · rw [hout, List.take_of_length_le (Nat.le_of_lt hfits), List.take_of_length_le (by simp; omega)]
    · rw [htruncated]
      simp
      omega
  · have hfull : s.outputCap ≤ xs.length := by omega
    refine ⟨?_, ?_⟩
    · rw [hout, List.take_append_of_le_length hfull]
    · simp
      omega

/-- What one byte appends, as far as the output goes. -/
structure Appends (s : CommandBlockSegmenter) (written : List UInt8) (t : CommandBlockSegmenter) : Prop where
  same : SameSpan s t
  inside : s.phase = .output → ∀ all, Captured s.outputCap all s.openOutputBytes s.openOutputTruncated →
    Captured s.outputCap (all ++ written) t.openOutputBytes t.openOutputTruncated
  outside : s.phase ≠ .output →
    t.openOutputBytes = s.openOutputBytes ∧ t.openOutputTruncated = s.openOutputTruncated

namespace Appends

theorem phase (h : Appends s xs t) : t.phase = s.phase := by rw [h.same.rest]

theorem outputCap (h : Appends s xs t) : t.outputCap = s.outputCap := by rw [h.same.rest]

theorem nothing (hsame : SameSpan s t) (hout : t.openOutputBytes = s.openOutputBytes)
    (htruncated : t.openOutputTruncated = s.openOutputTruncated) : Appends s [] t :=
  ⟨hsame, fun _ all h => by rw [List.append_nil, hout, htruncated]; exact h, fun _ => ⟨hout, htruncated⟩⟩

theorem toState (state : Segmenter.State) : Appends s [] { s with state } := nothing (.toState state) rfl rfl

theorem byte (b : UInt8) : Appends s [b] (s.appendByte b) := by
  refine ⟨.appendByte b, fun hphase all h => appendByte_captured hphase b h, fun hphase => ?_⟩
  unfold appendByte
  split
  · exact ⟨rfl, rfl⟩
  · split <;> exact ⟨rfl, rfl⟩
  · contradiction

theorem trans (h : Appends s xs t) (h' : Appends t ys u) : Appends s (xs ++ ys) u := by
  refine ⟨h.same.trans h'.same, fun hphase all hall => ?_, fun hphase => ?_⟩
  · rw [← List.append_assoc, ← h.outputCap]
    refine h'.inside (h.phase.trans hphase) _ ?_
    rw [h.outputCap]
    exact h.inside hphase all hall
  · obtain ⟨hout, htruncated⟩ := h.outside hphase
    obtain ⟨hout', htruncated'⟩ := h'.outside (by rw [h.phase]; exact hphase)
    exact ⟨hout'.trans hout, htruncated'.trans htruncated⟩

theorem onlyOutput (h : Appends s xs t) : Appends s xs (if s.phase = .output then t else s) := by
  split
  · exact h
  · rename_i hphase
    exact ⟨.refl, fun hout => absurd hout hphase, fun _ => ⟨rfl, rfl⟩⟩

end Appends

/-! ## §2 A mark -/

/-- A block that has not begun to run has captured nothing. -/
def Fresh (s : CommandBlockSegmenter) : Prop :=
  s.hasOpenBlock = true → s.phase = .command → s.openOutputBytes = [] ∧ s.openOutputTruncated = false

theorem Fresh.appends (h : Fresh s) (happends : Appends s xs t) : Fresh t := by
  intro hopen hphase
  have hopen' : s.hasOpenBlock = true := by rw [happends.same.rest] at hopen; exact hopen
  have hphase' : s.phase = .command := happends.phase.symm.trans hphase
  obtain ⟨hout, htruncated⟩ := happends.outside (by rw [hphase']; decide)
  rw [hout, htruncated]
  exact h hopen' hphase'

/-- A block is running. -/
def IsRunning (s : CommandBlockSegmenter) : Prop := s.hasOpenBlock = true ∧ s.phase = .output

/-- No block is, and one that is open is at its prompt. -/
def IsWaiting (s : CommandBlockSegmenter) : Prop := s.hasOpenBlock = true → s.phase = .command

variable {m : Mark} (nowMs : Int64)

@[simp] theorem takeOpenBlock_outputCap (complete : Bool) (exitCode : Option Int32) (durationMs : Option UInt32) :
    (s.takeOpenBlock complete exitCode durationMs).1.outputCap = s.outputCap := by
  unfold takeOpenBlock
  split <;> rfl

theorem onMark_outputCap : (s.onMark nowMs m).1.outputCap = s.outputCap := by
  have hclose : (s.closeOrDiscardOpen nowMs).1.outputCap = s.outputCap := by
    unfold closeOrDiscardOpen
    split
    · split
      · simp
      · rfl
    · rfl
  cases m with
  | progress => rfl
  | promptStart fields =>
    simp only [onMark, onPromptStart]
    split <;> exact hclose
  | commandStart =>
    simp only [onMark, onCommandStart]
    split
    · rfl
    · exact hclose
  | explicitCommand fields =>
    simp only [onMark, onExplicitCommand]
    split <;> rfl
  | outputStart =>
    simp only [onMark, onOutputStart]
    split <;> split <;> rfl
  | commandFinished fields =>
    simp only [onMark, onCommandFinished]
    split
    · exact takeOpenBlock_outputCap (s := { s with runningSinceMs := none }) _ _ _
    · split <;> rfl

theorem onMark_ends (hends : m.endsOutput) (hrunning : IsRunning s) :
    ∃ block, (s.onMark nowMs m).2 = [block] ∧ block.output = s.openOutputBytes ∧
      block.outputTruncated = s.openOutputTruncated := by
  obtain ⟨hopen, hphase⟩ := hrunning
  cases m with
  | promptStart fields =>
    simp only [onMark, onPromptStart, closeOrDiscardOpen, takeOpenBlock, hopen, hphase, if_true]
    split <;> exact ⟨_, rfl, rfl, rfl⟩
  | commandStart =>
    simp only [onMark, onCommandStart, closeOrDiscardOpen, takeOpenBlock, hopen, hphase, if_true]
    exact ⟨_, rfl, rfl, rfl⟩
  | commandFinished fields =>
    simp only [onMark, onCommandFinished, takeOpenBlock, hopen, hphase, if_true]
    exact ⟨_, rfl, rfl, rfl⟩
  | progress => contradiction
  | explicitCommand fields => contradiction
  | outputStart => contradiction

theorem onMark_silent (h : ¬ m.endsOutput ∨ IsWaiting s) : (s.onMark nowMs m).2 = [] := by
  cases m with
  | progress => rfl
  | explicitCommand fields => rfl
  | outputStart => rfl
  | promptStart fields =>
    have hwaiting := h.resolve_left (by simp [Mark.endsOutput])
    cases hopen : s.hasOpenBlock with
    | false =>
      simp only [onMark, onPromptStart, closeOrDiscardOpen, hopen]
      split <;> rfl
    | true =>
      simp only [onMark, onPromptStart, closeOrDiscardOpen, hopen, hwaiting hopen, if_true]
      split <;> rfl
  | commandStart =>
    have hwaiting := h.resolve_left (by simp [Mark.endsOutput])
    cases hopen : s.hasOpenBlock with
    | false => simp [onMark, onCommandStart, closeOrDiscardOpen, hopen]
    | true => simp [onMark, onCommandStart, hopen, hwaiting hopen]
  | commandFinished fields =>
    have hwaiting := h.resolve_left (by simp [Mark.endsOutput])
    cases hopen : s.hasOpenBlock with
    | false => simp [onMark, onCommandFinished, hopen]
    | true => simp [onMark, onCommandFinished, hopen, hwaiting hopen]

theorem onMark_inside (hends : ¬ m.endsOutput) (hrunning : IsRunning s) :
    (s.onMark nowMs m).1.openOutputBytes = s.openOutputBytes ∧
      (s.onMark nowMs m).1.openOutputTruncated = s.openOutputTruncated := by
  obtain ⟨hopen, hphase⟩ := hrunning
  cases m with
  | progress => exact ⟨rfl, rfl⟩
  | explicitCommand fields => simp [onMark, onExplicitCommand, hopen]
  | outputStart =>
    simp only [onMark, onOutputStart, hopen, if_true]
    constructor
    · split <;> rfl
    · split <;> rfl
  | promptStart fields => exact absurd rfl hends
  | commandStart => exact absurd rfl hends
  | commandFinished fields => exact absurd rfl hends

theorem onOutputStart_fresh (hfresh : Fresh s) (hwaiting : IsWaiting s) :
    (s.onMark nowMs .outputStart).1.openOutputBytes = [] ∧
      (s.onMark nowMs .outputStart).1.openOutputTruncated = false := by
  cases hopen : s.hasOpenBlock with
  | false =>
    simp only [onMark, onOutputStart, startOpenBlock, hopen, Bool.false_eq_true, if_false]
    constructor
    · split <;> rfl
    · split <;> rfl
  | true =>
    obtain ⟨hout, htruncated⟩ := hfresh hopen (hwaiting hopen)
    simp only [onMark, onOutputStart, hopen, if_true]
    constructor
    · split <;> exact hout
    · split <;> exact htruncated

theorem onMark_fresh (hfresh : Fresh s) : Fresh (s.onMark nowMs m).1 := by
  have hstart (t : CommandBlockSegmenter) (phase : Segmenter.Phase) : Fresh { t.startOpenBlock with phase } :=
    fun _ _ => ⟨rfl, rfl⟩
  cases m with
  | progress => exact hfresh
  | promptStart fields =>
    intro _ hcommand
    simp only [onMark, onPromptStart] at hcommand
    split at hcommand <;> contradiction
  | commandStart =>
    simp only [onMark, onCommandStart]
    split
    · exact hfresh
    · exact hstart _ _
  | explicitCommand fields =>
    cases hopen : s.hasOpenBlock with
    | false =>
      intro _ _
      simp [onMark, onExplicitCommand, startOpenBlock, hopen]
    | true =>
      intro _ hcommand
      simp only [onMark, onExplicitCommand, hopen, if_true] at hcommand ⊢
      exact hfresh hopen hcommand
  | outputStart =>
    intro _ hcommand
    have hphase : (s.onOutputStart nowMs).phase = .output := by
      simp only [onOutputStart]
      split <;> split <;> rfl
    exact absurd (hphase.symm.trans hcommand) (by decide)
  | commandFinished fields =>
    intro _ hcommand
    simp only [onMark, onCommandFinished] at hcommand
    split at hcommand <;> contradiction

/-! ## §3 Beside the tokens -/

/-- The segmenter is in the lexer's mode. An OSC over the cap is read to its
end with nothing kept of it. -/
def Reads (mode : Mode) (s : CommandBlockSegmenter) : Prop :=
  match mode with
  | .ground => s.state = .ground
  | .escape => s.state = .escape
  | .csi _ => s.state = .csi
  | .osc payload => (s.state = .osc ∧ s.oscBuffer = payload ∧ payload.length ≤ oscCap) ∨
      (s.state = .oscDiscard ∧ oscCap < payload.length)
  | .oscEscape payload => (s.state = .oscEscape ∧ s.oscBuffer = payload ∧ payload.length ≤ oscCap) ∨
      (s.state = .oscDiscardEscape ∧ oscCap < payload.length)
  | .string _ => s.state = .stringConsume
  | .stringEscape _ => s.state = .stringConsumeEscape

/-- What stands between the marks of the executions of a stream. -/
def between (l : Lexer) : List (Span Token) := spans Token.startsOutput Token.endsOutput l.tokens

/-- The segmenter, the blocks it gave, and the tokens it gave them for. -/
structure Captures (l : Lexer) (s : CommandBlockSegmenter) (blocks : List CommandBlock) : Prop where
  alive : ∃ handed, Alive s blocks handed
  reads : Reads l.mode s
  marks : s.marks = l.tokens.filterMap Token.mark
  fresh : Fresh s
  during : ∀ span, openSpan Token.startsOutput Token.endsOutput l.tokens = some span →
    Captured s.outputCap (span.inside.flatMap Token.emitted ++ l.mode.emitted) s.openOutputBytes s.openOutputTruncated
  closed : List.Forall₂
    (fun span block => Captured s.outputCap (span.inside.flatMap Token.emitted) block.output block.outputTruncated)
    (between l) blocks

namespace Captures

variable {l : Lexer} {blocks : List CommandBlock} {span : Span Token}
variable {state : Segmenter.State}

section

variable (h : Captures l s blocks)
include h

theorem running_iff : (openSpan Token.startsOutput Token.endsOutput l.tokens = none → IsWaiting s) ∧
      ∀ span, openSpan Token.startsOutput Token.endsOutput l.tokens = some span → IsRunning s := by
  obtain ⟨handed, -, halive⟩ := h.alive
  have hsame : (openSpan Token.startsOutput Token.endsOutput l.tokens).isSome = (openExecution s.marks).isSome := by
    rw [h.marks]
    exact openSpan_filterMap Token.mark l.tokens
  constructor
  · intro hnone
    rw [hnone] at hsame
    have hidle : openExecution s.marks = none := by simpa using hsame.symm
    exact (halive.waiting hidle).1
  · intro span hsome
    rw [hsome] at hsame
    obtain ⟨execution, hexecution⟩ := Option.isSome_iff_exists.mp hsame.symm
    exact ⟨(halive.executing execution hexecution).opened, (halive.executing execution hexecution).phase⟩

theorem goesOn (mode : Mode) (happends : Appends s xs t) (hreads : Reads mode t)
    (hemitted : mode.emitted = l.mode.emitted ++ xs) : Captures ⟨l.tokens, mode⟩ t blocks := by
  obtain ⟨handed, halive⟩ := h.alive
  refine ⟨⟨handed, halive.sameSpan happends.same⟩, hreads, happends.same.marks.trans h.marks, h.fresh.appends happends,
    ?_, ?_⟩
  · intro span hspan
    have hcaptured := happends.inside (h.running_iff.2 span hspan).2 _ (h.during span hspan)
    rw [happends.outputCap, hemitted, ← List.append_assoc]
    exact hcaptured
  · rw [happends.outputCap]
    exact h.closed

theorem completes (token : Token) (mode : Mode) (happends : Appends s xs t) (hreads : Reads mode t)
    (hmark : token.mark = none) (hemitted : token.emitted ++ mode.emitted = l.mode.emitted ++ xs) :
    Captures ⟨l.tokens ++ [token], mode⟩ t blocks := by
  obtain ⟨handed, halive⟩ := h.alive
  have hstarts : ¬ token.startsOutput := by simp [Token.startsOutput, hmark]
  have hends : ¬ token.endsOutput := by simp [Token.endsOutput, hmark]
  refine ⟨⟨handed, halive.sameSpan happends.same⟩, hreads, ?_, h.fresh.appends happends, ?_, ?_⟩
  · rw [happends.same.marks, h.marks, List.filterMap_append]
    simp [hmark]
  · intro span hspan
    cases hopen : openSpan Token.startsOutput Token.endsOutput l.tokens with
    | none => rw [openSpan_idle hopen hstarts] at hspan; contradiction
    | some old =>
      rw [openSpan_goesOn hopen hends] at hspan
      obtain rfl := Option.some.inj hspan
      have hcaptured := happends.inside (h.running_iff.2 old hopen).2 _ (h.during old hopen)
      rw [happends.outputCap, List.flatMap_append, List.append_assoc]
      simp only [List.flatMap_singleton]
      rw [hemitted, ← List.append_assoc]
      exact hcaptured
  · have hspans : between ⟨l.tokens ++ [token], mode⟩ = between l := by
      cases hopen : openSpan Token.startsOutput Token.endsOutput l.tokens with
      | none => exact spans_idle hopen token
      | some old => exact spans_goesOn hopen hends
    rw [happends.outputCap, hspans]
    exact h.closed

theorem meets {token : Token} {mode : Mode} (hbefore : l.mode.emitted = []) (hmark : token.mark = some m)
    (hemitted : token.emitted = []) (hmode : mode.emitted = [])
    (hreads : Reads mode { (s.taken.onMark nowMs m).1 with state })
    (halive : ∃ handed, Alive { (s.taken.onMark nowMs m).1 with state } (blocks ++ (s.taken.onMark nowMs m).2) handed)
    (hmarks : ({ (s.taken.onMark nowMs m).1 with state } : CommandBlockSegmenter).marks = s.marks ++ [m]) :
    Captures ⟨l.tokens ++ [token], mode⟩ { (s.taken.onMark nowMs m).1 with state }
      (blocks ++ (s.taken.onMark nowMs m).2) := by
  have hstarts : token.startsOutput = m.startsOutput := by simp [Token.startsOutput, hmark]
  have hends : token.endsOutput = m.endsOutput := by simp [Token.endsOutput, hmark]
  have hcap : (s.taken.onMark nowMs m).1.outputCap = s.outputCap := onMark_outputCap nowMs
  refine ⟨halive, hreads, ?_, ?_, ?_, ?_⟩
  · rw [hmarks, h.marks, List.filterMap_append]
    simp [hmark]
  · exact onMark_fresh (s := s.taken) nowMs h.fresh
  · intro span hspan
    rw [hcap, hmode, List.append_nil]
    cases hopen : openSpan Token.startsOutput Token.endsOutput l.tokens with
    | none =>
      have hwaiting : IsWaiting s.taken := h.running_iff.1 hopen
      by_cases hm : m.startsOutput
      · rw [openSpan_opens hopen (hstarts.trans hm)] at hspan
        obtain rfl := Option.some.inj hspan
        cases m with
        | outputStart =>
          obtain ⟨hout, htruncated⟩ := onOutputStart_fresh (s := s.taken) nowMs h.fresh hwaiting
          rw [hout, htruncated]
          exact ⟨by simp, by simp⟩
        | _ => contradiction
      · rw [openSpan_idle hopen (by rw [hstarts]; exact hm)] at hspan
        contradiction
    | some old =>
      have hrunning : IsRunning s.taken := h.running_iff.2 old hopen
      by_cases hm : m.endsOutput
      · grind [openSpan_closes]
      · rw [openSpan_goesOn hopen (by rw [hends]; exact hm)] at hspan
        obtain rfl := Option.some.inj hspan
        obtain ⟨hout, htruncated⟩ := onMark_inside (s := s.taken) nowMs hm hrunning
        have hcaptured := h.during old hopen
        rw [hbefore, List.append_nil] at hcaptured
        rw [hout, htruncated, List.flatMap_append, List.flatMap_singleton, hemitted, List.append_nil]
        exact hcaptured
  · rw [hcap]
    cases hopen : openSpan Token.startsOutput Token.endsOutput l.tokens with
    | none =>
      have hwaiting : IsWaiting s.taken := h.running_iff.1 hopen
      have hspans : between ⟨l.tokens ++ [token], mode⟩ = between l := spans_idle hopen token
      rw [hspans, onMark_silent (s := s.taken) nowMs (.inr hwaiting), List.append_nil]
      exact h.closed
    | some old =>
      have hrunning : IsRunning s.taken := h.running_iff.2 old hopen
      by_cases hm : m.endsOutput
      · have hspans : between ⟨l.tokens ++ [token], mode⟩ = between l ++ [old] :=
          spans_closes hopen (hends.trans hm)
        obtain ⟨block, hblock, hout, htruncated⟩ := onMark_ends (s := s.taken) nowMs hm hrunning
        have hcaptured := h.during old hopen
        rw [hbefore, List.append_nil] at hcaptured
        rw [hspans, hblock]
        refine List.rel_append h.closed (.cons ?_ .nil)
        rw [hout, htruncated]
        exact hcaptured
      · have hspans : between ⟨l.tokens ++ [token], mode⟩ = between l :=
          spans_goesOn hopen (by rw [hends]; exact hm)
        rw [hspans, onMark_silent (s := s.taken) nowMs (.inl hm), List.append_nil]
        exact h.closed

theorem finishes (token : Token) (mode : Mode) (hbefore : l.mode.emitted = []) (hmark : token.mark = markOf s.oscBuffer)
    (hemitted : token.emitted = []) (hmode : mode.emitted = [])
    (hreads : Reads mode { (s.finishOsc nowMs).1 with state }) :
    Captures ⟨l.tokens ++ [token], mode⟩ { (s.finishOsc nowMs).1 with state } (blocks ++ (s.finishOsc nowMs).2) := by
  obtain ⟨handed, halive⟩ := h.alive
  have halive' : Alive { (s.finishOsc nowMs).1 with state } (blocks ++ (s.finishOsc nowMs).2) handed :=
    (halive.finishOsc nowMs).sameSpan (.toState state)
  have hfinished : (s.finishOsc nowMs).1.finished = s.finished ++ [s.oscBuffer] :=
    (Prod.mk.inj (record_finishOsc nowMs s)).2
  have hmarks : ({ (s.finishOsc nowMs).1 with state } : CommandBlockSegmenter).marks =
      s.marks ++ (markOf s.oscBuffer).toList := by
    simp only [CommandBlockSegmenter.marks, hfinished, List.filterMap_append]
    cases hm : markOf s.oscBuffer <;> simp [hm]
  rw [finishOsc_eq] at hreads halive' hmarks ⊢
  cases hm : markOf s.oscBuffer with
  | none =>
    simp only [hm, Option.map_none, Option.getD_none, Option.toList_none, List.append_nil] at hreads hmarks ⊢
    have happends : Appends s [] { s.taken with state } := .nothing ⟨rfl, hmarks⟩ rfl rfl
    exact h.completes token mode happends hreads (hmark.trans hm) (by rw [hemitted, hmode, hbefore])
  | some m =>
    simp only [hm, Option.map_some, Option.getD_some, Option.toList_some] at hreads halive' hmarks ⊢
    exact h.meets nowMs hbefore (hmark.trans hm) hemitted hmode hreads ⟨handed, halive'⟩ hmarks

end

theorem classify {tokens : List Token} (h : Captures ⟨tokens, .escape⟩ s blocks) (byte : UInt8) :
    Captures (Lexer.classify tokens byte) (s.classify byte) blocks := by
  have hwritten : Appends s [esc, byte] (if s.phase = .output then (s.appendByte esc).appendByte byte else s) :=
    ((Appends.byte (s := s) esc).trans (.byte byte)).onlyOutput
  unfold Lexer.classify CommandBlockSegmenter.classify
  split
  · exact h.goesOn (.csi [esc, byte]) (hwritten.trans (.toState .csi)) rfl rfl
  · split
    · exact h.goesOn (.osc []) (.nothing ⟨rfl, rfl⟩ rfl rfl) (.inl ⟨rfl, rfl, Nat.zero_le _⟩) rfl
    · split
      · exact h.goesOn (.string [esc, byte]) (.toState .stringConsume) rfl rfl
      · split
        · exact h.completes .lone .escape (.toState .escape) rfl rfl rfl
        · exact h.completes (.sequence [esc, byte]) .ground (hwritten.trans (.toState .ground)) rfl rfl rfl

theorem step (h : Captures l s blocks) (byte : UInt8) :
    Captures (l.next byte) (s.step nowMs byte).1 (blocks ++ (s.step nowMs byte).2) := by
  obtain ⟨tokens, mode⟩ := l
  have hreads := h.reads
  cases mode with
  | ground =>
    have hstate : s.state = .ground := hreads
    simp only [Lexer.next, CommandBlockSegmenter.step, hstate]
    split
    · rw [List.append_nil]
      exact h.goesOn .escape (.toState .escape) rfl rfl
    · rw [List.append_nil]
      exact h.completes (.text byte) .ground (.byte byte)
        (show (s.appendByte byte).state = _ from (s.appendByte_state byte).trans hstate) rfl rfl
  | escape =>
    have hstate : s.state = .escape := hreads
    simp only [Lexer.next, CommandBlockSegmenter.step, hstate]
    rw [List.append_nil]
    exact h.classify byte
  | csi raw =>
    have hstate : s.state = .csi := hreads
    have hwritten : Appends s [byte] (if s.phase = .output then s.appendByte byte else s) :=
      (Appends.byte (s := s) byte).onlyOutput
    have hstays : (if s.phase = .output then s.appendByte byte else s).state = .csi := by
      split
      · exact (s.appendByte_state byte).trans hstate
      · exact hstate
    simp only [Lexer.next, CommandBlockSegmenter.step, hstate]
    split
    · rw [List.append_nil]
      exact h.completes (.sequence (raw ++ [byte])) .ground (hwritten.trans (.toState .ground)) rfl
        rfl (by simp [Token.emitted, Mode.emitted])
    · split
      · rename_i hesc
        rw [List.append_nil]
        exact h.completes (.cutSequence raw) .escape (hwritten.trans (.toState .escape)) rfl rfl
          (by simp [Token.emitted, Mode.emitted, hesc])
      · rw [List.append_nil]
        exact h.goesOn (.csi (raw ++ [byte])) hwritten hstays rfl
  | osc payload =>
    rcases hreads with ⟨hstate, hbuffer, hfits⟩ | ⟨hstate, hover⟩
    · have hmark (ending : List UInt8) : (Token.osc payload ending).mark = markOf s.oscBuffer := by
        rw [Token.mark, if_pos hfits, hbuffer]
      simp only [Lexer.next, CommandBlockSegmenter.step, hstate]
      split
      · exact h.finishes nowMs (.osc payload [bel]) .ground rfl (hmark [bel]) rfl rfl rfl
      · split
        · rw [List.append_nil]
          exact h.goesOn (.oscEscape payload) (.toState .oscEscape) (.inl ⟨rfl, hbuffer, hfits⟩) rfl
        · have hlength : (s.oscBuffer ++ [byte]).length = payload.length + 1 := by simp [hbuffer]
          split
          · rw [List.append_nil]
            exact h.goesOn (.osc (payload ++ [byte])) (.nothing ⟨rfl, rfl⟩ rfl rfl)
              (.inr ⟨rfl, by grind⟩) rfl
          · rw [List.append_nil]
            exact h.goesOn (.osc (payload ++ [byte])) (.nothing ⟨rfl, rfl⟩ rfl rfl)
              (.inl ⟨rfl, by rw [hbuffer], by grind⟩) rfl
    · have hmark (ending : List UInt8) : (Token.osc payload ending).mark = none := by
        rw [Token.mark, if_neg (by omega)]
      simp only [Lexer.next, CommandBlockSegmenter.step, hstate]
      split
      · rw [List.append_nil]
        exact h.completes (.osc payload [bel]) .ground (.toState .ground) rfl (hmark [bel]) rfl
      · split
        · rw [List.append_nil]
          exact h.goesOn (.oscEscape payload) (.toState .oscDiscardEscape) (.inr ⟨rfl, hover⟩) rfl
        · rw [List.append_nil]
          exact h.goesOn (.osc (payload ++ [byte])) (.nothing .refl rfl rfl)
            (.inr ⟨hstate, by grind⟩) rfl
  | oscEscape payload =>
    rcases hreads with ⟨hstate, hbuffer, hfits⟩ | ⟨hstate, hover⟩
    · simp only [Lexer.next, CommandBlockSegmenter.step, hstate]
      split
      · exact h.finishes nowMs (.osc payload [esc, backslash]) .ground rfl
          (by rw [Token.mark, if_pos hfits, hbuffer]) rfl rfl rfl
      · exact (h.finishes nowMs (.cutOsc payload) .escape rfl
          (by rw [Token.mark, if_pos hfits, hbuffer]) rfl rfl rfl).classify byte
    · simp only [Lexer.next, CommandBlockSegmenter.step, hstate]
      split
      · rw [List.append_nil]
        exact h.completes (.osc payload [esc, backslash]) .ground (.toState .ground) rfl
          (by rw [Token.mark, if_neg (by omega)]) rfl
      · rw [List.append_nil]
        exact (h.completes (.cutOsc payload) .escape (.toState .escape) rfl
          (by rw [Token.mark, if_neg (by omega)]) rfl).classify byte
  | string raw =>
    have hstate : s.state = .stringConsume := hreads
    simp only [Lexer.next, CommandBlockSegmenter.step, hstate]
    split
    · rw [List.append_nil]
      exact h.completes (.string (raw ++ [byte])) .ground (.toState .ground) rfl rfl rfl
    · split
      · rw [List.append_nil]
        exact h.goesOn (.stringEscape raw) (.toState .stringConsumeEscape) rfl rfl
      · rw [List.append_nil]
        exact h.goesOn (.string (raw ++ [byte])) (.nothing .refl rfl rfl) hstate rfl
  | stringEscape raw =>
    have hstate : s.state = .stringConsumeEscape := hreads
    simp only [Lexer.next, CommandBlockSegmenter.step, hstate]
    split
    · rw [List.append_nil]
      exact h.completes (.string (raw ++ [esc, byte])) .ground (.toState .ground) rfl rfl rfl
    · split
      · rw [List.append_nil]
        exact h.goesOn (.stringEscape (raw ++ [esc])) (.toState .stringConsumeEscape) rfl rfl
      · rw [List.append_nil]
        exact h.goesOn (.string (raw ++ [esc, byte])) (.toState .stringConsume) rfl rfl

end Captures

/-! ## §4 A reading -/

theorem captures_ingest (h : Captures l s blocks) (bytes : List UInt8) :
    Captures (bytes.foldl Lexer.next l) (s.ingest nowMs bytes).1 (blocks ++ (s.ingest nowMs bytes).2) := by
  rw [ingest_eq_feed]
  induction bytes generalizing l s blocks with
  | nil => simpa using h
  | cons byte bytes ih => simpa [List.append_assoc] using ih (h.step nowMs byte)

/-- A segmenter's reading of chunks with their clocks. -/
def readChunks (s : CommandBlockSegmenter) (chunks : List (Int64 × List UInt8)) :
    CommandBlockSegmenter × List CommandBlock :=
  feed (fun s (nowMs, chunk) => s.ingest nowMs chunk) s chunks

theorem captures_readChunks (h : Captures l s blocks) (chunks : List (Int64 × List UInt8)) :
    Captures ((chunks.flatMap (·.2)).foldl Lexer.next l) (s.readChunks chunks).1 (blocks ++ (s.readChunks chunks).2) := by
  induction chunks generalizing l s blocks with
  | nil => simpa [readChunks] using h
  | cons chunk chunks ih =>
    obtain ⟨nowMs, chunk⟩ := chunk
    simpa [readChunks] using ih (captures_ingest nowMs h chunk)

theorem captures_new (outputCap : Nat) (autoProgressPrefixes : List String) :
    Captures ⟨[], .ground⟩ (.new outputCap autoProgressPrefixes) [] := by
  refine ⟨⟨[], .new outputCap autoProgressPrefixes⟩, rfl, rfl, fun hopen => ?_, ?_, .nil⟩
  · simp [CommandBlockSegmenter.new] at hopen
  · simp

theorem readChunks_outputCap (chunks : List (Int64 × List UInt8)) : (s.readChunks chunks).1.outputCap = s.outputCap := by
  have hstep (nowMs : Int64) (t : CommandBlockSegmenter) (byte : UInt8) (h : t.outputCap = s.outputCap) :
      (t.step nowMs byte).1.outputCap = s.outputCap := by
    rcases step_marks nowMs t byte with ⟨hsame, -⟩ | ⟨hsame, -⟩
    · rw [hsame.rest]
      exact h
    · rw [hsame.rest, finishOsc_eq]
      cases markOf t.oscBuffer with
      | none => exact h
      | some m => exact (onMark_outputCap (s := t.taken) nowMs).trans h
  refine feed_invariant (fun t : CommandBlockSegmenter => t.outputCap = s.outputCap) (fun t chunk h => ?_) rfl chunks
  dsimp only
  rw [ingest_eq_feed]
  exact feed_invariant (fun t : CommandBlockSegmenter => t.outputCap = s.outputCap) (hstep chunk.1) h chunk.2

/-- What is written for some tokens and what should be kept of them make no
difference to a block of that cap. -/
def Agree (cap : Nat) (tokens : List Token) : Prop :=
  (tokens.flatMap Token.emitted).take cap = (tokens.flatMap Token.kept).take cap ∧
    (cap < (tokens.flatMap Token.emitted).length ↔ cap < (tokens.flatMap Token.kept).length)

theorem agree_of_whole (cap : Nat) (h : ∀ token ∈ tokens, token.isWhole) : Agree cap tokens := by
  have hsame : tokens.flatMap Token.emitted = tokens.flatMap Token.kept := by
    refine List.flatMap_congr fun token htoken => ?_
    have hwhole := h token htoken
    cases token with
    | text _ | sequence _ | osc _ _ | string _ => rfl
    | cutSequence _ | lone | cutOsc _ => contradiction
  rw [Agree, hsame]
  exact ⟨rfl, Iff.rfl⟩

theorem captured_iff {cap : Nat} {output : List UInt8} {truncated : Bool}
    (h : Captured cap (tokens.flatMap Token.emitted) output truncated) :
    Captured cap (tokens.flatMap Token.kept) output truncated ↔ Agree cap tokens := by
  obtain ⟨rfl, rfl⟩ := h
  constructor
  · rintro ⟨hout, htruncated⟩
    exact ⟨hout, by simpa using htruncated⟩
  · rintro ⟨hout, htruncated⟩
    exact ⟨hout, by simpa using htruncated⟩

/-- The output of every block that closes is what stands between its marks,
up to the cap, exactly when what the segmenter writes for it agrees. -/
theorem output_captured (outputCap : Nat) (autoProgressPrefixes : List String) (chunks : List (Int64 × List UInt8)) :
    let s := new outputCap autoProgressPrefixes
    let l := lex (chunks.flatMap (·.2))
    l.raw = chunks.flatMap (·.2) ∧
      ∃ spans : List (Span Token), spans.Pairwise (fun span next => span.ended ≤ next.before.length) ∧
        (∀ span, span ∈ spans ↔ IsSpan Token.startsOutput Token.endsOutput l.tokens span) ∧
        List.Forall₂
          (fun span block =>
            (Captured s.outputCap (span.inside.flatMap Token.kept) block.output block.outputTruncated ↔
              Agree s.outputCap span.inside) ∧
            ((∀ token ∈ span.inside, token.isWhole) → Agree s.outputCap span.inside))
          spans (s.readChunks chunks).2 := by
  intro s l
  have hcaptures := captures_readChunks (captures_new outputCap autoProgressPrefixes) chunks
  have hcap : (s.readChunks chunks).1.outputCap = s.outputCap := readChunks_outputCap chunks
  refine ⟨lex_raw _, between l, (spans_ordered l.tokens).1, mem_spans_iff Token.startsOutput_not_endsOutput l.tokens, ?_⟩
  have hclosed := hcaptures.closed
  rw [hcap, List.nil_append] at hclosed
  exact hclosed.imp fun span block h => ⟨captured_iff h, agree_of_whole _⟩

/-- `ESC [ 3 ESC [ m`: an escape that cuts a control sequence off. -/
def cutBytes : List UInt8 := [esc, leftBracket, 0x33, esc, leftBracket, 0x6D]

/-- `ESC ESC c`. -/
def repeatedBytes : List UInt8 := [esc, esc, 0x63]

/-- `ESC ] 133 ; D BEL`. -/
def endBytes : List UInt8 := [esc, rightBracket, 0x31, 0x33, 0x33, semicolon, 0x44, bel]

/-- All of either belongs to the output. One of the escapes is captured
twice, and one is lost. -/
theorem escapes_miscaptured :
    (lex cutBytes).tokens.flatMap Token.kept = cutBytes ∧
      (segment (outputStartBytes ++ cutBytes ++ endBytes) 0 0).map (·.output) =
        [[esc, leftBracket, 0x33, esc, esc, leftBracket, 0x6D]] ∧
      (lex repeatedBytes).tokens.flatMap Token.kept = repeatedBytes ∧
      (segment (outputStartBytes ++ repeatedBytes ++ endBytes) 0 0).map (·.output) = [[esc, 0x63]] := by
  decide +kernel

end CommandBlockSegmenter

end SlopDesk.Superd
