/-
SlopDesk.Superd.BlockLives — the marks of a stream, and the blocks they open and close.
-/
import Mathlib.Data.List.Forall2
import SlopDesk.Base.Spans
import SlopDesk.Superd.ReaderTheorems

/-! # The marks of a stream, and what one of them
does to the segmenter.

A payload is a mark or it is nothing. `finishOsc_eq` is the one place that
reads the handlers' dispatch; `step_marks` says that a byte does no more to
the command's record than the mark it completes.
-/

namespace SlopDesk.Superd

open SlopDesk.Base SlopDesk.Sanitize

/-- What a payload asks the segmenter for. -/
inductive Mark where
  /-- The program's own `9;4`. -/
  | progress
  /-- `A` -/
  | promptStart (fields : List String)
  /-- `B` -/
  | commandStart
  /-- `E` -/
  | explicitCommand (fields : List String)
  /-- `C` -/
  | outputStart
  /-- `D` -/
  | commandFinished (fields : List String)
  deriving DecidableEq

/-- The mark of a verb. -/
def verbMark (verb : String) (fields : List String) : Option Mark :=
  match verb with
  | "A" => some (.promptStart fields)
  | "B" => some .commandStart
  | "E" => some (.explicitCommand fields)
  | "C" => some .outputStart
  | "D" => some (.commandFinished fields)
  | _ => none

/-- The mark of a payload behind `133;`. -/
def commandMark (buffer : List UInt8) : Option Mark := do
  let payload ← fromUtf8 buffer
  let fields := splitFields ';' payload
  let verb ← fields[1]?
  if verb ≠ "E" ∧ buffer.length > cmdOscCap then none else verbMark verb fields

/-- The mark of a payload: none is one that the segmenter passes over. -/
def markOf (buffer : List UInt8) : Option Mark := do
  let separator ← buffer.findIdx? (· == semicolon)
  let ps := fromUtf8 (buffer.take separator)
  if ps = some "9" then
    if buffer[separator + 1]? = some 0x34 ∧
        (buffer[separator + 2]? = none ∨ buffer[separator + 2]? = some semicolon) then some .progress
    else none
  else if ps = some "133" then commandMark buffer
  else none

namespace CommandBlockSegmenter

/-- The marks the segmenter has met, in order. -/
def marks (s : CommandBlockSegmenter) : List Mark := s.finished.filterMap markOf

/-- What each mark does. -/
def onMark (nowMs : Int64) (s : CommandBlockSegmenter) : Mark → CommandBlockSegmenter × List CommandBlock
  | .progress => ({ s with sawRealProgressThisBlock := true }, [])
  | .promptStart fields => s.onPromptStart fields nowMs
  | .commandStart => s.onCommandStart nowMs
  | .explicitCommand fields => (s.onExplicitCommand fields, [])
  | .outputStart => (s.onOutputStart nowMs, [])
  | .commandFinished fields => s.onCommandFinished fields nowMs

variable (nowMs : Int64) (s : CommandBlockSegmenter)

/-- The payload as `finish_osc` takes it over. -/
def taken : CommandBlockSegmenter := { s with oscBuffer := [], finished := s.finished ++ [s.oscBuffer] }

theorem onCommandMark_eq (buffer : List UInt8) :
    s.onCommandMark buffer nowMs = ((commandMark buffer).map (s.onMark nowMs)).getD (s, []) := by
  unfold onCommandMark commandMark
  cases hpayload : fromUtf8 buffer with
  | none => rfl
  | some payload =>
    simp only [Option.bind_eq_bind, Option.bind_some]
    cases hverb : (splitFields ';' payload)[1]? with
    | none => rfl
    | some verb =>
      simp only [Option.bind_some]
      by_cases hlong : verb ≠ "E" ∧ buffer.length > cmdOscCap
      · rw [if_pos hlong, if_pos hlong]
        rfl
      · rw [if_neg hlong, if_neg hlong]
        unfold verbMark
        split
        · rfl
        · rfl
        · rfl
        · rfl
        · rfl
        · first
          | rfl
          | split <;> first | rfl | contradiction

theorem finishOsc_eq :
    s.finishOsc nowMs = ((markOf s.oscBuffer).map (s.taken.onMark nowMs)).getD (s.taken, []) := by
  have hmark := onCommandMark_eq nowMs s.taken s.oscBuffer
  unfold finishOsc markOf
  dsimp only
  cases hfound : s.oscBuffer.findIdx? (· == semicolon) with
  | none => rfl
  | some separator =>
    simp only [Option.bind_eq_bind, Option.bind_some]
    by_cases hnine : fromUtf8 (s.oscBuffer.take separator) = some "9"
    · rw [if_pos hnine, if_pos hnine]
      split <;> rfl
    · rw [if_neg hnine, if_neg hnine]
      split
      · exact hmark
      · rfl

/-- Two states that a byte cannot tell apart but by the span it is in: the
marks and what they set are the same. -/
structure SameSpan (s t : CommandBlockSegmenter) : Prop where
  rest : t = { s with
    state := t.state
    oscBuffer := t.oscBuffer
    openCommandBytes := t.openCommandBytes
    openOutputBytes := t.openOutputBytes
    openOutputTruncated := t.openOutputTruncated
    finished := t.finished }
  marks : t.marks = s.marks

namespace SameSpan

variable {s} {t u : CommandBlockSegmenter}

theorem refl : SameSpan s s := ⟨rfl, rfl⟩

theorem trans (h : SameSpan s t) (h' : SameSpan t u) : SameSpan s u := by
  obtain ⟨hrest, hmarks⟩ := h
  obtain ⟨hrest', hmarks'⟩ := h'
  exact ⟨by rw [hrest', hrest], hmarks'.trans hmarks⟩

theorem appendByte (byte : UInt8) : SameSpan s (s.appendByte byte) := by
  unfold CommandBlockSegmenter.appendByte
  split
  · exact refl
  · split
    · exact ⟨rfl, rfl⟩
    · exact refl
  · split <;> exact ⟨rfl, rfl⟩

theorem toState (state : Segmenter.State) : SameSpan s { s with state } := ⟨rfl, rfl⟩

theorem classify (byte : UInt8) : SameSpan s (s.classify byte) := by
  have hspan (state : Segmenter.State) : SameSpan s
      { (if s.phase = .output then (s.appendByte esc).appendByte byte else s) with state } := by
    split
    · exact ((appendByte esc).trans (appendByte byte)).trans (toState state)
    · exact toState state
  unfold CommandBlockSegmenter.classify
  split
  · exact hspan .csi
  · split
    · exact ⟨rfl, rfl⟩
    · split
      · exact toState _
      · split
        · exact toState _
        · exact hspan .ground

end SameSpan

/-- What the payload finished so far does, if a byte does anything but go
to its span. -/
theorem step_marks (byte : UInt8) : (SameSpan s (s.step nowMs byte).1 ∧ (s.step nowMs byte).2 = []) ∨
      (SameSpan (s.finishOsc nowMs).1 (s.step nowMs byte).1 ∧
        (s.step nowMs byte).2 = (s.finishOsc nowMs).2) := by
  cases hstate : s.state with
  | ground =>
    refine .inl ?_
    simp only [step, hstate]
    split
    · exact ⟨.toState _, rfl⟩
    · exact ⟨.appendByte byte, rfl⟩
  | escape =>
    refine .inl ?_
    simp only [step, hstate]
    exact ⟨.classify byte, trivial⟩
  | csi =>
    refine .inl ?_
    have hspan : SameSpan s (if s.phase = .output then s.appendByte byte else s) := by
      split
      · exact .appendByte byte
      · exact .refl
    simp only [step, hstate]
    split
    · exact ⟨hspan.trans (.toState _), rfl⟩
    · split
      · exact ⟨hspan.trans (.toState _), rfl⟩
      · exact ⟨hspan, rfl⟩
  | osc =>
    simp only [step, hstate]
    split
    · exact .inr ⟨.toState _, rfl⟩
    · refine .inl ?_
      split
      · exact ⟨.toState _, rfl⟩
      · split <;> exact ⟨⟨rfl, rfl⟩, rfl⟩
  | oscEscape =>
    refine .inr ?_
    simp only [step, hstate]
    split
    · exact ⟨.toState _, rfl⟩
    · exact ⟨.trans (.toState _) (.classify byte), rfl⟩
  | oscDiscard =>
    refine .inl ?_
    simp only [step, hstate]
    split
    · exact ⟨.toState _, rfl⟩
    · split
      · exact ⟨.toState _, rfl⟩
      · exact ⟨.refl, rfl⟩
  | oscDiscardEscape =>
    refine .inl ?_
    simp only [step, hstate]
    split
    · exact ⟨.toState _, rfl⟩
    · exact ⟨.trans (.toState _) (.classify byte), rfl⟩
  | stringConsume =>
    refine .inl ?_
    simp only [step, hstate]
    split
    · exact ⟨.toState _, rfl⟩
    · split
      · exact ⟨.toState _, rfl⟩
      · exact ⟨.refl, rfl⟩
  | stringConsumeEscape =>
    refine .inl ?_
    simp only [step, hstate]
    split
    · exact ⟨.toState _, rfl⟩
    · split <;> exact ⟨.toState _, rfl⟩

/-! ## Whole payloads -/

variable {s}

theorem feed_payload (h : s.state = .osc) {payload : List UInt8} (hesc : esc ∉ payload) (hbel : bel ∉ payload)
    (hcap : s.oscBuffer.length + payload.length ≤ oscCap) :
    feed (step nowMs) s payload = ({ s with oscBuffer := s.oscBuffer ++ payload }, []) := by
  induction payload generalizing s with
  | nil => simp
  | cons byte payload ih =>
    rw [List.mem_cons, not_or] at hesc hbel
    rw [List.length_cons] at hcap
    have hlength : ¬ (s.oscBuffer ++ [byte]).length > oscCap := by
      rw [List.length_append, List.length_singleton]
      omega
    have hstep : s.step nowMs byte = ({ s with oscBuffer := s.oscBuffer ++ [byte] }, []) := by
      simp only [step, h, Ne.symm hbel.1, Ne.symm hesc.1, hlength, if_false]
    have hrest := ih (s := { s with oscBuffer := s.oscBuffer ++ [byte] }) h hesc.2 hbel.2 (by simp; omega)
    rw [feed_cons, hstep, hrest]
    simp

/-- Inside an OSC, behind its payload. -/
def inOsc (s : CommandBlockSegmenter) (payload : List UInt8) : CommandBlockSegmenter :=
  { s with state := .osc, oscBuffer := payload }

theorem feed_osc (h : s.state = .ground) {payload : List UInt8} (hesc : esc ∉ payload) (hbel : bel ∉ payload)
    (hcap : payload.length ≤ oscCap) : feed (step nowMs) s (esc :: rightBracket :: (payload ++ [bel])) =
      ({ ((s.inOsc payload).finishOsc nowMs).1 with state := .ground }, ((s.inOsc payload).finishOsc nowMs).2) := by
  have hintroducer : feed (step nowMs) s [esc, rightBracket] = ({ s with state := .osc, oscBuffer := [] }, []) := by
    simp [step, h, classify, leftBracket, rightBracket, esc]
  have hpayload : feed (step nowMs) { s with state := .osc, oscBuffer := [] } payload = (s.inOsc payload, []) := by
    rw [feed_payload nowMs (s := { s with state := .osc, oscBuffer := [] }) rfl hesc hbel (by simpa using hcap)]
    rfl
  have hcut : esc :: rightBracket :: (payload ++ [bel]) = [esc, rightBracket] ++ (payload ++ [bel]) := rfl
  have hinside : (s.inOsc payload).state = .osc := rfl
  rw [hcut, feed_append, hintroducer, feed_append, hpayload, feed_singleton]
  simp [step, hinside]

end CommandBlockSegmenter

end SlopDesk.Superd

/-! # One block for each execution.

An execution is a span of the marks: a `C` that finds none under way, up to
the `D`, `A` or `B` that ends it. §1 says what a reading owes to the
executions of its marks, §2 that one mark keeps it, §3 that a reading does,
whatever the clock, the chunks and the drains in between.
-/

namespace SlopDesk.Superd

open SlopDesk.Base SlopDesk.Sanitize

/-! ## §1 Executions -/

namespace Mark

/-- `C`. -/
def startsOutput : Mark → Bool
  | .outputStart => true
  | _ => false

/-- `D`, and the `A` or `B` that interrupts. -/
def endsOutput : Mark → Bool
  | .promptStart _ | .commandStart | .commandFinished _ => true
  | _ => false

/-- An `A` that begins a prompt row. -/
def isPrimary : Mark → Bool
  | .promptStart fields => isPrimaryPromptStart fields
  | _ => false

theorem startsOutput_not_endsOutput (m : Mark) (h : m.startsOutput) : ¬ m.endsOutput := by
  cases m <;> simp_all [startsOutput, endsOutput]

end Mark

/-- The executions a list of marks holds, in order. -/
def executions (marks : List Mark) : List (Span Mark) := spans Mark.startsOutput Mark.endsOutput marks

/-- The execution that is under way. -/
def openExecution (marks : List Mark) : Option (Span Mark) := openSpan Mark.startsOutput Mark.endsOutput marks

/-- The block of an execution. -/
structure Ran (span : Span Mark) (block : CommandBlock) : Prop where
  duration : block.durationMs.isSome
  ordinal : block.promptOrdinal = span.before.countP Mark.isPrimary

/-- What goes to the badge for an execution: nothing, or a start and its
clear, which is the program's to give where it drove the badge itself. -/
def Badge (span : Span Mark) (badge : List SyntheticProgress) : Prop :=
  badge = [] ∨ badge = if .progress ∈ span.inside then [.indeterminate] else [.indeterminate, .clear]

namespace CommandBlockSegmenter

/-- The segmenter inside an execution. -/
structure Executing (span : Span Mark) (s : CommandBlockSegmenter) : Prop where
  opened : s.hasOpenBlock = true
  phase : s.phase = .output
  running : s.runningSinceMs.isSome
  ordinal : s.openPromptOrdinal = span.before.countP Mark.isPrimary
  quiet : s.sawRealProgressThisBlock = false → .progress ∉ span.inside
  driven : s.syntheticSpinnerActive = true → s.sawRealProgressThisBlock = true → .progress ∈ span.inside

/-- The synthetic start that has had no clear. -/
def spinning (s : CommandBlockSegmenter) : List SyntheticProgress :=
  if s.syntheticSpinnerActive then [.indeterminate] else []

/-- The segmenter behind some marks, the blocks it gave and the progress it
handed out. -/
structure Lifecycle (marks : List Mark) (s : CommandBlockSegmenter) (blocks : List CommandBlock)
    (handed : List SyntheticProgress) : Prop where
  indices : blocks.map (·.index) = List.range s.nextIndex
  ordinal : s.hasOpenBlock = true → s.openPromptOrdinal = s.promptCycleCount
  executing : ∀ span, openExecution marks = some span → Executing span s
  waiting : openExecution marks = none →
    (s.hasOpenBlock = true → s.phase = .command) ∧ s.syntheticSpinnerActive = false
  ran : List.Forall₂ Ran (executions marks) blocks
  badges : ∃ badges, List.Forall₂ Badge (executions marks) badges ∧
    handed ++ s.pendingProgress = badges.flatten ++ s.spinning

/-! ## §2 One mark -/

variable {marks : List Mark} {m : Mark} {s : CommandBlockSegmenter} {blocks : List CommandBlock}
  {handed : List SyntheticProgress} {span : Span Mark}

namespace Lifecycle

section

variable (h : Lifecycle marks s blocks handed)
include h

theorem idle (hopen : s.hasOpenBlock = false) : openExecution marks = none := by
  cases hspan : openExecution marks with
  | none => rfl
  | some span =>
    have hopened := (h.executing span hspan).opened
    rw [hopen] at hopened
    contradiction

theorem sameSpan {t : CommandBlockSegmenter} (hsame : SameSpan s t) : Lifecycle marks t blocks handed := by
  rw [hsame.rest]
  refine ⟨h.indices, h.ordinal, ?_, h.waiting, h.ran, h.badges⟩
  intro span hspan
  obtain ⟨hopened, hphase, hrunning, hordinal, hquiet, hdriven⟩ := h.executing span hspan
  exact ⟨hopened, hphase, hrunning, hordinal, hquiet, hdriven⟩

/-- A mark that neither starts nor ends an execution and says nothing of
progress. -/
theorem passed (hstarts : ¬ m.startsOutput) (hends : ¬ m.endsOutput)
    (hprogress : m ≠ .progress) : Lifecycle (marks ++ [m]) s blocks handed := by
  cases hspan : openExecution marks with
  | none =>
    have hopen : openExecution (marks ++ [m]) = none := openSpan_idle hspan hstarts
    have hran : executions (marks ++ [m]) = executions marks := spans_idle hspan m
    exact ⟨h.indices, h.ordinal, by simp [hopen], fun _ => h.waiting hspan, hran ▸ h.ran, hran ▸ h.badges⟩
  | some span =>
    have hopen : openExecution (marks ++ [m]) = some ⟨span.before, span.inside ++ [m]⟩ :=
      openSpan_goesOn hspan hends
    have hran : executions (marks ++ [m]) = executions marks := spans_goesOn hspan hends
    obtain ⟨hopened, hphase, hrunning, hordinal, hquiet, hdriven⟩ := h.executing span hspan
    refine ⟨h.indices, h.ordinal, ?_, by simp [hopen], hran ▸ h.ran, hran ▸ h.badges⟩
    intro next hnext
    obtain rfl := Option.some.inj (hopen.symm.trans hnext)
    exact ⟨hopened, hphase, hrunning, hordinal,
      fun hsaw => by simpa [Ne.symm hprogress] using hquiet hsaw,
      fun hspinner hsaw => List.mem_append_left _ (hdriven hspinner hsaw)⟩

theorem taken (hspan : openExecution marks = some span)
    (hends : m.endsOutput) (complete : Bool) (exitCode : Option Int32) {d : Option UInt32}
    (hduration : d.isSome) : Lifecycle (marks ++ [m]) (s.takeOpenBlock complete exitCode d).1
        (blocks ++ (s.takeOpenBlock complete exitCode d).2) handed ∧
      (s.takeOpenBlock complete exitCode d).1.hasOpenBlock = false := by
  obtain ⟨hopened, hphase, hrunning, hordinal, hquiet, hdriven⟩ := h.executing span hspan
  have hopen : openExecution (marks ++ [m]) = none := openSpan_closes hspan hends
  have hran : executions (marks ++ [m]) = executions marks ++ [span] := spans_closes hspan hends
  obtain ⟨badges, hbadges, hhanded⟩ := h.badges
  have hbadge (badge : List SyntheticProgress) (hone : Badge span badge) :
      List.Forall₂ Badge (executions (marks ++ [m])) (badges ++ [badge]) := by
    rw [hran]
    exact List.rel_append hbadges (.cons hone .nil)
  simp only [takeOpenBlock, hopened, if_true]
  refine ⟨⟨?_, by simp, by simp [hopen], fun _ => ⟨by simp, rfl⟩, ?_, ?_⟩, trivial⟩
  · simp [h.indices, List.range_succ]
  · rw [hran]
    exact List.rel_append h.ran (.cons ⟨hduration, hordinal⟩ .nil)
  · cases hspinner : s.syntheticSpinnerActive with
    | false =>
      refine ⟨badges ++ [[]], hbadge [] (.inl rfl), ?_⟩
      simpa [spinning, hspinner] using hhanded
    | true =>
      cases hsaw : s.sawRealProgressThisBlock with
      | false =>
        refine ⟨badges ++ [[.indeterminate, .clear]], hbadge _ (.inr (by rw [if_neg (hquiet hsaw)])), ?_⟩
        simp only [spinning, hspinner, if_true] at hhanded
        simp only [Bool.not_false, Bool.and_self, if_true, ← List.append_assoc, hhanded]
        simp [spinning]
      | true =>
        refine ⟨badges ++ [[.indeterminate]], hbadge _ (.inr (by rw [if_pos (hdriven hspinner hsaw)])), ?_⟩
        simpa [spinning, hspinner] using hhanded

theorem cleared (hspan : openExecution marks = some span) :
    ∃ cleared, s.finish.1.pendingProgress = s.pendingProgress ++ cleared ∧ Badge span (s.spinning ++ cleared) := by
  obtain ⟨hopened, -, -, -, hquiet, hdriven⟩ := h.executing span hspan
  simp only [finish, takeOpenBlock, hopened, if_true]
  cases hspinner : s.syntheticSpinnerActive with
  | false => exact ⟨[], by simp, .inl (by simp [spinning, hspinner])⟩
  | true =>
    cases hsaw : s.sawRealProgressThisBlock with
    | false => exact ⟨[.clear], by simp, .inr (by simp [spinning, hspinner, hquiet hsaw])⟩
    | true => exact ⟨[], by simp, .inr (by simp [spinning, hspinner, hdriven hspinner hsaw])⟩

theorem untaken (hspan : openExecution marks = none)
    (hends : m.endsOutput) : Lifecycle (marks ++ [m]) s blocks handed := by
  have hopen : openExecution (marks ++ [m]) = none :=
    openSpan_idle hspan fun hstarts => m.startsOutput_not_endsOutput hstarts hends
  have hran : executions (marks ++ [m]) = executions marks := spans_idle hspan m
  exact ⟨h.indices, h.ordinal, by simp [hopen], fun _ => h.waiting hspan, hran ▸ h.ran, hran ▸ h.badges⟩

theorem discarded (hspan : openExecution marks = none) :
    Lifecycle marks s.discardOpenBlock blocks handed := by
  have hspinner := (h.waiting hspan).2
  obtain ⟨badges, hbadges, hhanded⟩ := h.badges
  refine ⟨h.indices, by simp [discardOpenBlock], by simp [hspan], by simp [discardOpenBlock], h.ran, badges, hbadges, ?_⟩
  simpa [spinning, hspinner, discardOpenBlock] using hhanded

theorem closed (hends : m.endsOutput) (nowMs : Int64) :
    Lifecycle (marks ++ [m]) (s.closeOrDiscardOpen nowMs).1 (blocks ++ (s.closeOrDiscardOpen nowMs).2) handed ∧
      (s.closeOrDiscardOpen nowMs).1.hasOpenBlock = false := by
  unfold closeOrDiscardOpen
  cases hspan : openExecution marks with
  | none =>
    cases hopened : s.hasOpenBlock with
    | false => simpa [hopened] using h.untaken hspan hends
    | true =>
      have hphase := (h.waiting hspan).1 hopened
      have hdiscarded := (h.discarded hspan).untaken hspan hends
      simpa [hphase, discardOpenBlock] using hdiscarded
  | some span =>
    obtain ⟨hopened, hphase, hrunning, -⟩ := h.executing span hspan
    rw [if_pos hopened, if_pos hphase]
    exact h.taken hspan hends false none (by simpa using hrunning)

theorem rephased (hopen : s.hasOpenBlock = false) (phase : Segmenter.Phase) :
    Lifecycle marks { s with phase } blocks handed := by
  have hspan := h.idle hopen
  exact ⟨h.indices, by simp [hopen], by simp [hspan], fun _ => ⟨by simp [hopen], (h.waiting hspan).2⟩, h.ran, h.badges⟩

theorem recounted (hopen : s.hasOpenBlock = false) (promptCycleCount : Nat) :
    Lifecycle marks { s with promptCycleCount } blocks handed := by
  have hspan := h.idle hopen
  exact ⟨h.indices, by simp [hopen], by simp [hspan], h.waiting, h.ran, h.badges⟩

theorem begun (hopen : s.hasOpenBlock = false) :
    Lifecycle marks { s.startOpenBlock with phase := .command } blocks handed := by
  have hspan := h.idle hopen
  have hspinner := (h.waiting hspan).2
  obtain ⟨badges, hbadges, hhanded⟩ := h.badges
  refine ⟨h.indices, fun _ => rfl, by simp [hspan], fun _ => ⟨fun _ => rfl, rfl⟩, h.ran, badges, hbadges, ?_⟩
  simpa [spinning, hspinner, startOpenBlock] using hhanded

theorem onProgress :
    Lifecycle (marks ++ [.progress]) { s with sawRealProgressThisBlock := true } blocks handed := by
  cases hspan : openExecution marks with
  | none =>
    have hopen : openExecution (marks ++ [.progress]) = none := openSpan_idle hspan (by decide)
    have hran : executions (marks ++ [.progress]) = executions marks := spans_idle hspan _
    exact ⟨h.indices, h.ordinal, by simp [hopen], fun _ => h.waiting hspan, hran ▸ h.ran, hran ▸ h.badges⟩
  | some span =>
    have hopen : openExecution (marks ++ [.progress]) = some ⟨span.before, span.inside ++ [.progress]⟩ :=
      openSpan_goesOn hspan (by decide)
    have hran : executions (marks ++ [.progress]) = executions marks := spans_goesOn hspan (by decide)
    obtain ⟨hopened, hphase, hrunning, hordinal, -, -⟩ := h.executing span hspan
    refine ⟨h.indices, h.ordinal, ?_, by simp [hopen], hran ▸ h.ran, hran ▸ h.badges⟩
    intro next hnext
    obtain rfl := Option.some.inj (hopen.symm.trans hnext)
    exact ⟨hopened, hphase, hrunning, hordinal, by simp, by simp⟩

theorem onPromptStart (fields : List String) (nowMs : Int64) :
    Lifecycle (marks ++ [.promptStart fields]) (s.onPromptStart fields nowMs).1
      (blocks ++ (s.onPromptStart fields nowMs).2) handed := by
  obtain ⟨hclosed, hopen⟩ := h.closed (m := .promptStart fields) rfl nowMs
  unfold CommandBlockSegmenter.onPromptStart
  dsimp only
  split
  · exact (hclosed.rephased hopen .idle).recounted hopen _
  · exact hclosed.rephased hopen .idle

theorem onCommandStart (nowMs : Int64) :
    Lifecycle (marks ++ [.commandStart]) (s.onCommandStart nowMs).1 (blocks ++ (s.onCommandStart nowMs).2) handed := by
  unfold CommandBlockSegmenter.onCommandStart
  split
  · rename_i hwaiting
    have hphase : s.phase = .command := by simpa using (Bool.and_eq_true_iff.mp hwaiting).2
    have hspan : openExecution marks = none := by
      cases hspan : openExecution marks with
      | none => rfl
      | some span => exact absurd (hphase.symm.trans (h.executing span hspan).phase) (by decide)
    have hpast := h.untaken (m := .commandStart) hspan rfl
    rw [List.append_nil]
    exact hpast.sameSpan ⟨rfl, rfl⟩
  · obtain ⟨hclosed, hopen⟩ := h.closed (m := .commandStart) rfl nowMs
    exact hclosed.begun hopen

theorem onExplicitCommand (fields : List String) :
    Lifecycle (marks ++ [.explicitCommand fields]) (s.onExplicitCommand fields) blocks handed := by
  have hexplicit {t : CommandBlockSegmenter} (ht : Lifecycle marks t blocks handed) (line : Option (List UInt8)) :
      Lifecycle (marks ++ [.explicitCommand fields]) { t with openCommandExplicit := line } blocks handed := by
    have hpast := ht.passed (m := .explicitCommand fields) (by simp [Mark.startsOutput])
      (by simp [Mark.endsOutput]) (by simp)
    refine ⟨hpast.indices, hpast.ordinal, ?_, hpast.waiting, hpast.ran, hpast.badges⟩
    intro span hspan
    obtain ⟨hopened, hphase, hrunning, hordinal, hquiet, hdriven⟩ := hpast.executing span hspan
    exact ⟨hopened, hphase, hrunning, hordinal, hquiet, hdriven⟩
  cases hopen : s.hasOpenBlock with
  | false => simpa [CommandBlockSegmenter.onExplicitCommand, hopen] using hexplicit (h.begun hopen) _
  | true => simpa [CommandBlockSegmenter.onExplicitCommand, hopen] using hexplicit h _

end

/-- The badge behind a `C`: as it was, or with a start. -/
def Spins (s t : CommandBlockSegmenter) : Prop :=
  (t.syntheticSpinnerActive = s.syntheticSpinnerActive ∧ t.pendingProgress = s.pendingProgress) ∨
    (s.syntheticSpinnerActive = false ∧ s.sawRealProgressThisBlock = false ∧ t.syntheticSpinnerActive = true ∧
      t.pendingProgress = s.pendingProgress ++ [.indeterminate])

theorem Spins.pending {t : CommandBlockSegmenter} (h : Spins s t) {badges : List (List SyntheticProgress)}
    (hhanded : handed ++ s.pendingProgress = badges.flatten ++ s.spinning) :
    handed ++ t.pendingProgress = badges.flatten ++ t.spinning := by
  rcases h with ⟨hspinner, hpending⟩ | ⟨hnone, -, hspinner, hpending⟩
  · rw [hpending, hhanded, spinning, spinning, hspinner]
  · rw [hpending, ← List.append_assoc, hhanded]
    simp [spinning, hnone, hspinner]

theorem onOutputStart_open (hopen : s.hasOpenBlock = true) (nowMs : Int64) :
    ∃ t, s.onOutputStart nowMs = { t with runningSinceMs := some nowMs, phase := .output } ∧ Spins s t ∧
      t = { s with syntheticSpinnerActive := t.syntheticSpinnerActive, pendingProgress := t.pendingProgress } := by
  unfold CommandBlockSegmenter.onOutputStart
  dsimp only
  rw [if_pos hopen]
  split
  · rename_i hstarts
    simp only [Bool.and_eq_true, Bool.not_eq_true'] at hstarts
    exact ⟨{ s with syntheticSpinnerActive := true, pendingProgress := s.pendingProgress ++ [.indeterminate] }, rfl,
      .inr ⟨hstarts.1.1, hstarts.1.2, rfl, rfl⟩, rfl⟩
  · exact ⟨s, rfl, .inl ⟨rfl, rfl⟩, rfl⟩

section

variable (h : Lifecycle marks s blocks handed)
include h

theorem onOutputStart (hopen : s.hasOpenBlock = true)
    (hcycles : s.promptCycleCount = marks.countP Mark.isPrimary) (nowMs : Int64) :
    Lifecycle (marks ++ [.outputStart]) (s.onOutputStart nowMs) blocks handed := by
  obtain ⟨badges, hbadges, hhanded⟩ := h.badges
  obtain ⟨t, ht, hspins, hsame⟩ := onOutputStart_open hopen nowMs
  have hpending := Spins.pending hspins hhanded
  have hordinal := h.ordinal hopen
  rw [ht, hsame]
  cases hspan : openExecution marks with
  | none =>
    have hspinner := (h.waiting hspan).2
    have hbegun : openExecution (marks ++ [.outputStart]) = some ⟨marks, []⟩ := openSpan_opens hspan rfl
    have hran : executions (marks ++ [.outputStart]) = executions marks := spans_idle hspan _
    refine ⟨h.indices, h.ordinal, ?_, by simp [hbegun], hran ▸ h.ran, badges, hran ▸ hbadges, hpending⟩
    intro span hnext
    obtain rfl := Option.some.inj (hbegun.symm.trans hnext)
    refine ⟨hopen, rfl, rfl, hordinal.trans hcycles, by simp, ?_⟩
    intro hup hsaw
    rcases hspins with ⟨hkept, -⟩ | ⟨-, hunseen, -⟩
    · exact absurd (hup.symm.trans (hkept.trans hspinner)) (by simp)
    · exact absurd (hunseen.symm.trans hsaw) (by simp)
  | some span =>
    have hgoes : openExecution (marks ++ [.outputStart]) = some ⟨span.before, span.inside ++ [.outputStart]⟩ :=
      openSpan_goesOn hspan (by decide)
    have hran : executions (marks ++ [.outputStart]) = executions marks := spans_goesOn hspan (by decide)
    obtain ⟨-, -, -, hordinal, hquiet, hdriven⟩ := h.executing span hspan
    refine ⟨h.indices, h.ordinal, ?_, by simp [hgoes], hran ▸ h.ran, badges, hran ▸ hbadges, hpending⟩
    intro next hnext
    obtain rfl := Option.some.inj (hgoes.symm.trans hnext)
    refine ⟨hopen, rfl, rfl, hordinal, fun hsaw => by simpa using hquiet hsaw, ?_⟩
    intro hup hsaw
    rcases hspins with ⟨hkept, -⟩ | ⟨-, hunseen, -⟩
    · exact List.mem_append_left _ (hdriven (hkept.symm.trans hup) hsaw)
    · exact absurd (hunseen.symm.trans hsaw) (by simp)

theorem onCommandFinished (fields : List String) (nowMs : Int64) :
    Lifecycle (marks ++ [.commandFinished fields]) (s.onCommandFinished fields nowMs).1
      (blocks ++ (s.onCommandFinished fields nowMs).2) handed := by
  unfold CommandBlockSegmenter.onCommandFinished
  cases hspan : openExecution marks with
  | none =>
    obtain ⟨hphase, -⟩ := h.waiting hspan
    have hpast := h.untaken (m := .commandFinished fields) hspan rfl
    cases hopen : s.hasOpenBlock with
    | false => simpa [hopen] using hpast.rephased hopen .idle
    | true =>
      have hdiscarded := (h.discarded hspan).untaken (m := .commandFinished fields) hspan rfl
      simpa [hphase hopen] using hdiscarded.rephased rfl .idle
  | some span =>
    obtain ⟨hopened, hphase, hrunning, -⟩ := h.executing span hspan
    obtain ⟨htaken, hopen⟩ := h.taken (m := .commandFinished fields) hspan rfl true (parseExit fields)
      (d := s.runningSinceMs.map (Superd.durationMs · nowMs)) (by simpa using hrunning)
    have hsame : ({ s with runningSinceMs := none } : CommandBlockSegmenter).takeOpenBlock true (parseExit fields)
        (s.runningSinceMs.map (Superd.durationMs · nowMs)) =
        s.takeOpenBlock true (parseExit fields) (s.runningSinceMs.map (Superd.durationMs · nowMs)) := by
      simp [takeOpenBlock, hopened, currentCommandBytes]
    have hexecuting : (s.hasOpenBlock && s.phase = .output) = true := by simp [hopened, hphase]
    rw [if_pos hexecuting]
    dsimp only
    rw [hsame]
    exact htaken.rephased hopen .idle

theorem onMark (hcycles : s.promptCycleCount = marks.countP Mark.isPrimary) (nowMs : Int64) (m : Mark) :
    Lifecycle (marks ++ [m]) (s.onMark nowMs m).1 (blocks ++ (s.onMark nowMs m).2) handed := by
  cases m with
  | progress => simpa [CommandBlockSegmenter.onMark] using h.onProgress
  | promptStart fields => exact h.onPromptStart fields nowMs
  | commandStart => exact h.onCommandStart nowMs
  | explicitCommand fields => simpa [CommandBlockSegmenter.onMark] using h.onExplicitCommand fields
  | outputStart =>
    cases hopen : s.hasOpenBlock with
    | true => simpa [CommandBlockSegmenter.onMark] using h.onOutputStart hopen hcycles nowMs
    | false =>
      -- `C` with no block opens one, as `B` would have
      have hbegun := (h.begun hopen).onOutputStart rfl hcycles nowMs
      have hsame : s.onOutputStart nowMs =
          ({ s.startOpenBlock with phase := .command } : CommandBlockSegmenter).onOutputStart nowMs := by
        simp [CommandBlockSegmenter.onOutputStart, hopen, startOpenBlock, currentCommandBytes]
      simpa [CommandBlockSegmenter.onMark, hsame] using hbegun
  | commandFinished fields => exact h.onCommandFinished fields nowMs

end

end Lifecycle

/-! ## §3 A reading -/

theorem onMark_promptCycleCount (s : CommandBlockSegmenter) (nowMs : Int64) (m : Mark) :
    (s.onMark nowMs m).1.promptCycleCount = s.promptCycleCount + if m.isPrimary then 1 else 0 := by
  have htake (s : CommandBlockSegmenter) (complete : Bool) (exitCode : Option Int32) (durationMs : Option UInt32) :
      (s.takeOpenBlock complete exitCode durationMs).1.promptCycleCount = s.promptCycleCount := by
    unfold takeOpenBlock
    split <;> rfl
  have hclose : (s.closeOrDiscardOpen nowMs).1.promptCycleCount = s.promptCycleCount := by
    unfold closeOrDiscardOpen
    split
    · split
      · exact htake _ _ _ _
      · rfl
    · rfl
  cases m with
  | progress => rfl
  | promptStart fields =>
    simp only [onMark, onPromptStart, Mark.isPrimary]
    split
    · rename_i hprimary
      simp [hclose, hprimary]
    · rename_i hprimary
      simp [hclose, hprimary]
  | commandStart =>
    simp only [onMark, onCommandStart]
    split
    · rfl
    · exact hclose
  | explicitCommand fields =>
    simp only [onMark, onExplicitCommand]
    split <;> rfl
  | outputStart =>
    simp only [onMark, onOutputStart]
    split <;> split <;> rfl
  | commandFinished fields =>
    simp only [onMark, onCommandFinished]
    split
    · exact htake { s with runningSinceMs := none } _ _ _
    · split <;> rfl

/-- The lifecycle behind the marks the segmenter has met. -/
structure Alive (s : CommandBlockSegmenter) (blocks : List CommandBlock) (handed : List SyntheticProgress) : Prop where
  cycles : s.promptCycleCount = s.marks.countP Mark.isPrimary
  lifecycle : Lifecycle s.marks s blocks handed

namespace Alive

theorem new (outputCap : Nat) (autoProgressPrefixes : List String) :
    Alive (.new outputCap autoProgressPrefixes) [] [] := by
  refine ⟨rfl, rfl, by simp [CommandBlockSegmenter.new], ?_, ?_, .nil, [], .nil, rfl⟩
  · simp [openExecution, marks, CommandBlockSegmenter.new]
  · simp [CommandBlockSegmenter.new]

section

variable (h : Alive s blocks handed)
include h

theorem sameSpan {t : CommandBlockSegmenter} (hsame : SameSpan s t) : Alive t blocks handed := by
  refine ⟨?_, hsame.marks ▸ h.lifecycle.sameSpan hsame⟩
  rw [hsame.marks, ← h.cycles, hsame.rest]

theorem finishOsc (nowMs : Int64) :
    Alive (s.finishOsc nowMs).1 (blocks ++ (s.finishOsc nowMs).2) handed := by
  have hmarks : (s.finishOsc nowMs).1.marks = s.marks ++ (markOf s.oscBuffer).toList := by
    have hfinished : (s.finishOsc nowMs).1.finished = s.finished ++ [s.oscBuffer] :=
      (Prod.mk.inj (record_finishOsc nowMs s)).2
    rw [marks, hfinished, List.filterMap_append, marks]
    cases hmark : markOf s.oscBuffer <;> simp [hmark]
  have htaken : Lifecycle s.marks s.taken blocks handed := by
    obtain ⟨hindices, hordinal, hexecuting, hwaiting, hran, hbadges⟩ := h.lifecycle
    refine ⟨hindices, hordinal, ?_, hwaiting, hran, hbadges⟩
    intro span hspan
    obtain ⟨hopened, hphase, hrunning, hordinal, hquiet, hdriven⟩ := hexecuting span hspan
    exact ⟨hopened, hphase, hrunning, hordinal, hquiet, hdriven⟩
  rw [finishOsc_eq] at hmarks ⊢
  cases hmark : markOf s.oscBuffer with
  | none =>
    simp only [hmark, Option.map_none, Option.getD_none, Option.toList_none, List.append_nil] at hmarks ⊢
    exact ⟨by rw [hmarks]; exact h.cycles, hmarks ▸ htaken⟩
  | some m =>
    simp only [hmark, Option.map_some, Option.getD_some, Option.toList_some] at hmarks ⊢
    refine ⟨?_, hmarks ▸ htaken.onMark h.cycles nowMs m⟩
    rw [hmarks, onMark_promptCycleCount, List.countP_append, List.countP_singleton, ← h.cycles]
    rfl

theorem step (nowMs : Int64) (byte : UInt8) :
    Alive (s.step nowMs byte).1 (blocks ++ (s.step nowMs byte).2) handed := by
  rcases step_marks nowMs s byte with ⟨hsame, hnone⟩ | ⟨hsame, hblocks⟩
  · rw [hnone, List.append_nil]
    exact h.sameSpan hsame
  · rw [hblocks]
    exact (h.finishOsc nowMs).sameSpan hsame

theorem ingest (nowMs : Int64) (bytes : List UInt8) :
    Alive (s.ingest nowMs bytes).1 (blocks ++ (s.ingest nowMs bytes).2) handed := by
  rw [ingest_eq_feed]
  exact feed_history (fun s blocks => Alive s blocks handed) (fun _ _ byte h => h.step nowMs byte) h bytes

theorem drainAutoProgress : Alive s.drainAutoProgress.1 blocks (handed ++ s.drainAutoProgress.2) := by
  obtain ⟨hcycles, hindices, hordinal, hexecuting, hwaiting, hran, badges, hbadges, hhanded⟩ := h
  refine ⟨hcycles, hindices, hordinal, ?_, hwaiting, hran, badges, hbadges, ?_⟩
  · intro span hspan
    obtain ⟨hopened, hphase, hrunning, hordinal, hquiet, hdriven⟩ := hexecuting span hspan
    exact ⟨hopened, hphase, hrunning, hordinal, hquiet, hdriven⟩
  · simp only [CommandBlockSegmenter.drainAutoProgress, List.append_nil]
    exact hhanded

end

end Alive

/-- What the owner of a segmenter calls. -/
inductive Call where
  | ingest (nowMs : Int64) (bytes : List UInt8)
  | drainAutoProgress

/-- A call, with the blocks it closed or the progress it handed out. -/
def serve (s : CommandBlockSegmenter) : Call → CommandBlockSegmenter × List (CommandBlock ⊕ SyntheticProgress)
  | .ingest nowMs bytes =>
    let (s, completed) := s.ingest nowMs bytes
    (s, completed.map .inl)
  | .drainAutoProgress =>
    let (s, progress) := s.drainAutoProgress
    (s, progress.map .inr)

theorem alive_serve (outputCap : Nat) (autoProgressPrefixes : List String) (calls : List Call) :
    let read := feed serve (.new outputCap autoProgressPrefixes) calls
    Alive read.1 (read.2.filterMap Sum.getLeft?) (read.2.filterMap Sum.getRight?) := by
  let P (s : CommandBlockSegmenter) (told : List (CommandBlock ⊕ SyntheticProgress)) : Prop :=
    Alive s (told.filterMap Sum.getLeft?) (told.filterMap Sum.getRight?)
  have hstep (s : CommandBlockSegmenter) (told : List (CommandBlock ⊕ SyntheticProgress)) (call : Call) (h : P s told) :
      P (s.serve call).1 (told ++ (s.serve call).2) := by
    cases call with
    | ingest nowMs bytes => simpa [P, serve, Function.comp_def] using h.ingest nowMs bytes
    | drainAutoProgress => simpa [P, serve, Function.comp_def] using h.drainAutoProgress
  have hnew : P (.new outputCap autoProgressPrefixes) [] := Alive.new outputCap autoProgressPrefixes
  exact feed_history P hstep hnew calls

/-- What a reading has told of the executions its marks hold. -/
structure Told (s : CommandBlockSegmenter) (blocks : List CommandBlock) (progress : List SyntheticProgress) : Prop where
  indices : blocks.map (·.index) = List.range blocks.length
  /-- A block and a badge for each execution, in order, and what has gone
  to the badge for the one under way. -/
  each : ∃ spans badges spinning,
    spans.Pairwise (fun span next => span.ended ≤ next.before.length) ∧
    (∀ span, span ∈ spans ↔ IsSpan Mark.startsOutput Mark.endsOutput s.marks span) ∧
    List.Forall₂ Ran spans blocks ∧ List.Forall₂ Badge spans badges ∧
    progress = badges.flatten ++ spinning ∧
    (spinning = [] ∨ (spinning = [.indeterminate] ∧ s.peekOpenBlock.isSome)) ∧
    ∀ span, IsOpen Mark.startsOutput Mark.endsOutput s.marks span →
      ∃ cleared, s.finish.1.pendingProgress = s.pendingProgress ++ cleared ∧ Badge span (spinning ++ cleared)
  peeked : s.peekOpenBlock.isSome ↔ ∃ span, IsOpen Mark.startsOutput Mark.endsOutput s.marks span
  named : ∀ block ∈ s.peekOpenBlock, block.index = blocks.length
  /-- `finish` gives the block that is executing, without its end. -/
  flushed : ∀ open' ∈ s.peekOpenBlock, s.finish.2 = [open']

theorem peekOpenBlock_isSome_iff (h : Lifecycle marks s blocks handed) :
    s.peekOpenBlock.isSome ↔ ∃ span, openExecution marks = some span := by
  unfold peekOpenBlock
  cases hspan : openExecution marks with
  | none =>
    obtain ⟨hphase, -⟩ := h.waiting hspan
    cases hopen : s.hasOpenBlock with
    | false => simp
    | true => simp [hphase hopen]
  | some span =>
    obtain ⟨hopened, hphase, -⟩ := h.executing span hspan
    simp [hopened, hphase]

/-- A block is told for every execution, and for nothing else. -/
theorem executions_told (outputCap : Nat) (autoProgressPrefixes : List String) (calls : List Call) :
    let read := feed serve (.new outputCap autoProgressPrefixes) calls
    Told read.1 (read.2.filterMap Sum.getLeft?) (read.2.filterMap Sum.getRight? ++ read.1.pendingProgress) := by
  intro read
  obtain ⟨-, hlifecycle⟩ := alive_serve outputCap autoProgressPrefixes calls
  generalize read.1 = s at hlifecycle ⊢
  generalize read.2.filterMap Sum.getLeft? = blocks at hlifecycle ⊢
  have hpeek := peekOpenBlock_isSome_iff hlifecycle
  have hfound := openSpan_iff Mark.startsOutput_not_endsOutput s.marks
  have hcount : s.nextIndex = blocks.length := by
    have hlength := congrArg List.length hlifecycle.indices
    simpa using hlength.symm
  have hblock (block : CommandBlock) (hblock : block ∈ s.peekOpenBlock) :
      s.hasOpenBlock = true ∧ block.index = blocks.length ∧ s.finish.2 = [block] := by
    unfold peekOpenBlock at hblock
    split at hblock
    · exact absurd hblock (by simp)
    · rename_i hexecuting
      simp only [Bool.or_eq_true, Bool.not_eq_true', decide_eq_true_eq, not_or, Bool.not_eq_false] at hexecuting
      obtain rfl := Option.some.inj hblock
      exact ⟨hexecuting.1, hcount, by simp [finish, takeOpenBlock, hexecuting.1]⟩
  obtain ⟨badges, hbadges, hhanded⟩ := hlifecycle.badges
  refine ⟨hcount ▸ hlifecycle.indices, ?_, ?_, fun block h => (hblock block h).2.1, fun block h => (hblock block h).2.2⟩
  · refine ⟨executions s.marks, badges, s.spinning, (spans_ordered s.marks).1,
      mem_spans_iff Mark.startsOutput_not_endsOutput s.marks, hlifecycle.ran, hbadges, hhanded, ?_, ?_⟩
    · cases hspinner : s.syntheticSpinnerActive with
      | false => simp [spinning, hspinner]
      | true =>
        refine .inr ⟨by simp [spinning, hspinner], hpeek.mpr ?_⟩
        cases hspan : openExecution s.marks with
        | none => exact absurd ((hlifecycle.waiting hspan).2.symm.trans hspinner) (by decide)
        | some span => exact ⟨span, rfl⟩
    · intro span hspan
      exact hlifecycle.cleared ((hfound.2 span).mpr hspan)
  · rw [hpeek]
    exact exists_congr fun span => hfound.2 span

/-- `ESC ] 133 ; C BEL`. -/
def outputStartBytes : List UInt8 := [esc, rightBracket, 0x31, 0x33, 0x33, semicolon, 0x43, bel]

/-- `ESC ] 133 ; B BEL`. -/
def commandStartBytes : List UInt8 := [esc, rightBracket, 0x31, 0x33, 0x33, semicolon, 0x42, bel]

/-- A stream in hand that ends inside a command: its block has no duration.
One that ends at a prompt, where nothing ran, has a block as well. -/
theorem segment_untold :
    (segment outputStartBytes 0 0).map (·.durationMs) = [none] ∧ (segment commandStartBytes 0 0).length = 1 := by
  decide +kernel

end CommandBlockSegmenter

end SlopDesk.Superd
