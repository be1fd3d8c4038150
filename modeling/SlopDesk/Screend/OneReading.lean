/-
SlopDesk.Screend.OneReading — where the three readers of a stream agree.

The model is the one that knows most: `Aligned` says, for each of its states,
where the other two are. It is kept by every byte but three (`Regular`), and
from it the readers agree about strings, and about control sequences as long
as nothing stands in one that is no part of it (`Clean`).
-/
import SlopDesk.Screend.Readers

namespace SlopDesk.Screend

open SlopDesk.Base

/-- The readers of one stream. -/
structure Readers where
  model : ModelParser := {}
  osc : OscTracker := {}
  sync : SyncFrameTracker := {}

def Readers.step (r : Readers) (byte : UInt8) : Readers :=
  ⟨(r.model.consume byte).1, r.osc.step byte, r.sync.step byte⟩

/-! ## §1 What each reader says of the stream -/

/-- The string body a reader is inside of: whether BEL ends it. -/
def ModelParser.string (m : ModelParser) : Option Bool :=
  match m.state with
  | .stringBody belTerminates _ => some belTerminates
  | _ => none

def OscTracker.string (o : OscTracker) : Option Bool :=
  match o.state with
  | .ground | .escape => none
  | .ignoringString | .ignoringStringEscape => some false
  | .body | .bodyEscape | .discarding | .discardingEscape => some true

def SyncFrameTracker.string (s : SyncFrameTracker) : Option Bool :=
  match s.state with
  | .str | .strEscape => some s.stringIsOsc
  | _ => none

/-- One reading of strings, and no sequence that is text to the model. -/
structure Agree (r : Readers) : Prop where
  osc : r.osc.string = r.model.string
  sync : r.sync.string = r.model.string
  sequence : r.sync.state = .csi → r.model.state = .csi
  ground : r.model.state = .ground → r.osc.state = .ground ∧ r.sync.state = .ground

/-- One reading of control sequences. -/
def SameSequence (r : Readers) : Prop := r.sync.state = .csi ↔ r.model.state = .csi

/-- What a reader counts at `byte` the model does not take for text: a title
or a progress report ends an OSC body of the model, a frame begins or ends at
the last byte of a control sequence of the model or at a full reset. -/
structure Counted (r : Readers) (byte : UInt8) : Prop where
  osc : (r.osc.step byte).title ≠ r.osc.title ∨ (r.osc.step byte).progress ≠ r.osc.progress →
    r.model.string = some true ∧ (r.model.consume byte).1.state = .ground
  sync : (r.sync.step byte).frameOpen ≠ r.sync.frameOpen ∨ (r.sync.step byte).generation ≠ r.sync.generation →
    (r.model.state = .csi ∨ .fullReset ∈ (r.model.consume byte).2) ∧ (r.model.consume byte).1.state = .ground

/-- Where the readers part: a second `ESC` in a string, a `BEL` behind an
`ESC` in an OSC body, an `ESC` behind an intermediate. -/
structure Regular (r : Readers) (byte : UInt8) : Prop where
  string : ∀ belTerminates, r.model.state = .stringBody belTerminates true → byte ≠ 0x1B
  bel : r.osc.state = .bodyEscape → byte ≠ 0x07
  intermediate : ∀ intermediate, r.model.state = .escapeIntermediate intermediate → byte ≠ 0x1B

/-- Inside a control sequence, a byte that belongs to one. -/
def Clean (r : Readers) (byte : UInt8) : Prop :=
  r.model.state = .csi → byte = 0x1B ∨ 0x20 ≤ byte ∧ byte ≤ 0x7E

/-! ## §2 The relation between the readers -/

/-- The tracker is inside a body of this kind, and not behind an `ESC`. -/
def OscTracker.Inside (o : OscTracker) (bel : Bool) : Prop :=
  if bel then o.state = .body ∨ o.state = .discarding else o.state = .ignoringString

def OscTracker.BehindEscape (o : OscTracker) (bel : Bool) : Prop :=
  if bel then o.state = .bodyEscape ∨ o.state = .discardingEscape else o.state = .ignoringStringEscape

inductive Aligned (r : Readers) : Prop where
  | ground (hm : r.model.state = .ground) (ho : r.osc.state = .ground) (hs : r.sync.state = .ground)
  | escape (hm : r.model.state = .escape) (ho : r.osc.state = .escape) (hs : r.sync.state = .escape)
  | intermediate (i : UInt8) (hm : r.model.state = .escapeIntermediate i) (ho : r.osc.state = .ground)
    (hs : r.sync.state = .ground)
  | csi (hm : r.model.state = .csi) (ho : r.osc.state = .ground)
    (hs : r.sync.state = .csi ∨ r.sync.state = .ground)
  | string (bel : Bool) (hm : r.model.state = .stringBody bel false) (ho : r.osc.Inside bel)
    (hs : r.sync.state = .str) (hkind : r.sync.stringIsOsc = bel)
  | stringEscape (bel : Bool) (hm : r.model.state = .stringBody bel true) (ho : r.osc.BehindEscape bel)
    (hs : r.sync.state = .strEscape) (hkind : r.sync.stringIsOsc = bel)

theorem Aligned.agree {r : Readers} (h : Aligned r) : Agree r := by
  cases h with
  | ground hm ho hs =>
    exact ⟨by simp [ModelParser.string, OscTracker.string, hm, ho],
      by simp [ModelParser.string, SyncFrameTracker.string, hm, hs], by simp [hs], fun _ => ⟨ho, hs⟩⟩
  | escape hm ho hs =>
    exact ⟨by simp [ModelParser.string, OscTracker.string, hm, ho],
      by simp [ModelParser.string, SyncFrameTracker.string, hm, hs], by simp [hs], by simp [hm]⟩
  | intermediate i hm ho hs =>
    exact ⟨by simp [ModelParser.string, OscTracker.string, hm, ho],
      by simp [ModelParser.string, SyncFrameTracker.string, hm, hs], by simp [hs], by simp [hm]⟩
  | csi hm ho hs =>
    refine ⟨by simp [ModelParser.string, OscTracker.string, hm, ho], ?_, fun _ => hm, by simp [hm]⟩
    rcases hs with hs | hs <;> simp [ModelParser.string, SyncFrameTracker.string, hm, hs]
  | string bel hm ho hs hkind =>
    refine ⟨?_, by simp [ModelParser.string, SyncFrameTracker.string, hm, hs, hkind], by simp [hs], by simp [hm]⟩
    cases bel with
    | false =>
      have hosc : r.osc.state = .ignoringString := ho
      simp [ModelParser.string, OscTracker.string, hm, hosc]
    | true =>
      have hosc : r.osc.state = .body ∨ r.osc.state = .discarding := ho
      rcases hosc with hosc | hosc <;> simp [ModelParser.string, OscTracker.string, hm, hosc]
  | stringEscape bel hm ho hs hkind =>
    refine ⟨?_, by simp [ModelParser.string, SyncFrameTracker.string, hm, hs, hkind], by simp [hs], by simp [hm]⟩
    cases bel with
    | false =>
      have hosc : r.osc.state = .ignoringStringEscape := ho
      simp [ModelParser.string, OscTracker.string, hm, hosc]
    | true =>
      have hosc : r.osc.state = .bodyEscape ∨ r.osc.state = .discardingEscape := ho
      rcases hosc with hosc | hosc <;> simp [ModelParser.string, OscTracker.string, hm, hosc]

/-! ## §3 One byte -/

variable {r : Readers} {byte : UInt8}
variable {bel : Bool} {o : OscTracker}
variable (m : ModelParser)

/-! ### The model -/

theorem groundByte_state (hm : m.state = .ground) (byte : UInt8) :
    (m.groundByte byte).1.state = if byte = 0x1B then .escape else .ground := by
  rw [ModelParser.groundByte]
  by_cases hescape : byte = 0x1B
  · rw [if_pos hescape, if_pos hescape]
  · rw [if_neg hescape, if_neg hescape]
    simp only [apply_ite Prod.fst, apply_ite ModelParser.state, hm, ite_self]

theorem consume_ground (hm : m.state = .ground) (byte : UInt8) :
    (m.consume byte).1.state = if byte = 0x1B then .escape else .ground := by
  rw [ModelParser.consume, hm]
  dsimp only
  rw [ModelParser.consumeGround]
  by_cases hexpected : 0 < m.utf8Expected
  · rw [if_pos hexpected]
    by_cases hgoes : byte &&& 0xC0 = 0x80
    · have hne : byte ≠ 0x1B := by
        rintro rfl
        exact absurd hgoes (by decide)
      rw [if_pos hgoes, if_neg hne]
      dsimp only
      split <;> exact hm
    · rw [if_neg hgoes]
      exact groundByte_state { m with utf8Pending := [], utf8Expected := 0 } hm byte
  · rw [if_neg hexpected, groundByte_state m hm]

theorem pushParam_state (param : Int) : (m.pushParam param).state = m.state := by
  rw [ModelParser.pushParam]
  split <;> rfl

theorem consume_csi (hm : m.state = .csi) (byte : UInt8) : (m.consume byte).1.state =
      if byte = 0x1B then .escape else if 0x40 ≤ byte ∧ byte ≤ 0x7E then .ground else .csi := by
  rw [ModelParser.consume, hm]
  dsimp only
  rw [ModelParser.consumeCsi]
  by_cases hescape : byte = 0x1B
  · subst hescape
    simp
  · rw [if_neg hescape]
    by_cases hfinal : 0x40 ≤ byte ∧ byte ≤ 0x7E
    · rw [if_pos hfinal]
      have hlow : ¬ byte ≤ 0x39 ∧ ¬ byte ≤ 0x2F := by
        constructor <;> intro hle <;> exact absurd (UInt8.le_trans hfinal.1 hle) (by decide)
      have hother : byte ∉ ([0x3F, 0x3E, 0x3C, 0x3D] : List UInt8) ∧ byte ≠ 0x3B ∧ byte ≠ 0x3A := by
        refine ⟨?_, ?_, ?_⟩
        · simp only [List.mem_cons, List.not_mem_nil, or_false, not_or]
          refine ⟨?_, ?_, ?_, ?_⟩ <;> rintro rfl <;> exact absurd hfinal.1 (by decide)
        · rintro rfl
          exact absurd hfinal.1 (by decide)
        · rintro rfl
          exact absurd hfinal.1 (by decide)
      simp [hlow, hother, hfinal, hescape]
    · rw [if_neg hfinal]
      rw [if_neg hfinal, if_neg hescape]
      simp only [apply_ite Prod.fst, apply_ite ModelParser.state, pushParam_state, hm, ite_self]

theorem consume_escape (hm : m.state = .escape) (byte : UInt8) : (m.consume byte).1.state =
      if byte = 0x5B then .csi
      else if byte = 0x5D then .stringBody true false
      else if introducesString byte then .stringBody false false
      else if byte ∈ [0x28, 0x29, 0x23, 0x2A, 0x2B, 0x25] then .escapeIntermediate byte
      else if byte = 0x1B then .escape
      else .ground := by
  rw [ModelParser.consume, hm]
  dsimp only
  rw [ModelParser.consumeEscape]
  by_cases hescape : byte = 0x1B
  · subst hescape
    rfl
  · simp only [apply_ite Prod.fst, apply_ite ModelParser.state, if_neg hescape, ite_self]

theorem consume_string (hm : m.state = .stringBody bel false) (byte : UInt8) : (m.consume byte).1.state =
      if byte = 0x1B then .stringBody bel true
      else if bel = true ∧ byte = 0x07 then .ground
      else .stringBody bel false := by
  rw [ModelParser.consume, hm]
  simp [ModelParser.consumeStringBody, ModelParser.finishStringBody, apply_ite Prod.fst,
    apply_ite ModelParser.state, hm]

theorem consume_stringEscape (hm : m.state = .stringBody bel true) (byte : UInt8) :
    (m.consume byte).1.state = if byte = 0x5C then .ground else .stringBody bel false := by
  rw [ModelParser.consume, hm]
  simp [ModelParser.consumeStringBody, ModelParser.finishStringBody, apply_ite Prod.fst,
    apply_ite ModelParser.state]

/-! ### The trackers -/

theorem finish_state (o : OscTracker) : o.finish.state = .ground := by
  simp [OscTracker.finish, apply_ite OscTracker.state]

theorem push_state (o : OscTracker) (byte : UInt8) : (o.push byte).Inside true := by
  rw [OscTracker.push]
  split
  · exact .inr rfl
  · exact .inl rfl

theorem stepBodyEscape_state (o : OscTracker) {byte : UInt8} (hclose : byte ≠ 0x5C) (hbel : byte ≠ 0x07)
    (hescape : byte ≠ 0x1B) : (o.stepBodyEscape byte).Inside true := by
  rw [OscTracker.stepBodyEscape, if_neg hclose]
  dsimp only
  rw [if_neg hbel, if_neg hescape]
  split
  · exact push_state _ byte
  · exact push_state o 0x1B

theorem inside_step (ho : o.Inside bel) (byte : UInt8) :
    if byte = 0x1B then (o.step byte).BehindEscape bel
    else if bel = true ∧ byte = 0x07 then (o.step byte).state = .ground
    else (o.step byte).Inside bel := by
  cases bel with
  | false =>
    have hstate : o.state = .ignoringString := ho
    by_cases hescape : byte = 0x1B
    · simp [OscTracker.step, hstate, hescape, OscTracker.BehindEscape]
    · simp [OscTracker.step, hstate, hescape, OscTracker.Inside]
  | true =>
    have hstate : o.state = .body ∨ o.state = .discarding := ho
    by_cases hescape : byte = 0x1B
    · rcases hstate with hstate | hstate <;> simp [OscTracker.step, hstate, hescape, OscTracker.BehindEscape]
    by_cases hbel : byte = 0x07
    · rcases hstate with hstate | hstate <;> simp [OscTracker.step, hstate, hbel, finish_state]
    rcases hstate with hstate | hstate
    · simp [OscTracker.step, hstate, hbel, hescape, push_state]
    · simp [OscTracker.step, hstate, hbel, hescape, OscTracker.Inside]

theorem behindEscape_step (ho : o.BehindEscape bel) {byte : UInt8}
    (hescape : byte ≠ 0x1B) (hbel : o.state = .bodyEscape → byte ≠ 0x07) :
    if byte = 0x5C then (o.step byte).state = .ground else (o.step byte).Inside bel := by
  cases bel with
  | false =>
    have hstate : o.state = .ignoringStringEscape := ho
    by_cases hclose : byte = 0x5C
    · simp [OscTracker.step, hstate, hclose]
    · simp [OscTracker.step, hstate, hclose, hescape, OscTracker.Inside]
  | true =>
    have hstate : o.state = .bodyEscape ∨ o.state = .discardingEscape := ho
    by_cases hclose : byte = 0x5C
    · rcases hstate with hstate | hstate <;>
        simp [OscTracker.step, OscTracker.stepBodyEscape, hstate, hclose, finish_state]
    rcases hstate with hstate | hstate
    · simp [OscTracker.step, hstate, hclose, stepBodyEscape_state o hclose (hbel hstate) hescape]
    · simp [OscTracker.step, hstate, hclose, hescape, OscTracker.Inside]

/-! ### The readers together -/

theorem Aligned.step_ground (hm : r.model.state = .ground) (ho : r.osc.state = .ground)
    (hs : r.sync.state = .ground) : Aligned (r.step byte) := by
  have hmodel := consume_ground r.model hm byte
  by_cases hescape : byte = 0x1B
  · rw [if_pos hescape] at hmodel
    refine .escape hmodel ?_ ?_
    · simp [Readers.step, OscTracker.step, ho, hescape]
    · simp [Readers.step, SyncFrameTracker.step, hs, hescape]
  · rw [if_neg hescape] at hmodel
    refine .ground hmodel ?_ ?_
    · simp [Readers.step, OscTracker.step, ho, hescape]
    · simp [Readers.step, SyncFrameTracker.step, hs, hescape]

theorem Aligned.step_escape (hm : r.model.state = .escape) (ho : r.osc.state = .escape)
    (hs : r.sync.state = .escape) : Aligned (r.step byte) := by
  have hmodel := consume_escape r.model hm byte
  by_cases hcsi : byte = 0x5B
  · subst hcsi
    refine .csi hmodel ?_ (.inl ?_)
    · simp [Readers.step, OscTracker.step, ho, introducesString]
    · simp [Readers.step, SyncFrameTracker.step, hs]
  by_cases hosc : byte = 0x5D
  · subst hosc
    refine .string true hmodel (.inl ?_) ?_ ?_
    · simp [Readers.step, OscTracker.step, ho]
    · simp [Readers.step, SyncFrameTracker.step, hs]
    · simp [Readers.step, SyncFrameTracker.step, hs]
  by_cases hescape : byte = 0x1B
  · subst hescape
    refine .escape hmodel ?_ ?_
    · simp [Readers.step, OscTracker.step, ho]
    · simp [Readers.step, SyncFrameTracker.step, hs, introducesString]
  rw [if_neg hcsi, if_neg hosc] at hmodel
  by_cases hstring : introducesString byte = true
  · rw [if_pos hstring] at hmodel
    refine .string false hmodel ?_ ?_ ?_
    · simp [Readers.step, OscTracker.step, ho, hosc, hescape, hstring, OscTracker.Inside]
    · simp [Readers.step, SyncFrameTracker.step, hs, hcsi, hosc, hstring]
    · simp [Readers.step, SyncFrameTracker.step, hs, hcsi, hosc, hstring]
  have hosc' : (r.step byte).osc.state = .ground := by
    simp [Readers.step, OscTracker.step, ho, hosc, hescape, hstring]
  have hsync : (r.step byte).sync.state = .ground := by
    simp [Readers.step, SyncFrameTracker.step, hs, hcsi, hosc, hstring, hescape,
      apply_ite SyncFrameTracker.state]
  rw [if_neg hstring, if_neg hescape] at hmodel
  by_cases hinter : byte ∈ [0x28, 0x29, 0x23, 0x2A, 0x2B, 0x25]
  · rw [if_pos hinter] at hmodel
    exact .intermediate byte hmodel hosc' hsync
  · rw [if_neg hinter] at hmodel
    exact .ground hmodel hosc' hsync

theorem stepCsi_state (s : SyncFrameTracker) (hs : s.state = .csi) (byte : UInt8) : (s.step byte).state =
      if byte = 0x1B then .escape else if 0x20 ≤ byte ∧ byte ≤ 0x3F then .csi else .ground := by
  rw [SyncFrameTracker.step, hs]
  dsimp only
  rw [SyncFrameTracker.stepCsi]
  by_cases hescape : byte = 0x1B
  · subst hescape
    rfl
  · simp only [apply_ite SyncFrameTracker.state, hs, ite_self, if_neg hescape]

theorem Aligned.step_csi (hm : r.model.state = .csi) (ho : r.osc.state = .ground)
    (hs : r.sync.state = .csi ∨ r.sync.state = .ground) : Aligned (r.step byte) := by
  have hmodel := consume_csi r.model hm byte
  by_cases hescape : byte = 0x1B
  · rw [if_pos hescape] at hmodel
    refine .escape hmodel ?_ ?_
    · simp [Readers.step, OscTracker.step, ho, hescape]
    · rcases hs with hs | hs
      · exact (stepCsi_state r.sync hs byte).trans (if_pos hescape)
      · simp [Readers.step, SyncFrameTracker.step, hs, hescape]
  have hosc : (r.step byte).osc.state = .ground := by simp [Readers.step, OscTracker.step, ho, hescape]
  rw [if_neg hescape] at hmodel
  have hsync : (r.step byte).sync.state = .csi ∧ byte ≤ 0x3F ∨ (r.step byte).sync.state = .ground := by
    rcases hs with hs | hs
    · have hstep := stepCsi_state r.sync hs byte
      rw [if_neg hescape] at hstep
      by_cases hpart : 0x20 ≤ byte ∧ byte ≤ 0x3F
      · rw [if_pos hpart] at hstep
        exact .inl ⟨hstep, hpart.2⟩
      · rw [if_neg hpart] at hstep
        exact .inr hstep
    · exact .inr (by simp [Readers.step, SyncFrameTracker.step, hs, hescape])
  by_cases hfinal : 0x40 ≤ byte ∧ byte ≤ 0x7E
  · rw [if_pos hfinal] at hmodel
    rcases hsync with ⟨_, hle⟩ | hsync
    · exact absurd (UInt8.le_trans hfinal.1 hle) (by decide)
    · exact .ground hmodel hosc hsync
  · rw [if_neg hfinal] at hmodel
    exact .csi hmodel hosc (hsync.imp And.left id)

theorem Aligned.step_string (hm : r.model.state = .stringBody bel false) (ho : r.osc.Inside bel)
    (hs : r.sync.state = .str) (hkind : r.sync.stringIsOsc = bel) : Aligned (r.step byte) := by
  have hmodel := consume_string r.model hm byte
  have hosc := inside_step ho byte
  by_cases hescape : byte = 0x1B
  · rw [if_pos hescape] at hmodel hosc
    refine .stringEscape bel hmodel hosc ?_ ?_
    · simp [Readers.step, SyncFrameTracker.step, hs, hescape]
    · simp [Readers.step, SyncFrameTracker.step, hs, hescape, hkind]
  rw [if_neg hescape] at hmodel hosc
  by_cases hbel : bel = true ∧ byte = 0x07
  · rw [if_pos hbel] at hmodel hosc
    refine .ground hmodel hosc ?_
    simp [Readers.step, SyncFrameTracker.step, hs, hkind, hbel]
  · rw [if_neg hbel] at hmodel hosc
    have hsync : (r.step byte).sync = r.sync := by
      rw [← hkind] at hbel
      simp [Readers.step, SyncFrameTracker.step, hs, hbel, hescape]
    exact .string bel hmodel hosc (by rw [hsync, hs]) (by rw [hsync, hkind])

theorem Aligned.step_stringEscape (hm : r.model.state = .stringBody bel true)
    (ho : r.osc.BehindEscape bel) (hs : r.sync.state = .strEscape) (hkind : r.sync.stringIsOsc = bel)
    (hok : Regular r byte) : Aligned (r.step byte) := by
  have hescape := hok.string bel hm
  have hmodel := consume_stringEscape r.model hm byte
  have hosc := behindEscape_step ho hescape hok.bel
  by_cases hclose : byte = 0x5C
  · rw [if_pos hclose] at hmodel hosc
    refine .ground hmodel hosc ?_
    simp [Readers.step, SyncFrameTracker.step, hs, hclose]
  · rw [if_neg hclose] at hmodel hosc
    refine .string bel hmodel hosc ?_ ?_
    · simp [Readers.step, SyncFrameTracker.step, hs, hclose, hescape]
    · simp [Readers.step, SyncFrameTracker.step, hs, hclose, hescape, hkind]

theorem Aligned.step (h : Aligned r) (hok : Regular r byte) : Aligned (r.step byte) := by
  cases h with
  | ground hm ho hs => exact step_ground hm ho hs
  | escape hm ho hs => exact step_escape hm ho hs
  | csi hm ho hs => exact step_csi hm ho hs
  | string bel hm ho hs hkind => exact step_string hm ho hs hkind
  | stringEscape bel hm ho hs hkind => exact step_stringEscape hm ho hs hkind hok
  | intermediate i hm ho hs =>
    have hescape := hok.intermediate i hm
    refine .ground ?_ ?_ ?_
    · simp [Readers.step, ModelParser.consume, hm]
    · simp [Readers.step, OscTracker.step, ho, hescape]
    · simp [Readers.step, SyncFrameTracker.step, hs, hescape]

/-! ## §4 What the trackers count -/

theorem push_keeps (o : OscTracker) (byte : UInt8) :
    (o.push byte).title = o.title ∧ (o.push byte).progress = o.progress := by
  rw [OscTracker.push]
  split <;> exact ⟨rfl, rfl⟩

theorem stepBodyEscape_keeps (o : OscTracker) {byte : UInt8} (hclose : byte ≠ 0x5C) (hbel : byte ≠ 0x07) :
    (o.stepBodyEscape byte).title = o.title ∧ (o.stepBodyEscape byte).progress = o.progress := by
  obtain ⟨htitle, hprogress⟩ := push_keeps o 0x1B
  obtain ⟨htitle', hprogress'⟩ := push_keeps (o.push 0x1B) byte
  rw [OscTracker.stepBodyEscape, if_neg hclose]
  dsimp only
  rw [if_neg hbel]
  constructor
  · simp [apply_ite OscTracker.title, htitle, htitle']
  · simp [apply_ite OscTracker.progress, hprogress, hprogress']

/-- Only the end of a body sets a title or a progress report. -/
theorem ends_of_titled (h : (o.step byte).title ≠ o.title ∨ (o.step byte).progress ≠ o.progress) :
    o.state = .body ∧ byte = 0x07 ∨ o.state = .bodyEscape ∧ (byte = 0x5C ∨ byte = 0x07) := by
  by_contra hnot
  refine absurd h ?_
  rw [not_or, not_ne_iff, not_ne_iff]
  cases hstate : o.state with
  | body =>
    have hbel : byte ≠ 0x07 := fun hb => hnot (.inl ⟨hstate, hb⟩)
    obtain ⟨htitle, hprogress⟩ := push_keeps o byte
    constructor
    · simp [OscTracker.step, hstate, hbel, apply_ite OscTracker.title, htitle]
    · simp [OscTracker.step, hstate, hbel, apply_ite OscTracker.progress, hprogress]
  | bodyEscape =>
    have hclose : byte ≠ 0x5C := fun hb => hnot (.inr ⟨hstate, .inl hb⟩)
    have hbel : byte ≠ 0x07 := fun hb => hnot (.inr ⟨hstate, .inr hb⟩)
    have hkeeps := stepBodyEscape_keeps o hclose hbel
    rwa [OscTracker.step, hstate]
  | _ => simp [OscTracker.step, hstate, apply_ite OscTracker.title, apply_ite OscTracker.progress]

/-- Only the last byte of a control sequence, or a full reset, changes a
frame. -/
theorem ends_of_framed {s : SyncFrameTracker}
    (h : (s.step byte).frameOpen ≠ s.frameOpen ∨ (s.step byte).generation ≠ s.generation) :
    s.state = .csi ∧ 0x40 ≤ byte ∧ byte ≤ 0x7E ∨ s.state = .escape ∧ byte = 0x63 := by
  by_contra hnot
  refine absurd h ?_
  rw [not_or, not_ne_iff, not_ne_iff]
  cases hstate : s.state with
  | escape =>
    have hreset : byte ≠ 0x63 := fun hb => hnot (.inr ⟨hstate, hb⟩)
    simp [SyncFrameTracker.step, hstate, hreset, apply_ite SyncFrameTracker.frameOpen,
      apply_ite SyncFrameTracker.generation]
  | csi =>
    have hfinal : ¬ (0x40 ≤ byte ∧ byte ≤ 0x7E) := fun hb => hnot (.inl ⟨hstate, hb⟩)
    simp [SyncFrameTracker.step, SyncFrameTracker.stepCsi, hstate, hfinal,
      apply_ite SyncFrameTracker.frameOpen, apply_ite SyncFrameTracker.generation]
  | _ =>
    simp [SyncFrameTracker.step, hstate, apply_ite SyncFrameTracker.frameOpen,
      apply_ite SyncFrameTracker.generation]

theorem Aligned.ends_osc (h : Aligned r) (hok : Regular r byte)
    (hend : r.osc.state = .body ∧ byte = 0x07 ∨ r.osc.state = .bodyEscape ∧ (byte = 0x5C ∨ byte = 0x07)) :
    r.model.string = some true ∧ (r.model.consume byte).1.state = .ground := by
  have hinside : r.model.string = some true := by
    rw [← h.agree.osc]
    rcases hend with ⟨hstate, _⟩ | ⟨hstate, _⟩ <;> simp [OscTracker.string, hstate]
  refine ⟨hinside, ?_⟩
  cases h with
  | string bel hm ho hs hkind =>
    have hbel : bel = true := by simpa [ModelParser.string, hm] using hinside
    subst hbel
    rw [consume_string _ hm]
    rcases hend with ⟨_, rfl⟩ | ⟨hstate, _⟩
    · rfl
    · simp [OscTracker.Inside, hstate] at ho
  | stringEscape bel hm ho hs hkind =>
    rw [consume_stringEscape _ hm]
    rcases hend with ⟨hstate, _⟩ | ⟨hstate, hclose | hbel⟩
    · cases bel <;> simp [OscTracker.BehindEscape, hstate] at ho
    · exact if_pos hclose
    · exact absurd hbel (hok.bel hstate)
  | _ => simp_all

theorem Aligned.counted (h : Aligned r) (hok : Regular r byte) : Counted r byte := by
  refine ⟨fun htitled => h.ends_osc hok (ends_of_titled htitled), ?_⟩
  intro hframed
  rcases ends_of_framed hframed with ⟨hstate, hfinal⟩ | ⟨hstate, rfl⟩
  · have hm := h.agree.sequence hstate
    have hne : byte ≠ 0x1B := by
      rintro rfl
      exact absurd hfinal.1 (by decide)
    refine ⟨.inl hm, ?_⟩
    rw [consume_csi _ hm, if_neg hne, if_pos hfinal]
  · have hm : r.model.state = .escape := by
      cases h with
      | escape hm ho hs => exact hm
      | csi hm ho hs => rcases hs with hs | hs <;> simp [hs] at hstate
      | _ => simp_all
    simp [ModelParser.consume, ModelParser.consumeEscape, hm, introducesString]

/-! ## §5 The stream -/

theorem Aligned.sameSequence (h : Aligned r) (hok : Regular r byte) (hsame : SameSequence r)
    (hclean : Clean r byte) : SameSequence (r.step byte) := by
  refine ⟨(h.step hok).agree.sequence, ?_⟩
  intro hcsi
  change (r.model.consume byte).1.state = .csi at hcsi
  change (r.sync.step byte).state = .csi
  cases h with
  | ground hm ho hs =>
    rw [consume_ground _ hm] at hcsi
    split at hcsi <;> cases hcsi
  | escape hm ho hs =>
    have hbracket : byte = 0x5B := by
      by_contra hne
      rw [consume_escape _ hm, if_neg hne] at hcsi
      repeat' split at hcsi
      all_goals cases hcsi
    simp [SyncFrameTracker.step, hs, hbracket]
  | intermediate i hm ho hs => simp [ModelParser.consume, hm] at hcsi
  | csi hm ho hs =>
    rw [consume_csi _ hm] at hcsi
    rw [stepCsi_state _ (hsame.mpr hm)]
    by_cases hescape : byte = 0x1B
    · simp [hescape] at hcsi
    · rw [if_neg hescape] at hcsi ⊢
      by_cases hfinal : 0x40 ≤ byte ∧ byte ≤ 0x7E
      · simp [hfinal] at hcsi
      · have hrange := (hclean hm).resolve_left hescape
        have hlow : byte ≤ 0x3F := by
          by_contra hhigh
          refine hfinal ⟨?_, hrange.2⟩
          simp only [UInt8.le_iff_toNat_le, UInt8.reduceToNat] at hhigh ⊢
          omega
        rw [if_pos ⟨hrange.1, hlow⟩]
  | string bel hm ho hs hkind =>
    rw [consume_string _ hm] at hcsi
    repeat' split at hcsi
    all_goals cases hcsi
  | stringEscape bel hm ho hs hkind =>
    rw [consume_stringEscape _ hm] at hcsi
    split at hcsi <;> cases hcsi

theorem aligned_new : Aligned {} := .ground rfl rfl rfl

theorem one_reading (bytes : List UInt8) (h : Meets Readers.step Regular {} bytes) :
    Throughout Readers.step Agree {} bytes ∧ Meets Readers.step Counted {} bytes ∧
      (Meets Readers.step Clean {} bytes → Throughout Readers.step SameSequence {} bytes) := by
  have haligned := h.throughout Aligned (fun r byte hok ha => ha.step hok) aligned_new
  refine ⟨haligned.imp fun r ha => ha.agree, ?_, ?_⟩
  · exact h.weaken Aligned (fun r byte hok ha => ⟨ha.counted hok, ha.step hok⟩) aligned_new
  · intro hclean
    have hboth := (h.and hclean).throughout (fun r => Aligned r ∧ SameSequence r)
      (fun r byte hok ha => ⟨ha.1.step hok.1, ha.1.sameSequence hok.1 ha.2 hok.2⟩)
      ⟨aligned_new, by simp [SameSequence]⟩
    exact hboth.imp fun r ha => ha.2

/-- The tracker has no state for a control sequence. Then the bytes that part
the readers, and the control character that ends a sequence for one of them. -/
theorem readings_part :
    let after (bytes : List UInt8) := run Readers.step {} bytes
    ((after [0x1B, 0x5B]).model.state = .csi ∧ (after [0x1B, 0x5B]).osc.state = .ground) ∧
      ((after [0x1B, 0x5D, 0x1B, 0x1B, 0x5C]).model.string = some true ∧
        (after [0x1B, 0x5D, 0x1B, 0x1B, 0x5C]).osc.string = none) ∧
      ((after [0x1B, 0x5D, 0x1B, 0x07]).model.string = some true ∧
        (after [0x1B, 0x5D, 0x1B, 0x07]).osc.string = none) ∧
      ((after [0x1B, 0x28, 0x1B, 0x5D]).model.string = none ∧
        (after [0x1B, 0x28, 0x1B, 0x5D]).osc.string = some true) ∧
      ((after [0x1B, 0x5B, 0x07]).model.state = .csi ∧ (after [0x1B, 0x5B, 0x07]).sync.state = .ground) := by
  decide

theorem one_reading_title :
    Meets Readers.step Regular {} [0x1B, 0x5D, 0x07] ∧
      Throughout Readers.step Agree {} [0x1B, 0x5D, 0x07] ∧ Counted (run Readers.step {} [0x1B, 0x5D]) 0x07 :=
  have h : Meets Readers.step Regular {} [0x1B, 0x5D, 0x07] :=
    ⟨⟨by rintro _ ⟨⟩, by decide, by rintro _ ⟨⟩⟩, ⟨by simp, by decide, by simp⟩,
      ⟨by simp, by decide, by simp⟩, trivial⟩
  ⟨h, (one_reading _ h).1, (one_reading _ h).2.1.2.2.1⟩

end SlopDesk.Screend
