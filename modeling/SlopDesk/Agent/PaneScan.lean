/-
SlopDesk.Agent.PaneScan — one pane's screen-detection tick
(`slopdesk-agent`: `hold.rs`, `panescan.rs`).

§1 the two confirmation holds and the publish gate. §2 `PaneScan`: a tick is
`plan`, the exchange with screend, and `finish`. §3 the ticks of a pane, with
the grid that screend holds for it, and those in which nothing has come
(`Quiet`).

The clock counts tenths of a second, exactly.
-/
import Mathlib.Algebra.Order.Group.Defs
import Mathlib.Data.Int.Cast.Defs
import SlopDesk.Agent.Machine

namespace SlopDesk.Agent.Scan

variable {τ γ : Type} [AddCommGroupWithOne τ] [LinearOrder τ]

/-! ## §1 The holds -/

/-- `AgentScreenDetection`. -/
structure Detection where
  state : AgentScreenState := .unknown
  skipStateUpdate : Bool := false
  visibleIdle : Bool := false
  visibleBlocker : Bool := false
  visibleWorking : Bool := false
  matchedRuleId : Option String := none
  fallbackReason : Option String := none
  deriving DecidableEq

/-- A pending confirmation: when it began, and the reads that confirmed it. -/
structure Confirmation (τ : Type) where
  startedAt : Option τ := none
  confirmations : Nat := 0
  deriving DecidableEq

/-- What the two holds have in common. -/
def Confirmation.hold (c : Confirmation τ) (transitioning : Bool) (now : τ) : Bool × Confirmation τ :=
  if !transitioning then (false, {})
  else match c.startedAt with
    | none => (true, ⟨some now, 0⟩)
    | some startedAt =>
      -- `PENDING_IDLE_CAP`, then `PENDING_IDLE_CONFIRMATIONS`
      if 7 ≤ now - startedAt ∨ 3 ≤ c.confirmations + 1 then (false, {})
      else (true, ⟨some startedAt, c.confirmations + 1⟩)

structure AgentDetectionHold (τ : Type) where
  pendingIdle : Confirmation τ := {}
  pendingUnblock : Confirmation τ := {}
  deriving DecidableEq

namespace AgentDetectionHold

def isHoldingIdle (h : AgentDetectionHold τ) : Bool :=
  h.pendingIdle.startedAt.isSome || h.pendingUnblock.startedAt.isSome

def shouldHoldWorkingToIdle (h : AgentDetectionHold τ) (previous next : Detection)
    (agentChanged processExited : Bool) (now : τ) : Bool × AgentDetectionHold τ :=
  let (held, pendingIdle) := h.pendingIdle.hold
    (previous.state = .working && next.state = .idle && !next.visibleIdle && !next.visibleBlocker && !agentChanged &&
      !processExited) now
  (held, { h with pendingIdle })

def shouldHoldBlockedToIdle (h : AgentDetectionHold τ) (previous next : Detection)
    (agentChanged processExited : Bool) (now : τ) : Bool × AgentDetectionHold τ :=
  let (held, pendingUnblock) := h.pendingUnblock.hold
    (previous.state = .blocked && next.state = .idle && !agentChanged && !processExited) now
  (held, { h with pendingUnblock })

def stableVisibleSignalRefreshDue (previous next : Detection) (lastRefresh : Option τ) (now : τ) : Bool :=
  next.visibleBlocker && previous.visibleBlocker &&
    match lastRefresh with
    | none => true
    | some lastRefresh => 8 ≤ now - lastRefresh

def shouldPublish (previous next : Detection) (agentChanged processExited refreshDue : Bool) : Bool :=
  previous.state ≠ next.state || previous.visibleIdle ≠ next.visibleIdle ||
    previous.visibleBlocker ≠ next.visibleBlocker || previous.visibleWorking ≠ next.visibleWorking ||
    agentChanged || processExited || (refreshDue && next.visibleBlocker && previous.visibleBlocker)

/-- Neither hold is short-circuited. -/
def decide (h : AgentDetectionHold τ) (previous next : Detection) (agentChanged processExited : Bool)
    (lastRefresh : Option τ) (now : τ) : Bool × AgentDetectionHold τ :=
  let (holdingWorking, h) := h.shouldHoldWorkingToIdle previous next agentChanged processExited now
  let (holdingUnblock, h) := h.shouldHoldBlockedToIdle previous next agentChanged processExited now
  if holdingWorking || holdingUnblock then (false, h)
  else
    let refreshDue := stableVisibleSignalRefreshDue previous next lastRefresh now
    (shouldPublish previous next agentChanged processExited refreshDue, h)

end AgentDetectionHold

/-! ## §2 The tick -/

structure ScanInput (τ : Type) where
  payloadEmpty : Bool
  rebuildReplay : Bool
  rows : UInt16
  cols : UInt16
  agent : Option String
  contentSeq : UInt64
  now : τ
  deriving DecidableEq

structure ScanPlan where
  exchange : Bool
  reset : Bool
  agentChanged : Bool
  labelSuppressed : Bool
  deriving DecidableEq

structure Verdict where
  detection : Detection := {}
  frameOpen : Bool := false
  frameGeneration : UInt64 := 0
  deriving DecidableEq

inductive Outcome where
  | skipped
  | answered (verdict : Verdict)
  | failed

structure ScanOutput (τ : Type) where
  publish : Option Detection
  nextInterval : τ

/-- Nothing to publish. -/
def ScanOutput.quiet (nextInterval : τ) : ScanOutput τ := ⟨none, nextInterval⟩

/-- What `plan` decided that `finish` still needs. -/
structure Pending (τ : Type) where
  now : τ
  agentChanged : Bool := false
  suppression : Option τ := none
  labelSuppressed : Bool := false
  deriving DecidableEq

structure PaneScan (τ : Type) where
  gridIsStale : Bool := true
  gridRows : UInt16 := 0
  gridCols : UInt16 := 0
  cached : Option Detection := none
  hold : AgentDetectionHold τ := {}
  lastPublished : Option Detection := none
  lastPublishedAt : Option τ := none
  lastAgent : Option String := none
  agentSince : Option τ := none
  lastScanSeq : UInt64 := 0
  awaitingRepaintAfterRebuild : Bool := false
  frameOpen : Bool := false
  frameGeneration : UInt64 := 0
  syncFrameOpenSince : Option τ := none
  syncFrameAnchorGeneration : Option UInt64 := none
  pending : Pending τ
  deriving DecidableEq

namespace PaneScan

def new : PaneScan τ := { pending := { now := 0 } }

/-- The state the idle-scan skip asks for: a quiescent idle pane. -/
def restsIdle (s : PaneScan τ) : Bool :=
  s.lastPublished.any (·.state = .idle) && !s.hold.isHoldingIdle

def suppression (s : PaneScan τ) (input : ScanInput τ) (agentChanged seqUnchanged : Bool) : Option τ :=
  if input.agent.isNone then some 3
  -- `STARTUP_GRACE_WINDOW`
  else if s.agentSince.any (input.now - · < 30) then some 3
  else if s.restsIdle && seqUnchanged && !agentChanged then some 3
  else if s.awaitingRepaintAfterRebuild then some 3
  else none

def plan (s : PaneScan τ) (input : ScanInput τ) : ScanPlan × PaneScan τ :=
  let agentChanged : Bool := input.agent ≠ s.lastAgent
  let s :=
    if agentChanged then
      { s with
        lastAgent := input.agent
        agentSince := some input.now
        lastPublished := none
        lastPublishedAt := none
        cached := none
        hold := {} }
    else s
  let s :=
    if input.rows ≠ s.gridRows ∨ input.cols ≠ s.gridCols then
      { s with gridIsStale := true, gridRows := input.rows, gridCols := input.cols }
    else s
  let s :=
    if input.rebuildReplay then
      { s with gridIsStale := true, awaitingRepaintAfterRebuild := true, hold := {} }
    else s
  let seqUnchanged : Bool := input.contentSeq = s.lastScanSeq
  let s := { s with lastScanSeq := input.contentSeq }
  let s :=
    if s.awaitingRepaintAfterRebuild && !input.rebuildReplay && !seqUnchanged then
      { s with awaitingRepaintAfterRebuild := false }
    else s
  let suppression := s.suppression input agentChanged seqUnchanged
  let labelSuppressed := suppression.isSome || input.agent.isNone
  let mustFold := !input.payloadEmpty || s.gridIsStale || agentChanged
  let mustAsk := !labelSuppressed && s.cached.isNone
  (⟨mustFold || mustAsk, s.gridIsStale, agentChanged, labelSuppressed⟩,
    { s with pending := ⟨input.now, agentChanged, suppression, labelSuppressed⟩ })

def anchorOpenFrame (s : PaneScan τ) (now : τ) : PaneScan τ :=
  if !s.frameOpen then { s with syncFrameOpenSince := none, syncFrameAnchorGeneration := none }
  else if s.syncFrameOpenSince.isNone || s.syncFrameAnchorGeneration ≠ some s.frameGeneration then
    { s with syncFrameOpenSince := some now, syncFrameAnchorGeneration := some s.frameGeneration }
  else s

/-- An open frame, not yet past `SYNC_FRAME_HOLD_CAP`. -/
def midFrame (s : PaneScan τ) : Bool :=
  s.frameOpen && s.syncFrameOpenSince.any (s.pending.now - · < 10)

/-- `finish`, with a verdict to publish or not. -/
def weigh (s : PaneScan τ) (detection : Detection) : ScanOutput τ × PaneScan τ :=
  let previous := s.lastPublished.getD {}
  let (publishNow, hold) :=
    s.hold.decide previous detection s.pending.agentChanged false s.lastPublishedAt s.pending.now
  let s := { s with hold }
  let interval := if hold.isHoldingIdle then 1 else 3
  if publishNow then
    (⟨some detection, interval⟩,
      { s with lastPublished := some detection, lastPublishedAt := some s.pending.now })
  else (.quiet interval, s)

/-- `finish`, once the open frame is anchored. -/
def gate (s : PaneScan τ) : ScanOutput τ × PaneScan τ :=
  match s.pending.suppression with
  | some interval => (.quiet interval, s)
  | none =>
    if s.midFrame then (.quiet 1, s)
    else match s.cached with
      | none => (.quiet 3, s)
      | some detection =>
        if detection.skipStateUpdate then (.quiet 3, s) else s.weigh detection

/-- `finish`, once the outcome is taken. -/
def conclude (s : PaneScan τ) : ScanOutput τ × PaneScan τ := (s.anchorOpenFrame s.pending.now).gate

def finish (s : PaneScan τ) : Outcome → ScanOutput τ × PaneScan τ
  | .skipped => s.conclude
  | .answered verdict =>
    conclude { s with
      gridIsStale := false
      frameOpen := verdict.frameOpen
      frameGeneration := verdict.frameGeneration
      cached := if s.pending.labelSuppressed then none else some verdict.detection }
  | .failed => (.quiet 3, { s with gridIsStale := true, cached := none })

end PaneScan

/-! ## §3 Ticks -/

/-- A pane's scan, and the grid screend holds for the pane. -/
structure Watched (τ γ : Type) where
  scan : PaneScan τ
  grid : γ

/-- A tick: its input, and the grid an exchange leaves, if it succeeds. -/
structure Tick (τ γ : Type) where
  input : ScanInput τ
  lands : Option γ

/-- What screend answers of a grid: without a label it runs no rule. -/
def answer (view : γ → Verdict) (labelSuppressed : Bool) (grid : γ) : Verdict :=
  if labelSuppressed then { view grid with detection := {} } else view grid

/-- What becomes of the exchange that a plan asks for, and the grid after it. -/
def Watched.exchange (view : γ → Verdict) (w : Watched τ γ) (plan : ScanPlan) (t : Tick τ γ) : Outcome × γ :=
  if !plan.exchange then (.skipped, w.grid)
  else match t.lands with
    | none => (.failed, w.grid)
    | some grid => (.answered (answer view plan.labelSuppressed grid), grid)

/-- One tick, of a pane whose grids screend reads as `view`. -/
def Watched.tick (view : γ → Verdict) (w : Watched τ γ) (t : Tick τ γ) : ScanOutput τ × Watched τ γ :=
  let (plan, scan) := w.scan.plan t.input
  let (outcome, grid) := w.exchange view plan t
  let (output, scan) := scan.finish outcome
  (output, ⟨scan, grid⟩)

def Watched.step (view : γ → Verdict) (w : Watched τ γ) (t : Tick τ γ) : Watched τ γ := (w.tick view t).2

/-- Nothing has come since the last tick of an agent's pane that is past its
startup, nothing is asked for, and an exchange would succeed. -/
def Quiet (w : Watched τ γ) (t : Tick τ γ) : Prop :=
  w.scan.pending.now ≤ t.input.now ∧ t.lands.isSome ∧ w.scan.lastAgent.isSome ∧
    (w.scan.agentSince.all fun since => 30 ≤ t.input.now - since) ∧
    t.input = ⟨true, false, w.scan.gridRows, w.scan.gridCols, w.scan.lastAgent, w.scan.lastScanSeq, t.input.now⟩

/-- The clock does not go back. -/
def Forward (w : Watched τ γ) (t : Tick τ γ) : Prop := w.scan.pending.now ≤ t.input.now

instance (w : Watched τ γ) (t : Tick τ γ) : Decidable (Quiet w t) := inferInstanceAs (Decidable (_ ∧ _))

instance (w : Watched τ γ) (t : Tick τ γ) : Decidable (Forward w t) := inferInstanceAs (Decidable (_ ≤ _))

namespace PaneScan

/-- What a quiet tick cannot publish for. -/
def mute (s : PaneScan τ) : Bool := s.restsIdle || s.awaitingRepaintAfterRebuild

/-- What the plan of a quiet tick leaves. -/
def planned (s : PaneScan τ) (now : τ) : PaneScan τ :=
  { s with pending := ⟨now, false, if s.mute then some 3 else none, s.mute⟩ }

end PaneScan

end SlopDesk.Agent.Scan
