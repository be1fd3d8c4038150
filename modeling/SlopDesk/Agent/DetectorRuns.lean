/-
SlopDesk.Agent.DetectorRuns — what the clients were told last is true.

§1 has the calls of a detector, and keeps beside it what was told. §2 is what
one signal keeps of the machine that the anchors rest on, §3 the anchors, and
§4 shows that they stay coherent over every run in which the pane is not
handed back to the screen while its agent is taken at its word
(`told_coherently`).
-/
import SlopDesk.Agent.Detector
import SlopDesk.Agent.FinishedTurns
import SlopDesk.Agent.StandingClaims

namespace SlopDesk.Agent

open SlopDesk.Base

variable {τ : Type} [Clock τ]

/-! ## §1 The calls -/

/-- A call of a detector. -/
inductive DetectorCall (τ : Type) where
  | sample (rawName : String) (now : τ)
  | hook (event : ClaudeHookEvent) (kindByte : UInt8) (prompt : Option String) (now : τ)
  | report (state : String) (message : Option String) (now : τ)
  | tick (now : τ)
  | screen (detection : AgentScreenDetection) (now : τ)
  | title (title : String) (now : τ)
  | userInput (bytes : List UInt8) (now : τ)
  | reestablishOnReattach

def ClaudeSignal.isHook : ClaudeSignal → Bool
  | .hook _ => true
  | _ => false

namespace PaneDetector

variable {d : PaneDetector τ} {readings : Readings}

def call (readings : Readings) (d : PaneDetector τ) : DetectorCall τ → Emission × PaneDetector τ
  | .sample rawName now => d.sample readings rawName now
  | .hook event kindByte prompt now => d.hook readings event kindByte prompt now
  | .report state message now => d.report state message now
  | .tick now => d.tick now
  | .screen detection now => d.screen detection now
  | .title title now => d.title readings title now
  | .userInput bytes now => d.userInput readings bytes now
  | .reestablishOnReattach => d.reestablishOnReattach

/-- The signal that a call folds, if it folds one. -/
def signal (readings : Readings) (d : PaneDetector τ) : DetectorCall τ → Option (ClaudeSignal × τ)
  | .sample rawName now =>
    let base := readings.canonicalName rawName
    let present := readings.namesAgent base
    if d.absenceSuppressed readings present base now then none else some (.processPresent present, now)
  | .hook event _ _ now => if d.machine.accepts event then some (.hook event, now) else none
  | .report state message now => (reportEvent state message).map fun event => (.hook event, now)
  | .tick now => some (.tick, now)
  | .screen detection now => some (.screen detection, now)
  | .title title now => some (.oscTitle title, now)
  | .userInput bytes now =>
    if d.machine.status = .needsPermission && readings.containsCancelKeystroke bytes then some (.userInput, now)
    else none
  | .reestablishOnReattach => none

/-- The watchdog hands the pane back to the screen, in a hook or while the
agent's own notifications are held back. -/
def handsBack (readings : Readings) (d : PaneDetector τ) (call : DetectorCall τ) : Bool :=
  match d.signal readings call with
  | some (signal, now) =>
    (signal.isHook || d.hookAuthority) && (d.machine.beforeWatchdog now signal).overrules now
  | none => false

end PaneDetector

/-- A detector, and what its clients were told last. -/
structure Told (τ : Type) where
  detector : PaneDetector τ
  status : Option StatusTriple
  intent : Option String

namespace Told

def start (doneToIdleTimeout : τ) : Told τ := ⟨.new doneToIdleTimeout, none, none⟩

def step (readings : Readings) (p : Told τ) (call : DetectorCall τ) : Told τ where
  detector := (p.detector.call readings call).2
  status := (p.detector.call readings call).1.status.or p.status
  intent := (p.detector.call readings call).1.intent.or p.intent

/-- What was told is what the machine says, a block's class is told of a block
only, notifications are held back for an authoritative feed only, and an
intent is an agent's. -/
structure Coherent (p : Told τ) : Prop where
  status : ∀ triple, p.status = some triple → triple = p.detector.currentTriple
  block : ∀ triple, p.status = some triple → triple.kind = AgentStatusKind.permission.wireByte ∨
    triple.kind = AgentStatusKind.waitingForInput.wireByte → p.detector.machine.status = .needsPermission
  authority : p.detector.suppressesChildNotifications = true → p.detector.machine.authoritativeCovered = true
  gone : p.detector.machine.status = .none → p.detector.sessionIntent = none
  intent : p.intent.getD "" = p.detector.sessionIntent.getD ""

def KeepsPane (readings : Readings) (p : Told τ) (call : DetectorCall τ) : Prop :=
  p.detector.handsBack readings call = false

end Told

/-! ## §2 The machine -/

namespace ClaudeStatusMachine

variable {m m' : ClaudeStatusMachine τ} {now : τ}
variable {event : ClaudeHookEvent} {signal : ClaudeSignal}
variable {id : Option String}

theorem alive_liftPresenceFloor (h : m.status ≠ .none) : (m.liftPresenceFloor now).status ≠ .none := by
  unfold liftPresenceFloor
  grind [enter]

theorem alive_applyEvent (compactionEnded : Bool) (h : m.status ≠ .none)
    (hopen : ∀ id, event ≠ .sessionEnd id) : (m.applyEvent compactionEnded now event).status ≠ .none := by
  cases event with
  | preCompact id => exact alive_liftPresenceFloor (m := { m with compactionPending := true }) h
  | notification kind label call id =>
    cases kind with
    | permission => simp [applyEvent, enterBlocked]
    | waitingForInput => simp [applyEvent, enterBlocked]
    | other => exact alive_liftPresenceFloor h
  | preToolUse id call => simp only [applyEvent]; grind [enter, resolveLedger]
  | postToolUse id call => simp only [applyEvent]; grind [enter, resolveLedger]
  | stop id label => cases compactionEnded <;> simp [applyEvent, enter]
  | subagentStop => exact h
  | sessionEnd id => exact absurd rfl (hopen id)
  | sessionStart id => simp [applyEvent, enter]
  | userPromptSubmit id => simp [applyEvent, enter]
  | interrupted id => simp [applyEvent, enter]

theorem alive_applyScreenVerdict {detection : AgentScreenDetection} {correcting : Bool}
    (h : m.status ≠ .none) : (m.applyScreenVerdict detection correcting now).2.status ≠ .none := by
  unfold applyScreenVerdict
  cases detection.state <;> grind [enter, enterBlocked]

theorem alive_clock (h : m.status ≠ .none) : (m.clocked now).status ≠ .none := by
  have hresolved : (m.resolveScreenDissentIfDue now).status ≠ .none := by
    rcases @resolveScreenDissentIfDue_cases τ _ m now with ⟨_, hsame⟩ | ⟨_, detection, landed, hlands, hfreed⟩
    · rw [hsame]
      exact h
    · have hlanded := @alive_applyScreenVerdict τ _ m now detection true h
      rw [hlands] at hlanded
      rw [hfreed]
      exact hlanded
  unfold clocked decayIfDue
  grind [enter]

theorem alive_before (h : m.status ≠ .none) (hopen : m.endsSession signal = false) :
    (m.beforeWatchdog now signal).status ≠ .none := by
  cases signal with
  | hook event =>
    show (m.apply event now).status ≠ .none
    rw [apply_eq, ← accepts_eq]
    split
    case isFalse => exact h
    case isTrue haccepts =>
      obtain ⟨owner, hclaimed⟩ := @claimOrVerifyOwner_eq τ m event
      have hlive : ∀ id, event ≠ .sessionEnd id := by
        rintro id rfl
        simp [endsSession, haccepts] at hopen
      rw [hclaimed, status_reconcileScreenDissent]
      exact alive_applyEvent _ h hlive
  | processPresent present =>
    cases present with
    | true => exact alive_liftPresenceFloor h
    | false => contradiction
  | manifestVerdict verdict =>
    show (m.applyManifest verdict now).status ≠ .none
    unfold applyManifest
    cases verdict with
    | needsPermission => split <;> simp_all [enterBlocked]
    | _ => grind [enter]
  | oscTitle title =>
    show (m.applyTitle title now).status ≠ .none
    have hlift := @alive_liftPresenceFloor τ _ m now h
    unfold applyTitle
    grind [enter]
  | tick => exact h
  | screen detection =>
    simp only [beforeWatchdog]
    split
    case isTrue => exact h
    case isFalse hdisputes =>
      have hverdict := @alive_applyScreenVerdict τ _ m now detection false h
      unfold disputes at hdisputes
      unfold applyScreen
      grind [clearScreenDissent]
  | userInput => simp only [beforeWatchdog, hear]; grind [enter]

/-- A pane with an agent has one until its session ends. -/
theorem alive_reduce (h : m.status ≠ .none) (hopen : m.endsSession signal = false) :
    (m.reduce signal now).status ≠ .none := by
  rw [reduce_eq]
  exact alive_clock (alive_before h hopen)

theorem covered_liftPresenceFloor :
    (m.liftPresenceFloor now).authoritativeCovered = m.authoritativeCovered := by
  unfold liftPresenceFloor
  grind [enter]

theorem covered_applyEvent (compactionEnded : Bool) (hopen : ∀ id, event ≠ .sessionEnd id) :
    (m.applyEvent compactionEnded now event).authoritativeCovered = m.authoritativeCovered := by
  cases event with
  | preCompact id => exact covered_liftPresenceFloor (m := { m with compactionPending := true })
  | notification kind label call id =>
    cases kind with
    | permission => rfl
    | waitingForInput => rfl
    | other => exact covered_liftPresenceFloor
  | preToolUse id call => simp only [applyEvent]; split <;> rfl
  | postToolUse id call => simp only [applyEvent]; split <;> rfl
  | stop id label => cases compactionEnded <;> rfl
  | subagentStop => rfl
  | sessionEnd id => exact absurd rfl (hopen id)
  | sessionStart id => rfl
  | userPromptSubmit id => rfl
  | interrupted id => rfl

omit [Clock τ] in
theorem covered_reconcileScreenDissent :
    m.reconcileScreenDissent.authoritativeCovered = m.authoritativeCovered := by
  unfold reconcileScreenDissent
  split
  case h_1 => rfl
  case h_2 => split <;> rfl

theorem covered_apply (haccepts : m.accepts event = true)
    (hopen : ∀ id, event ≠ .sessionEnd id) : (m.apply event now).authoritativeCovered = true := by
  rw [apply_eq, ← accepts_eq, if_pos haccepts, covered_reconcileScreenDissent, covered_applyEvent _ hopen]

/-- A signal keeps a covered pane covered, but for the watchdog. -/
theorem covered_before (h : m.authoritativeCovered = true)
    (hopen : m.endsSession signal = false) : (m.beforeWatchdog now signal).authoritativeCovered = true := by
  cases signal with
  | hook event =>
    cases haccepts : m.accepts event with
    | true =>
      refine covered_apply haccepts ?_
      rintro id rfl
      simp [endsSession, haccepts] at hopen
    | false =>
      show (m.apply event now).authoritativeCovered = true
      rw [apply_eq, ← accepts_eq, haccepts]
      exact h
  | processPresent present =>
    cases present with
    | true => exact covered_liftPresenceFloor.trans h
    | false => contradiction
  | manifestVerdict verdict =>
    show (m.applyManifest verdict now).authoritativeCovered = true
    unfold applyManifest
    cases verdict with
    | needsPermission => split <;> exact h
    | _ => grind [enter]
  | oscTitle title =>
    show (m.applyTitle title now).authoritativeCovered = true
    have hlift := @covered_liftPresenceFloor τ _ m now
    unfold applyTitle
    grind [enter]
  | tick => exact h
  | screen detection =>
    simp only [beforeWatchdog]
    split
    case isTrue => exact h
    case isFalse hdisputes =>
      unfold disputes at hdisputes
      unfold applyScreen
      grind [clearScreenDissent]
  | userInput => simp only [beforeWatchdog, hear]; grind [enter]

theorem reduce_quiet (h : (m.beforeWatchdog now signal).overrules now = false) :
    m.reduce signal now = (m.beforeWatchdog now signal).decayIfDue now := by
  rw [reduce_eq, resolveScreenDissentIfDue_quiet h]

/-- Presence leaves a block standing, but for the watchdog. -/
theorem blocked_present (h : m.status = .needsPermission)
    (hquiet : (m.beforeWatchdog now (.processPresent true)).overrules now = false) :
    m.reduce (.processPresent true) now = m := by
  have hsame : m.beforeWatchdog now (.processPresent true) = m := by
    simp [beforeWatchdog, hear, liftPresenceFloor, h]
  rw [reduce_quiet hquiet, hsame]
  simp [decayIfDue, h]

theorem alive_prompt (haccepts : m.accepts (.userPromptSubmit id) = true) :
    (m.reduce (.hook (.userPromptSubmit id)) now).status ≠ .none := by
  rw [reduce_eq]
  refine alive_clock ?_
  show (m.apply (.userPromptSubmit id) now).status ≠ .none
  rw [apply_eq, ← accepts_eq, if_pos haccepts, status_reconcileScreenDissent]
  simp [applyEvent, enter]

theorem status_sessionEnd (haccepts : m.accepts (.sessionEnd id) = true) :
    (m.reduce (.hook (.sessionEnd id)) now).status = .none := by
  have hnone : (m.apply (.sessionEnd id) now).status = .none := by
    rw [apply_eq, ← accepts_eq, if_pos haccepts, status_reconcileScreenDissent]
    rfl
  have hdissent : (m.hear (.hook (.sessionEnd id)) now).screenDissent = none := ended_hear haccepts
  rcases (@clock_unclaimed τ _ _ now hdissent).2 with hsame | ⟨hdone, _⟩
  · exact hsame.trans hnone
  · exact absurd (hnone.symm.trans hdone) (by decide)

end ClaudeStatusMachine

/-! ## §3 The anchors -/

namespace PaneDetector

variable {d : PaneDetector τ} {readings : Readings}

/-- What the anchors rest on. -/
structure Sound (d : PaneDetector τ) : Prop where
  kind : d.lastNotificationKind ≠ 0 → d.machine.status = .needsPermission ∧ d.hookAuthority = true
  authority : d.hookAuthority = true → d.machine.authoritativeCovered = true
  gone : d.machine.status = .none → d.sessionIntent = none

/-- The machine and what it is told by are the same. -/
structure SameState (d d' : PaneDetector τ) : Prop where
  machine : d'.machine = d.machine
  kind : d'.lastNotificationKind = d.lastNotificationKind
  authority : d'.hookAuthority = d.hookAuthority
  intent : d'.sessionIntent = d.sessionIntent

section

variable {d' : PaneDetector τ}
omit [Clock τ]

theorem SameState.sound (h : d.SameState d') (hd : d.Sound) : d'.Sound where
  kind hkind := by
    rw [h.machine, h.authority]
    exact hd.kind (h.kind ▸ hkind)
  authority hauthority := by
    rw [h.machine]
    exact hd.authority (h.authority ▸ hauthority)
  gone hgone := by
    rw [h.intent]
    exact hd.gone (h.machine ▸ hgone)

theorem SameState.triple (h : d.SameState d') : d'.currentTriple = d.currentTriple := by
  simp [currentTriple, kindByte, h.machine, h.kind]

theorem sameState_statusIfChanged : d.SameState d.statusIfChanged.2 := by
  unfold statusIfChanged
  split <;> exact ⟨rfl, rfl, rfl, rfl⟩

theorem sameState_intentIfChanged : d.SameState d.intentIfChanged.2 := by
  unfold intentIfChanged
  dsimp only
  split <;> exact ⟨rfl, rfl, rfl, rfl⟩

theorem sameState_retireTitleIfAgentGone : d.SameState d.retireTitleIfAgentGone.2 := by
  unfold retireTitleIfAgentGone
  split <;> exact ⟨rfl, rfl, rfl, rfl⟩

theorem status_statusIfChanged (told : Option StatusTriple) (h : told = d.lastEmittedStatus) :
    d.statusIfChanged.2.lastEmittedStatus = some d.currentTriple ∧
      d.statusIfChanged.1.or told = some d.currentTriple ∧
      d.statusIfChanged.2.lastEmittedIntent = d.lastEmittedIntent := by
  unfold statusIfChanged
  split
  case isTrue hsame => exact ⟨hsame.symm, h.trans hsame.symm, rfl⟩
  case isFalse => exact ⟨rfl, rfl, rfl⟩

theorem intent_intentIfChanged (told : Option String) (h : told = d.lastEmittedIntent) :
    d.intentIfChanged.1.or told = d.intentIfChanged.2.lastEmittedIntent ∧
      d.intentIfChanged.2.lastEmittedIntent.getD "" = d.sessionIntent.getD "" ∧
      d.intentIfChanged.2.lastEmittedStatus = d.lastEmittedStatus := by
  unfold intentIfChanged
  dsimp only
  split
  case isTrue hsame => exact ⟨h, hsame.symm, rfl⟩
  case isFalse => exact ⟨rfl, rfl, rfl⟩

theorem anchors_retireTitleIfAgentGone :
    d.retireTitleIfAgentGone.2.lastEmittedStatus = d.lastEmittedStatus ∧
      d.retireTitleIfAgentGone.2.lastEmittedIntent = d.lastEmittedIntent := by
  unfold retireTitleIfAgentGone
  split <;> exact ⟨rfl, rfl⟩

theorem SameState.trans {d'' : PaneDetector τ} (h : d.SameState d') (h' : d'.SameState d'') : d.SameState d'' :=
  ⟨h'.machine.trans h.machine, h'.kind.trans h.kind, h'.authority.trans h.authority, h'.intent.trans h.intent⟩

end

end PaneDetector

namespace Told

open PaneDetector

variable {p : Told τ} {d : PaneDetector τ} {readings : Readings}
variable {now : τ} {event : ClaudeHookEvent}
variable {message : Option String} {state : String}

/-- What was told is what the anchors say, and the anchors stand at what is. -/
structure Inv (p : Told τ) : Prop where
  sound : p.detector.Sound
  status : p.status = p.detector.lastEmittedStatus
  current : ∀ triple, p.status = some triple → triple = p.detector.currentTriple
  intent : p.intent = p.detector.lastEmittedIntent
  latched : p.intent.getD "" = p.detector.sessionIntent.getD ""

/-- What was told once a call has answered. -/
def hears (p : Told τ) (answer : Emission × PaneDetector τ) : Told τ :=
  ⟨answer.2, answer.1.status.or p.status, answer.1.intent.or p.intent⟩

section
omit [Clock τ]

theorem inv_settle (hd : d.Sound) (hstatus : p.status = d.lastEmittedStatus)
    (hintent : p.intent = d.lastEmittedIntent) (hlatched : p.intent.getD "" = d.sessionIntent.getD "")
    (foreground : Option String) : (p.hears (d.settle { foreground := foreground })).Inv := by
  obtain ⟨hanchor, htold, hkept⟩ := status_statusIfChanged p.status hstatus
  obtain ⟨hsame, hsame'⟩ := @anchors_retireTitleIfAgentGone τ d.statusIfChanged.2
  have hstate : d.SameState (d.settle { foreground := foreground }).2 :=
    sameState_statusIfChanged.trans sameState_retireTitleIfAgentGone
  refine ⟨hstate.sound hd, ?_, fun triple htriple => ?_, ?_, ?_⟩
  · exact htold.trans (hsame.trans hanchor).symm
  · exact (Option.some.inj (htriple.symm.trans htold)).trans hstate.triple.symm
  · exact hintent.trans (hsame'.trans hkept).symm
  · exact hlatched.trans (congrArg (·.getD "") hstate.intent.symm)

theorem inv_settleIntent (hd : d.Sound) (hstatus : p.status = d.lastEmittedStatus)
    (hintent : p.intent = d.lastEmittedIntent) (foreground : Option String) :
    (p.hears (d.settleIntent { foreground := foreground })).Inv := by
  obtain ⟨hanchor, htold, hkept⟩ := status_statusIfChanged p.status hstatus
  obtain ⟨hnext, hlatched, hkept'⟩ :=
    @intent_intentIfChanged τ d.statusIfChanged.2 p.intent (hintent.trans hkept.symm)
  obtain ⟨hsame, hsame'⟩ := @anchors_retireTitleIfAgentGone τ d.statusIfChanged.2.intentIfChanged.2
  have hstate : d.SameState (d.settleIntent { foreground := foreground }).2 :=
    (sameState_statusIfChanged.trans sameState_intentIfChanged).trans sameState_retireTitleIfAgentGone
  refine ⟨hstate.sound hd, ?_, fun triple htriple => ?_, ?_, ?_⟩
  · exact htold.trans (hsame.trans (hkept'.trans hanchor)).symm
  · exact (Option.some.inj (htriple.symm.trans htold)).trans hstate.triple.symm
  · exact hnext.trans hsame'.symm
  · have htellsNow : d.statusIfChanged.2.sessionIntent = d.sessionIntent := sameState_statusIfChanged.intent
    have hanswer : (p.hears (d.settleIntent { foreground := foreground })).intent.getD ""
        = d.statusIfChanged.2.sessionIntent.getD "" := (congrArg (·.getD "") hnext).trans hlatched
    exact (hanswer.trans (congrArg (·.getD "") htellsNow)).trans (congrArg (·.getD "") hstate.intent.symm)

end

/-! ## §4 Calls and runs -/

omit [Clock τ] in
theorem Inv.coherent (h : p.Inv) : p.Coherent where
  status := h.current
  block triple htold hclass := by
    have hkind : p.detector.lastNotificationKind ≠ 0 := by
      intro hzero
      rw [h.current triple htold] at hclass
      simp only [currentTriple, kindByte, hzero] at hclass
      split at hclass <;> exact absurd hclass (by decide)
    exact (h.sound.kind hkind).1
  authority := h.sound.authority
  gone := h.sound.gone
  intent := h.latched

omit [Clock τ] in
theorem Inv.unheard (h : p.Inv) : (p.hears ({}, p.detector)).Inv := h

/-- A signal other than a hook leaves authority and intent in order, where it
does not hand the pane back. -/
theorem sound_weak (hd : d.Sound) (signal : ClaudeSignal) (hopen : d.machine.endsSession signal = false)
    (hquiet : d.hookAuthority = true → (d.machine.beforeWatchdog now signal).overrules now = false) :
    (d.hookAuthority = true → (d.machine.reduce signal now).authoritativeCovered = true) ∧
      ((d.machine.reduce signal now).status = .none → d.sessionIntent = none) := by
  constructor
  · intro hauthority
    rw [ClaudeStatusMachine.reduce_quiet (hquiet hauthority), ClaudeStatusMachine.covered_decayIfDue]
    exact ClaudeStatusMachine.covered_before (hd.authority hauthority) hopen
  · intro hgone
    apply hd.gone
    by_cases halive : d.machine.status = .none
    case pos => exact halive
    case neg => exact absurd hgone (ClaudeStatusMachine.alive_reduce halive hopen)

/-- The tail of a weak fold drops the block's class off a block. -/
theorem sound_clearKindOffBlock (hd : d.Sound) (signal : ClaudeSignal)
    (hopen : d.machine.endsSession signal = false)
    (hquiet : d.hookAuthority = true → (d.machine.beforeWatchdog now signal).overrules now = false) :
    ({ d with machine := d.machine.reduce signal now } : PaneDetector τ).clearKindOffBlock.Sound := by
  obtain ⟨hauthority, hgone⟩ := sound_weak hd signal hopen hquiet
  unfold clearKindOffBlock
  split
  case isTrue => exact ⟨fun hkind => absurd rfl hkind, hauthority, hgone⟩
  case isFalse hblocked => exact ⟨fun hkind => ⟨by simpa using hblocked, (hd.kind hkind).2⟩, hauthority, hgone⟩

/-- A hook that is folded in, and hands nothing back. -/
theorem sound_hook {d' : PaneDetector τ} (haccepts : d.machine.accepts event = true)
    (hquiet : (d.machine.beforeWatchdog now (.hook event)).overrules now = false)
    (hmachine : d'.machine = d.machine.reduce (.hook event) now)
    (hauthority : d'.hookAuthority = decide (d'.machine.status ≠ .none))
    (hkind : d'.lastNotificationKind ≠ 0 → d'.machine.status = .needsPermission)
    (hgone : d'.machine.status = .none → d'.sessionIntent = none) : d'.Sound where
  kind hne := ⟨hkind hne, by simp [hauthority, hkind hne]⟩
  authority hset := by
    have halive : d'.machine.status ≠ .none := by simpa [hauthority] using hset
    have hopen : ∀ id, event ≠ .sessionEnd id := by
      rintro id rfl
      exact halive (hmachine ▸ ClaudeStatusMachine.status_sessionEnd haccepts)
    rw [hmachine, ClaudeStatusMachine.reduce_quiet hquiet, ClaudeStatusMachine.covered_decayIfDue]
    exact ClaudeStatusMachine.covered_apply haccepts hopen
  gone := hgone

omit [Clock τ] in
theorem accepts_reportEvent {m : ClaudeStatusMachine τ} (h : reportEvent state message = some event) :
    m.accepts event = true ∧ ∀ id, event ≠ .sessionEnd id := by
  unfold reportEvent at h
  grind [ClaudeStatusMachine.accepts, ClaudeHookEvent.namedSession, ClaudeHookEvent.sessionId]

theorem Inv.sample (h : p.Inv) {rawName : String} (hkeeps : p.KeepsPane readings (.sample rawName now)) :
    (p.hears (p.detector.sample readings rawName now)).Inv := by
  unfold PaneDetector.sample
  dsimp only
  split
  case isTrue hsuppressed =>
    apply inv_settleIntent
    case hd => exact ⟨h.sound.kind, h.sound.authority, h.sound.gone⟩
    case hstatus => exact h.status
    case hintent => exact h.intent
  case isFalse hheard =>
    have hsuppressed : p.detector.absenceSuppressed readings
        (readings.namesAgent (readings.canonicalName rawName)) (readings.canonicalName rawName) now = false :=
      eq_false_of_ne_true hheard
    cases hpresent : readings.namesAgent (readings.canonicalName rawName) with
    | false =>
      apply inv_settleIntent
      case hd => exact ⟨fun hkind => absurd rfl hkind, fun hset => absurd hset (by simp), fun _ => rfl⟩
      case hstatus => exact h.status
      case hintent => exact h.intent
    | true =>
      have hquiet : p.detector.hookAuthority = true →
          (p.detector.machine.beforeWatchdog now (.processPresent true)).overrules now = false := by
        intro hset
        rw [hpresent] at hsuppressed
        simpa [KeepsPane, handsBack, PaneDetector.signal, hsuppressed, hpresent, hset] using hkeeps
      obtain ⟨hauthority, hgone⟩ := sound_weak h.sound (.processPresent true) rfl hquiet
      apply inv_settleIntent
      case hd =>
        refine ⟨fun hkind => ?_, hauthority, hgone⟩
        obtain ⟨hblocked, hset⟩ := h.sound.kind hkind
        refine ⟨?_, hset⟩
        show (p.detector.machine.reduce (.processPresent true) now).status = .needsPermission
        rw [ClaudeStatusMachine.blocked_present hblocked (hquiet hset)]
        exact hblocked
      case hstatus => exact h.status
      case hintent => exact h.intent

omit [Clock τ] in
/-- What `hook` does first leaves the machine and the anchors alone. -/
theorem heedHook_spec (d : PaneDetector τ) (prompt : Option String) (now : τ) (event : ClaudeHookEvent) :
    (d.heedHook readings prompt now event).machine = d.machine ∧
      (d.heedHook readings prompt now event).lastEmittedStatus = d.lastEmittedStatus ∧
      (d.heedHook readings prompt now event).lastEmittedIntent = d.lastEmittedIntent ∧
      ((∀ id, event ≠ .userPromptSubmit id) → (d.heedHook readings prompt now event).sessionIntent = none ∨
        (d.heedHook readings prompt now event).sessionIntent = d.sessionIntent ∧ ∀ id, event ≠ .sessionEnd id) := by
  cases event with
  | userPromptSubmit id => simp only [heedHook, foldIntent]; grind
  | sessionEnd id => exact ⟨rfl, rfl, rfl, fun _ => .inl rfl⟩
  | _ => exact ⟨rfl, rfl, rfl, fun _ => .inr ⟨rfl, fun id heq => by contradiction⟩⟩

omit [Clock τ] in
theorem blockKind_ne_zero {standing ledger event : UInt8} {blocked : Bool}
    (h : blockKind standing ledger event blocked ≠ 0) : blocked = true := by
  cases blocked with
  | true => rfl
  | false => exact absurd rfl h

theorem Inv.hook (h : p.Inv) {kindByte : UInt8} {prompt : Option String}
    (hkeeps : p.KeepsPane readings (.hook event kindByte prompt now)) :
    (p.hears (p.detector.hook readings event kindByte prompt now)).Inv := by
  unfold PaneDetector.hook
  cases haccepts : p.detector.machine.accepts event with
  | false => exact h.unheard
  | true =>
    have hquiet : (p.detector.machine.beforeWatchdog now (.hook event)).overrules now = false := by
      simpa [KeepsPane, handsBack, PaneDetector.signal, haccepts, ClaudeSignal.isHook] using hkeeps
    obtain ⟨hmachine, hstatus, hintent, hheeds⟩ := @heedHook_spec τ readings p.detector prompt now event
    dsimp only [Bool.not_true, Bool.false_eq_true, if_false]
    apply inv_settleIntent
    case hd =>
      apply sound_hook haccepts hquiet (by rw [hmachine]) rfl
      · intro hkind
        exact of_decide_eq_true (blockKind_ne_zero hkind)
      · intro hgone
        rw [hmachine] at hgone
        by_cases hprompt : ∃ id, event = .userPromptSubmit id
        case pos =>
          obtain ⟨id, rfl⟩ := hprompt
          exact absurd hgone (ClaudeStatusMachine.alive_prompt haccepts)
        case neg =>
          rcases hheeds fun id heq => hprompt ⟨id, heq⟩ with hnone | ⟨hsame, hopen⟩
          · exact hnone
          · have hends : p.detector.machine.endsSession (.hook event) = false := by
              cases event with
              | sessionEnd id => exact absurd rfl (hopen id)
              | _ => rfl
            refine hsame.trans (h.sound.gone ?_)
            by_cases halive : p.detector.machine.status = .none
            case pos => exact halive
            case neg => exact absurd hgone (ClaudeStatusMachine.alive_reduce halive hends)
    case hstatus => exact h.status.trans hstatus.symm
    case hintent => exact h.intent.trans hintent.symm

theorem Inv.report (h : p.Inv) (hkeeps : p.KeepsPane readings (.report state message now)) :
    (p.hears (p.detector.report state message now)).Inv := by
  unfold PaneDetector.report
  cases hevent : reportEvent state message with
  | none => exact h.unheard
  | some event =>
    have hquiet : (p.detector.machine.beforeWatchdog now (.hook event)).overrules now = false := by
      simpa [KeepsPane, handsBack, PaneDetector.signal, hevent, ClaudeSignal.isHook] using hkeeps
    obtain ⟨haccepts, hopen⟩ := accepts_reportEvent (m := p.detector.machine) hevent
    have hends : p.detector.machine.endsSession (.hook event) = false := by
      cases event with
      | sessionEnd id => exact absurd rfl (hopen id)
      | _ => rfl
    apply inv_settle
    case hd =>
      apply sound_hook haccepts hquiet rfl rfl
      · intro hkind
        dsimp only at hkind
        split at hkind
        case isTrue hblocked => exact hblocked
        case isFalse => exact absurd rfl hkind
      · intro hgone
        apply h.sound.gone
        by_cases halive : p.detector.machine.status = .none
        case pos => exact halive
        case neg => exact absurd hgone (ClaudeStatusMachine.alive_reduce halive hends)
    case hstatus => exact h.status
    case hintent => exact h.intent
    case hlatched => exact h.latched

omit [Clock τ] in
theorem anchors_clearKindOffBlock : d.clearKindOffBlock.machine = d.machine ∧
    d.clearKindOffBlock.lastEmittedStatus = d.lastEmittedStatus ∧
    d.clearKindOffBlock.lastEmittedIntent = d.lastEmittedIntent ∧
    d.clearKindOffBlock.sessionIntent = d.sessionIntent := by
  unfold clearKindOffBlock
  split <;> exact ⟨rfl, rfl, rfl, rfl⟩

omit [Clock τ] in
/-- A fold that opens no stream on a pane nothing was told of. -/
theorem inv_silent (hd : d.Sound) (hstatus : p.status = d.lastEmittedStatus)
    (hintent : p.intent = d.lastEmittedIntent) (hlatched : p.intent.getD "" = d.sessionIntent.getD "")
    (hnever : d.lastEmittedStatus.isNone = true) : (p.hears ({}, d)).Inv where
  sound := hd
  status := hstatus
  current triple htold := by
    have hnone : p.status = none := hstatus.trans (Option.isNone_iff_eq_none.mp hnever)
    exact absurd (htold.symm.trans hnone) (by simp)
  intent := hintent
  latched := hlatched

theorem Inv.tick (h : p.Inv) (hkeeps : p.KeepsPane readings (.tick now)) :
    (p.hears (p.detector.tick now)).Inv := by
  have hquiet : p.detector.hookAuthority = true →
      (p.detector.machine.beforeWatchdog now .tick).overrules now = false := by
    intro hset
    simpa [KeepsPane, handsBack, PaneDetector.signal, hset] using hkeeps
  obtain ⟨_, hstatus, hintent, hlatched⟩ :=
    @anchors_clearKindOffBlock τ { p.detector with machine := p.detector.machine.reduce .tick now }
  apply inv_settle (sound_clearKindOffBlock h.sound .tick rfl hquiet)
  · exact h.status.trans hstatus.symm
  · exact h.intent.trans hintent.symm
  · exact h.latched.trans (congrArg (·.getD "") hlatched.symm)

theorem Inv.screen (h : p.Inv) {detection : AgentScreenDetection}
    (hkeeps : p.KeepsPane readings (.screen detection now)) :
    (p.hears (p.detector.screen detection now)).Inv := by
  have hquiet : p.detector.hookAuthority = true →
      (p.detector.machine.beforeWatchdog now (.screen detection)).overrules now = false := by
    intro hset
    simpa [KeepsPane, handsBack, PaneDetector.signal, hset] using hkeeps
  obtain ⟨_, hstatus, hintent, hlatched⟩ :=
    @anchors_clearKindOffBlock τ { p.detector with machine := p.detector.machine.reduce (.screen detection) now }
  have hsound := sound_clearKindOffBlock h.sound (.screen detection) rfl hquiet
  unfold PaneDetector.screen
  dsimp only
  split
  case isTrue hnever =>
    exact inv_silent hsound (h.status.trans hstatus.symm) (h.intent.trans hintent.symm)
      (h.latched.trans (congrArg (·.getD "") hlatched.symm)) (Bool.and_eq_true_iff.mp hnever).2
  case isFalse =>
    apply inv_settle hsound
    · exact h.status.trans hstatus.symm
    · exact h.intent.trans hintent.symm
    · exact h.latched.trans (congrArg (·.getD "") hlatched.symm)

omit [Clock τ] in
/-- A title names the work of an agent that is there, and nobody else's. -/
theorem heedTitle_spec (hd : d.Sound) (title : String) :
    (d.heedTitle readings title).Sound ∧ (d.heedTitle readings title).machine = d.machine ∧
      (d.heedTitle readings title).lastEmittedStatus = d.lastEmittedStatus ∧
      (d.heedTitle readings title).lastEmittedIntent = d.lastEmittedIntent ∧
      (d.machine.status = .none → d.heedTitle readings title = d) := by
  unfold heedTitle
  split
  case isTrue halive =>
    exact ⟨⟨hd.kind, hd.authority, fun hgone => absurd hgone halive⟩, rfl, rfl, rfl, fun hgone => absurd hgone halive⟩
  case isFalse => exact ⟨hd, rfl, rfl, rfl, fun _ => rfl⟩

theorem Inv.title (h : p.Inv) {title : String} (hkeeps : p.KeepsPane readings (.title title now)) :
    (p.hears (p.detector.title readings title now)).Inv := by
  have hquiet : p.detector.hookAuthority = true →
      (p.detector.machine.beforeWatchdog now (.oscTitle title)).overrules now = false := by
    intro hset
    simpa [KeepsPane, handsBack, PaneDetector.signal, hset] using hkeeps
  obtain ⟨_, hstatus, hintent, hlatched⟩ :=
    @anchors_clearKindOffBlock τ { p.detector with machine := p.detector.machine.reduce (.oscTitle title) now }
  have hcleared := sound_clearKindOffBlock h.sound (.oscTitle title) rfl hquiet
  obtain ⟨hsound, hmachine, hstatus', hintent', hshell⟩ := @heedTitle_spec τ _ readings hcleared title
  unfold PaneDetector.title
  dsimp only
  split
  case isTrue hnever =>
    obtain ⟨hgone, hnever⟩ := Bool.and_eq_true_iff.mp hnever
    rw [hshell (hmachine ▸ of_decide_eq_true hgone)] at hnever ⊢
    exact inv_silent hcleared (h.status.trans hstatus.symm) (h.intent.trans hintent.symm)
      (h.latched.trans (congrArg (·.getD "") hlatched.symm)) hnever
  case isFalse =>
    apply inv_settleIntent hsound
    · exact h.status.trans (hstatus'.trans hstatus).symm
    · exact h.intent.trans (hintent'.trans hintent).symm

theorem Inv.userInput (h : p.Inv) {bytes : List UInt8}
    (hkeeps : p.KeepsPane readings (.userInput bytes now)) :
    (p.hears (p.detector.userInput readings bytes now)).Inv := by
  unfold PaneDetector.userInput
  split
  case isTrue => exact h.unheard
  case isFalse hcancels =>
    have hquiet : p.detector.hookAuthority = true →
        (p.detector.machine.beforeWatchdog now .userInput).overrules now = false := by
      intro hset
      simp only [Bool.or_eq_true, decide_eq_true_eq, not_or, Bool.not_eq_true', Decidable.not_not,
        Bool.not_eq_false] at hcancels
      simpa [KeepsPane, handsBack, PaneDetector.signal, hset, hcancels.1, hcancels.2] using hkeeps
    have hsound := sound_clearKindOffBlock h.sound .userInput rfl hquiet
    obtain ⟨_, hstatus, hintent, hlatched⟩ :=
      @anchors_clearKindOffBlock τ { p.detector with machine := p.detector.machine.reduce .userInput now }
    obtain ⟨hanchor, htold, hkept⟩ := status_statusIfChanged p.status (h.status.trans hstatus.symm)
    have hstate := @sameState_statusIfChanged τ
      ({ p.detector with machine := p.detector.machine.reduce .userInput now }).clearKindOffBlock
    refine ⟨hstate.sound hsound, ?_, fun triple htriple => ?_, ?_, ?_⟩
    · exact htold.trans hanchor.symm
    · exact (Option.some.inj (htriple.symm.trans htold)).trans hstate.triple.symm
    · exact h.intent.trans (hkept.trans hintent).symm
    · exact h.latched.trans (congrArg (·.getD "") (hstate.intent.trans hlatched).symm)

omit [Clock τ] in
theorem Inv.reestablish (h : p.Inv) : (p.hears p.detector.reestablishOnReattach).Inv where
  sound := ⟨h.sound.kind, h.sound.authority, h.sound.gone⟩
  status := by
    simp only [hears, reestablishOnReattach, h.status]
    cases p.detector.lastEmittedStatus <;> rfl
  current triple htold := by
    simp only [hears, reestablishOnReattach, h.status] at htold
    cases hanchor : p.detector.lastEmittedStatus with
    | none => simp [hanchor] at htold
    | some last =>
      simp only [hanchor, Option.map_some, Option.some_or] at htold
      exact (Option.some.inj htold).symm
  intent := by
    simp only [hears, reestablishOnReattach, h.intent]
    cases p.detector.lastEmittedIntent <;> rfl
  latched := by
    have hlatched := h.latched
    simp only [hears, reestablishOnReattach, h.intent] at hlatched ⊢
    cases hanchor : p.detector.lastEmittedIntent with
    | none => simpa [hanchor] using hlatched
    | some last => rfl

theorem Inv.step (h : p.Inv) {call : DetectorCall τ} (hkeeps : p.KeepsPane readings call) :
    (p.step readings call).Inv := by
  have hstep : p.step readings call = p.hears (p.detector.call readings call) := rfl
  rw [hstep]
  cases call with
  | sample rawName now => exact h.sample hkeeps
  | hook event kindByte prompt now => exact h.hook hkeeps
  | report state message now => exact h.report hkeeps
  | tick now => exact h.tick hkeeps
  | screen detection now => exact h.screen hkeeps
  | title title now => exact h.title hkeeps
  | userInput bytes now => exact h.userInput hkeeps
  | reestablishOnReattach => exact h.reestablish

theorem inv_start (doneToIdleTimeout : τ) : (start doneToIdleTimeout).Inv where
  sound := ⟨fun hkind => absurd rfl hkind, fun hset => by contradiction, fun _ => rfl⟩
  status := rfl
  current triple htold := by contradiction
  intent := rfl
  latched := rfl

/-- Over a run in which no pane is handed back to the screen in a hook, or
while the agent's notifications are held back, what the clients were told
stays coherent. -/
theorem told_coherently (readings : Readings) (doneToIdleTimeout : τ) (calls : List (DetectorCall τ))
    (h : Meets (step readings) (KeepsPane readings) (start doneToIdleTimeout) calls) :
    Throughout (step readings) Coherent (start doneToIdleTimeout) calls := by
  have hinv := h.throughout Inv (fun _ _ hkeeps hp => hp.step hkeeps) (inv_start doneToIdleTimeout)
  exact hinv.imp fun _ hp => hp.coherent

/-- Readers that know the name `claude` and the escape key. -/
def plainReadings : Readings where
  canonicalName name := name
  namesAgent name := name = "claude"
  isLikelyWrapper _ := false
  intentLine prompt := if prompt.isEmpty then none else some prompt
  topicLine _ := none
  containsCancelKeystroke bytes := bytes.contains 0x1B

/-- A turn, and a question in it that is cancelled. -/
theorem told_coherently_once :
    Throughout (step plainReadings) Coherent (start (8 : Int))
      [.sample "claude" 0, .hook (.userPromptSubmit (some "session")) 0 (some "mend it") 1,
        .hook (.notification .permission none (some "call") (some "session")) 1 none 2, .userInput [0x1B] 3] :=
  told_coherently plainReadings 8 _
    (meets_of_decide (fun _ _ => inferInstanceAs (Decidable (_ = false))) (by decide +kernel))

/-- The screen takes a question back at a sample: the pane works under the
class of its block, and its notifications are held back with no feed. -/
theorem handed_back_untold :
    ¬ Throughout (step plainReadings) Coherent (start (8 : Int))
      [.hook (.notification .permission none (some "call") (some "session")) 1 none 0,
        .screen ⟨.working, false, false⟩ 2, .sample "claude" 12] := by
  intro h
  have hlast := h.last
  have hblock := hlast.block ⟨3, 1, ""⟩ (by decide) (.inl rfl)
  revert hblock
  decide

end Told

end SlopDesk.Agent
