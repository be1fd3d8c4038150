/-
SlopDesk.Agent.Detector — what the host tells its clients of an agent
(`slopdesk-agent`: `detector.rs`).

One machine, fed by every input the host has, and the anchors that say what
was told last. How a name, a prompt, a title or a keystroke reads is a
parameter (`Readings`): nothing here depends on it, and every result holds
whatever the readers answer. The length of the blocked turn's label and of an
intent is the readers' and the machine's affair.
-/
import SlopDesk.Agent.Machine

namespace SlopDesk.Agent

/-- The readers of text that a detector calls. -/
structure Readings where
  /-- `canonical_name`. -/
  canonicalName : String → String
  /-- `is_claude_running`, or `AgentKind::identify` finds an agent. -/
  namesAgent : String → Bool
  /-- `is_likely_wrapper`. -/
  isLikelyWrapper : String → Bool
  /-- `intent_line`. -/
  intentLine : String → Option String
  /-- `topic_line`. -/
  topicLine : String → Option String
  /-- `contains_cancel_keystroke`. -/
  containsCancelKeystroke : List UInt8 → Bool

def ClaudeStatus.urgency : ClaudeStatus → UInt8
  | .none => 0
  | .idle => 1
  | .done => 2
  | .working => 3
  | .needsPermission => 4

inductive AgentStatusKind where
  | none | permission | waitingForInput | other | quiet
  deriving DecidableEq, Repr

def AgentStatusKind.wireByte : AgentStatusKind → UInt8
  | .none => 0
  | .permission => 1
  | .waitingForInput => 2
  | .other => 3
  | .quiet => 4

namespace ClaudeStatusMachine

variable {τ : Type}

def displayLabel (m : ClaudeStatusMachine τ) : Option String := m.label.filter fun label => !label.isEmpty

def standingBlockKind (m : ClaudeStatusMachine τ) : UInt8 :=
  if m.status ≠ .needsPermission then AgentStatusKind.none.wireByte
  else
    match m.blockLedger.getLast?.map BlockEntry.kind with
    | some .permission => AgentStatusKind.permission.wireByte
    | some .ask => AgentStatusKind.waitingForInput.wireByte
    | none => AgentStatusKind.none.wireByte

def titleIsAgentWritten (title : String) : Bool :=
  titleShowsSpinner title || titleShowsRest title || titleNamesClaude title

end ClaudeStatusMachine

structure StatusTriple where
  state : UInt8
  kind : UInt8
  label : String
  deriving DecidableEq, Repr

structure Emission where
  foreground : Option String := none
  status : Option StatusTriple := none
  intent : Option String := none
  titleRetired : Bool := false
  deriving DecidableEq, Repr

structure PaneDetector (τ : Type) where
  machine : ClaudeStatusMachine τ
  lastEmittedName : Option String
  lastEmittedStatus : Option StatusTriple
  lastAuthoritativeAt : Option τ
  hookAuthority : Bool
  lastNotificationKind : UInt8
  intentSessionId : Option String
  sessionIntent : Option String
  lastEmittedIntent : Option String
  agentOwnsTitle : Bool

/-- `REPORT_GRACE_WINDOW`. -/
def reportGraceWindow {τ : Type} [Clock τ] : τ := Clock.seconds 30

/-- `WRAPPER_SUPPRESSION_WINDOW`. -/
def wrapperSuppressionWindow {τ : Type} [Clock τ] : τ := Clock.seconds 600

def blockKind (standing ledger event : UInt8) (blocked : Bool) : UInt8 :=
  if !blocked then 0
  else if ledger ≠ 0 then ledger
  else if event = 1 || event = 2 then event
  else standing

namespace PaneDetector

variable {τ : Type} [Clock τ]

def new (doneToIdleTimeout : τ) : PaneDetector τ where
  machine := .new doneToIdleTimeout
  lastEmittedName := none
  lastEmittedStatus := none
  lastAuthoritativeAt := none
  hookAuthority := false
  lastNotificationKind := 0
  intentSessionId := none
  sessionIntent := none
  lastEmittedIntent := none
  agentOwnsTitle := false

/-! ### What is owed -/

section
omit [Clock τ]

def suppressesChildNotifications (d : PaneDetector τ) : Bool := d.hookAuthority

def kindByte (d : PaneDetector τ) : UInt8 :=
  if d.machine.isQuiet then AgentStatusKind.quiet.wireByte else d.lastNotificationKind

def currentTriple (d : PaneDetector τ) : StatusTriple where
  state := d.machine.status.urgency
  kind := d.kindByte
  label := d.machine.displayLabel.getD ""

def statusIfChanged (d : PaneDetector τ) : Option StatusTriple × PaneDetector τ :=
  if some d.currentTriple = d.lastEmittedStatus then (none, d)
  else (some d.currentTriple, { d with lastEmittedStatus := some d.currentTriple })

def intentIfChanged (d : PaneDetector τ) : Option String × PaneDetector τ :=
  let current := d.sessionIntent.getD ""
  if current = d.lastEmittedIntent.getD "" then (none, d)
  else (some current, { d with lastEmittedIntent := some current })

def retireTitleIfAgentGone (d : PaneDetector τ) : Bool × PaneDetector τ :=
  if !d.agentOwnsTitle || d.machine.status ≠ .none then (false, d)
  else (true, { d with agentOwnsTitle := false })

def clearKindOffBlock (d : PaneDetector τ) : PaneDetector τ :=
  if d.machine.status ≠ .needsPermission then { d with lastNotificationKind := 0 } else d

def foldIntent (readings : Readings) (d : PaneDetector τ) (sessionId : Option String) (prompt : String) :
    PaneDetector τ :=
  let d := if sessionId ≠ d.intentSessionId then
      { d with intentSessionId := sessionId, sessionIntent := none } else d
  match readings.intentLine prompt with
  | some line => { d with sessionIntent := some line }
  | none => d

/-- The end of a fold that owes a status and a title's retirement. -/
def settle (d : PaneDetector τ) (emission : Emission) : Emission × PaneDetector τ :=
  let (status, d) := d.statusIfChanged
  let (titleRetired, d) := d.retireTitleIfAgentGone
  ({ emission with status := status, titleRetired := titleRetired }, d)

/-- The end of a fold that owes an intent as well. -/
def settleIntent (d : PaneDetector τ) (emission : Emission) : Emission × PaneDetector τ :=
  let (status, d) := d.statusIfChanged
  let (intent, d) := d.intentIfChanged
  let (titleRetired, d) := d.retireTitleIfAgentGone
  ({ emission with status := status, intent := intent, titleRetired := titleRetired }, d)

end

/-! ### The inputs -/

def absenceSuppressed (readings : Readings) (d : PaneDetector τ) (present : Bool) (base : String) (now : τ) : Bool :=
  if present then false
  else
    match d.lastAuthoritativeAt with
    | none => false
    | some authoritativeAt =>
      let elapsed := Clock.sub now authoritativeAt
      if Clock.lt (Clock.min elapsed reportGraceWindow) reportGraceWindow
          && Clock.le (Clock.seconds 0) elapsed then true
      else d.hookAuthority && readings.isLikelyWrapper base
        && Clock.lt (Clock.min elapsed wrapperSuppressionWindow) wrapperSuppressionWindow
        && Clock.le (Clock.seconds 0) elapsed

def sample (readings : Readings) (d : PaneDetector τ) (rawName : String) (now : τ) : Emission × PaneDetector τ :=
  let base := readings.canonicalName rawName
  let emission : Emission := { foreground := if d.lastEmittedName ≠ some base then some base else none }
  let d := { d with lastEmittedName := some base }
  let present := readings.namesAgent base
  if d.absenceSuppressed readings present base now then d.settleIntent emission
  else
    let d := { d with machine := d.machine.reduce (.processPresent present) now }
    let d := if present then d else
      { d with
        lastNotificationKind := 0
        hookAuthority := false
        lastAuthoritativeAt := none
        intentSessionId := none
        sessionIntent := none }
    d.settleIntent emission

/-- What `hook` does with the intent and the stickiness anchor. -/
def heedHook (readings : Readings) (d : PaneDetector τ) (prompt : Option String) (now : τ) :
    ClaudeHookEvent → PaneDetector τ
  | .userPromptSubmit sessionId =>
    { d.foldIntent readings sessionId (prompt.getD "") with lastAuthoritativeAt := some now }
  | .sessionEnd _ => { d with intentSessionId := none, sessionIntent := none, lastAuthoritativeAt := none }
  | _ => { d with lastAuthoritativeAt := some now }

def hook (readings : Readings) (d : PaneDetector τ) (event : ClaudeHookEvent) (kindByte : UInt8)
    (prompt : Option String) (now : τ) : Emission × PaneDetector τ :=
  if !d.machine.accepts event then ({}, d)
  else
    let d := d.heedHook readings prompt now event
    let machine := d.machine.reduce (.hook event) now
    let d := { d with
      machine := machine
      hookAuthority := machine.status ≠ ClaudeStatus.none
      lastNotificationKind := blockKind d.lastNotificationKind machine.standingBlockKind kindByte
        (machine.status = ClaudeStatus.needsPermission) }
    d.settleIntent {}

/-- The event a ctl state token stands for. -/
def reportEvent (state : String) (message : Option String) : Option ClaudeHookEvent :=
  if state = "working" then some (.userPromptSubmit none)
  else if state = "blocked" then some (.notification .permission message none none)
  else if state = "done" then some (.stop none message)
  else if state = "idle" then some (.sessionStart none)
  else none

def report (d : PaneDetector τ) (state : String) (message : Option String) (now : τ) : Emission × PaneDetector τ :=
  match reportEvent state message with
  | none => ({}, d)
  | some event =>
    let machine := d.machine.reduce (.hook event) now
    let d := { d with
      lastAuthoritativeAt := some now
      machine := machine
      hookAuthority := machine.status ≠ ClaudeStatus.none
      lastNotificationKind := if machine.status = ClaudeStatus.needsPermission then 1 else 0 }
    d.settle {}

def tick (d : PaneDetector τ) (now : τ) : Emission × PaneDetector τ :=
  let d := { d with machine := d.machine.reduce .tick now }
  d.clearKindOffBlock.settle {}

def screen (d : PaneDetector τ) (detection : AgentScreenDetection) (now : τ) : Emission × PaneDetector τ :=
  let d := { d with machine := d.machine.reduce (.screen detection) now }
  let d := d.clearKindOffBlock
  if d.machine.status = .none && d.lastEmittedStatus.isNone then ({}, d) else d.settle {}

/-- What a title leaves with a detected agent. -/
def heedTitle (readings : Readings) (d : PaneDetector τ) (title : String) : PaneDetector τ :=
  if d.machine.status ≠ .none then
    { d with
      sessionIntent := (readings.topicLine title).or d.sessionIntent
      agentOwnsTitle := ClaudeStatusMachine.titleIsAgentWritten title || d.agentOwnsTitle }
  else d

def title (readings : Readings) (d : PaneDetector τ) (title : String) (now : τ) : Emission × PaneDetector τ :=
  let d := { d with machine := d.machine.reduce (.oscTitle title) now }
  let d := d.clearKindOffBlock.heedTitle readings title
  if d.machine.status = .none && d.lastEmittedStatus.isNone then ({}, d) else d.settleIntent {}

def userInput (readings : Readings) (d : PaneDetector τ) (bytes : List UInt8) (now : τ) :
    Emission × PaneDetector τ :=
  if d.machine.status ≠ .needsPermission || !readings.containsCancelKeystroke bytes then ({}, d)
  else
    let d := { d with machine := d.machine.reduce .userInput now }
    let (status, d) := d.clearKindOffBlock.statusIfChanged
    ({ status := status }, d)

omit [Clock τ] in
def reestablishOnReattach (d : PaneDetector τ) : Emission × PaneDetector τ :=
  let status := d.lastEmittedStatus.map fun _ => d.currentTriple
  let intent := d.lastEmittedIntent.map fun _ => d.sessionIntent.getD ""
  ({ foreground := d.lastEmittedName, status := status, intent := intent },
    { d with lastEmittedStatus := status, lastEmittedIntent := intent })

end PaneDetector

end SlopDesk.Agent
