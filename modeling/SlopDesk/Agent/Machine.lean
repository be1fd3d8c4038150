/-
SlopDesk.Agent.Machine — the per-pane agent status (`slopdesk-agent`:
`status.rs`, `signal.rs`, `screen.rs`, `machine.rs`, `attention.rs`).

One fold over every signal about the agent in a pane: hooks, the terminal
title, the screen engine's verdicts, the process watch, cancel keys and
ticks. Every call takes the time from its caller. What the machine asks of
the clock is a class here, with no law: the code's `f64` is one such clock,
with its NaN and its rounding, and whole seconds are another.

Left out are fields nothing here reads: a tool's name, a subagent's id, and
of a screen verdict the rule it matched and its other `visible` flags.
-/
namespace SlopDesk.Agent

/-- The clock's arithmetic, as the machine uses it. -/
class Clock (τ : Type) where
  /-- Whole and non-negative seconds. -/
  seconds : Nat → τ
  add : τ → τ → τ
  sub : τ → τ → τ
  min : τ → τ → τ
  max : τ → τ → τ
  lt : τ → τ → Bool
  le : τ → τ → Bool

/-- Whole seconds. -/
instance : Clock Int where
  seconds n := n
  add := (· + ·)
  sub := (· - ·)
  min := Min.min
  max := Max.max
  lt a b := a < b
  le a b := a ≤ b

/-! ## Statuses -/

inductive ClaudeStatus where
  | none | idle | working | done | needsPermission
  deriving DecidableEq, Repr

def isCompletion (previous current : ClaudeStatus) : Bool :=
  match current, previous with
  | .idle, .working | .idle, .needsPermission => true
  | _, _ => false

def mintsFinishedTurn (previous current : ClaudeStatus) : Bool :=
  if current = .done then previous ≠ .done else isCompletion previous current

/-! ## Signals -/

inductive NotificationKind where
  | permission | waitingForInput | other
  deriving DecidableEq, Repr

inductive ClaudeHookEvent where
  | sessionStart (sessionId : Option String)
  | userPromptSubmit (sessionId : Option String)
  | preToolUse (sessionId toolUseId : Option String)
  | postToolUse (sessionId toolUseId : Option String)
  | notification (kind : NotificationKind) (label toolUseId sessionId : Option String)
  | stop (sessionId label : Option String)
  | subagentStop
  | interrupted (sessionId : Option String)
  | sessionEnd (sessionId : Option String)
  | preCompact (sessionId : Option String)
  deriving DecidableEq, Repr

namespace ClaudeHookEvent

def sessionId : ClaudeHookEvent → Option String
  | .sessionStart id | .userPromptSubmit id | .sessionEnd id | .interrupted id | .preCompact id
  | .preToolUse id _ | .postToolUse id _ | .stop id _ | .notification _ _ _ id => id
  | .subagentStop => none

/-- The session an event names: an empty id names none. -/
def namedSession (event : ClaudeHookEvent) : Option String :=
  event.sessionId.filter fun id => !id.isEmpty

def isSessionStart : ClaudeHookEvent → Bool
  | .sessionStart _ => true
  | _ => false

def isPreCompact : ClaudeHookEvent → Bool
  | .preCompact _ => true
  | _ => false

end ClaudeHookEvent

inductive AgentScreenState where
  | idle | working | blocked | unknown
  deriving DecidableEq, Repr

structure AgentScreenDetection where
  state : AgentScreenState
  skipStateUpdate : Bool
  visibleIdle : Bool
  deriving DecidableEq, Repr

inductive ClaudeSignal where
  | hook (event : ClaudeHookEvent)
  | processPresent (present : Bool)
  | manifestVerdict (verdict : ClaudeStatus)
  | oscTitle (title : String)
  | tick
  | screen (detection : AgentScreenDetection)
  | userInput
  deriving DecidableEq, Repr

/-! ## The machine -/

inductive BlockKind where
  | permission | ask
  deriving DecidableEq, Repr

structure BlockEntry where
  toolUseId : Option String
  kind : BlockKind
  deriving DecidableEq, Repr

inductive BlockSource where
  | none | hook | manifest
  deriving DecidableEq, Repr

structure ClaudeStatusMachine (τ : Type) where
  doneToIdleTimeout : τ
  status : ClaudeStatus
  label : Option String
  isQuiet : Bool
  doneSince : Option τ
  blockSource : BlockSource
  blockedSince : Option τ
  exitLockoutUntil : Option τ
  compactionPending : Bool
  blockLedger : List BlockEntry
  authoritativeCovered : Bool
  ownerSessionId : Option String
  screenDissentSince : Option τ
  screenDissent : Option AgentScreenDetection
  deriving DecidableEq

/-- `HOOK_BLOCK_SCREEN_OVERRIDE_GRACE`. -/
def hookBlockScreenOverrideGrace [Clock τ] : τ := Clock.seconds 1

/-- `POST_EXIT_FLOOR_LOCKOUT`. -/
def postExitFloorLockout [Clock τ] : τ := Clock.seconds 3

/-- `SCREEN_DISSENT_TO_RAISE`. -/
def screenDissentToRaise [Clock τ] : τ := Clock.seconds 3

/-- `SCREEN_DISSENT_TO_RELEASE`. -/
def screenDissentToRelease [Clock τ] : τ := Clock.seconds 10

/-- `MAX_LABEL`. -/
def maxLabel : Nat := 120

/-! ### Text -/

/-- `char::is_whitespace`: the scalars of the White_Space property. -/
def isWhitespace (c : Char) : Bool :=
  (0x09 ≤ c.val && c.val ≤ 0x0D) || (0x2000 ≤ c.val && c.val ≤ 0x200A)
    || [0x20, 0x85, 0xA0, 0x1680, 0x2028, 0x2029, 0x202F, 0x205F, 0x3000].contains c.val

def trim (text : List Char) : List Char :=
  ((text.dropWhile isWhitespace).reverse.dropWhile isWhitespace).reverse

def clampLabel (text : String) : String :=
  let trimmed := trim text.toList
  if trimmed.length ≤ maxLabel then .ofList trimmed else .ofList (trimmed.take maxLabel)

def titleShowsSpinner (title : String) : Bool :=
  title.toList.head?.any fun first => 0x2800 ≤ first.val && first.val ≤ 0x28FF

def titleShowsRest (title : String) : Bool :=
  title.toList.head?.any fun first => first.val = 0x2733

def contains (needle : List Char) : List Char → Bool
  | [] => needle.isEmpty
  | c :: cs => needle.isPrefixOf (c :: cs) || contains needle cs

/-- `title_names_claude`. No scalar outside ASCII has one of these letters in
its lower case. -/
def titleNamesClaude (title : String) : Bool :=
  contains "claude".toList (title.toList.map Char.toLower)

namespace ClaudeStatusMachine

variable {τ : Type} [Clock τ]

def new (doneToIdleTimeout : τ) : ClaudeStatusMachine τ where
  doneToIdleTimeout := Clock.max (Clock.seconds 0) doneToIdleTimeout
  status := .none
  label := none
  isQuiet := false
  doneSince := none
  blockSource := .none
  blockedSince := none
  exitLockoutUntil := none
  compactionPending := false
  blockLedger := []
  authoritativeCovered := false
  ownerSessionId := none
  screenDissentSince := none
  screenDissent := none

/-! ### State entry -/

def floorLocked (m : ClaudeStatusMachine τ) (now : τ) : Bool :=
  match m.exitLockoutUntil with
  | none => false
  | some til => Clock.lt (Clock.min now til) til

def clearScreenDissent (m : ClaudeStatusMachine τ) : ClaudeStatusMachine τ :=
  { m with screenDissentSince := none, screenDissent := none }

/-- `enter`, with the two clears it starts with written out. -/
def enter (m : ClaudeStatusMachine τ) (next : ClaudeStatus) (newLabel : Option String)
    (now : Option τ) : ClaudeStatusMachine τ :=
  { m with
    exitLockoutUntil := none
    screenDissentSince := none
    screenDissent := none
    isQuiet := false
    blockSource := .none
    blockedSince := none
    blockLedger := []
    status := next
    label := newLabel.map clampLabel
    doneSince := if next = .done then now else none }

def enterBlocked (m : ClaudeStatusMachine τ) (label : Option String) (source : BlockSource)
    (entry : Option BlockEntry) (now : τ) : ClaudeStatusMachine τ :=
  { m with
    exitLockoutUntil := none
    screenDissentSince := none
    screenDissent := none
    isQuiet := false
    blockedSince := if m.status ≠ .needsPermission then some now else m.blockedSince
    blockLedger := match entry with
      | some entry => if m.blockLedger.contains entry then m.blockLedger else m.blockLedger ++ [entry]
      | none => m.blockLedger
    blockSource := source
    doneSince := none
    status := .needsPermission
    label := match label with
      | some label => some (clampLabel label)
      | none => m.label }

def liftPresenceFloor (m : ClaudeStatusMachine τ) (now : τ) : ClaudeStatusMachine τ :=
  if m.floorLocked now then m
  else if m.status = .none then m.enter .idle none none
  else m

def terminate (m : ClaudeStatusMachine τ) (armLockout : Bool) (now : τ) : ClaudeStatusMachine τ :=
  { m with
    status := .none
    label := none
    doneSince := none
    blockSource := .none
    blockedSince := none
    compactionPending := false
    isQuiet := false
    blockLedger := []
    authoritativeCovered := false
    ownerSessionId := none
    screenDissentSince := none
    screenDissent := none
    exitLockoutUntil :=
      if armLockout then some (Clock.add now postExitFloorLockout) else m.exitLockoutUntil }

def resolveLedger (m : ClaudeStatusMachine τ) (id : Option String) : ClaudeStatusMachine τ :=
  { m with blockLedger := m.blockLedger.filter fun entry =>
    entry.toolUseId.isSome && entry.toolUseId ≠ id }

/-! ### Ownership -/

def turnIsOver (m : ClaudeStatusMachine τ) : Bool :=
  match m.status with
  | .idle | .done | .none => true
  | .working | .needsPermission => false

def accepts (m : ClaudeStatusMachine τ) (event : ClaudeHookEvent) : Bool :=
  match event.namedSession with
  | none => true
  | some id =>
    match m.ownerSessionId with
    | none => true
    | some owner => owner = id || (event.isSessionStart && m.turnIsOver)

def claimOrVerifyOwner (m : ClaudeStatusMachine τ) (event : ClaudeHookEvent) :
    Bool × ClaudeStatusMachine τ :=
  match event.namedSession with
  | none => (m.accepts event, m)
  | some id =>
    match m.ownerSessionId with
    | none => (true, { m with ownerSessionId := some id })
    | some owner =>
      if owner = id then (true, m)
      else if !event.isSessionStart || !m.turnIsOver then (false, m)
      else (true, { m with ownerSessionId := some id })

/-! ### The screen -/

def screenAgrees (m : ClaudeStatusMachine τ) (detection : AgentScreenDetection) : Bool :=
  match detection.state with
  | .unknown => true
  | .blocked => m.status = .needsPermission
  | .working => m.status = .working
  | .idle => m.status = .idle || m.status = .done || m.status = .none

def reconcileScreenDissent (m : ClaudeStatusMachine τ) : ClaudeStatusMachine τ :=
  match m.screenDissent with
  | none => m
  | some dissent => if m.screenAgrees dissent then m.clearScreenDissent else m

def hookBlockOverridable (m : ClaudeStatusMachine τ) (now : τ) : Bool :=
  match m.blockedSince with
  | none => true
  | some since => Clock.le hookBlockScreenOverrideGrace (Clock.sub now since)

def applyScreenVerdict (m : ClaudeStatusMachine τ) (detection : AgentScreenDetection)
    (correcting : Bool) (now : τ) : Bool × ClaudeStatusMachine τ :=
  match detection.state with
  | .unknown => (false, m)
  | .blocked =>
    if m.status = .needsPermission then (false, m)
    else (true, m.enterBlocked none .manifest none now)
  | .working =>
    if m.blockSource = .hook && !m.hookBlockOverridable now then (false, m)
    else if m.status = .working then (false, m)
    else (true, m.enter .working none none)
  | .idle =>
    if m.status = .done then (false, m)
    else if m.blockSource = .hook then
      if !detection.visibleIdle || !m.hookBlockOverridable now then (false, m)
      else (true, { m.enter .idle none none with isQuiet := true })
    else if m.status = .idle then (false, m)
    else if correcting && m.status = .needsPermission then
      (true, { m.enter .idle none none with isQuiet := true })
    else (true, m.enter .idle none none)

/-- How long a verdict has to stand. -/
def dissentWindow (detection : AgentScreenDetection) : τ :=
  if detection.state = .blocked then screenDissentToRaise else screenDissentToRelease

def resolveScreenDissentIfDue (m : ClaudeStatusMachine τ) (now : τ) : ClaudeStatusMachine τ :=
  if !m.authoritativeCovered then m
  else
    match m.screenDissent, m.screenDissentSince with
    | some detection, some since =>
      if Clock.le (dissentWindow detection) (Clock.sub now since) then
        match m.applyScreenVerdict detection true now with
        | (false, m) => m
        | (true, m) =>
          ({ m with authoritativeCovered := false, ownerSessionId := none }).clearScreenDissent
      else m
    | _, _ => m

/-- The stopwatch of `apply_screen`, on a verdict that contradicts. -/
def noteScreenDissent (m : ClaudeStatusMachine τ) (detection : AgentScreenDetection) (now : τ) :
    ClaudeStatusMachine τ :=
  { m with
    screenDissentSince :=
      if m.screenDissent.map AgentScreenDetection.state ≠ some detection.state then some now
      else m.screenDissentSince
    screenDissent := some detection }

def applyScreen (m : ClaudeStatusMachine τ) (detection : AgentScreenDetection) (now : τ) :
    ClaudeStatusMachine τ :=
  if detection.skipStateUpdate then m
  else if m.floorLocked now then m
  else if detection.state = .unknown then m.clearScreenDissent
  else if !m.authoritativeCovered then (m.applyScreenVerdict detection false now).2
  else if m.screenAgrees detection then m.clearScreenDissent
  else (m.noteScreenDissent detection now).resolveScreenDissentIfDue now

/-! ### The fold -/

def applyTitle (m : ClaudeStatusMachine τ) (title : String) (now : τ) : ClaudeStatusMachine τ :=
  if titleShowsSpinner title then
    let stale := m.authoritativeCovered && m.status = .done
    if m.status ≠ .none && m.blockSource ≠ .hook && !stale then m.enter .working none none else m
  else if titleShowsRest title then
    if m.status = .working then m.enter .idle none none else m
  else if titleNamesClaude title then m.liftPresenceFloor now
  else m

def applyManifest (m : ClaudeStatusMachine τ) (verdict : ClaudeStatus) (now : τ) :
    ClaudeStatusMachine τ :=
  if m.floorLocked now then m
  else
    match verdict with
    | .none => m
    | .needsPermission => m.enterBlocked m.label .manifest none now
    | .working => if m.blockSource ≠ .hook then m.enter .working none none else m
    | .idle =>
      if m.blockSource ≠ .hook && m.status = .none then m.enter .idle none none else m
    | .done => if m.blockSource ≠ .hook then m.enter .done m.label (some now) else m

/-- The `match` of `apply`. -/
def applyEvent (m : ClaudeStatusMachine τ) (compactionEnded : Bool) (now : τ) :
    ClaudeHookEvent → ClaudeStatusMachine τ
  | .preCompact _ => ({ m with compactionPending := true }).liftPresenceFloor now
  | .sessionStart _ => m.enter .idle none none
  | .userPromptSubmit _ => m.enter .working none none
  | .preToolUse _ toolUseId | .postToolUse _ toolUseId =>
    let m := m.resolveLedger toolUseId
    if m.blockLedger.isEmpty then m.enter .working none none else m
  | .notification .permission label toolUseId _ =>
    m.enterBlocked label .hook (some ⟨toolUseId, .permission⟩) now
  | .notification .waitingForInput label toolUseId _ =>
    m.enterBlocked label .hook (some ⟨toolUseId, .ask⟩) now
  | .notification .other _ _ _ => m.liftPresenceFloor now
  | .stop _ label =>
    if compactionEnded then { m.enter .idle none none with isQuiet := true }
    else m.enter .done label (some now)
  | .subagentStop => m
  | .interrupted _ => { m.enter .idle none none with isQuiet := true }
  | .sessionEnd _ => m.terminate true now

def apply (m : ClaudeStatusMachine τ) (event : ClaudeHookEvent) (now : τ) : ClaudeStatusMachine τ :=
  match m.claimOrVerifyOwner event with
  | (false, m) => m
  | (true, m) =>
    let compactionEnded := m.compactionPending
    let m := { m with
      authoritativeCovered := true
      compactionPending := if event.isPreCompact then m.compactionPending else false }
    (m.applyEvent compactionEnded now event).reconcileScreenDissent

def decayIfDue (m : ClaudeStatusMachine τ) (now : τ) : ClaudeStatusMachine τ :=
  if m.status ≠ .done then m
  else
    match m.doneSince with
    | none => m
    | some since =>
      if Clock.le m.doneToIdleTimeout (Clock.sub now since) then m.enter .idle none none else m

/-- The `match` of `reduce`. -/
def hear (m : ClaudeStatusMachine τ) (signal : ClaudeSignal) (now : τ) : ClaudeStatusMachine τ :=
  match signal with
  | .processPresent true => m.liftPresenceFloor now
  | .processPresent false => m.terminate false now
  | .hook event => m.apply event now
  | .manifestVerdict verdict => m.applyManifest verdict now
  | .screen detection => m.applyScreen detection now
  | .oscTitle title => m.applyTitle title now
  | .tick => m
  | .userInput =>
    if m.status = .needsPermission then { m.enter .idle none none with isQuiet := true } else m

/-- `reduce`: the signal, then what the clock has made due. -/
def reduce (m : ClaudeStatusMachine τ) (signal : ClaudeSignal) (now : τ) : ClaudeStatusMachine τ :=
  ((m.hear signal now).resolveScreenDissentIfDue now).decayIfDue now

end ClaudeStatusMachine

end SlopDesk.Agent
