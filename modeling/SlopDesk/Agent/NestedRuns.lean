/-
SlopDesk.Agent.NestedRuns — a nested agent in its parent's pane.

A session owns the pane and has calls open; another session, run by one of
them, posts its hooks to the same pane. §1 says which runs these are, §2
which signals set the pane at rest or free it under its owner, and §3 shows
that no other run lets the nested session in (`nested_touches_nothing`).
-/
import SlopDesk.Agent.MachineTheorems

namespace SlopDesk.Agent

open SlopDesk.Base

variable {τ : Type} [Clock τ]

/-! ## §1 The runs -/

/-- A machine, and the calls its owner has open. -/
structure Pane (τ : Type) where
  machine : ClaudeStatusMachine τ
  openCalls : List (Option String)

/-- A hook of another session. A subagent's names none. -/
def ClaudeHookEvent.isForeign (session : String) (event : ClaudeHookEvent) : Bool :=
  event = .subagentStop || event.namedSession.any (· ≠ session)

/-- A hook of `session` about a call: it starts, or it is open. A block can
be raised in place of the start. -/
def ClaudeHookEvent.isOfCall (session : String) (openCalls : List (Option String)) :
    ClaudeHookEvent → Bool
  | .preToolUse id _ => id = some session
  | .postToolUse id call => id = some session && openCalls.contains call
  | .notification kind _ call id =>
    id = some session && call.isSome && (kind ≠ .other || openCalls.contains call)
  | _ => false

/-- A signal such a run is made of. Nothing foreign is heard while no call is
open, and no cancel key and no absence at all. -/
def Pane.Admits (session : String) (p : Pane τ) : ClaudeSignal → Bool
  | .hook event =>
    (event.isForeign session && !p.openCalls.isEmpty) || event.isOfCall session p.openCalls
  | .processPresent present => present
  | .userInput => false
  | .manifestVerdict _ | .oscTitle _ | .tick | .screen _ => true

/-- The calls open after a signal. -/
def callsAfter (session : String) (openCalls : List (Option String)) :
    ClaudeSignal → List (Option String)
  | .hook (.preToolUse id call) => if id = some session then call :: openCalls else openCalls
  | .hook (.postToolUse id call) => if id = some session then openCalls.erase call else openCalls
  | .hook (.notification kind _ call id) =>
    if id = some session && kind ≠ .other && !openCalls.contains call then call :: openCalls
    else openCalls
  | _ => openCalls

def Pane.step (session : String) (p : Pane τ) (heard : ClaudeSignal × τ) : Pane τ where
  machine := p.machine.reduce heard.1 heard.2
  openCalls := callsAfter session p.openCalls heard.1

/-- Status, label, block ledger, coverage and owner are as they were. -/
structure Untouched (m m' : ClaudeStatusMachine τ) : Prop where
  status : m'.status = m.status
  label : m'.label = m.label
  blockLedger : m'.blockLedger = m.blockLedger
  authoritativeCovered : m'.authoritativeCovered = m.authoritativeCovered
  ownerSessionId : m'.ownerSessionId = m.ownerSessionId

/-! ## §2 What sets a pane at rest -/

namespace ClaudeStatusMachine

variable {m : ClaudeStatusMachine τ} {now : τ}
variable {session : String}

/-- A signal that takes a pane out of its turn: the title's rest glyph on one
that works, or a manifest's done where no hook holds a block. -/
def demotes (m : ClaudeStatusMachine τ) (now : τ) : ClaudeSignal → Bool
  | .oscTitle title => !titleShowsSpinner title && titleShowsRest title && m.status = .working
  | .manifestVerdict verdict => verdict = .done && m.blockSource ≠ .hook && !m.floorLocked now
  | _ => false

/-- The pane of `session`, in its turn. -/
structure Held (session : String) (m : ClaudeStatusMachine τ) : Prop where
  owner : m.ownerSessionId = some session
  active : m.turnIsOver = false

omit [Clock τ] in
theorem Held.status (h : m.Held session) : m.status = .working ∨ m.status = .needsPermission := by
  have hactive := h.active
  unfold turnIsOver at hactive
  cases hstatus : m.status with
  | working => exact .inl rfl
  | needsPermission => exact .inr rfl
  | none => simp [hstatus] at hactive
  | idle => simp [hstatus] at hactive
  | done => simp [hstatus] at hactive

theorem Held.liftPresenceFloor (h : m.Held session) : m.liftPresenceFloor now = m := by
  unfold ClaudeStatusMachine.liftPresenceFloor
  rcases h.status with hstatus | hstatus <;> simp [hstatus]

theorem Held.decayIfDue (h : m.Held session) : m.decayIfDue now = m := by
  unfold ClaudeStatusMachine.decayIfDue
  rcases h.status with hstatus | hstatus <;> simp [hstatus]

omit [Clock τ] in
theorem Held.enterWorking (h : m.Held session) : (m.enter .working none none).Held session := ⟨h.owner, rfl⟩

omit [Clock τ] in
theorem Held.enterBlocked (h : m.Held session) (label : Option String)
    (source : BlockSource) (entry : Option BlockEntry) :
    (m.enterBlocked label source entry now).Held session := ⟨h.owner, rfl⟩

theorem Held.applyTitle (h : m.Held session) {title : String}
    (hquiet : m.demotes now (.oscTitle title) = false) : (m.applyTitle title now).Held session := by
  unfold ClaudeStatusMachine.applyTitle
  split
  case isTrue =>
    dsimp only
    split
    case isTrue => exact h.enterWorking
    case isFalse => exact h
  case isFalse hspinner =>
    split
    case isTrue hrest =>
      split
      case isTrue hworking => simp [demotes, hspinner, hrest, hworking] at hquiet
      case isFalse => exact h
    case isFalse =>
      grind [h.liftPresenceFloor]

theorem Held.applyManifest (h : m.Held session) {verdict : ClaudeStatus}
    (hquiet : m.demotes now (.manifestVerdict verdict) = false) :
    (m.applyManifest verdict now).Held session := by
  unfold ClaudeStatusMachine.applyManifest
  split
  case isTrue => exact h
  case isFalse hlocked =>
    cases verdict with
    | none => exact h
    | needsPermission => exact h.enterBlocked ..
    | working =>
      dsimp only
      split
      case isTrue => exact h.enterWorking
      case isFalse => exact h
    | idle =>
      rcases h.status with hstatus | hstatus <;> simpa [hstatus] using h
    | done =>
      dsimp only
      split
      case isTrue hsource => simp [demotes, hsource, hlocked] at hquiet
      case isFalse => exact h

theorem Held.beforeWatchdog_screen (h : m.Held session) (hsound : m.Sound)
    (detection : AgentScreenDetection) : (m.beforeWatchdog now (.screen detection)).Held session := by
  have hcovered : m.authoritativeCovered = true := (hsound.owner session h.owner).2
  simp only [beforeWatchdog]
  split
  case isTrue => exact ⟨h.owner, h.active⟩
  case isFalse hagreed =>
    unfold applyScreen
    split
    case isTrue => exact h
    case isFalse hskip =>
      split
      case isTrue => exact h
      case isFalse hlocked =>
        split
        case isTrue => exact ⟨h.owner, h.active⟩
        case isFalse hstate =>
          split
          case isTrue hbare => simp [hcovered] at hbare
          case isFalse =>
            split
            case isTrue => exact ⟨h.owner, h.active⟩
            case isFalse hagrees =>
              simp [disputes, hskip, hlocked, hstate, hcovered, hagrees] at hagreed

omit [Clock τ] in
theorem held_reconcile (h : m.Held session) : m.reconcileScreenDissent.Held session := by
  unfold reconcileScreenDissent
  split
  case h_1 => exact h
  case h_2 =>
    split
    case isTrue => exact ⟨h.owner, h.active⟩
    case isFalse => exact h

omit [Clock τ] in
theorem claimOrVerifyOwner_own (hname : session.isEmpty = false)
    (howner : m.ownerSessionId = some session ∨ m.ownerSessionId = none) {event : ClaudeHookEvent}
    (hevent : event.sessionId = some session) : (m.claimOrVerifyOwner event).1 = true ∧
    (m.claimOrVerifyOwner event).2 = { m with ownerSessionId := some session } := by
  have hnamed : event.namedSession = some session := by
    rw [ClaudeHookEvent.namedSession, hevent]
    simp [hname]
  rcases howner with hown | hfree
  · have hself : { m with ownerSessionId := some session } = m := by rw [← hown]
    rw [hself]
    simp [claimOrVerifyOwner, hnamed, hown]
  · simp [claimOrVerifyOwner, hnamed, hfree]

/-- A hook about a call leaves the pane in its turn: it works, or something
is still asked. -/
theorem held_applyEvent (howner : m.ownerSessionId = some session)
    (hledger : m.blockLedger ≠ [] → m.status = .needsPermission) {openCalls : List (Option String)}
    (hopen : openCalls ≠ [] → m.turnIsOver = false) {event : ClaudeHookEvent}
    (hcall : event.isOfCall session openCalls = true) (compactionEnded : Bool) :
    (m.applyEvent compactionEnded now event).Held session := by
  have htool : ∀ id, (if (m.resolveLedger id).blockLedger.isEmpty then
      (m.resolveLedger id).enter .working none none else m.resolveLedger id).Held session := by
    intro id
    split
    case isTrue => exact ⟨howner, rfl⟩
    case isFalse hasked =>
      have hold : m.blockLedger ≠ [] := by
        intro hnil
        simp [resolveLedger, hnil] at hasked
      refine ⟨howner, ?_⟩
      show m.turnIsOver = false
      simp [turnIsOver, hledger hold]
  cases event with
  | preToolUse id call => exact htool call
  | postToolUse id call => exact htool call
  | notification kind label call id =>
    cases kind with
    | permission => exact ⟨howner, rfl⟩
    | waitingForInput => exact ⟨howner, rfl⟩
    | other =>
      have hsome : openCalls ≠ [] := by
        intro hnil
        simp [ClaudeHookEvent.isOfCall, hnil] at hcall
      have hheld : m.Held session := ⟨howner, hopen hsome⟩
      show (m.liftPresenceFloor now).Held session
      rwa [hheld.liftPresenceFloor]
  | sessionStart id => contradiction
  | userPromptSubmit id => contradiction
  | stop id label => contradiction
  | subagentStop => contradiction
  | interrupted id => contradiction
  | sessionEnd id => contradiction
  | preCompact id => contradiction

theorem Held.apply_foreign (h : m.Held session) (hsound : m.Sound)
    {event : ClaudeHookEvent} (hforeign : event.isForeign session = true) :
    Untouched m (m.apply event now) := by
  have hcovered : m.authoritativeCovered = true := (hsound.owner session h.owner).2
  rw [apply_eq, ← accepts_eq]
  split
  case isFalse => exact ⟨rfl, rfl, rfl, rfl, rfl⟩
  case isTrue haccepts =>
    cases hnamed : event.namedSession with
    | none =>
      have hsub : event = .subagentStop := by
        simpa [ClaudeHookEvent.isForeign, hnamed] using hforeign
      subst hsub
      unfold reconcileScreenDissent
      split
      case h_1 => exact ⟨rfl, rfl, rfl, hcovered.symm, rfl⟩
      case h_2 => split <;> exact ⟨rfl, rfl, rfl, hcovered.symm, rfl⟩
    | some id =>
      have hother : session ≠ id := by
        intro heq
        subst heq
        simp only [ClaudeHookEvent.isForeign, hnamed] at hforeign
        cases event <;> simp [ClaudeHookEvent.namedSession, ClaudeHookEvent.sessionId] at hforeign hnamed
      simp [accepts, hnamed, h.owner, h.active, hother] at haccepts

end ClaudeStatusMachine

/-! ## §3 The nested session -/

namespace Pane

open ClaudeStatusMachine

variable {session : String} {p : Pane τ}
variable {event : ClaudeHookEvent} {now : τ} {heard : ClaudeSignal × τ}
variable {signal : ClaudeSignal}

/-- A step that leaves an owner with calls open in its turn: the signal does
not demote the pane, and the screen's dissent does not stand out its
window. -/
def Heeds (session : String) (p : Pane τ) (heard : ClaudeSignal × τ) : Bool :=
  (callsAfter session p.openCalls heard.1).isEmpty ||
    (!p.machine.demotes heard.2 heard.1 &&
      !(p.machine.beforeWatchdog heard.2 heard.1).overrules heard.2)

/-- The pane is its owner's or nobody's, and while a call is open it is its
owner's and in its turn. -/
structure Guarded (session : String) (p : Pane τ) : Prop where
  sound : p.machine.Sound
  owner : p.machine.ownerSessionId = some session ∨ p.machine.ownerSessionId = none
  held : p.openCalls ≠ [] → p.machine.Held session

theorem Guarded.apply_own (h : Guarded session p) (hname : session.isEmpty = false)
    (hcall : event.isOfCall session p.openCalls = true) : (p.machine.apply event now).Held session := by
  have hevent : event.sessionId = some session := by
    cases event <;> simp_all [ClaudeHookEvent.isOfCall, ClaudeHookEvent.sessionId]
  obtain ⟨htaken, hclaimed⟩ := claimOrVerifyOwner_own hname h.owner hevent
  rw [apply_eq, if_pos htaken, hclaimed]
  apply held_reconcile
  refine held_applyEvent ?_ ?_ ?_ hcall _
  · rfl
  · exact h.sound.ledger
  · exact fun hopen => (h.held hopen).active

omit [Clock τ] in
theorem openCalls_foreign (hforeign : event.isForeign session = true) :
    callsAfter session p.openCalls (.hook event) = p.openCalls := by
  have hother : event.sessionId ≠ some session := by
    intro hid
    rw [ClaudeHookEvent.isForeign, ClaudeHookEvent.namedSession, hid, Bool.or_eq_true,
      decide_eq_true_eq] at hforeign
    rcases hforeign with rfl | hnamed
    · contradiction
    · simp [Option.any_filter] at hnamed
  cases event with
  | preToolUse id call => exact if_neg hother
  | postToolUse id call => exact if_neg hother
  | notification kind label call id =>
    have hid : id ≠ some session := hother
    simp [callsAfter, hid]
  | sessionStart id => rfl
  | userPromptSubmit id => rfl
  | stop id label => rfl
  | subagentStop => rfl
  | interrupted id => rfl
  | sessionEnd id => rfl
  | preCompact id => rfl

section

variable (h : Guarded session p)
include h

theorem Guarded.beforeWatchdog (hname : session.isEmpty = false) (hadmits : p.Admits session signal = true)
    (hopen : callsAfter session p.openCalls signal ≠ []) (hquiet : p.machine.demotes now signal = false) :
    (p.machine.beforeWatchdog now signal).Held session := by
  cases signal with
  | hook event =>
    show (p.machine.apply event now).Held session
    rcases Bool.or_eq_true_iff.mp hadmits with hforeign | hcall
    · obtain ⟨hforeign, hsome⟩ := Bool.and_eq_true_iff.mp hforeign
      have hheld := h.held (by simpa using hsome)
      have huntouched := @Held.apply_foreign τ _ p.machine now session hheld h.sound event hforeign
      refine ⟨huntouched.ownerSessionId.trans hheld.owner, ?_⟩
      rw [turnIsOver, huntouched.status]
      exact hheld.active
    · exact h.apply_own hname hcall
  | processPresent present =>
    have hheld := h.held hopen
    cases present with
    | true =>
      show (p.machine.liftPresenceFloor now).Held session
      rwa [hheld.liftPresenceFloor]
    | false => contradiction
  | manifestVerdict verdict => exact (h.held hopen).applyManifest hquiet
  | oscTitle title => exact (h.held hopen).applyTitle hquiet
  | tick => exact h.held hopen
  | screen detection => exact (h.held hopen).beforeWatchdog_screen h.sound detection
  | userInput => contradiction

/-- No signal of such a run gives the pane to another session while no call
is open. -/
theorem owner_reduce_closed (hname : session.isEmpty = false)
    (hadmits : p.Admits session signal = true) (hclosed : callsAfter session p.openCalls signal = []) :
    (p.machine.reduce signal now).ownerSessionId = some session ∨
    (p.machine.reduce signal now).ownerSessionId = none := by
  have hheard : (p.machine.hear signal now).ownerSessionId = some session ∨
      (p.machine.hear signal now).ownerSessionId = none := by
    have hkept : p.machine.Keeps (p.machine.hear signal now) →
        (p.machine.hear signal now).ownerSessionId = some session ∨
        (p.machine.hear signal now).ownerSessionId = none := by
      intro hkeeps
      by_cases hnone : (p.machine.hear signal now).ownerSessionId = none
      case pos => exact .inr hnone
      case neg =>
        rw [(hkeeps.owner hnone).1]
        exact h.owner
    cases signal with
    | hook event =>
      rcases Bool.or_eq_true_iff.mp hadmits with hforeign | hcall
      · obtain ⟨hforeign, hsome⟩ := Bool.and_eq_true_iff.mp hforeign
        rw [openCalls_foreign hforeign] at hclosed
        simp [hclosed] at hsome
      · exact .inl (h.apply_own hname hcall).owner
    | processPresent present =>
      cases present with
      | true => exact hkept keeps_liftPresenceFloor
      | false => contradiction
    | manifestVerdict verdict => exact hkept (keeps_applyManifest verdict)
    | oscTitle title => exact hkept (keeps_applyTitle title)
    | tick => exact h.owner
    | screen detection => exact hkept (keeps_applyScreen detection)
    | userInput => contradiction
  have hclock : (p.machine.hear signal now).Keeps (p.machine.reduce signal now) :=
    keeps_resolveScreenDissentIfDue.trans keeps_decayIfDue
  by_cases hnone : (p.machine.reduce signal now).ownerSessionId = none
  case pos => exact .inr hnone
  case neg =>
    rw [(hclock.owner hnone).1]
    exact hheard

theorem Guarded.reduce_held (hname : session.isEmpty = false)
    (hadmits : p.Admits session heard.1 = true) (hheeds : Heeds session p heard = true)
    (hopen : callsAfter session p.openCalls heard.1 ≠ []) :
    p.machine.reduce heard.1 heard.2 = p.machine.beforeWatchdog heard.2 heard.1 ∧
    (p.machine.beforeWatchdog heard.2 heard.1).Held session := by
  simp only [Heeds, List.isEmpty_eq_false_iff.mpr hopen, Bool.false_or, Bool.and_eq_true,
    Bool.not_eq_true'] at hheeds
  have hheld := h.beforeWatchdog hname hadmits hopen hheeds.1
  refine ⟨?_, hheld⟩
  rw [reduce_eq, resolveScreenDissentIfDue_quiet hheeds.2, hheld.decayIfDue]

theorem Guarded.step (hname : session.isEmpty = false) (hadmits : p.Admits session heard.1 = true)
    (hheeds : Heeds session p heard = true) : Guarded session (p.step session heard) := by
  refine ⟨h.sound.reduce heard.1, ?_, fun hopen => ?_⟩
  · by_cases hopen : callsAfter session p.openCalls heard.1 = []
    case pos => exact owner_reduce_closed h hname hadmits hopen
    case neg =>
      obtain ⟨heq, hheld⟩ := h.reduce_held hname hadmits hheeds hopen
      rw [Pane.step, heq]
      exact .inl hheld.owner
  · obtain ⟨heq, hheld⟩ := h.reduce_held hname hadmits hheeds hopen
    rw [Pane.step, heq]
    exact hheld

theorem Guarded.untouched (hname : session.isEmpty = false)
    (hadmits : p.Admits session heard.1 = true) (hheeds : Heeds session p heard = true)
    (hevent : heard.1 = .hook event) (hforeign : event.isForeign session = true) :
    Untouched p.machine (p.step session heard).machine := by
  obtain ⟨signal, now⟩ := heard
  subst hevent
  have hsome : p.openCalls ≠ [] := by
    rcases Bool.or_eq_true_iff.mp hadmits with hboth | hcall
    · simpa using (Bool.and_eq_true_iff.mp hboth).2
    · cases event <;> simp_all [ClaudeHookEvent.isOfCall, ClaudeHookEvent.isForeign,
        ClaudeHookEvent.namedSession, ClaudeHookEvent.sessionId, Option.any_filter]
  obtain ⟨heq, _⟩ := h.reduce_held hname hadmits hheeds (by rwa [openCalls_foreign hforeign])
  rw [Pane.step, heq]
  exact (h.held hsome).apply_foreign h.sound hforeign

end

/-- After any history in which `session` came to own the pane, in every run
in which another session's hooks come only while a call of its is open and no
signal sets the pane at rest or stands out its window, each of these hooks
leaves the pane as it was; and a machine accepts what it would fold in. -/
theorem nested_touches_nothing (doneToIdleTimeout : τ) (history : List (ClaudeSignal × τ))
    (session : String)
    (howner : (run fold (new doneToIdleTimeout) history).ownerSessionId = some session)
    (heard : List (ClaudeSignal × τ))
    (hheard : Meets (Pane.step session)
      (fun p heard => p.Admits session heard.1 = true ∧ Heeds session p heard = true)
      ⟨run fold (new doneToIdleTimeout) history, []⟩ heard) :
    Meets (Pane.step session)
      (fun p heard => ∀ event, heard.1 = .hook event → event.isForeign session = true →
        Untouched p.machine (p.step session heard).machine)
      ⟨run fold (new doneToIdleTimeout) history, []⟩ heard ∧
    ∀ (m : ClaudeStatusMachine τ) (event : ClaudeHookEvent),
      m.accepts event = (m.claimOrVerifyOwner event).1 := by
  have hsound := sound_run doneToIdleTimeout history
  have hname := (hsound.owner session howner).1
  refine ⟨hheard.weaken (Guarded session) (fun p heard hok h => ?_)
    ⟨hsound, .inl howner, fun hopen => absurd rfl hopen⟩, fun m event => accepts_eq event⟩
  exact ⟨fun event hevent hforeign => h.untouched hname hok.1 hok.2 hevent hforeign,
    h.step hname hok.1 hok.2⟩

/-! ### Two runs -/

/-- A session was sent a prompt, five seconds ago. -/
def prompted : List (ClaudeSignal × Int) := [(.hook (.userPromptSubmit (some "parent")), 0)]

/-- It runs a tool, which runs a session of its own. -/
def nestedSession : List (ClaudeSignal × Int) :=
  [(.hook (.preToolUse (some "parent") (some "call")), 5),
    (.oscTitle "\u2819 Running", 6),
    (.hook (.sessionStart (some "child")), 7),
    (.screen ⟨.idle, false, true⟩, 8),
    (.hook (.stop (some "child") none), 9),
    (.hook (.postToolUse (some "parent") (some "call")), 10)]

theorem nested_touches_nothing_spinning :
    Meets (Pane.step "parent")
      (fun p heard => ∀ event, heard.1 = .hook event → event.isForeign "parent" = true →
        Untouched p.machine (p.step "parent" heard).machine)
      ⟨run fold (new (Clock.seconds 8)) prompted, []⟩ nestedSession ∧
    ∀ (m : ClaudeStatusMachine Int) (event : ClaudeHookEvent),
      m.accepts event = (m.claimOrVerifyOwner event).1 :=
  nested_touches_nothing (Clock.seconds 8) prompted "parent" (by decide +kernel) nestedSession
    (by decide +kernel)

/-- The title shows the rest glyph while the tool runs. -/
def rested : List (ClaudeSignal × Int) :=
  [(.hook (.preToolUse (some "parent") (some "call")), 5), (.oscTitle "\u2733 Claude Code", 6),
    (.hook (.sessionStart (some "child")), 7)]

/-- The screen shows an idle prompt for ten seconds while the tool runs. -/
def overruled : List (ClaudeSignal × Int) :=
  [(.hook (.preToolUse (some "parent") (some "call")), 5), (.screen ⟨.idle, false, true⟩, 6),
    (.tick, 16), (.hook (.userPromptSubmit (some "child")), 17)]

/-- In either the nested session takes the pane. -/
theorem nested_takes_over :
    (Meets (Pane.step "parent") (fun p heard => p.Admits "parent" heard.1 = true)
        ⟨run fold (new (Clock.seconds 8)) prompted, []⟩ rested ∧
      ¬ Meets (Pane.step "parent")
        (fun p heard => ∀ event, heard.1 = .hook event → event.isForeign "parent" = true →
          Untouched p.machine (p.step "parent" heard).machine)
        ⟨run fold (new (Clock.seconds 8)) prompted, []⟩ rested) ∧
    (Meets (Pane.step "parent") (fun p heard => p.Admits "parent" heard.1 = true)
        ⟨run fold (new (Clock.seconds 8)) prompted, []⟩ overruled ∧
      ¬ Meets (Pane.step "parent")
        (fun p heard => ∀ event, heard.1 = .hook event → event.isForeign "parent" = true →
          Untouched p.machine (p.step "parent" heard).machine)
        ⟨run fold (new (Clock.seconds 8)) prompted, []⟩ overruled) := by
  refine ⟨⟨by decide +kernel, fun h => ?_⟩, ⟨by decide +kernel, fun h => ?_⟩⟩
  · have howner := (h.2.2.1 _ rfl (by decide +kernel)).ownerSessionId
    revert howner
    decide +kernel
  · have howner := (h.2.2.2.1 _ rfl (by decide +kernel)).ownerSessionId
    revert howner
    decide +kernel

end Pane

end SlopDesk.Agent
