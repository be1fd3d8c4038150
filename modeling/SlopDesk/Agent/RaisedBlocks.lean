/-
SlopDesk.Agent.RaisedBlocks — what lowers a block that a hook raised.

§1 keeps beside the machine whether a hook raised the block it stands at, and
lists what may lower such a block. §2 shows that nothing else does, as long
as no manifest verdict claims the block for itself: the manifest's block
takes the place of the hook's, and the next weak signal clears it.
-/
import SlopDesk.Agent.MachineTheorems

namespace SlopDesk.Agent

open SlopDesk.Base

variable {τ : Type} [Clock τ]

namespace ClaudeStatusMachine

variable {m : ClaudeStatusMachine τ} {now : τ}

/-! ## §1 Raising and lowering -/

/-- A hook that raises a block, and is folded in. -/
def raises (m : ClaudeStatusMachine τ) : ClaudeSignal → Bool
  | .hook (.notification kind label call id) =>
    kind ≠ .other && m.accepts (.notification kind label call id)
  | _ => false

/-- A hook that may lower a block: of a turn's boundary, or of a call with
which nothing is outstanding any more. -/
def settlesBlock (m : ClaudeStatusMachine τ) : ClaudeHookEvent → Bool
  | .userPromptSubmit _ | .stop .. | .interrupted _ | .sessionStart _ | .sessionEnd _ => true
  | .preToolUse _ call | .postToolUse _ call => (m.resolveLedger call).blockLedger.isEmpty
  | _ => false

/-- A signal that may lower a block: such a hook, absence, or a cancel key. -/
def answersBlock (m : ClaudeStatusMachine τ) : ClaudeSignal → Bool
  | .hook event => m.accepts event && m.settlesBlock event
  | .processPresent present => !present
  | .userInput => true
  | _ => false

/-- What may lower a block: such a signal, or the watchdog come due. -/
def mayLower (m : ClaudeStatusMachine τ) (now : τ) (signal : ClaudeSignal) : Bool :=
  m.answersBlock signal || (m.beforeWatchdog now signal).overrules now

/-- A manifest verdict that claims the block of a hook. -/
def claimsBlock (m : ClaudeStatusMachine τ) : ClaudeSignal → Bool
  | .manifestVerdict verdict => verdict = .needsPermission && m.blockSource = .hook
  | _ => false

end ClaudeStatusMachine

/-- A machine, and whether a hook raised the block it stands at. -/
structure Raised (τ : Type) where
  machine : ClaudeStatusMachine τ
  byHook : Bool

namespace Raised

def start (doneToIdleTimeout : τ) : Raised τ := ⟨.new doneToIdleTimeout, false⟩

def step (p : Raised τ) (heard : ClaudeSignal × τ) : Raised τ where
  machine := p.machine.fold heard
  byHook := (p.machine.fold heard).status = .needsPermission
    && (p.byHook || p.machine.raises heard.1)

/-- Calls are outstanding at a block only, and at each block a hook raised. -/
structure Itemised (p : Raised τ) : Prop where
  blocked : p.machine.status ≠ .needsPermission → p.machine.blockLedger = []
  raised : p.byHook = true → p.machine.blockLedger ≠ []

/-- A block that a hook raised is lowered by what may lower it. -/
def LowersDuly (p : Raised τ) (heard : ClaudeSignal × τ) : Prop :=
  p.byHook = true → (p.step heard).machine.status ≠ .needsPermission →
    p.machine.mayLower heard.2 heard.1 = true

/-- No manifest verdict claims the block of a hook. -/
def Unclaimed (p : Raised τ) (heard : ClaudeSignal × τ) : Prop :=
  p.machine.claimsBlock heard.1 = false

end Raised

/-! ## §2 Blocks of hooks -/

namespace ClaudeStatusMachine

variable {m : ClaudeStatusMachine τ} {now : τ}

/-- The pane stands at a block that a hook holds. -/
structure HookBlocked (m : ClaudeStatusMachine τ) : Prop where
  status : m.status = .needsPermission
  source : m.blockSource = .hook
  covered : m.authoritativeCovered = true
  ledger : m.blockLedger ≠ []

omit [Clock τ] in
theorem HookBlocked.clear (h : m.HookBlocked) : m.clearScreenDissent.HookBlocked :=
  ⟨h.status, h.source, h.covered, h.ledger⟩

omit [Clock τ] in
theorem HookBlocked.reconcile (h : m.HookBlocked) : m.reconcileScreenDissent.HookBlocked := by
  unfold reconcileScreenDissent
  split
  case h_1 => exact h
  case h_2 =>
    split
    case isTrue => exact h.clear
    case isFalse => exact h

theorem HookBlocked.lift (h : m.HookBlocked) : (m.liftPresenceFloor now).HookBlocked := by
  have hsame : m.liftPresenceFloor now = m := by simp [liftPresenceFloor, h.status]
  rw [hsame]
  exact h

omit [Clock τ] in
theorem HookBlocked.resolve {call : Option String} (h : m.HookBlocked)
    (hleft : (m.resolveLedger call).blockLedger.isEmpty = false) :
    (if (m.resolveLedger call).blockLedger.isEmpty then (m.resolveLedger call).enter .working none none
      else m.resolveLedger call).HookBlocked := by
  have hledger : (m.resolveLedger call).blockLedger ≠ [] := by
    intro hnil
    simp [hnil] at hleft
  rw [hleft]
  exact ⟨h.status, h.source, h.covered, hledger⟩

omit [Clock τ] in
theorem hookBlocked_enterBlocked (label : Option String) (entry : BlockEntry)
    (hcovered : m.authoritativeCovered = true) : (m.enterBlocked label .hook (some entry) now).HookBlocked where
  status := rfl
  source := rfl
  covered := hcovered
  ledger hnil := by
    simp only [enterBlocked] at hnil
    split at hnil
    case isTrue hmem => simp [hnil] at hmem
    case isFalse => simp at hnil

/-- An accepted hook that lowers nothing leaves a hook's block standing. -/
theorem HookBlocked.applyEvent (h : m.HookBlocked) (compactionEnded : Bool) {event : ClaudeHookEvent}
    (hstands : m.settlesBlock event = false) : (m.applyEvent compactionEnded now event).HookBlocked := by
  cases event with
  | preCompact id => exact HookBlocked.lift ⟨h.status, h.source, h.covered, h.ledger⟩
  | preToolUse id call => exact h.resolve hstands
  | postToolUse id call => exact h.resolve hstands
  | notification kind label call id =>
    cases kind with
    | permission => exact hookBlocked_enterBlocked label _ h.covered
    | waitingForInput => exact hookBlocked_enterBlocked label _ h.covered
    | other => exact h.lift
  | subagentStop => exact h
  | sessionStart id => contradiction
  | userPromptSubmit id => contradiction
  | stop id label => contradiction
  | interrupted id => contradiction
  | sessionEnd id => contradiction

theorem HookBlocked.apply (h : m.HookBlocked) {event : ClaudeHookEvent}
    (hstands : (m.accepts event && m.settlesBlock event) = false) : (m.apply event now).HookBlocked := by
  rw [apply_eq, ← accepts_eq]
  split
  case isFalse => exact h
  case isTrue haccepts =>
    obtain ⟨owner, hclaimed⟩ := @claimOrVerifyOwner_eq τ m event
    rw [haccepts, Bool.true_and] at hstands
    rw [hclaimed]
    have hheard : ({ m with
        ownerSessionId := owner
        authoritativeCovered := true
        compactionPending := event.isPreCompact && m.compactionPending } :
          ClaudeStatusMachine τ).HookBlocked := ⟨h.status, h.source, rfl, h.ledger⟩
    refine (hheard.applyEvent m.compactionPending ?_).reconcile
    cases event <;> exact hstands

/-- A block that is raised has no claim of the screen's against it. -/
theorem hookBlocked_of_raises {signal : ClaudeSignal} (h : m.raises signal = true) :
    (m.beforeWatchdog now signal).HookBlocked ∧ (m.beforeWatchdog now signal).screenDissent = none := by
  unfold raises at h
  split at h
  case h_2 => contradiction
  case h_1 kind label call id =>
    obtain ⟨hkind, haccepts⟩ := Bool.and_eq_true_iff.mp h
    show (m.apply (.notification kind label call id) now).HookBlocked ∧ _
    simp only [beforeWatchdog, hear]
    rw [apply_eq, ← accepts_eq, if_pos haccepts]
    cases kind with
    | permission => exact ⟨(hookBlocked_enterBlocked label _ rfl).reconcile, rfl⟩
    | waitingForInput => exact ⟨(hookBlocked_enterBlocked label _ rfl).reconcile, rfl⟩
    | other => simp at hkind

/-- A screen's verdict is noted, and no more. -/
theorem HookBlocked.beforeWatchdog_screen (h : m.HookBlocked) (detection : AgentScreenDetection) :
    (m.beforeWatchdog now (.screen detection)).HookBlocked := by
  simp only [beforeWatchdog]
  split
  case isTrue => exact ⟨h.status, h.source, h.covered, h.ledger⟩
  case isFalse hdisputes =>
    unfold applyScreen
    split
    case isTrue => exact h
    case isFalse hskip =>
      split
      case isTrue => exact h
      case isFalse hlocked =>
        split
        case isTrue => exact h.clear
        case isFalse hstate =>
          split
          case isTrue huncovered => simp [h.covered] at huncovered
          case isFalse =>
            split
            case isTrue => exact h.clear
            case isFalse hagrees =>
              simp [disputes, hskip, hlocked, hstate, h.covered, hagrees] at hdisputes

theorem HookBlocked.beforeWatchdog (h : m.HookBlocked) {signal : ClaudeSignal}
    (hclaims : m.claimsBlock signal = false) (hstands : m.answersBlock signal = false) :
    (m.beforeWatchdog now signal).HookBlocked := by
  cases signal with
  | hook event => exact h.apply hstands
  | processPresent present =>
    cases present with
    | true => exact h.lift
    | false => contradiction
  | manifestVerdict verdict =>
    show (m.applyManifest verdict now).HookBlocked
    unfold applyManifest
    cases verdict with
    | needsPermission => simp [claimsBlock, h.source] at hclaims
    | none => split <;> exact h
    | working => simpa [h.source] using h
    | idle => simpa [h.source] using h
    | done => simpa [h.source] using h
  | oscTitle title =>
    have hsame : m.applyTitle title now = m := by
      simp [applyTitle, liftPresenceFloor, h.source, h.status]
    show (m.applyTitle title now).HookBlocked
    rw [hsame]
    exact h
  | tick => exact h
  | screen detection => exact h.beforeWatchdog_screen detection
  | userInput => contradiction

/-- Where the watchdog is not due, the clock leaves a hook's block alone. -/
theorem HookBlocked.clock {signal : ClaudeSignal} (h : (m.beforeWatchdog now signal).HookBlocked)
    (hquiet : (m.beforeWatchdog now signal).overrules now = false) : (m.reduce signal now).HookBlocked := by
  rw [reduce_eq, resolveScreenDissentIfDue_quiet hquiet]
  have hsame : (m.beforeWatchdog now signal).decayIfDue now = m.beforeWatchdog now signal := by
    simp [decayIfDue, h.status]
  rw [hsame]
  exact h

theorem hookBlocked_reduce_of_raises {signal : ClaudeSignal} (h : m.raises signal = true) :
    (m.reduce signal now).HookBlocked := by
  obtain ⟨hblocked, hdissent⟩ := @hookBlocked_of_raises τ _ m now signal h
  have hquiet : (m.beforeWatchdog now signal).overrules now = false := by simp [overrules, hdissent]
  exact hblocked.clock hquiet

theorem settled_applyEvent (compactionEnded : Bool) {event : ClaudeHookEvent}
    (h : m.settlesBlock event = true) : (m.applyEvent compactionEnded now event).status ≠ .needsPermission
      ∧ (m.applyEvent compactionEnded now event).screenDissent = none := by
  cases event with
  | preToolUse id call => simp [applyEvent, show (m.resolveLedger call).blockLedger.isEmpty = true from h, enter]
  | postToolUse id call => simp [applyEvent, show (m.resolveLedger call).blockLedger.isEmpty = true from h, enter]
  | stop id label => cases compactionEnded <;> simp [applyEvent, enter]
  | sessionStart id => simp [applyEvent, enter]
  | userPromptSubmit id => simp [applyEvent, enter]
  | interrupted id => simp [applyEvent, enter]
  | sessionEnd id => simp [applyEvent, terminate]
  | notification kind label call id => contradiction
  | preCompact id => contradiction
  | subagentStop => contradiction

/-- What answers a block takes the pane off it, and off the screen's claim. -/
theorem answered {signal : ClaudeSignal} (h : m.HookBlocked) (hanswers : m.answersBlock signal = true) :
    (m.beforeWatchdog now signal).status ≠ .needsPermission
      ∧ (m.beforeWatchdog now signal).screenDissent = none := by
  cases signal with
  | hook event =>
    obtain ⟨haccepts, hsettles⟩ := Bool.and_eq_true_iff.mp hanswers
    obtain ⟨owner, hclaimed⟩ := @claimOrVerifyOwner_eq τ m event
    simp only [beforeWatchdog, hear]
    rw [apply_eq, ← accepts_eq, if_pos haccepts, hclaimed]
    generalize hheard : ({ m with
        ownerSessionId := owner
        authoritativeCovered := true
        compactionPending := event.isPreCompact && m.compactionPending } : ClaudeStatusMachine τ) = heard
    have hsame : heard.settlesBlock event = true := by
      rw [← hheard, ← hsettles]
      cases event <;> rfl
    obtain ⟨hstatus, hdissent⟩ := @settled_applyEvent τ _ heard now m.compactionPending event hsame
    have hreconciled : (heard.applyEvent m.compactionPending now event).reconcileScreenDissent
        = heard.applyEvent m.compactionPending now event := by simp [reconcileScreenDissent, hdissent]
    rw [hreconciled]
    exact ⟨hstatus, hdissent⟩
  | processPresent present =>
    cases present with
    | true => contradiction
    | false => simp [beforeWatchdog, hear, terminate]
  | userInput => simp [beforeWatchdog, hear, h.status, enter]
  | manifestVerdict verdict => contradiction
  | oscTitle title => contradiction
  | tick => contradiction
  | screen detection => contradiction

theorem status_decayIfDue (h : m.status ≠ .needsPermission) : (m.decayIfDue now).status ≠ .needsPermission := by
  unfold decayIfDue
  split
  case isTrue => exact h
  case isFalse =>
    split
    case h_1 => exact h
    case h_2 =>
      split
      case isTrue => simp [enter]
      case isFalse => exact h

/-- A verdict that lands on a blocked pane unblocks it. -/
theorem status_applyScreenVerdict {detection : AgentScreenDetection} {correcting : Bool}
    {landed : ClaudeStatusMachine τ} (h : m.status = .needsPermission)
    (hlands : m.applyScreenVerdict detection correcting now = (true, landed)) :
    landed.status ≠ .needsPermission := by
  unfold applyScreenVerdict enter at hlands
  cases hstate : detection.state <;> grind

/-- What may lower a hook's block lowers it. -/
theorem lowered {signal : ClaudeSignal} (h : m.HookBlocked) (hunclaimed : m.claimsBlock signal = false)
    (hlower : m.mayLower now signal = true) : (m.reduce signal now).status ≠ .needsPermission := by
  rw [reduce_eq]
  apply status_decayIfDue
  cases hanswers : m.answersBlock signal with
  | true =>
    obtain ⟨hstatus, hdissent⟩ := @answered τ _ m now signal h hanswers
    rw [resolveScreenDissentIfDue_quiet (by simp [overrules, hdissent])]
    exact hstatus
  | false =>
    have hblocked := @HookBlocked.beforeWatchdog τ _ m now h signal hunclaimed hanswers
    have hover : (m.beforeWatchdog now signal).overrules now = true := by simpa [mayLower, hanswers] using hlower
    rcases @resolveScreenDissentIfDue_cases τ _ (m.beforeWatchdog now signal) now with
      ⟨hquiet, _⟩ | ⟨_, detection, landed, hlands, hfreed⟩
    · simp [hover] at hquiet
    · have hstatus := status_applyScreenVerdict hblocked.status hlands
      rw [hfreed]
      exact hstatus

end ClaudeStatusMachine

namespace Raised

open ClaudeStatusMachine

variable {p : Raised τ}
variable {heard : ClaudeSignal × τ}

structure Inv (p : Raised τ) : Prop where
  sound : p.machine.Sound
  held : p.byHook = true → p.machine.HookBlocked

omit [Clock τ] in
theorem Inv.itemised (h : p.Inv) : p.Itemised where
  blocked hstatus := by
    by_cases hledger : p.machine.blockLedger = []
    case pos => exact hledger
    case neg => exact absurd (h.sound.ledger hledger) hstatus
  raised hraised := (h.held hraised).ledger

/-- Where nothing lowers a hook's block, it stands. -/
theorem Inv.stands (h : p.Inv) (hunclaimed : p.Unclaimed heard)
    (hraised : p.byHook = true) (hstands : p.machine.mayLower heard.2 heard.1 = false) :
    (p.machine.fold heard).HookBlocked := by
  obtain ⟨hanswers, hquiet⟩ := Bool.or_eq_false_iff.mp hstands
  exact ((h.held hraised).beforeWatchdog hunclaimed hanswers).clock hquiet

theorem Inv.lowersDuly (h : p.Inv) (hunclaimed : p.Unclaimed heard) : p.LowersDuly heard := by
  intro hraised hlowered
  cases hstands : p.machine.mayLower heard.2 heard.1 with
  | true => rfl
  | false => exact absurd (h.stands hunclaimed hraised hstands).status hlowered

theorem Inv.step (h : p.Inv) (hunclaimed : p.Unclaimed heard) : (p.step heard).Inv where
  sound := h.sound.reduce heard.1
  held hraised := by
    obtain ⟨hstatus, hsince⟩ := Bool.and_eq_true_iff.mp hraised
    rcases Bool.or_eq_true_iff.mp hsince with hbefore | hraises
    · cases hstands : p.machine.mayLower heard.2 heard.1 with
      | true => exact absurd (of_decide_eq_true hstatus) (lowered (h.held hbefore) hunclaimed hstands)
      | false => exact h.stands hunclaimed hbefore hstands
    · exact hookBlocked_reduce_of_raises hraises

theorem inv_start (doneToIdleTimeout : τ) : (start doneToIdleTimeout).Inv :=
  ⟨sound_new doneToIdleTimeout, fun h => by contradiction⟩

/-- A run in which no manifest verdict claims the block of a hook. Calls are
outstanding at blocks only, and a block that a hook raised is lowered by
nothing but what may lower it. -/
theorem block_lowered_duly (doneToIdleTimeout : τ) (history : List (ClaudeSignal × τ))
    (h : Meets step Unclaimed (start doneToIdleTimeout) history) :
    Throughout step Itemised (start doneToIdleTimeout) history ∧
      Meets step LowersDuly (start doneToIdleTimeout) history := by
  have hinv := inv_start doneToIdleTimeout
  constructor
  · have hthrough := h.throughout Inv (fun _ _ hop hp => hp.step hop) hinv
    exact hthrough.imp fun _ hp => hp.itemised
  · exact h.weaken Inv (fun _ _ hop hp => ⟨hp.lowersDuly hop, hp.step hop⟩) hinv

/-- A block is raised by a hook and resolved by its call. -/
theorem block_lowered_duly_once :
    Meets step LowersDuly (start (8 : Int))
      [(.hook (.notification .permission none (some "call") (some "session")), 1),
        (.oscTitle "✳ Claude Code", 2), (.hook (.preToolUse (some "session") (some "call")), 3)] :=
  (block_lowered_duly 8 _ (meets_of_decide (fun _ _ => inferInstanceAs (Decidable (_ = false))) (by decide))).2

/-- A manifest verdict says again what the hook said, and the next one clears
the question. -/
theorem manifest_lowers_block :
    ¬ Meets step LowersDuly (start (8 : Int))
      [(.hook (.notification .permission none (some "call") (some "session")), 1),
        (.manifestVerdict .needsPermission, 2), (.manifestVerdict .working, 3)] := by
  intro h
  have hlast := h.2.2.1 (by decide) (by decide)
  revert hlast
  decide

end Raised

end SlopDesk.Agent
