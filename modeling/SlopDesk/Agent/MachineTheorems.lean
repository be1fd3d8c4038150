/-
SlopDesk.Agent.MachineTheorems — what every signal keeps of a machine.

§1 has the watchdog: it either does nothing, or its verdict lands and the
pane is nobody's. §2 is the invariant `Sound` of every reachable machine:
outstanding calls are held by a blocked pane, and an owned pane is covered.
-/
import SlopDesk.Agent.Machine
import SlopDesk.Base.Runs

namespace SlopDesk.Agent

open SlopDesk.Base

namespace ClaudeStatusMachine

variable {τ : Type} [Clock τ] {m : ClaudeStatusMachine τ} {now : τ}
variable (detection : AgentScreenDetection)

/-! ## §1 The watchdog -/

/-- The screen's claim has stood out its window, and would land. -/
def overrules (m : ClaudeStatusMachine τ) (now : τ) : Bool :=
  m.authoritativeCovered &&
    match m.screenDissent, m.screenDissentSince with
    | some detection, some since =>
      Clock.le (dissentWindow detection) (Clock.sub now since)
        && (m.applyScreenVerdict detection true now).1
    | _, _ => false

theorem applyScreenVerdict_cases (correcting : Bool) :
    m.applyScreenVerdict detection correcting now = (false, m) ∨
    m.applyScreenVerdict detection correcting now
      = (true, m.enterBlocked none .manifest none now) ∨
    ∃ next quiet, m.applyScreenVerdict detection correcting now
      = (true, { m.enter next none none with isQuiet := quiet }) := by
  unfold applyScreenVerdict
  cases detection.state with
  | unknown => exact .inl rfl
  | blocked =>
    grind
  | working =>
    dsimp only
    split
    case isTrue => exact .inl rfl
    case isFalse =>
      split
      case isTrue => exact .inl rfl
      case isFalse => exact .inr (.inr ⟨_, _, rfl⟩)
  | idle =>
    dsimp only
    split
    case isTrue => exact .inl rfl
    case isFalse =>
      split
      case isTrue =>
        grind
      case isFalse =>
        split
        case isTrue => exact .inl rfl
        case isFalse =>
          split
          case isTrue => exact .inr (.inr ⟨_, _, rfl⟩)
          case isFalse => exact .inr (.inr ⟨_, _, rfl⟩)

/-- The watchdog does nothing, or its verdict lands and the pane is
nobody's. -/
theorem resolveScreenDissentIfDue_cases : (m.overrules now = false ∧ m.resolveScreenDissentIfDue now = m) ∨
    (m.overrules now = true ∧ ∃ detection landed,
      m.applyScreenVerdict detection true now = (true, landed) ∧
      m.resolveScreenDissentIfDue now
        = { landed with
            authoritativeCovered := false
            ownerSessionId := none
            screenDissentSince := none
            screenDissent := none }) := by
  unfold overrules resolveScreenDissentIfDue
  cases m.authoritativeCovered with
  | false => exact .inl ⟨rfl, rfl⟩
  | true =>
    rw [if_neg (by simp), Bool.true_and]
    cases m.screenDissent with
    | none => exact .inl ⟨rfl, rfl⟩
    | some detection =>
    cases m.screenDissentSince with
    | none => exact .inl ⟨rfl, rfl⟩
    | some since =>
      dsimp only
      split
      case isFalse hdue =>
        grind
      case isTrue hdue =>
        rw [hdue, Bool.true_and]
        rcases @applyScreenVerdict_cases τ _ m now detection true with
          hsame | hlanded | ⟨next, quiet, hlanded⟩
        · rw [hsame]
          exact .inl ⟨rfl, rfl⟩
        · rw [hlanded]
          exact .inr ⟨rfl, detection, _, hlanded, rfl⟩
        · rw [hlanded]
          exact .inr ⟨rfl, detection, _, hlanded, rfl⟩

theorem resolveScreenDissentIfDue_quiet (h : m.overrules now = false) :
    m.resolveScreenDissentIfDue now = m := by
  rcases @resolveScreenDissentIfDue_cases τ _ m now with ⟨_, hsame⟩ | ⟨hover, _⟩
  · exact hsame
  · rw [h] at hover
    contradiction

/-- A verdict that argues with the feed. -/
def disputes (m : ClaudeStatusMachine τ) (detection : AgentScreenDetection) (now : τ) : Bool :=
  !detection.skipStateUpdate && !m.floorLocked now && detection.state ≠ .unknown
    && m.authoritativeCovered && !m.screenAgrees detection

/-- The machine as the watchdog finds it after a signal. -/
def beforeWatchdog (m : ClaudeStatusMachine τ) (now : τ) : ClaudeSignal → ClaudeStatusMachine τ
  | .screen detection =>
    if m.disputes detection now then m.noteScreenDissent detection now
    else m.applyScreen detection now
  | signal => m.hear signal now

theorem overrules_of_uncovered (h : m.authoritativeCovered = false) : m.overrules now = false := by
  rw [overrules, h, Bool.false_and]

theorem resolveScreenDissentIfDue_twice : (m.resolveScreenDissentIfDue now).resolveScreenDissentIfDue now
      = m.resolveScreenDissentIfDue now := by
  rcases @resolveScreenDissentIfDue_cases τ _ m now with ⟨_, hsame⟩ | ⟨_, _, landed, _, hfreed⟩
  · rw [hsame, hsame]
  · rw [hfreed]
    exact resolveScreenDissentIfDue_quiet (overrules_of_uncovered rfl)

theorem hear_disputed {detection : AgentScreenDetection} (h : m.disputes detection now = true) :
    m.hear (.screen detection) now
      = (m.noteScreenDissent detection now).resolveScreenDissentIfDue now := by
  simp only [disputes, Bool.and_eq_true, Bool.not_eq_true'] at h
  obtain ⟨⟨⟨⟨hskip, hlocked⟩, hstate⟩, hcovered⟩, hagrees⟩ := h
  simp [hear, applyScreen, hskip, hlocked, hcovered, hagrees, of_decide_eq_true hstate]

theorem reduce_eq (signal : ClaudeSignal) : m.reduce signal now
      = ((m.beforeWatchdog now signal).resolveScreenDissentIfDue now).decayIfDue now := by
  cases signal with
  | screen detection =>
    simp only [beforeWatchdog]
    split
    case isTrue hdisputes => rw [reduce, hear_disputed hdisputes, resolveScreenDissentIfDue_twice]
    case isFalse => rfl
  | hook event => rfl
  | processPresent present => rfl
  | manifestVerdict verdict => rfl
  | oscTitle title => rfl
  | tick => rfl
  | userInput => rfl

/-! ## §2 Reachable machines -/

section
omit [Clock τ]

/-- Outstanding calls are held by a blocked pane; an owner was named, and its
pane is covered. -/
structure Sound (m : ClaudeStatusMachine τ) : Prop where
  ledger : m.blockLedger ≠ [] → m.status = .needsPermission
  owner : ∀ id, m.ownerSessionId = some id → id.isEmpty = false ∧ m.authoritativeCovered = true

/-- A step that claims nothing. -/
structure Keeps (m m' : ClaudeStatusMachine τ) : Prop where
  ledger : m'.blockLedger ≠ [] → m'.status = .needsPermission ∨
    (m.blockLedger ≠ [] ∧ m'.status = m.status)
  owner : m'.ownerSessionId ≠ none →
    m'.ownerSessionId = m.ownerSessionId ∧ m'.authoritativeCovered = m.authoritativeCovered

theorem Keeps.sound {m' : ClaudeStatusMachine τ} (h : m.Keeps m') (hm : m.Sound) : m'.Sound where
  ledger hledger := by
    rcases h.ledger hledger with hblocked | ⟨hold, hsame⟩
    · exact hblocked
    · rw [hsame]
      exact hm.ledger hold
  owner id hid := by
    obtain ⟨howner, hcovered⟩ := h.owner (by simp [hid])
    rw [hcovered]
    exact hm.owner id (howner ▸ hid)

theorem Keeps.refl (m : ClaudeStatusMachine τ) : m.Keeps m :=
  ⟨fun h => .inr ⟨h, rfl⟩, fun _ => ⟨rfl, rfl⟩⟩

theorem Keeps.trans {m' m'' : ClaudeStatusMachine τ} (h : m.Keeps m') (h' : m'.Keeps m'') :
    m.Keeps m'' where
  ledger hledger := by
    rcases h'.ledger hledger with hblocked | ⟨hold, hsame⟩
    · exact .inl hblocked
    · rw [hsame]
      exact h.ledger hold
  owner howner := by
    obtain ⟨heq', hcovered'⟩ := h'.owner howner
    obtain ⟨heq, hcovered⟩ := h.owner (heq' ▸ howner)
    exact ⟨heq'.trans heq, hcovered'.trans hcovered⟩

theorem keeps_enter (next : ClaudeStatus) (label : Option String) (since : Option τ) :
    m.Keeps (m.enter next label since) := ⟨fun h => absurd rfl h, fun _ => ⟨rfl, rfl⟩⟩

theorem keeps_enter_quiet (next : ClaudeStatus) (label : Option String) (since : Option τ) :
    m.Keeps { m.enter next label since with isQuiet := true } :=
  ⟨fun h => absurd rfl h, fun _ => ⟨rfl, rfl⟩⟩

theorem keeps_enterBlocked (label : Option String) (source : BlockSource) (entry : Option BlockEntry) :
    m.Keeps (m.enterBlocked label source entry now) := ⟨fun _ => .inl rfl, fun _ => ⟨rfl, rfl⟩⟩

theorem keeps_clearScreenDissent : m.Keeps m.clearScreenDissent :=
  ⟨fun h => .inr ⟨h, rfl⟩, fun _ => ⟨rfl, rfl⟩⟩

theorem keeps_reconcileScreenDissent : m.Keeps m.reconcileScreenDissent := by
  unfold reconcileScreenDissent
  split
  case h_1 => exact .refl m
  case h_2 =>
    split
    case isTrue => exact keeps_clearScreenDissent
    case isFalse => exact .refl m

theorem keeps_resolveLedger (id : Option String) : m.Keeps (m.resolveLedger id) where
  ledger h := .inr ⟨fun hnil => h (by simp [resolveLedger, hnil]), rfl⟩
  owner _ := ⟨rfl, rfl⟩

end

theorem keeps_terminate (armLockout : Bool) : m.Keeps (m.terminate armLockout now) :=
  ⟨fun h => absurd rfl h, fun h => absurd rfl h⟩

theorem keeps_liftPresenceFloor : m.Keeps (m.liftPresenceFloor now) := by
  unfold liftPresenceFloor
  split
  case isTrue => exact .refl m
  case isFalse =>
    split
    case isTrue => exact keeps_enter ..
    case isFalse => exact .refl m

theorem keeps_applyScreenVerdict (correcting : Bool) :
    m.Keeps (m.applyScreenVerdict detection correcting now).2 := by
  rcases @applyScreenVerdict_cases τ _ m now detection correcting with
    hsame | hlanded | ⟨next, quiet, hlanded⟩
  · rw [hsame]
    exact .refl m
  · rw [hlanded]
    exact ⟨fun _ => .inl rfl, fun _ => ⟨rfl, rfl⟩⟩
  · rw [hlanded]
    exact ⟨fun h => absurd rfl h, fun _ => ⟨rfl, rfl⟩⟩

theorem keeps_resolveScreenDissentIfDue : m.Keeps (m.resolveScreenDissentIfDue now) := by
  rcases @resolveScreenDissentIfDue_cases τ _ m now with ⟨_, hsame⟩ | ⟨_, detection, landed, hland, hfreed⟩
  · rw [hsame]
    exact .refl m
  · have hkeeps := @keeps_applyScreenVerdict τ _ m now detection true
    rw [hland] at hkeeps
    rw [hfreed]
    exact ⟨hkeeps.ledger, fun h => absurd rfl h⟩

theorem keeps_decayIfDue : m.Keeps (m.decayIfDue now) := by
  unfold decayIfDue
  split
  case isTrue => exact .refl m
  case isFalse =>
    split
    case h_1 => exact .refl m
    case h_2 =>
      split
      case isTrue => exact keeps_enter ..
      case isFalse => exact .refl m

theorem keeps_applyTitle (title : String) : m.Keeps (m.applyTitle title now) := by
  unfold applyTitle
  split
  case isTrue =>
    dsimp only
    split
    case isTrue => exact keeps_enter ..
    case isFalse => exact .refl m
  case isFalse =>
    split
    case isTrue =>
      split
      case isTrue => exact keeps_enter ..
      case isFalse => exact .refl m
    case isFalse =>
      split
      case isTrue => exact keeps_liftPresenceFloor
      case isFalse => exact .refl m

theorem keeps_applyManifest (verdict : ClaudeStatus) : m.Keeps (m.applyManifest verdict now) := by
  unfold applyManifest
  split
  case isTrue => exact .refl m
  case isFalse =>
    cases verdict with
    | none => exact .refl m
    | needsPermission => exact keeps_enterBlocked ..
    | working =>
      dsimp only
      split
      case isTrue => exact keeps_enter ..
      case isFalse => exact .refl m
    | idle =>
      dsimp only
      split
      case isTrue => exact keeps_enter ..
      case isFalse => exact .refl m
    | done =>
      dsimp only
      split
      case isTrue => exact keeps_enter ..
      case isFalse => exact .refl m

theorem keeps_applyScreen : m.Keeps (m.applyScreen detection now) := by
  unfold applyScreen
  split
  case isTrue => exact .refl m
  case isFalse =>
    split
    case isTrue => exact .refl m
    case isFalse =>
      split
      case isTrue => exact keeps_clearScreenDissent
      case isFalse =>
        split
        case isTrue => exact keeps_applyScreenVerdict ..
        case isFalse =>
          split
          case isTrue => exact keeps_clearScreenDissent
          case isFalse =>
            have hnoted : m.Keeps (m.noteScreenDissent detection now) :=
              ⟨fun h => .inr ⟨h, rfl⟩, fun _ => ⟨rfl, rfl⟩⟩
            exact hnoted.trans keeps_resolveScreenDissentIfDue

theorem keeps_applyEvent (compactionEnded : Bool) (event : ClaudeHookEvent) :
    m.Keeps (m.applyEvent compactionEnded now event) := by
  have htool : ∀ id, m.Keeps (if (m.resolveLedger id).blockLedger.isEmpty then
      (m.resolveLedger id).enter .working none none else m.resolveLedger id) := by
    intro id
    split
    case isTrue => exact (keeps_resolveLedger id).trans (keeps_enter ..)
    case isFalse => exact keeps_resolveLedger id
  cases event with
  | preCompact id =>
    have harmed : m.Keeps { m with compactionPending := true } :=
      ⟨fun h => .inr ⟨h, rfl⟩, fun _ => ⟨rfl, rfl⟩⟩
    exact harmed.trans keeps_liftPresenceFloor
  | sessionStart id => exact keeps_enter ..
  | userPromptSubmit id => exact keeps_enter ..
  | preToolUse id call => exact htool call
  | postToolUse id call => exact htool call
  | notification kind label call id =>
    cases kind with
    | permission => exact ⟨fun _ => .inl rfl, fun _ => ⟨rfl, rfl⟩⟩
    | waitingForInput => exact ⟨fun _ => .inl rfl, fun _ => ⟨rfl, rfl⟩⟩
    | other => exact keeps_liftPresenceFloor
  | stop id label =>
    simp only [applyEvent]
    split
    case isTrue => exact keeps_enter_quiet ..
    case isFalse => exact keeps_enter ..
  | subagentStop => exact .refl m
  | interrupted id => exact keeps_enter_quiet ..
  | sessionEnd id => exact keeps_terminate true

theorem apply_eq (event : ClaudeHookEvent) : m.apply event now =
      if (m.claimOrVerifyOwner event).1 then
        (({ (m.claimOrVerifyOwner event).2 with
            authoritativeCovered := true
            compactionPending := event.isPreCompact && m.compactionPending } :
          ClaudeStatusMachine τ).applyEvent m.compactionPending now event).reconcileScreenDissent
      else m := by
  unfold apply claimOrVerifyOwner
  cases event.namedSession with
  | none =>
    cases m.accepts event <;> cases event.isPreCompact <;> rfl
  | some id =>
    cases m.ownerSessionId with
    | none => cases event.isPreCompact <;> rfl
    | some owner =>
      grind

section

variable (event : ClaudeHookEvent)
omit [Clock τ]

theorem accepts_eq : m.accepts event = (m.claimOrVerifyOwner event).1 := by
  unfold claimOrVerifyOwner
  cases hnamed : event.namedSession with
  | none => rfl
  | some id =>
    simp only [accepts, hnamed]
    cases m.ownerSessionId with
    | none => rfl
    | some owner =>
      grind

theorem owner_claimOrVerifyOwner : (m.claimOrVerifyOwner event).2.ownerSessionId = m.ownerSessionId ∨
    ∃ id, event.namedSession = some id ∧ (m.claimOrVerifyOwner event).2.ownerSessionId = some id := by
  unfold claimOrVerifyOwner
  cases hnamed : event.namedSession with
  | none => exact .inl rfl
  | some id =>
    cases howner : m.ownerSessionId with
    | none => exact .inr ⟨id, rfl, rfl⟩
    | some owner =>
      grind

theorem claimOrVerifyOwner_eq :
    ∃ owner, (m.claimOrVerifyOwner event).2 = { m with ownerSessionId := owner } := by
  unfold claimOrVerifyOwner
  split
  case h_1 => exact ⟨m.ownerSessionId, rfl⟩
  case h_2 id _ =>
    split
    case h_1 => exact ⟨some id, rfl⟩
    case h_2 =>
      split
      case isTrue => exact ⟨m.ownerSessionId, rfl⟩
      case isFalse =>
        split
        case isTrue => exact ⟨m.ownerSessionId, rfl⟩
        case isFalse => exact ⟨some id, rfl⟩

theorem namedSession_ne {event : ClaudeHookEvent} {id : String} (h : event.namedSession = some id) :
    id.isEmpty = false := by
  have hfilter := (Option.filter_eq_some_iff.mp h).2
  simpa using hfilter

end

theorem Sound.apply (h : m.Sound) (event : ClaudeHookEvent) : (m.apply event now).Sound := by
  rw [apply_eq]
  split
  case isFalse => exact h
  case isTrue =>
    obtain ⟨owner, hclaimed⟩ := @claimOrVerifyOwner_eq τ m event
    have hnamed : ∀ id, owner = some id → id.isEmpty = false := by
      intro id hid
      rcases @owner_claimOrVerifyOwner τ m event with hsame | ⟨named, hnamed, hsome⟩
      · rw [hclaimed] at hsame
        exact (h.owner id (hsame ▸ hid)).1
      · rw [hclaimed] at hsome
        obtain rfl := Option.some.inj (hsome.symm.trans hid)
        exact namedSession_ne hnamed
    rw [hclaimed]
    refine keeps_reconcileScreenDissent.sound ((keeps_applyEvent _ _).sound ⟨h.ledger, ?_⟩)
    exact fun id hid => ⟨hnamed id hid, rfl⟩

theorem Sound.hear (h : m.Sound) (signal : ClaudeSignal) : (m.hear signal now).Sound := by
  cases signal with
  | hook event => exact h.apply event
  | processPresent present =>
    cases present with
    | true => exact keeps_liftPresenceFloor.sound h
    | false => exact (keeps_terminate false).sound h
  | manifestVerdict verdict => exact (keeps_applyManifest verdict).sound h
  | oscTitle title => exact (keeps_applyTitle title).sound h
  | tick => exact h
  | screen detection => exact (keeps_applyScreen detection).sound h
  | userInput =>
    show (if _ then _ else _ : ClaudeStatusMachine τ).Sound
    split
    case isTrue => exact (keeps_enter_quiet ..).sound h
    case isFalse => exact h

theorem Sound.reduce (h : m.Sound) (signal : ClaudeSignal) : (m.reduce signal now).Sound :=
  keeps_decayIfDue.sound (keeps_resolveScreenDissentIfDue.sound (h.hear signal))

theorem sound_new (doneToIdleTimeout : τ) : (new doneToIdleTimeout).Sound :=
  ⟨fun h => absurd rfl h, fun _ hid => by contradiction⟩

/-- One signal and when it was heard. -/
def fold (m : ClaudeStatusMachine τ) (heard : ClaudeSignal × τ) : ClaudeStatusMachine τ :=
  m.reduce heard.1 heard.2

theorem sound_run (doneToIdleTimeout : τ) (history : List (ClaudeSignal × τ)) :
    (run fold (new doneToIdleTimeout) history).Sound :=
  run_invariant Sound (fun _ heard h => h.reduce heard.1) (sound_new doneToIdleTimeout) history

end ClaudeStatusMachine

end SlopDesk.Agent
