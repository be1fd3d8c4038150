/-
SlopDesk.Agent.StandingClaims — the stopwatch on what the screen claims.

§1 says which status a signal enters, and when that tramples a claim that
still contradicts the pane. §2 has what one signal leaves of a claim, and §3
shows that in a run in which no claim is trampled a claim is dropped only
when it has become true, the screen changes it, or the session ends, and
that the first signal past its window applies it.
-/
import SlopDesk.Agent.MachineTheorems

namespace SlopDesk.Agent

open SlopDesk.Base

variable {τ : Type} [Clock τ]

namespace ClaudeStatusMachine

variable {m m' : ClaudeStatusMachine τ} {now : τ}
variable {claim : AgentScreenDetection}
variable {next : Option ClaudeStatus} {heard : ClaudeSignal × τ}

/-! ## §1 Entering a status -/

/-- The status that presence lifts the pane to, if it does. -/
def entersByPresence (m : ClaudeStatusMachine τ) (now : τ) : Option ClaudeStatus :=
  if !m.floorLocked now && m.status = .none then some .idle else none

/-- The status that a hook enters, if it enters one. -/
def entersByHook (m : ClaudeStatusMachine τ) (compactionEnded : Bool) (now : τ) :
    ClaudeHookEvent → Option ClaudeStatus
  | .preCompact _ | .notification .other _ _ _ => m.entersByPresence now
  | .sessionStart _ | .interrupted _ => some .idle
  | .userPromptSubmit _ => some .working
  | .preToolUse _ call | .postToolUse _ call =>
    if (m.resolveLedger call).blockLedger.isEmpty then some .working else none
  | .notification .permission _ _ _ | .notification .waitingForInput _ _ _ => some .needsPermission
  | .stop .. => some (if compactionEnded then .idle else .done)
  | .subagentStop | .sessionEnd _ => none

/-- The status that a title enters, if it enters one. -/
def entersByTitle (m : ClaudeStatusMachine τ) (title : String) (now : τ) : Option ClaudeStatus :=
  if titleShowsSpinner title then
    if m.status ≠ .none && m.blockSource ≠ .hook && !(m.authoritativeCovered && m.status = .done) then
      some .working
    else none
  else if titleShowsRest title then if m.status = .working then some .idle else none
  else if titleNamesClaude title then m.entersByPresence now
  else none

/-- The status that a manifest verdict enters, if it enters one. -/
def entersByManifest (m : ClaudeStatusMachine τ) (verdict : ClaudeStatus) (now : τ) : Option ClaudeStatus :=
  if m.floorLocked now then none
  else
    match verdict with
    | .none => none
    | .needsPermission => some .needsPermission
    | .working => if m.blockSource ≠ .hook then some .working else none
    | .idle => if m.blockSource ≠ .hook && m.status = .none then some .idle else none
    | .done => if m.blockSource ≠ .hook then some .done else none

/-- The status that a signal enters of itself, if it enters one. -/
def enters (m : ClaudeStatusMachine τ) (now : τ) : ClaudeSignal → Option ClaudeStatus
  | .hook event => if m.accepts event then m.entersByHook m.compactionPending now event else none
  | .processPresent present => if present then m.entersByPresence now else none
  | .manifestVerdict verdict => m.entersByManifest verdict now
  | .oscTitle title => m.entersByTitle title now
  | .tick | .screen _ => none
  | .userInput => if m.status = .needsPermission then some .idle else none

/-- A signal that ends the session. -/
def endsSession (m : ClaudeStatusMachine τ) : ClaudeSignal → Bool
  | .hook (.sessionEnd id) => m.accepts (.sessionEnd id)
  | .processPresent present => !present
  | _ => false

/-- The machine once a signal's own word of the screen is taken down. -/
def noted (m : ClaudeStatusMachine τ) (now : τ) : ClaudeSignal → ClaudeStatusMachine τ
  | .screen detection => m.beforeWatchdog now (.screen detection)
  | _ => m

/-- A finished turn's rest is due. -/
def decays (m : ClaudeStatusMachine τ) (now : τ) : Bool :=
  m.status = .done && m.doneSince.any fun since => Clock.le m.doneToIdleTimeout (Clock.sub now since)

/-- The screen has a claim, and the pane enters a status which that claim
contradicts too: by the signal, or by a rest that comes due before the claim. -/
def tramples (m : ClaudeStatusMachine τ) (now : τ) (signal : ClaudeSignal) : Bool :=
  match m.enters now signal with
  | some next => m.screenDissent.any fun claim => !({ m with status := next }).screenAgrees claim
  | none => !m.endsSession signal && (m.noted now signal).screenDissent.isSome
      && (m.noted now signal).decays now && !(m.noted now signal).overrules now

/-- The claim that stands, and since when. -/
def Claims (m : ClaudeStatusMachine τ) (state : AgentScreenState) (since : τ) : Prop :=
  m.screenDissent.map AgentScreenDetection.state = some state ∧ m.screenDissentSince = some since

/-- How a signal treats the screen's claim. It is taken down with its start,
or another in its place; it is dropped when it has become true or the session
ends; and once its window is over it is applied if the rules let it. -/
structure TreatsDuly (m : ClaudeStatusMachine τ) (heard : ClaudeSignal × τ) : Prop where
  noted : ∀ state since, m.Claims state since → (m.noted heard.2 heard.1).Claims state since ∨
    ∃ detection, heard.1 = .screen detection ∧ detection.state ≠ state
  dropped : ∀ claim since, (m.noted heard.2 heard.1).screenDissent = some claim →
    (m.noted heard.2 heard.1).screenDissentSince = some since →
      (m.fold heard).Claims claim.state since ∨ (m.fold heard).screenAgrees claim = true ∨
        m.endsSession heard.1 = true
  applied : ∀ claim, (m.noted heard.2 heard.1).screenDissent = some claim →
    (m.noted heard.2 heard.1).overrules heard.2 = true → m.enters heard.2 heard.1 = none →
      m.endsSession heard.1 = false →
        (m.fold heard).screenAgrees claim = true ∧ (m.fold heard).authoritativeCovered = false

def Untrampled (m : ClaudeStatusMachine τ) (heard : ClaudeSignal × τ) : Prop :=
  m.tramples heard.2 heard.1 = false

/-! ## §2 One signal -/

/-- What the watchdog and the decay read is as it was. -/
structure Same (m m' : ClaudeStatusMachine τ) : Prop where
  status : m'.status = m.status
  dissent : m'.screenDissent = m.screenDissent
  since : m'.screenDissentSince = m.screenDissentSince
  source : m'.blockSource = m.blockSource
  blockedSince : m'.blockedSince = m.blockedSince
  doneSince : m'.doneSince = m.doneSince
  timeout : m'.doneToIdleTimeout = m.doneToIdleTimeout
  covered : m.authoritativeCovered = true → m'.authoritativeCovered = true

/-- The pane has entered `next`, and nothing is claimed of it. -/
def Entered (m : ClaudeStatusMachine τ) (next : ClaudeStatus) : Prop :=
  m.status = next ∧ m.screenDissent = none

/-- A signal enters the status it is said to, or changes nothing that counts. -/
def Does (m : ClaudeStatusMachine τ) (next : Option ClaudeStatus) (m' : ClaudeStatusMachine τ) : Prop :=
  match next with
  | some next => m'.Entered next
  | none => m.Same m'

omit [Clock τ] in
theorem Same.refl (m : ClaudeStatusMachine τ) : m.Same m := ⟨rfl, rfl, rfl, rfl, rfl, rfl, rfl, id⟩

omit [Clock τ] in
theorem Same.does {m'' : ClaudeStatusMachine τ} (h : m.Same m')
    (hdoes : m'.Does next m'') : m.Does next m'' := by
  cases next with
  | some next => exact hdoes
  | none =>
    exact ⟨hdoes.status.trans h.status, hdoes.dissent.trans h.dissent, hdoes.since.trans h.since,
      hdoes.source.trans h.source, hdoes.blockedSince.trans h.blockedSince,
      hdoes.doneSince.trans h.doneSince, hdoes.timeout.trans h.timeout,
      fun hcovered => hdoes.covered (h.covered hcovered)⟩

theorem does_liftPresenceFloor : m.Does (m.entersByPresence now) (m.liftPresenceFloor now) := by
  unfold entersByPresence liftPresenceFloor
  cases m.floorLocked now with
  | true => exact .refl m
  | false =>
    by_cases hstatus : m.status = .none
    case pos => simp [hstatus, Does, Entered, enter]
    case neg => simpa [hstatus, Does] using Same.refl m

theorem does_applyTitle (title : String) : m.Does (m.entersByTitle title now) (m.applyTitle title now) := by
  unfold entersByTitle applyTitle
  split
  case isTrue =>
    dsimp only
    split
    case isTrue => exact ⟨rfl, rfl⟩
    case isFalse => exact .refl m
  case isFalse =>
    split
    case isTrue =>
      split
      case isTrue => exact ⟨rfl, rfl⟩
      case isFalse => exact .refl m
    case isFalse =>
      split
      case isTrue => exact does_liftPresenceFloor
      case isFalse => exact .refl m

theorem does_applyManifest (verdict : ClaudeStatus) :
    m.Does (m.entersByManifest verdict now) (m.applyManifest verdict now) := by
  unfold entersByManifest applyManifest
  split
  case isTrue => exact .refl m
  case isFalse =>
    cases verdict with
    | none => exact .refl m
    | needsPermission => exact ⟨rfl, rfl⟩
    | working =>
      dsimp only
      split
      case isTrue => exact ⟨rfl, rfl⟩
      case isFalse => exact .refl m
    | idle =>
      dsimp only
      split
      case isTrue => exact ⟨rfl, rfl⟩
      case isFalse => exact .refl m
    | done =>
      dsimp only
      split
      case isTrue => exact ⟨rfl, rfl⟩
      case isFalse => exact .refl m

omit [Clock τ] in
theorem does_resolve (call : Option String) :
    m.Does (if (m.resolveLedger call).blockLedger.isEmpty then some .working else none)
      (if (m.resolveLedger call).blockLedger.isEmpty then (m.resolveLedger call).enter .working none none
        else m.resolveLedger call) := by
  split
  case isTrue => exact ⟨rfl, rfl⟩
  case isFalse => exact ⟨rfl, rfl, rfl, rfl, rfl, rfl, rfl, id⟩

theorem does_applyEvent (compactionEnded : Bool) {event : ClaudeHookEvent}
    (hopen : ∀ id, event ≠ .sessionEnd id) :
    m.Does (m.entersByHook compactionEnded now event) (m.applyEvent compactionEnded now event) := by
  cases event with
  | preCompact id =>
    have harmed : m.Same { m with compactionPending := true } := ⟨rfl, rfl, rfl, rfl, rfl, rfl, rfl, fun h => h⟩
    exact harmed.does does_liftPresenceFloor
  | sessionStart id => exact ⟨rfl, rfl⟩
  | userPromptSubmit id => exact ⟨rfl, rfl⟩
  | preToolUse id call => exact does_resolve call
  | postToolUse id call => exact does_resolve call
  | notification kind label call id =>
    cases kind with
    | permission => exact ⟨rfl, rfl⟩
    | waitingForInput => exact ⟨rfl, rfl⟩
    | other => exact does_liftPresenceFloor
  | stop id label => cases compactionEnded <;> exact ⟨rfl, rfl⟩
  | subagentStop => exact .refl m
  | interrupted id => exact ⟨rfl, rfl⟩
  | sessionEnd id => exact absurd rfl (hopen id)

/-- A claim that stands has its start, argues with the feed, and contradicts
the status. -/
structure Contested (m : ClaudeStatusMachine τ) : Prop where
  since : ∀ claim, m.screenDissent = some claim → ∃ since, m.screenDissentSince = some since
  covered : ∀ claim, m.screenDissent = some claim → m.authoritativeCovered = true
  contradicts : ∀ claim, m.screenDissent = some claim → m.screenAgrees claim = false

omit [Clock τ] in
theorem Contested.of_none (h : m.screenDissent = none) : m.Contested where
  since claim hclaim := by simp [h] at hclaim
  covered claim hclaim := by simp [h] at hclaim
  contradicts claim hclaim := by simp [h] at hclaim

omit [Clock τ] in
theorem screenAgrees_congr (h : m'.status = m.status) (claim : AgentScreenDetection) :
    m'.screenAgrees claim = m.screenAgrees claim := by simp [screenAgrees, h]

omit [Clock τ] in
theorem Contested.same (h : m.Contested) (hsame : m.Same m') : m'.Contested where
  since claim hclaim := hsame.since ▸ h.since claim (hsame.dissent ▸ hclaim)
  covered claim hclaim := hsame.covered (h.covered claim (hsame.dissent ▸ hclaim))
  contradicts claim hclaim := by
    rw [screenAgrees_congr hsame.status]
    exact h.contradicts claim (hsame.dissent ▸ hclaim)

omit [Clock τ] in
theorem Contested.reconcile (h : m.Contested) : m.reconcileScreenDissent = m := by
  unfold reconcileScreenDissent
  cases hclaim : m.screenDissent with
  | none => rfl
  | some claim => simp [h.contradicts claim hclaim]

omit [Clock τ] in
theorem Contested.does (h : m.Contested) (hdoes : m.Does next m') : m'.Contested := by
  cases next with
  | none => exact h.same hdoes
  | some next => exact .of_none hdoes.2

theorem does_hear (h : m.Contested) {signal : ClaudeSignal} (hopen : m.endsSession signal = false)
    (hscreen : ∀ detection, signal ≠ .screen detection) :
    m.Does (m.enters now signal) (m.hear signal now) := by
  cases signal with
  | hook event =>
    simp only [enters, hear]
    rw [apply_eq, ← accepts_eq]
    split
    case isFalse => exact .refl m
    case isTrue haccepts =>
      have hlive : ∀ id, event ≠ .sessionEnd id := by
        rintro id rfl
        simp [endsSession, haccepts] at hopen
      obtain ⟨owner, hclaimed⟩ := @claimOrVerifyOwner_eq τ m event
      rw [hclaimed]
      generalize hheard : ({ m with
          ownerSessionId := owner
          authoritativeCovered := true
          compactionPending := event.isPreCompact && m.compactionPending } : ClaudeStatusMachine τ) = heard
      have hsame : m.Same heard := by
        rw [← hheard]
        exact ⟨rfl, rfl, rfl, rfl, rfl, rfl, rfl, fun _ => rfl⟩
      have henters : m.entersByHook m.compactionPending now event
          = heard.entersByHook m.compactionPending now event := by
        rw [← hheard]
        cases event with
        | notification kind label call id => cases kind <;> rfl
        | _ => rfl
      have hdoes := hsame.does (@does_applyEvent τ _ heard now m.compactionPending _ hlive)
      rw [henters, (h.does hdoes).reconcile]
      exact hdoes
  | processPresent present =>
    cases present with
    | true => exact does_liftPresenceFloor
    | false => contradiction
  | manifestVerdict verdict => exact does_applyManifest verdict
  | oscTitle title => exact does_applyTitle title
  | tick => exact .refl m
  | screen detection => exact absurd rfl (hscreen detection)
  | userInput =>
    simp only [enters, hear]
    split
    case isTrue => exact ⟨rfl, rfl⟩
    case isFalse => exact .refl m

/-- The screen's own verdict is taken down, or drops the claim. -/
theorem noted_screen (h : m.Contested) (detection : AgentScreenDetection) :
    m.beforeWatchdog now (.screen detection) = m ∨
    (m.disputes detection now = true ∧
      m.beforeWatchdog now (.screen detection) = m.noteScreenDissent detection now) ∨
    ((m.beforeWatchdog now (.screen detection)).screenDissent = none ∧
      ∀ claim, m.screenDissent = some claim → detection.state ≠ claim.state) := by
  simp only [beforeWatchdog]
  split
  case isTrue hdisputes => exact .inr (.inl ⟨hdisputes, rfl⟩)
  case isFalse hdisputes =>
    unfold applyScreen
    split
    case isTrue => exact .inl rfl
    case isFalse hskip =>
      split
      case isTrue => exact .inl rfl
      case isFalse hlocked =>
        have hother : m.screenAgrees detection = true →
            ∀ claim, m.screenDissent = some claim → detection.state ≠ claim.state := by
          intro hagrees claim hclaim hstate
          have hcontra := h.contradicts claim hclaim
          simp only [screenAgrees, hstate] at hagrees hcontra
          simp [hagrees] at hcontra
        split
        case isTrue hunknown => exact .inr (.inr ⟨rfl, hother (by simp [screenAgrees, hunknown])⟩)
        case isFalse hstate =>
          split
          case isTrue huncovered =>
            have hnone : m.screenDissent = none := by
              cases hclaim : m.screenDissent with
              | none => rfl
              | some claim => simp [h.covered claim hclaim] at huncovered
            refine .inr (.inr ⟨?_, by simp [hnone]⟩)
            rcases @applyScreenVerdict_cases τ _ m now detection false with
              hsame | hlanded | ⟨next, quiet, hlanded⟩
            · rw [hsame]
              exact hnone
            · rw [hlanded]
              rfl
            · rw [hlanded]
              rfl
          case isFalse hcovered =>
            split
            case isTrue hagrees => exact .inr (.inr ⟨rfl, hother hagrees⟩)
            case isFalse hagrees => exact absurd (by simp_all [disputes]) hdisputes

/-- A verdict that lands is the pane's status. -/
theorem landed_applyScreenVerdict {correcting : Bool}
    {landed : ClaudeStatusMachine τ} (h : m.applyScreenVerdict claim correcting now = (true, landed)) :
    landed.screenAgrees claim = true ∧ landed.status ≠ .done := by
  unfold applyScreenVerdict at h
  cases hstate : claim.state <;> simp only [screenAgrees, hstate] <;> grind [enter, enterBlocked]

/-- The watchdog that is due applies the claim, and frees the pane. -/
theorem applied_of_overrules (hclaim : m.screenDissent = some claim) (h : m.overrules now = true) :
    ((m.resolveScreenDissentIfDue now).decayIfDue now).screenAgrees claim = true ∧
      ((m.resolveScreenDissentIfDue now).decayIfDue now).authoritativeCovered = false ∧
      ((m.resolveScreenDissentIfDue now).decayIfDue now).screenDissent = none := by
  obtain ⟨hcovered, hdue⟩ := Bool.and_eq_true_iff.mp h
  cases hsince : m.screenDissentSince with
  | none => simp [hclaim, hsince] at hdue
  | some since =>
    rw [hclaim, hsince] at hdue
    obtain ⟨hwindow, hlands⟩ := Bool.and_eq_true_iff.mp hdue
    cases hverdict : m.applyScreenVerdict claim true now with
    | mk lands landed =>
      rw [hverdict] at hlands
      obtain rfl : lands = true := hlands
      obtain ⟨hagrees, hrests⟩ := landed_applyScreenVerdict hverdict
      have hfreed : m.resolveScreenDissentIfDue now
          = ({ landed with authoritativeCovered := false, ownerSessionId := none }).clearScreenDissent := by
        simp [resolveScreenDissentIfDue, hcovered, hclaim, hsince, hwindow, hverdict]
      have hstays : (m.resolveScreenDissentIfDue now).decayIfDue now = m.resolveScreenDissentIfDue now := by
        have hawake : (m.resolveScreenDissentIfDue now).status ≠ .done := by
          rw [hfreed]
          exact hrests
        rw [decayIfDue, if_pos hawake]
      rw [hstays, hfreed]
      exact ⟨hagrees, rfl, rfl⟩

/-- Where neither is due, the clock changes nothing. -/
theorem clock_quiet (hover : m.overrules now = false) (hdecays : m.decays now = false) :
    (m.resolveScreenDissentIfDue now).decayIfDue now = m := by
  rw [resolveScreenDissentIfDue_quiet hover]
  unfold decays at hdecays
  unfold decayIfDue
  split
  case isTrue => rfl
  case isFalse hdone =>
    split
    case h_1 => rfl
    case h_2 since hsince => simp_all

/-- A pane without a claim gets none from the clock, and rests at most. -/
theorem clock_unclaimed (h : m.screenDissent = none) :
    ((m.resolveScreenDissentIfDue now).decayIfDue now).screenDissent = none ∧
    (((m.resolveScreenDissentIfDue now).decayIfDue now).status = m.status ∨
      (m.status = .done ∧ ((m.resolveScreenDissentIfDue now).decayIfDue now).status = .idle)) := by
  rw [resolveScreenDissentIfDue_quiet (by simp [overrules, h])]
  unfold decayIfDue
  split
  case isTrue => exact ⟨h, .inl rfl⟩
  case isFalse hdone =>
    split
    case h_1 => exact ⟨h, .inl rfl⟩
    case h_2 =>
      split
      case isTrue => exact ⟨rfl, .inr ⟨Decidable.not_not.mp hdone, rfl⟩⟩
      case isFalse => exact ⟨h, .inl rfl⟩

omit [Clock τ] in
theorem screenAgrees_of_rests (h : m.status = .done)
    (hagrees : m.screenAgrees claim = true) (hidle : m'.status = .idle) : m'.screenAgrees claim = true := by
  cases hstate : claim.state <;> simp_all [screenAgrees]

theorem Same.overrules (h : m.Same m') (hcovered : m.authoritativeCovered = true) :
    m'.overrules now = m.overrules now := by
  have hverdict : ∀ claim, (m'.applyScreenVerdict claim true now).1 = (m.applyScreenVerdict claim true now).1 := by
    intro claim
    unfold applyScreenVerdict hookBlockOverridable
    rw [h.status, h.source, h.blockedSince]
    cases claim.state <;> grind
  simp [ClaudeStatusMachine.overrules, h.covered hcovered, hcovered, h.dissent, h.since, hverdict]

theorem Same.decays (h : m.Same m') : m'.decays now = m.decays now := by
  simp [ClaudeStatusMachine.decays, h.status, h.doneSince, h.timeout]

/-- A machine once the clock was read. -/
def clocked (m : ClaudeStatusMachine τ) (now : τ) : ClaudeStatusMachine τ :=
  (m.resolveScreenDissentIfDue now).decayIfDue now

/-- The clock keeps a claim, or applies it, unless a rest comes due before it. -/
theorem Contested.clock (h : m.Contested) (hsame : m.Same m')
    (hrests : (m.screenDissent.isSome && m.decays now && !m.overrules now) = false) :
    (m'.clocked now).Contested ∧
    ∀ claim since, m.screenDissent = some claim → m.screenDissentSince = some since →
      if m.overrules now then
        (m'.clocked now).screenAgrees claim = true ∧ (m'.clocked now).authoritativeCovered = false
      else (m'.clocked now).Claims claim.state since := by
  cases hclaim : m.screenDissent with
  | none =>
    have hnone : m'.screenDissent = none := hsame.dissent.trans hclaim
    exact ⟨.of_none (clock_unclaimed hnone).1, fun claim since hsome => by contradiction⟩
  | some claim =>
    have hover := @Same.overrules τ _ _ _ now hsame (h.covered claim hclaim)
    cases hdue : m.overrules now with
    | true =>
      obtain ⟨hagrees, hfreed, hnone⟩ := applied_of_overrules (hsame.dissent.trans hclaim) (hover.trans hdue)
      refine ⟨.of_none hnone, fun claim' since hsome _ => ?_⟩
      obtain rfl := Option.some.inj hsome
      exact ⟨hagrees, hfreed⟩
    | false =>
      have hawake : m'.decays now = false := by
        rw [hsame.decays]
        simpa [hclaim, hdue] using hrests
      have hquiet : m'.clocked now = m' := clock_quiet (hover.trans hdue) hawake
      rw [hquiet]
      refine ⟨h.same hsame, fun claim' since hsome hsince => ?_⟩
      obtain rfl := Option.some.inj hsome
      exact ⟨by rw [hsame.dissent, hclaim]; rfl, hsame.since.trans hsince⟩

theorem Contested.noted_screen (h : m.Contested) (detection : AgentScreenDetection) :
    (m.noted now (.screen detection)).Contested := by
  rcases @ClaudeStatusMachine.noted_screen τ _ _ now h detection with hsame | ⟨hdisputes, hnoted⟩ | ⟨hnone, _⟩
  · rw [noted, hsame]
    exact h
  · rw [noted, hnoted]
    simp only [disputes, Bool.and_eq_true, Bool.not_eq_true'] at hdisputes
    obtain ⟨⟨_, hcovered⟩, hagrees⟩ := hdisputes
    refine ⟨fun claim _ => ?_, fun _ _ => hcovered, fun claim hclaim => ?_⟩
    · simp only [noteScreenDissent]
      split
      case isTrue => exact ⟨now, rfl⟩
      case isFalse hstate =>
        cases hold : m.screenDissent with
        | none => simp [hold] at hstate
        | some old => exact h.since old hold
    · obtain rfl := Option.some.inj hclaim
      exact hagrees
  · exact .of_none hnone

theorem claims_noted_screen (h : m.Contested) (detection : AgentScreenDetection) {state : AgentScreenState}
    {since : τ} (hclaims : m.Claims state since) :
    (m.noted now (.screen detection)).Claims state since ∨ detection.state ≠ state := by
  by_cases hstate : detection.state = state
  case neg => exact .inr hstate
  case pos =>
    left
    obtain ⟨hclaim, hsince⟩ := hclaims
    rcases @ClaudeStatusMachine.noted_screen τ _ _ now h detection with hsame | ⟨_, hnoted⟩ | ⟨_, hother⟩
    · rw [noted, hsame]
      exact ⟨hclaim, hsince⟩
    · rw [noted, hnoted]
      simp [Claims, noteScreenDissent, hclaim, hsince, hstate]
    · obtain ⟨claim, hsome, hold⟩ := Option.map_eq_some_iff.mp hclaim
      exact absurd (hstate.trans hold.symm) (hother claim hsome)

theorem ended_hear {signal : ClaudeSignal} (h : m.endsSession signal = true) :
    (m.hear signal now).screenDissent = none := by
  unfold endsSession at h
  split at h
  case h_1 id =>
    simp only [hear]
    rw [apply_eq, ← accepts_eq, if_pos h]
    rfl
  case h_2 present =>
    cases present with
    | true => contradiction
    | false => rfl
  case h_3 => contradiction

theorem TreatsDuly.of_clock
    (hnoted : ∀ state since, m.Claims state since → (m.noted heard.2 heard.1).Claims state since ∨
      ∃ detection, heard.1 = .screen detection ∧ detection.state ≠ state)
    (hclock : ∀ claim since, (m.noted heard.2 heard.1).screenDissent = some claim →
      (m.noted heard.2 heard.1).screenDissentSince = some since →
        if (m.noted heard.2 heard.1).overrules heard.2 then
          (m.fold heard).screenAgrees claim = true ∧ (m.fold heard).authoritativeCovered = false
        else (m.fold heard).Claims claim.state since) : m.TreatsDuly heard where
  noted := hnoted
  dropped claim since hclaim hsince := by
    have hkept := hclock claim since hclaim hsince
    split at hkept
    case isTrue => exact .inr (.inl hkept.1)
    case isFalse => exact .inl hkept
  applied claim hclaim hover _ _ := by
    cases hsince : (m.noted heard.2 heard.1).screenDissentSince with
    | none => simp [overrules, hclaim, hsince] at hover
    | some since => simpa [hover] using hclock claim since hclaim hsince

theorem Contested.fold_screen (h : m.Contested) {detection : AgentScreenDetection}
    (huntrampled : m.Untrampled (.screen detection, now)) :
    (m.fold (.screen detection, now)).Contested ∧ m.TreatsDuly (.screen detection, now) := by
  have hfold : m.fold (.screen detection, now) = (m.noted now (.screen detection)).clocked now :=
    reduce_eq (.screen detection)
  have hrests : ((m.noted now (.screen detection)).screenDissent.isSome
      && (m.noted now (.screen detection)).decays now
      && !(m.noted now (.screen detection)).overrules now) = false := by
    simpa [Untrampled, tramples, enters, endsSession] using huntrampled
  obtain ⟨hkept, hclock⟩ := (h.noted_screen detection).clock (.refl _) hrests
  rw [← hfold] at hkept hclock
  refine ⟨hkept, .of_clock (fun state since hclaims => ?_) hclock⟩
  rcases claims_noted_screen h detection hclaims with hsame | hother
  · exact .inl hsame
  · exact .inr ⟨detection, rfl, hother⟩

/-- A signal that enters a status the claim agrees with has answered it. -/
theorem answered_of_entered {next : ClaudeStatus} (h : m'.Entered next)
    (hagrees : ({ m with status := next } : ClaudeStatusMachine τ).screenAgrees claim = true) :
    (m'.clocked now).screenAgrees claim = true := by
  have hentered : m'.screenAgrees claim = true := by
    rw [← hagrees]
    exact screenAgrees_congr (m := { m with status := next }) h.1 claim
  rcases (@clock_unclaimed τ _ _ now h.2).2 with hsame | ⟨hdone, hidle⟩
  · rw [← hentered]
    exact screenAgrees_congr hsame claim
  · exact screenAgrees_of_rests hdone hentered hidle

theorem Contested.fold_other (h : m.Contested) {signal : ClaudeSignal}
    (hscreen : ∀ detection, signal ≠ .screen detection) (huntrampled : m.Untrampled (signal, now)) :
    (m.fold (signal, now)).Contested ∧ m.TreatsDuly (signal, now) := by
  have hnoted : m.noted now signal = m := by
    cases signal with
    | screen detection => exact absurd rfl (hscreen detection)
    | _ => rfl
  have hfold : m.fold (signal, now) = (m.hear signal now).clocked now := rfl
  cases hends : m.endsSession signal with
  | true =>
    have hnone := (@clock_unclaimed τ _ _ now (@ended_hear τ _ _ now _ hends)).1
    refine ⟨.of_none hnone, fun state since hclaims => .inl (hnoted.symm ▸ hclaims), ?_, ?_⟩
    · exact fun claim since _ _ => .inr (.inr hends)
    · exact fun claim _ _ _ hopen => absurd hends (by simp [hopen])
  | false =>
    have hdoes := @does_hear τ _ _ now h _ hends hscreen
    cases henters : m.enters now signal with
    | none =>
      rw [henters] at hdoes
      have hrests : (m.screenDissent.isSome && m.decays now && !m.overrules now) = false := by
        simpa [Untrampled, tramples, henters, hends, hnoted] using huntrampled
      obtain ⟨hkept, hclock⟩ := @Contested.clock τ _ _ _ now h hdoes hrests
      refine ⟨hkept, .of_clock (fun state since hclaims => .inl (hnoted.symm ▸ hclaims)) ?_⟩
      rw [hnoted]
      exact hclock
    | some next =>
      rw [henters] at hdoes
      refine ⟨.of_none (clock_unclaimed hdoes.2).1, fun state since hclaims => .inl (hnoted.symm ▸ hclaims), ?_, ?_⟩
      · intro claim since hclaim hsince
        rw [hnoted] at hclaim
        have hagrees : ({ m with status := next } : ClaudeStatusMachine τ).screenAgrees claim = true := by
          simpa [Untrampled, tramples, henters, hclaim] using huntrampled
        rw [hfold]
        exact .inr (.inl (answered_of_entered hdoes hagrees))
      · exact fun claim _ _ hquiet _ => absurd hquiet (by simp [henters])

/-- A signal that tramples no claim keeps the claims contested and treats them
duly. -/
theorem Contested.fold (h : m.Contested) (huntrampled : m.Untrampled heard) :
    (m.fold heard).Contested ∧ m.TreatsDuly heard := by
  obtain ⟨signal, now⟩ := heard
  by_cases hscreen : ∃ detection, signal = .screen detection
  case pos =>
    obtain ⟨detection, rfl⟩ := hscreen
    exact h.fold_screen huntrampled
  case neg => exact h.fold_other (fun detection heq => hscreen ⟨detection, heq⟩) huntrampled

/-! ## §3 Runs -/

/-- A run in which no claim is trampled treats every claim duly. -/
theorem claims_treated_duly (doneToIdleTimeout : τ) (history : List (ClaudeSignal × τ))
    (h : Meets fold Untrampled (new doneToIdleTimeout) history) :
    Meets fold TreatsDuly (new doneToIdleTimeout) history := by
  have hnew : (new doneToIdleTimeout).Contested := .of_none rfl
  apply h.weaken Contested _ hnew
  intro m heard huntrampled hcontested
  obtain ⟨hkept, hduly⟩ := hcontested.fold huntrampled
  exact ⟨hduly, hkept⟩

/-- The screen sees a turn's end that no hook told of, and the clock runs out. -/
theorem claims_treated_duly_idle :
    Meets fold TreatsDuly (new (8 : Int))
      [(.hook (.userPromptSubmit (some "session")), 0), (.screen ⟨.idle, false, true⟩, 1), (.tick, 11)] :=
  claims_treated_duly 8 _ (meets_of_decide (fun _ _ => inferInstanceAs (Decidable (_ = false))) (by decide))

/-- A tool starts in the turn that the screen does not see, and the screen's
word is gone. -/
theorem claim_trampled :
    ¬ Meets fold TreatsDuly (new (8 : Int))
      [(.hook (.userPromptSubmit (some "session")), 0), (.screen ⟨.idle, false, true⟩, 1),
        (.hook (.preToolUse (some "session") (some "call")), 2)] := by
  intro h
  have hdropped := h.2.2.1.dropped ⟨.idle, false, true⟩ 1 (by decide) (by decide)
  revert hdropped
  unfold Claims
  decide

end ClaudeStatusMachine

end SlopDesk.Agent
