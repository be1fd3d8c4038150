/-
SlopDesk.Agent.FinishedTurns — how often a turn is announced finished.

§1 keeps the count beside the machine: what was announced since the last
prompt, and what of it after the turn was ended quietly. §2 says which
signals take a resting pane into a turn again, and shows that without them a
turn is announced at most once (`announced_at_most_once`).
-/
import SlopDesk.Agent.MachineTheorems

namespace SlopDesk.Agent

open SlopDesk.Base

variable {τ : Type} [Clock τ]

/-! ## §1 The count -/

namespace ClaudeStatusMachine

/-- Whether a change of status is told: it is a finish, and not quiet. -/
def announces (before after : ClaudeStatusMachine τ) : Bool :=
  mintsFinishedTurn before.status after.status && !after.isQuiet

/-- A prompt that is folded in. -/
def isPrompt (m : ClaudeStatusMachine τ) : ClaudeSignal → Bool
  | .hook (.userPromptSubmit id) => m.accepts (.userPromptSubmit id)
  | _ => false

/-- A signal that ends the turn quietly: an interrupt, the stop of a
compaction, or a cancel key at a dialog. -/
def dismisses (m : ClaudeStatusMachine τ) : ClaudeSignal → Bool
  | .hook (.interrupted id) => m.accepts (.interrupted id)
  | .hook (.stop id label) => m.accepts (.stop id label) && m.compactionPending
  | .userInput => m.status = .needsPermission
  | _ => false

end ClaudeStatusMachine

/-- What was told since the last prompt. -/
structure Turn where
  started : Bool
  announced : Nat
  dismissed : Bool
  late : Nat

/-- A machine and its turn. -/
structure Watched (τ : Type) where
  machine : ClaudeStatusMachine τ
  turn : Turn

namespace Watched

open ClaudeStatusMachine

variable {w : Watched τ}

def start (doneToIdleTimeout : τ) : Watched τ := ⟨.new doneToIdleTimeout, ⟨false, 0, false, 0⟩⟩

/-- One signal, counted. -/
def step (w : Watched τ) (heard : ClaudeSignal × τ) : Watched τ where
  machine := w.machine.reduce heard.1 heard.2
  turn :=
    if w.machine.isPrompt heard.1 then ⟨true, 0, false, 0⟩
    else if !w.turn.started then w.turn
    else
      let told := if announces w.machine (w.machine.reduce heard.1 heard.2) then 1 else 0
      { w.turn with
        announced := w.turn.announced + told
        dismissed := w.turn.dismissed || w.machine.dismisses heard.1
        late := if w.turn.dismissed then w.turn.late + told else w.turn.late }

/-- At most one finish was told, and none after a quiet end. -/
def ToldOnce (w : Watched τ) : Prop := w.turn.announced ≤ 1 ∧ w.turn.late = 0

/-- The turn was told, or ended quietly. -/
def isSpent (w : Watched τ) : Bool := w.turn.announced ≠ 0 || w.turn.dismissed

/-- The pane stays covered from the prompt on. -/
def StaysCovered (w : Watched τ) (heard : ClaudeSignal × τ) : Prop :=
  (w.step heard).turn.started = true → (w.step heard).machine.authoritativeCovered = true

end Watched

/-! ## §2 Resting panes -/

/-- A hook that takes a resting pane into a turn: of a tool, of a block, or of
a stop that is not a compaction's and not the second. -/
def ClaudeHookEvent.stirs (compactionEnded : Bool) (status : ClaudeStatus) : ClaudeHookEvent → Bool
  | .preToolUse .. | .postToolUse .. => true
  | .notification kind _ _ _ => kind ≠ .other
  | .stop .. => !compactionEnded && status ≠ .done
  | _ => false

def ClaudeStatus.isOver : ClaudeStatus → Bool
  | .idle | .done | .none => true
  | .working | .needsPermission => false

/-- A change inside a rest: a finished turn is none that was not. -/
structure Settles (before after : ClaudeStatus) : Prop where
  rests : after.isOver = true
  done : after = .done → before = .done

theorem settles_refl {status : ClaudeStatus} (h : status.isOver = true) : Settles status status := ⟨h, id⟩

theorem settles_idle (status : ClaudeStatus) : Settles status .idle := ⟨rfl, fun h => by contradiction⟩

theorem Settles.not_mints {before after : ClaudeStatus} (hbefore : before.isOver = true)
    (h : Settles before after) : mintsFinishedTurn before after = false := by
  unfold mintsFinishedTurn
  split
  case isTrue hdone => simp [h.done hdone]
  case isFalse => cases before <;> first | contradiction | (cases after <;> rfl)

namespace ClaudeStatusMachine

variable {m : ClaudeStatusMachine τ} {now : τ}
variable {signal : ClaudeSignal}

/-- A signal that takes a resting pane into a turn: the spinner, such a hook,
or a manifest that lands. -/
def stirs (m : ClaudeStatusMachine τ) (now : τ) : ClaudeSignal → Bool
  | .oscTitle title => titleShowsSpinner title && m.status = .idle && m.blockSource ≠ .hook
  | .hook event => m.accepts event && event.stirs m.compactionPending m.status
  | .manifestVerdict verdict => !m.floorLocked now &&
    match verdict with
    | .needsPermission => true
    | .working => m.blockSource ≠ .hook
    | .done => m.blockSource ≠ .hook && m.status ≠ .done
    | _ => false
  | _ => false

theorem settles_liftPresenceFloor (h : m.status.isOver = true) :
    Settles m.status (m.liftPresenceFloor now).status := by
  unfold liftPresenceFloor
  split
  case isTrue => exact settles_refl h
  case isFalse =>
    split
    case isTrue => exact settles_idle _
    case isFalse => exact settles_refl h

theorem settles_applyTitle (h : m.status.isOver = true) (hcovered : m.authoritativeCovered = true)
    {title : String} (hcalm : m.stirs now (.oscTitle title) = false) :
    Settles m.status (m.applyTitle title now).status := by
  unfold applyTitle
  split
  case isTrue hspinner =>
    dsimp only
    split
    case isTrue hpromoted => cases hstatus : m.status <;> simp_all [stirs, ClaudeStatus.isOver]
    case isFalse => exact settles_refl h
  case isFalse =>
    split
    case isTrue =>
      split
      case isTrue => exact settles_idle _
      case isFalse => exact settles_refl h
    case isFalse =>
      split
      case isTrue => exact settles_liftPresenceFloor h
      case isFalse => exact settles_refl h

theorem settles_applyManifest (h : m.status.isOver = true) {verdict : ClaudeStatus}
    (hcalm : m.stirs now (.manifestVerdict verdict) = false) :
    Settles m.status (m.applyManifest verdict now).status := by
  unfold applyManifest
  split
  case isTrue => exact settles_refl h
  case isFalse hlocked =>
    cases verdict with
    | none => exact settles_refl h
    | needsPermission => simp [stirs, hlocked] at hcalm
    | working =>
      dsimp only
      split
      case isTrue hsource => simp [stirs, hlocked, hsource] at hcalm
      case isFalse => exact settles_refl h
    | idle =>
      dsimp only
      split
      case isTrue => exact settles_idle _
      case isFalse => exact settles_refl h
    | done =>
      dsimp only
      split
      case isTrue hsource =>
        have hdone : m.status = .done := by simpa [stirs, hlocked, hsource] using hcalm
        exact ⟨rfl, fun _ => hdone⟩
      case isFalse => exact settles_refl h

theorem settles_applyEvent (h : m.status.isOver = true) (compactionEnded : Bool)
    {event : ClaudeHookEvent} (hprompt : ∀ id, event ≠ .userPromptSubmit id)
    (hcalm : event.stirs compactionEnded m.status = false) :
    Settles m.status (m.applyEvent compactionEnded now event).status := by
  cases event with
  | preCompact id =>
    exact @settles_liftPresenceFloor τ _ { m with compactionPending := true } now h
  | sessionStart id => exact settles_idle _
  | userPromptSubmit id => exact absurd rfl (hprompt id)
  | preToolUse id call => contradiction
  | postToolUse id call => contradiction
  | notification kind label call id =>
    cases kind with
    | permission => contradiction
    | waitingForInput => contradiction
    | other => exact settles_liftPresenceFloor h
  | stop id label =>
    simp only [applyEvent]
    split
    case isTrue => exact settles_idle _
    case isFalse hcompaction =>
      have hdone : m.status = .done := by simpa [ClaudeHookEvent.stirs, hcompaction] using hcalm
      exact ⟨rfl, fun _ => hdone⟩
  | subagentStop => exact settles_refl h
  | interrupted id => exact settles_idle _
  | sessionEnd id => exact ⟨rfl, fun hdone => by contradiction⟩

omit [Clock τ] in
theorem status_reconcileScreenDissent : m.reconcileScreenDissent.status = m.status := by
  unfold reconcileScreenDissent
  split
  case h_1 => rfl
  case h_2 => split <;> rfl

theorem settles_apply (h : m.status.isOver = true) {event : ClaudeHookEvent}
    (hprompt : m.isPrompt (.hook event) = false) (hcalm : m.stirs now (.hook event) = false) :
    Settles m.status (m.apply event now).status := by
  rw [apply_eq, ← accepts_eq]
  split
  case isFalse => exact settles_refl h
  case isTrue haccepts =>
    obtain ⟨owner, hclaimed⟩ := @claimOrVerifyOwner_eq τ m event
    have hother : ∀ id, event ≠ .userPromptSubmit id := by
      rintro id rfl
      simp [isPrompt, haccepts] at hprompt
    rw [hclaimed, status_reconcileScreenDissent]
    simp only [stirs, haccepts, Bool.true_and] at hcalm
    exact @settles_applyEvent τ _ { m with
      ownerSessionId := owner
      authoritativeCovered := true
      compactionPending := event.isPreCompact && m.compactionPending } now h _ event hother hcalm

theorem settles_decayIfDue {status : ClaudeStatus} (h : Settles status m.status) :
    Settles status (m.decayIfDue now).status := by
  unfold decayIfDue
  split
  case isTrue => exact h
  case isFalse =>
    split
    case h_1 => exact h
    case h_2 =>
      split
      case isTrue => exact settles_idle _
      case isFalse => exact h

theorem covered_decayIfDue : (m.decayIfDue now).authoritativeCovered = m.authoritativeCovered := by
  unfold decayIfDue
  split
  case isTrue => rfl
  case isFalse =>
    split
    case h_1 => rfl
    case h_2 => split <;> rfl

theorem reduce_of_covered (hstays : (m.reduce signal now).authoritativeCovered = true) :
    m.reduce signal now = (m.beforeWatchdog now signal).decayIfDue now := by
  rw [reduce_eq] at hstays ⊢
  rcases @resolveScreenDissentIfDue_cases τ _ (m.beforeWatchdog now signal) now with
    ⟨_, hsame⟩ | ⟨_, _, landed, _, hfreed⟩
  · rw [hsame]
  · rw [covered_decayIfDue, hfreed] at hstays
    contradiction

theorem settles_reduce (h : m.status.isOver = true) (hcovered : m.authoritativeCovered = true)
    (hprompt : m.isPrompt signal = false) (hcalm : m.stirs now signal = false)
    (hstays : (m.reduce signal now).authoritativeCovered = true) :
    Settles m.status (m.reduce signal now).status := by
  rw [reduce_of_covered hstays]
  refine settles_decayIfDue ?_
  cases signal with
  | hook event => exact settles_apply h hprompt hcalm
  | processPresent present =>
    cases present with
    | true => exact settles_liftPresenceFloor h
    | false => exact ⟨rfl, fun hdone => by contradiction⟩
  | manifestVerdict verdict => exact settles_applyManifest h hcalm
  | oscTitle title => exact settles_applyTitle h hcovered hcalm
  | tick => exact settles_refl h
  | screen detection =>
    simp only [beforeWatchdog]
    split
    case isTrue => exact settles_refl h
    case isFalse hagreed =>
      unfold applyScreen
      split
      case isTrue => exact settles_refl h
      case isFalse hskip =>
        split
        case isTrue => exact settles_refl h
        case isFalse hlocked =>
          split
          case isTrue => exact settles_refl h
          case isFalse hstate =>
            split
            case isTrue hbare => simp [hcovered] at hbare
            case isFalse =>
              split
              case isTrue => exact settles_refl h
              case isFalse hagrees =>
                simp [disputes, hskip, hlocked, hstate, hcovered, hagrees] at hagreed
  | userInput =>
    simp only [beforeWatchdog, hear]
    split
    case isTrue => exact settles_idle _
    case isFalse => exact settles_refl h

theorem isOver_of_mints {before after : ClaudeStatus} (h : mintsFinishedTurn before after = true) :
    after.isOver = true := by
  cases after with
  | idle => rfl
  | done => rfl
  | none => rfl
  | working => cases before <;> simp [mintsFinishedTurn, isCompletion] at h
  | needsPermission => cases before <;> simp [mintsFinishedTurn, isCompletion] at h

theorem isOver_of_dismisses (h : m.dismisses signal = true)
    (hstays : (m.reduce signal now).authoritativeCovered = true) :
    (m.reduce signal now).status.isOver = true := by
  have hidle : (m.beforeWatchdog now signal).status = .idle := by
    cases signal with
    | hook event =>
      show (m.apply event now).status = .idle
      cases event with
      | interrupted id =>
        have haccepts : m.accepts (.interrupted id) = true := h
        rw [apply_eq, ← accepts_eq, if_pos haccepts, status_reconcileScreenDissent]
        rfl
      | stop id label =>
        obtain ⟨haccepts, hcompaction⟩ := Bool.and_eq_true_iff.mp h
        rw [apply_eq, ← accepts_eq, if_pos haccepts, status_reconcileScreenDissent, hcompaction]
        rfl
      | sessionStart id => contradiction
      | userPromptSubmit id => contradiction
      | preToolUse id call => contradiction
      | postToolUse id call => contradiction
      | notification kind label call id => contradiction
      | subagentStop => contradiction
      | sessionEnd id => contradiction
      | preCompact id => contradiction
    | userInput =>
      have hblocked : m.status = .needsPermission := of_decide_eq_true h
      simp [beforeWatchdog, hear, hblocked, enter]
    | processPresent present => contradiction
    | manifestVerdict verdict => contradiction
    | oscTitle title => contradiction
    | tick => contradiction
    | screen detection => contradiction
  rw [reduce_of_covered hstays]
  have hsettles : Settles .idle (m.beforeWatchdog now signal).status := by
    rw [hidle]
    exact settles_idle _
  exact (settles_decayIfDue hsettles).rests

end ClaudeStatusMachine

/-! ## §3 Runs -/

namespace Watched

open ClaudeStatusMachine

variable {w : Watched τ}

/-- Once the turn was told or ended quietly, nothing but a prompt takes the
pane into a turn again. -/
def Calm (w : Watched τ) (heard : ClaudeSignal × τ) : Prop :=
  w.isSpent = true → w.machine.isPrompt heard.1 = false →
    w.machine.stirs heard.2 heard.1 = false

structure Inv (w : Watched τ) : Prop where
  covered : w.turn.started = true → w.machine.authoritativeCovered = true
  spent : w.isSpent = true → w.turn.started = true ∧ w.machine.status.isOver = true
  told : w.ToldOnce

theorem Inv.step (h : w.Inv) {heard : ClaudeSignal × τ} (hcovered : w.StaysCovered heard)
    (hcalm : w.Calm heard) : (w.step heard).Inv := by
  obtain ⟨signal, now⟩ := heard
  by_cases hprompt : w.machine.isPrompt signal = true
  case pos =>
    have hturn : (w.step (signal, now)).turn = ⟨true, 0, false, 0⟩ := if_pos hprompt
    exact ⟨hcovered, fun hspent => by simp [isSpent, hturn] at hspent, by simp [ToldOnce, hturn]⟩
  case neg =>
  rw [Bool.not_eq_true] at hprompt
  by_cases hstarted : w.turn.started = true
  case neg =>
    have hturn : (w.step (signal, now)).turn = w.turn := by simp [Watched.step, hprompt, hstarted]
    refine ⟨hcovered, fun hspent => ?_, ?_⟩
    · rw [isSpent, hturn] at hspent
      exact absurd (h.spent hspent).1 hstarted
    · rw [ToldOnce, hturn]
      exact h.told
  case pos =>
  have hstays : (w.machine.reduce signal now).authoritativeCovered = true :=
    hcovered (by simp [Watched.step, hprompt, hstarted])
  cases hspent : w.isSpent with
  | true =>
    -- at rest, and not stirred: nothing more is told
    have hsettles := settles_reduce (h.spent hspent).2 (h.covered hstarted) hprompt
      (hcalm hspent hprompt) hstays
    have hquiet : announces w.machine (w.machine.reduce signal now) = false := by
      rw [announces, hsettles.not_mints (h.spent hspent).2, Bool.false_and]
    refine ⟨fun _ => hstays, fun _ => ⟨?_, hsettles.rests⟩, ?_⟩
    · simp [Watched.step, hprompt, hstarted]
    · simp only [ToldOnce, Watched.step, hprompt, hstarted, hquiet]
      simpa [ToldOnce] using h.told
  | false =>
    obtain ⟨hnone, hopen⟩ : w.turn.announced = 0 ∧ w.turn.dismissed = false := by
      simpa [isSpent] using hspent
    have hlate := h.told.2
    refine ⟨fun _ => hstays, fun hnow => ⟨?_, ?_⟩, ?_⟩
    · simp [Watched.step, hprompt, hstarted]
    · cases htold : announces w.machine (w.machine.reduce signal now) with
      | true => exact isOver_of_mints (Bool.and_eq_true_iff.mp htold).1
      | false =>
        refine isOver_of_dismisses ?_ hstays
        simpa [isSpent, Watched.step, hprompt, hstarted, hnone, hopen, htold] using hnow
    · simp only [ToldOnce, Watched.step, hprompt, hstarted, hnone, hopen, hlate]
      cases announces w.machine (w.machine.reduce signal now) <;> simp

/-- In every run in which the pane stays covered from a prompt on, and in
which nothing but a prompt takes it into a turn again once the turn was told
or ended quietly, a turn is told at most once, and never after a quiet
end. -/
theorem announced_at_most_once (doneToIdleTimeout : τ) (heard : List (ClaudeSignal × τ))
    (hheard : Meets step (fun w heard => w.StaysCovered heard ∧ w.Calm heard)
      (start doneToIdleTimeout) heard) :
    Throughout step ToldOnce (start doneToIdleTimeout) heard := by
  have hinv : (start doneToIdleTimeout).Inv :=
    ⟨fun hstarted => by contradiction, fun hspent => by contradiction, Nat.zero_le 1, rfl⟩
  exact (hheard.throughout Inv (fun w heard hok h => h.step hok.1 hok.2) hinv).imp fun w h => h.told

/-! ### Two runs -/

instance (w : Watched τ) (heard : ClaudeSignal × τ) : Decidable (w.StaysCovered heard) :=
  inferInstanceAs (Decidable (_ → _))

instance (w : Watched τ) (heard : ClaudeSignal × τ) : Decidable (w.Calm heard) :=
  inferInstanceAs (Decidable (_ → _ → _))

/-- A turn with a tool and a question, its stop, the title's rest glyph and
the decay; then a turn that is interrupted. -/
def twoTurns : List (ClaudeSignal × Int) :=
  [(.hook (.userPromptSubmit (some "s")), 0), (.oscTitle "\u2819 Running", 1),
    (.hook (.preToolUse (some "s") (some "call")), 2),
    (.hook (.notification .waitingForInput none (some "ask") (some "s")), 3),
    (.hook (.postToolUse (some "s") (some "ask")), 4), (.hook (.stop (some "s") none), 5),
    (.oscTitle "\u2819 Running", 5), (.oscTitle "\u2733 Claude Code", 6), (.tick, 20),
    (.hook (.userPromptSubmit (some "s")), 30), (.hook (.interrupted (some "s")), 31),
    (.oscTitle "\u2733 Claude Code", 32), (.processPresent true, 33)]

theorem announced_at_most_once_two_turns :
    Throughout step ToldOnce (start (Clock.seconds 8)) twoTurns :=
  announced_at_most_once (Clock.seconds 8) twoTurns (by decide +kernel)

/-- The rest glyph comes before the stop. -/
def restBeforeStop : List (ClaudeSignal × Int) :=
  [(.hook (.userPromptSubmit (some "s")), 0), (.oscTitle "\u2733 Claude Code", 1),
    (.hook (.stop (some "s") none), 2)]

/-- A spinner repaint trails the interrupt, and the rest glyph follows. -/
def repaintAfterInterrupt : List (ClaudeSignal × Int) :=
  [(.hook (.userPromptSubmit (some "s")), 0), (.hook (.interrupted (some "s")), 1),
    (.oscTitle "\u2819 Running", 2), (.oscTitle "\u2733 Claude Code", 3)]

/-- The one turn is told twice, the other after the user had ended it. -/
theorem announced_again :
    (Meets step StaysCovered (start (Clock.seconds 8)) restBeforeStop ∧
      (run step (start (Clock.seconds 8)) restBeforeStop).turn.announced = 2) ∧
    (Meets step StaysCovered (start (Clock.seconds 8)) repaintAfterInterrupt ∧
      (run step (start (Clock.seconds 8)) repaintAfterInterrupt).turn.late = 1) := by
  exact ⟨⟨by decide +kernel, by decide +kernel⟩, ⟨by decide +kernel, by decide +kernel⟩⟩

end Watched

end SlopDesk.Agent
