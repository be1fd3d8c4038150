/-
SlopDesk.Client.PauseLatch — the pausing latch and the paused state.

§1 says what is asked of a run and of the states it passes through, §2 has
the invariant that ties the latches to the calls underway, and §3 the runs:
apart from two kinds of resume the latch is what it says once nothing is
underway, nothing stays adopted behind a pause or a close, and no connect of
a pane at rest is superseded.
-/
import SlopDesk.Base.Runs
import SlopDesk.Client.PaneDriver

namespace SlopDesk.Client

open SlopDesk.Base

variable {ε : Type}

/-! ## §1 What is asked -/

namespace Doing

def isClearing : Doing ε → Bool
  | .clearing _ => true
  | _ => false

/-- Past the opening of a connect. -/
def dials : Doing ε → Bool
  | .opened _ | .dialling _ | .accepted _ | .checking _ _ | .adopting _ => true
  | _ => false

def asker : Doing ε → Option Asker
  | .opening _ asker | .opened asker | .dialling asker | .accepted asker | .checking _ asker
  | .adopting asker => some asker
  | _ => none

end Doing

namespace PaneDriver

variable {d : PaneDriver ε}
variable {command : Command ε} {asker : Asker} {rest : List (Command ε)}

/-- A resume that would find the pane paused and nowhere to go back to. -/
def strands (d : PaneDriver ε) : Bool :=
  match d.doing, d.commands with
  | .idle, .resume :: _ => d.paused && !d.closed && !d.childExited && d.endpoint.isNone
  | _, _ => false

/-- No resume comes before the first connect, and none clears the latch under
a pause that is underway. -/
def Apart (d : PaneDriver ε) : Event ε → Prop
  | .take => d.strands = false
  | .act _ => ¬ (d.doing.isClearing = true ∧ d.PauseUnderway)
  | _ => True

instance [DecidableEq ε] (d : PaneDriver ε) (event : Event ε) : Decidable (d.Apart event) :=
  match event with
  | .take => inferInstanceAs (Decidable (d.strands = false))
  | .act _ => inferInstanceAs (Decidable (¬ (d.doing.isClearing = true ∧ d.PauseUnderway)))
  | .raisePause | .postPause | .raiseClose | .postClose | .connect _ | .resume | .exited | .ended _ _ | .retry _ =>
    .isTrue trivial

/-- No call has raised a latch that it has not posted, and no command waits or
is being run. -/
def Quiescent (d : PaneDriver ε) : Prop :=
  d.doing = .idle ∧ d.commands = [] ∧ d.pauses = 0 ∧ d.closes = 0

/-- Once nothing is underway the latch says whether an open pane is paused and
a paused or closed one has no transport; and no connect is superseded that
was posted at rest, with no pause or close called since. -/
structure Settled (d : PaneDriver ε) : Prop where
  latch : d.Quiescent → d.closed = false → d.pausing = d.paused
  bare : d.Quiescent → d.paused = true ∨ d.closed = true → d.transport = none
  answered : (.superseded, true) ∉ d.answers

/-! ## §2 The invariant -/

/-- What a connect carries is no count of the future, and while no call came
since the pane is at rest. -/
def Fresh (d : PaneDriver ε) (posted : Option Nat) : Prop :=
  ∀ n, posted = some n → n ≤ d.calls ∧ (n = d.calls → d.AtRest)

structure Inv (d : PaneDriver ε) : Prop where
  latched : d.closed = false → d.pausing = true →
    d.paused = true ∨ d.PauseUnderway ∨ d.doing.isClearing = true
  raised : d.closed = false → d.paused = true ∨ d.PauseUnderway → d.pausing = true
  closing : d.closing = true → d.closed = true ∨ d.CloseUnderway
  clearing : d.doing.isClearing = true → d.paused = false
  dials : d.doing.dials = true → d.closed = false
  late : ∀ asker, d.doing = .checking true asker → d.CloseUnderway
  adopting : ∀ asker, d.doing = .adopting asker → d.paused = false
  held : d.transport ≠ none → d.doing = .leaving ∨ (d.paused = false ∧ d.closed = false)
  queued : ∀ endpoint posted, .connect endpoint posted ∈ d.commands → d.Fresh posted
  running : ∀ posted, d.doing.asker = some (.connect posted) → d.Fresh posted
  answered : ∀ quiet, (.superseded, quiet) ∈ d.answers → quiet = false

theorem inv_new (reconnects : Bool) : (new reconnects : PaneDriver ε).Inv := by
  constructor <;> simp [new, PauseUnderway, CloseUnderway, Doing.isClearing, Doing.dials, Doing.asker]

theorem Fresh.later {d' : PaneDriver ε} {posted : Option Nat} (h : d.Fresh posted)
    (hcalls : d'.calls = d.calls + 1) : d'.Fresh posted := by
  intro n hn
  have hle := (h n hn).1
  exact ⟨by omega, by omega⟩

theorem Fresh.same {d' : PaneDriver ε} {posted : Option Nat} (h : d.Fresh posted) (hcalls : d'.calls = d.calls)
    (hrest : d.AtRest → d'.AtRest) : d'.Fresh posted := by
  intro n hn
  obtain ⟨hle, hold⟩ := h n hn
  rw [hcalls]
  exact ⟨hle, fun heq => hrest (hold heq)⟩

section

variable (h : d.Inv)
include h

/-- A command that changes neither latch is posted. -/
theorem Inv.post (hpause : command ≠ .pause) (hclose : command ≠ .close)
    (hfresh : ∀ endpoint posted, command = .connect endpoint posted → d.Fresh posted) : (d.post command).Inv := by
  have hpauses : (d.post command).PauseUnderway ↔ d.PauseUnderway := by
    simp [PauseUnderway, PaneDriver.post, hpause.symm]
  have hcloses : (d.post command).CloseUnderway ↔ d.CloseUnderway := by
    simp [CloseUnderway, PaneDriver.post, hclose.symm]
  have hrest : d.AtRest → (d.post command).AtRest := by
    simp [AtRest, PaneDriver.post, hpause.symm, hclose.symm]
  refine ⟨fun hopen hset => ?_, fun hopen hpaused => ?_, fun hset => ?_, h.clearing, h.dials, fun asker hasker => ?_,
    h.adopting, h.held, fun endpoint posted hmem => ?_, fun posted hasker => ?_, h.answered⟩
  · rw [hpauses]
    exact h.latched hopen hset
  · rw [hpauses] at hpaused
    exact h.raised hopen hpaused
  · rw [hcloses]
    exact h.closing hset
  · rw [hcloses]
    exact h.late asker hasker
  · rcases List.mem_append.mp hmem with hold | hnew
    · exact (h.queued endpoint posted hold).same rfl hrest
    · exact (hfresh endpoint posted (List.mem_singleton.mp hnew).symm).same rfl hrest
  · exact (h.running posted hasker).same rfl hrest

/-- A call of `pause` that raised the latch posts its command. -/
theorem Inv.postPause (hpauses : d.pauses ≠ 0) :
    ({ d.post .pause with pauses := d.pauses - 1 } : PaneDriver ε).Inv := by
  have hrest : d.AtRest → ({ d.post .pause with pauses := d.pauses - 1 } : PaneDriver ε).AtRest :=
    fun hrest => absurd hrest.2.2.1 hpauses
  have hunderway : Command.pause ∈ (d.post .pause).commands := List.mem_append_right _ (List.mem_singleton_self _)
  have hother : ∀ command : Command ε, command ∈ (d.post .pause).commands → command ≠ .pause →
      command ∈ d.commands := by
    intro command hmem hne
    simpa [PaneDriver.post, hne] using hmem
  have hcloses : d.CloseUnderway → ({ d.post .pause with pauses := d.pauses - 1 } : PaneDriver ε).CloseUnderway := by
    rintro (hcloses | hmem)
    · exact .inl hcloses
    · exact .inr (List.mem_append_left _ hmem)
  refine ⟨fun _ _ => .inr (.inl (.inr hunderway)), fun hopen _ => ?_, fun hset => ?_, h.clearing, h.dials,
    fun asker hasker => hcloses (h.late asker hasker), h.adopting, h.held, fun endpoint posted hmem => ?_,
    fun posted hasker => (h.running posted hasker).same rfl hrest, h.answered⟩
  · exact h.raised hopen (.inr (.inl (Nat.pos_of_ne_zero hpauses)))
  · exact (h.closing hset).imp_right hcloses
  · exact (h.queued endpoint posted (hother _ hmem (by simp))).same rfl hrest

theorem Inv.postClose (hcloses : d.closes ≠ 0) :
    ({ d.post .close with closes := d.closes - 1 } : PaneDriver ε).Inv := by
  have hrest : d.AtRest → ({ d.post .close with closes := d.closes - 1 } : PaneDriver ε).AtRest :=
    fun hrest => absurd hrest.2.2.2.1 hcloses
  have hunderway : Command.close ∈ (d.post .close).commands := List.mem_append_right _ (List.mem_singleton_self _)
  have hpauses : ({ d.post .close with closes := d.closes - 1 } : PaneDriver ε).PauseUnderway ↔ d.PauseUnderway := by
    simp [PauseUnderway, PaneDriver.post]
  refine ⟨fun hopen hset => ?_, fun hopen hpaused => ?_, fun _ => .inr (.inr hunderway), h.clearing, h.dials,
    fun _ _ => .inr hunderway, h.adopting, h.held, fun endpoint posted hmem => ?_,
    fun posted hasker => (h.running posted hasker).same rfl hrest, h.answered⟩
  · rw [hpauses]
    exact h.latched hopen hset
  · rw [hpauses] at hpaused
    exact h.raised hopen hpaused
  · have hmem' : Command.connect endpoint posted ∈ d.commands := by simpa [PaneDriver.post] using hmem
    exact (h.queued endpoint posted hmem').same rfl hrest

theorem Inv.raisePause :
    ({ d with pausing := true, pauses := d.pauses + 1, calls := d.calls + 1 } : PaneDriver ε).Inv :=
  ⟨fun _ _ => .inr (.inl (.inl (Nat.succ_pos _))), fun _ _ => rfl, h.closing, h.clearing, h.dials, h.late,
    h.adopting, h.held, fun endpoint posted hmem => (h.queued endpoint posted hmem).later rfl,
    fun posted hasker => (h.running posted hasker).later rfl, h.answered⟩

theorem Inv.raiseClose :
    ({ d with closing := true, closes := d.closes + 1, calls := d.calls + 1 } : PaneDriver ε).Inv :=
  ⟨h.latched, h.raised, fun _ => .inr (.inl (Nat.succ_pos _)), h.clearing, h.dials,
    fun _ _ => .inl (Nat.succ_pos _), h.adopting, h.held,
    fun endpoint posted hmem => (h.queued endpoint posted hmem).later rfl,
    fun posted hasker => (h.running posted hasker).later rfl, h.answered⟩

/-- What the invariant does not speak of may change. -/
theorem Inv.aside (childExited hostClosed campaign : Bool) :
    ({ d with childExited := childExited, hostClosed := hostClosed, campaign := campaign } : PaneDriver ε).Inv :=
  ⟨h.latched, h.raised, h.closing, h.clearing, h.dials, h.late, h.adopting, h.held, h.queued, h.running, h.answered⟩

theorem Inv.ended (epoch : Nat) (byHost : Bool) : (d.ended epoch byHost).Inv := by
  unfold PaneDriver.ended
  split
  case isTrue => exact h
  case isFalse => exact h.aside _ _ _

/-- The supervisor begins a connect. -/
theorem Inv.opening (hidle : d.doing = .idle) (endpoint : ε)
    (hfresh : ∀ posted, asker = .connect posted → d.Fresh posted) :
    ({ d with doing := .opening endpoint asker } : PaneDriver ε).Inv := by
  refine ⟨fun hopen hset => ?_, h.raised, h.closing, fun hclearing => by contradiction, fun hdials => by contradiction,
    fun asker' hasker => by contradiction, fun asker' hasker => by contradiction, fun hheld => ?_, h.queued,
    fun posted hasker => ?_, h.answered⟩
  · have hlatched := h.latched hopen hset
    simp only [hidle, Doing.isClearing] at hlatched ⊢
    exact hlatched
  · rcases h.held hheld with hleaving | hfree
    · simp [hidle] at hleaving
    · exact .inr hfree
  · exact hfresh posted (Option.some.inj hasker)

/-- A command leaves the mailbox and changes nothing. -/
theorem Inv.drop (hcommands : d.commands = command :: rest) (hidle : d.doing = .idle)
    (hpaused : command = .pause → d.paused = true ∨ d.closed = true)
    (hclosed : command = .close → d.closed = true) : ({ d with commands := rest } : PaneDriver ε).Inv := by
  have hmem : ∀ command' ∈ rest, command' ∈ d.commands := by simp +contextual [hcommands]
  have hrest : d.AtRest → ({ d with commands := rest } : PaneDriver ε).AtRest :=
    fun ⟨h1, h2, h3, h4, h5, h6⟩ => ⟨h1, h2, h3, h4, fun hin => h5 (hmem _ hin), fun hin => h6 (hmem _ hin)⟩
  refine ⟨fun hopen hset => ?_, fun hopen hbefore => ?_, fun hset => ?_, h.clearing, h.dials,
    fun asker hasker => ?_, h.adopting, h.held, fun endpoint posted hin => ?_, fun posted hasker => ?_, h.answered⟩
  · rcases h.latched hopen hset with hpause | (hcalls | hin) | hclearing
    · exact .inl hpause
    · exact .inr (.inl (.inl hcalls))
    · rcases List.mem_cons.mp (hcommands ▸ hin) with rfl | hin
      · exact .inl ((hpaused rfl).resolve_right (by simp_all))
      · exact .inr (.inl (.inr hin))
    · exact .inr (.inr hclearing)
  · exact h.raised hopen (hbefore.imp_right (Or.imp_right (hmem _)))
  · rcases h.closing hset with hshut | hcalls | hin
    · exact .inl hshut
    · exact .inr (.inl hcalls)
    · rcases List.mem_cons.mp (hcommands ▸ hin) with rfl | hin
      · exact .inl (hclosed rfl)
      · exact .inr (.inr hin)
  · simp [hidle] at hasker
  · exact (h.queued endpoint posted (hmem _ hin)).same rfl hrest
  · simp [hidle, Doing.asker] at hasker

theorem Inv.takePause (hcommands : d.commands = .pause :: rest) :
    ({ d with commands := rest, campaign := false, paused := true, doing := .leaving } : PaneDriver ε).Inv := by
  have hunderway : Command.pause ∈ d.commands := by simp [hcommands]
  have hmem : ∀ command' ∈ rest, command' ∈ d.commands := by simp +contextual [hcommands]
  refine ⟨fun _ _ => .inl rfl, fun hopen _ => h.raised hopen (.inr (.inr hunderway)), fun hset => ?_,
    fun hclearing => by contradiction, fun hdials => by contradiction, fun asker hasker => by contradiction,
    fun asker hasker => by contradiction, fun _ => .inl rfl, fun endpoint posted hin => ?_,
    fun posted hasker => by contradiction, h.answered⟩
  · rcases h.closing hset with hshut | hcalls | hin
    · exact .inl hshut
    · exact .inr (.inl hcalls)
    · exact .inr (.inr (by simpa [hcommands] using hin))
  · exact (h.queued endpoint posted (hmem _ hin)).same rfl fun hrest => absurd hunderway hrest.2.2.2.2.1

theorem Inv.takeClose (hcommands : d.commands = .close :: rest) :
    ({ d with commands := rest, campaign := false, closed := true, doing := .leaving } : PaneDriver ε).Inv := by
  have hunderway : Command.close ∈ d.commands := by simp [hcommands]
  have hmem : ∀ command' ∈ rest, command' ∈ d.commands := by simp +contextual [hcommands]
  refine ⟨fun hopen => by contradiction, fun hopen => by contradiction, fun _ => .inl rfl,
    fun hclearing => by contradiction, fun hdials => by contradiction, fun asker hasker => by contradiction,
    fun asker hasker => by contradiction, fun _ => .inl rfl, fun endpoint posted hin => ?_,
    fun posted hasker => by contradiction, h.answered⟩
  exact (h.queued endpoint posted (hmem _ hin)).same rfl fun hrest => absurd hunderway hrest.2.2.2.2.2

/-- A resume that goes back to an endpoint. -/
theorem Inv.takeResume (hcommands : d.commands = .resume :: rest)
    (hidle : d.doing = .idle) (hpaused : d.paused = true) (hopen : d.closed = false) (endpoint : ε) :
    ({ d with commands := rest, campaign := false, paused := false, doing := .clearing endpoint } :
      PaneDriver ε).Inv := by
  have hmem : ∀ command' ∈ rest, command' ∈ d.commands := by simp +contextual [hcommands]
  refine ⟨fun _ _ => .inr (.inr rfl), fun _ _ => h.raised hopen (.inl hpaused), fun hset => ?_, fun _ => rfl,
    fun hdials => by contradiction, fun asker hasker => by contradiction, fun asker hasker => by contradiction,
    fun hheld => ?_, fun endpoint posted hin => ?_, fun posted hasker => by contradiction, h.answered⟩
  · rcases h.closing hset with hshut | hcalls | hin
    · exact .inl hshut
    · exact .inr (.inl hcalls)
    · exact .inr (.inr (by simpa [hcommands] using hin))
  · rcases h.held hheld with hleaving | ⟨hfree, _⟩
    · simp [hidle] at hleaving
    · simp [hpaused] at hfree
  · exact (h.queued endpoint posted (hmem _ hin)).same rfl fun hrest => absurd hrest.1 (by simp [hpaused])

theorem Inv.take (hidle : d.doing = .idle)
    (hcommands : d.commands = command :: rest) (hapart : d.strands = false) :
    (({ d with commands := rest } : PaneDriver ε).run command).Inv := by
  cases command with
  | connect endpoint posted =>
    have hdropped := (h.drop hcommands hidle (by simp) (by simp)).aside d.childExited d.hostClosed false
    have hfresh : d.Fresh posted := h.queued endpoint posted (by simp [hcommands])
    refine hdropped.opening hidle endpoint ?_
    rintro _ ⟨⟩
    refine hfresh.same rfl fun ⟨h1, h2, h3, h4, h5, h6⟩ => ⟨h1, h2, h3, h4, ?_, ?_⟩
    · exact fun hin => h5 (by simp [hcommands, hin])
    · exact fun hin => h6 (by simp [hcommands, hin])
  | resume =>
    have hdropped := (h.drop hcommands hidle (by simp) (by simp)).aside d.childExited d.hostClosed false
    unfold run
    dsimp only
    split
    case isTrue => exact hdropped
    case isFalse hgoes =>
      have hgoes' : (d.paused = true ∧ d.closed = false) ∧ d.childExited = false := by simpa using hgoes
      cases hendpoint : d.endpoint with
      | none => simp [strands, hidle, hcommands, hgoes', hendpoint] at hapart
      | some endpoint => simpa only [hendpoint] using h.takeResume hcommands hidle hgoes'.1.1 hgoes'.1.2 endpoint
  | pause =>
    unfold run
    dsimp only
    split
    case isTrue hdone =>
      have hdone' : d.paused = true ∨ d.closed = true := by simpa using hdone
      exact (h.drop hcommands hidle (fun _ => hdone') (by simp)).aside d.childExited d.hostClosed false
    case isFalse => exact h.takePause hcommands
  | close =>
    unfold run
    dsimp only
    split
    case isTrue hdone =>
      exact (h.drop hcommands hidle (by simp) (fun _ => hdone)).aside d.childExited d.hostClosed false
    case isFalse => exact h.takeClose hcommands
  | ended epoch byHost => exact (h.drop hcommands hidle (by simp) (by simp)).ended epoch byHost

/-- The supervisor is through with a command, and answers who asked. -/
theorem Inv.finish (hbusy : d.doing.isClearing = false) {answer : Answer}
    (hheld : d.transport ≠ none → d.paused = false ∧ d.closed = false)
    (hanswer : answer = .superseded → ∀ posted, asker = .connect posted → posted ≠ some d.calls) :
    (d.finish asker answer).Inv := by
  refine ⟨fun hopen hset => ?_, h.raised, h.closing, fun hclearing => by contradiction,
    fun hdials => by contradiction, fun asker' hasker => by contradiction, fun asker' hasker => by contradiction,
    fun hadopted => .inr (hheld hadopted), h.queued, fun posted hasker => by contradiction, fun quiet hmem => ?_⟩
  · have hlatched := h.latched hopen hset
    rw [hbusy] at hlatched
    exact hlatched.imp_right (Or.imp_right (by simp))
  · cases asker with
    | recovery => exact h.answered quiet hmem
    | connect posted =>
      rcases List.mem_cons.mp hmem with hnew | hold
      · obtain ⟨rfl, rfl⟩ := Prod.mk.inj hnew
        exact decide_eq_false (hanswer rfl posted rfl)
      · exact h.answered quiet hold

/-- An act inside a connect moves it on. -/
theorem Inv.moves {doing : Doing ε} (epoch : Nat) (endpoint : Option ε) (transport : Option Nat)
    (hbusy : d.doing.isClearing = false) (hclears : doing.isClearing = false)
    (hopen : doing.dials = true → d.closed = false)
    (hlate : ∀ asker, doing = .checking true asker → d.CloseUnderway)
    (hadopting : ∀ asker, doing = .adopting asker → d.paused = false)
    (hheld : transport ≠ none → doing = .leaving ∨ (d.paused = false ∧ d.closed = false))
    (hasker : ∀ asker, doing.asker = some asker → d.doing.asker = some asker) :
    ({ d with doing := doing, epoch := epoch, endpoint := endpoint, transport := transport } : PaneDriver ε).Inv := by
  refine ⟨fun hshut hset => ?_, h.raised, h.closing, fun hclearing => ?_, hopen, hlate, hadopting, hheld, h.queued,
    fun posted hposted => (h.running posted (hasker _ hposted)), h.answered⟩
  · have hlatched := h.latched hshut hset
    rw [hbusy] at hlatched
    exact hlatched.imp_right (Or.imp_right (by simp))
  · simp [hclears] at hclearing

/-- An act inside a connect that moves it on only afterwards. -/
theorem Inv.stays (epoch : Nat) (transport : Option Nat) (hbusy : d.doing.isClearing = false)
    (hopen : d.closed = false) (hheld : transport ≠ none → d.paused = false ∧ d.closed = false) :
    ({ d with epoch := epoch, transport := transport } : PaneDriver ε).Inv :=
  h.moves epoch d.endpoint transport hbusy hbusy (fun _ => hopen) h.late h.adopting (fun hset => .inr (hheld hset))
    (fun _ => id)

/-- The transport that a connect finds is nobody's behind a pause. -/
theorem Inv.transport (hbusy : d.doing ≠ .leaving) :
    d.transport ≠ none → d.paused = false ∧ d.closed = false := fun hheld => (h.held hheld).resolve_left hbusy

/-- A dial that is thrown away was asked for before a pause or a close. -/
theorem Inv.superseded {closing : Bool} (hdoing : d.doing = .checking closing asker)
    (hadopts : adopts closing d.pausing false false = false) :
    ∀ posted, asker = .connect posted → posted ≠ some d.calls := by
  rintro posted rfl hposted
  have hopen : d.closed = false := h.dials (by simp [hdoing, Doing.dials])
  obtain ⟨_, hfresh⟩ := h.running posted (by simp [hdoing, Doing.asker]) d.calls hposted
  obtain ⟨hpaused, _, hpauses, hcloses, hpause, hclose⟩ := hfresh rfl
  cases closing with
  | true =>
    rcases h.late _ hdoing with hunderway | hunderway
    · omega
    · exact hclose hunderway
  | false =>
    have hset : d.pausing = true := by simpa [adopts] using hadopts
    rcases h.latched hopen hset with hset | (hunderway | hunderway) | hclearing
    · simp [hpaused] at hset
    · omega
    · exact hpause hunderway
    · simp [hdoing, Doing.isClearing] at hclearing

theorem Inv.act (dial : Dial) (hapart : ¬ (d.doing.isClearing = true ∧ d.PauseUnderway)) :
    (d.act dial).Inv := by
  unfold PaneDriver.act
  cases hdoing : d.doing with
  | idle => exact h
  | clearing endpoint =>
    have hclearing : d.doing.isClearing = true := by simp [hdoing, Doing.isClearing]
    have hpaused := h.clearing hclearing
    refine ⟨fun _ hset => by contradiction, fun _ hbefore => ?_, h.closing, fun hclears => by contradiction,
      fun hdials => by contradiction, fun asker hasker => by contradiction, fun asker hasker => by contradiction,
      fun hheld => .inr (h.transport (by simp [hdoing]) hheld), h.queued,
      fun posted hasker => absurd hasker (by simp [Doing.asker]), h.answered⟩
    rcases hbefore with hset | hunderway
    · exact absurd (hset.symm.trans hpaused) (by decide)
    · exact absurd ⟨hclearing, hunderway⟩ hapart
  | opening endpoint asker =>
    have hheld := h.transport (by simp [hdoing])
    dsimp only
    split
    case h_1 refusal _ => exact h.finish (by simp [hdoing, Doing.isClearing]) hheld (by simp)
    case h_2 hopens =>
      have hopen : d.closed = false := by
        cases hclosed : d.closed with
        | false => rfl
        | true => simp [connectRefusal, hclosed] at hopens
      exact h.moves d.epoch (some endpoint) d.transport (by simp [hdoing, Doing.isClearing]) rfl (fun _ => hopen)
        (by simp) (by simp) (fun hadopted => .inr (hheld hadopted)) (by simp [hdoing, Doing.asker])
  | opened asker =>
    have hopen := h.dials (by simp [hdoing, Doing.dials])
    exact h.moves (d.epoch + 2) d.endpoint none (by simp [hdoing, Doing.isClearing]) rfl (fun _ => hopen) (by simp)
      (by simp) (by simp) (by simp [hdoing, Doing.asker])
  | dialling asker =>
    have hbusy : d.doing.isClearing = false := by simp [hdoing, Doing.isClearing]
    have hopen := h.dials (by simp [hdoing, Doing.dials])
    have hheld := h.transport (by simp [hdoing])
    cases dial with
    | failed => exact h.finish hbusy hheld (by simp)
    | noVerdict =>
      have hdiscarded := h.stays (d.epoch + 1) d.transport hbusy hopen hheld
      exact hdiscarded.finish hbusy hheld (by simp)
    | accepted =>
      exact h.moves d.epoch d.endpoint d.transport hbusy rfl (fun _ => hopen) (by simp)
        (by simp) (fun hadopted => .inr (hheld hadopted)) (by simp [hdoing, Doing.asker])
  | accepted asker =>
    have hopen := h.dials (by simp [hdoing, Doing.dials])
    refine h.moves d.epoch d.endpoint d.transport (by simp [hdoing, Doing.isClearing]) rfl (fun _ => hopen) ?_ (by simp)
      (fun hadopted => .inr (h.transport (by simp [hdoing]) hadopted)) (by simp [hdoing, Doing.asker])
    rintro asker' hchecks
    have hset : d.closing = true := by simp_all
    exact (h.closing hset).resolve_left (by simp [hopen])
  | checking closing asker =>
    have hbusy : d.doing.isClearing = false := by simp [hdoing, Doing.isClearing]
    have hopen := h.dials (by simp [hdoing, Doing.dials])
    have hheld := h.transport (by simp [hdoing])
    dsimp only
    split
    case isTrue hadopts =>
      have hunset : d.pausing = false := by
        simp only [adopts, Bool.and_eq_true, Bool.not_eq_true'] at hadopts
        exact hadopts.1.1.2
      have hpaused : d.paused = false := by
        cases hpaused : d.paused with
        | false => rfl
        | true => simp [h.raised hopen (.inl hpaused)] at hunset
      exact h.moves d.epoch d.endpoint d.transport hbusy rfl (fun _ => hopen) (by simp)
        (fun _ _ => hpaused) (fun hadopted => .inr (hheld hadopted)) (by simp [hdoing, Doing.asker])
    case isFalse hdiscards =>
      have hdiscarded := h.stays (d.epoch + 1) d.transport hbusy hopen hheld
      exact hdiscarded.finish hbusy hheld
        (fun _ => h.superseded hdoing (eq_false_of_ne_true hdiscards))
  | adopting asker =>
    have hopen := h.dials (by simp [hdoing, Doing.dials])
    have hpaused := h.adopting asker hdoing
    have hbusy : d.doing.isClearing = false := by simp [hdoing, Doing.isClearing]
    have hadopted := h.stays d.epoch (some d.epoch) hbusy hopen (fun _ => ⟨hpaused, hopen⟩)
    exact hadopted.finish hbusy (fun _ => ⟨hpaused, hopen⟩) (by simp)
  | leaving =>
    exact h.moves (d.epoch + 1) d.endpoint none (by simp [hdoing, Doing.isClearing]) rfl (by simp [Doing.dials])
      (by simp) (by simp) (by simp) (by simp [Doing.asker])

end

/-! ## §3 Runs -/

section
variable [DecidableEq ε]

theorem Inv.step (h : d.Inv) {event : Event ε} (hapart : d.Apart event) : (d.step event).Inv := by
  cases event with
  | raisePause => exact h.raisePause
  | raiseClose => exact h.raiseClose
  | postPause =>
    simp only [PaneDriver.step]
    split
    case isTrue => exact h
    case isFalse hpauses => exact h.postPause hpauses
  | postClose =>
    simp only [PaneDriver.step]
    split
    case isTrue => exact h
    case isFalse hcloses => exact h.postClose hcloses
  | connect endpoint =>
    refine h.post (by simp) (by simp) fun endpoint' posted hcommand n hn => ?_
    have hposted : posted = if d.AtRest then some d.calls else none := (Command.connect.inj hcommand).2.symm
    rw [hposted] at hn
    split at hn
    case isTrue hrest => exact ⟨by simp_all, fun _ => hrest⟩
    case isFalse => contradiction
  | resume => exact h.post (by simp) (by simp) (by simp)
  | exited => exact h.aside true d.hostClosed d.campaign
  | ended epoch byHost => exact h.post (by simp) (by simp) (by simp)
  | take =>
    simp only [PaneDriver.step]
    split
    case h_1 command rest hidle hcommands => exact h.take hidle hcommands hapart
    case h_2 => exact h
  | act dial => exact h.act dial hapart
  | retry gaveUp =>
    simp only [PaneDriver.step]
    split
    case isFalse => exact h
    case isTrue hturn =>
      have hidle : d.doing = .idle := by simp_all
      have hover := h.aside d.childExited d.hostClosed false
      unfold PaneDriver.retry
      split
      case isTrue => exact hover
      case isFalse =>
        split
        case h_1 => exact hover
        case h_2 endpoint _ =>
          split
          case isTrue => exact hover
          case isFalse => exact h.opening hidle endpoint (by simp)

end

theorem Inv.settled (h : d.Inv) : d.Settled where
  latch hquiet hopen := by
    obtain ⟨hidle, hnone, hpauses, _⟩ := hquiet
    have hunderway : ¬ d.PauseUnderway := by simp [PauseUnderway, hpauses, hnone]
    cases hpaused : d.paused with
    | true => exact h.raised hopen (.inl hpaused)
    | false =>
      cases hset : d.pausing with
      | false => rfl
      | true =>
        rcases h.latched hopen hset with hset | hset | hset
        · exact absurd (hset.symm.trans hpaused) (by decide)
        · exact absurd hset hunderway
        · simp [hidle, Doing.isClearing] at hset
  bare hquiet hover := by
    by_cases hheld : d.transport = none
    case pos => exact hheld
    case neg =>
      rcases h.held hheld with hleaving | ⟨hpaused, hopen⟩
      · simp [hquiet.1] at hleaving
      · simp [hpaused, hopen] at hover
  answered hmem := absurd (h.answered true hmem) (by decide)

/-- Over a run in which no resume comes before the first connect, and none
clears the latch under a pause that is underway. -/
theorem latch_matches_pause [DecidableEq ε] (reconnects : Bool) (events : List (Event ε))
    (h : Meets step Apart (new reconnects) events) : Throughout step Settled (new reconnects : PaneDriver ε) events := by
  have hinv := h.throughout Inv (fun _ _ hapart hd => hd.step hapart) (inv_new reconnects)
  exact hinv.imp fun _ hd => hd.settled

/-- A pane connects, pauses, and comes back. -/
theorem latch_matches_pause_once :
    Throughout step Settled (new true : PaneDriver Unit)
      [.connect (), .take, .act .accepted, .act .accepted, .act .accepted, .act .accepted, .act .accepted,
        .act .accepted, .raisePause, .postPause, .take, .act .accepted, .resume, .take, .act .accepted] :=
  latch_matches_pause true _ (meets_of_decide (fun _ _ => inferInstance) (by decide))

/-- A pause that is called while the first connect dials supersedes it, though
it was posted at rest. And a resume before the first connect leaves the latch
set on a pane that is not paused. -/
theorem connect_superseded :
    (Base.run step (new true : PaneDriver Unit)
      [.connect (), .take, .act .accepted, .act .accepted, .raisePause, .act .accepted, .act .accepted,
        .act .accepted]).answers = [(.superseded, false)] ∧
    ¬ Throughout step Settled (new true : PaneDriver Unit)
      [.raisePause, .postPause, .take, .act .accepted, .resume, .take] := by
  refine ⟨by decide, fun h => ?_⟩
  have hlatch := h.last.latch (by simp [Quiescent]; decide) (by decide)
  revert hlatch
  decide

end PaneDriver

end SlopDesk.Client
