/-
SlopDesk.Superd.LateSubscribers — what a subscriber that comes late is told.
-/
import SlopDesk.Base.HashMap
import SlopDesk.Superd.ReaderTheorems

/-! # Which life of a pane id a resume is
answered from (`slopdesk-superd/src/registry.rs`).

A pane whose child has exited leaves the table of live panes first, is read
to its end, and is put into the graveyard then. A resume looks into the table
and, if the id is not there, takes the first grave of that id, the oldest.
`resume_newest` says when that is not an older life than the newest there
was: the newest must be live when the table is looked at, or in the graveyard
when that is, with no older life ahead. It also says how else the newest can
be gone: still on the way from the one to the other, or pushed out.

Every step is one hold of one lock. A ring is known by the life whose pump
writes it; lives are numbered in the order in which they are inserted.
-/

namespace SlopDesk.Superd

open SlopDesk.Base

/-- `GRAVEYARD_PANES`. -/
def graveyardPanes : Nat := 16

/-- An exited pane's ring. `order` counts the graves dug before it. -/
structure Grave where
  pane : String
  life : Nat
  order : Nat
  deriving DecidableEq, Repr

/-- The registry. `dying` are the panes a reaper has taken and not entombed,
`burying` the releases that found nothing live and are still to look into the
graveyard. `newest` is the newest life of each id, `held` the lives that were
not released since they were inserted, `dug` every grave there ever was. -/
structure PaneRegistry where
  panes : HashMap String Nat
  reserving : List String
  returning : List String
  dying : List (String × Nat)
  graveyard : List Grave
  burying : List String
  lives : Nat
  newest : HashMap String Nat
  held : List (String × Nat)
  dug : List Grave

/-- A step of a spawn, of a reaper or of a release. -/
inductive RegistryOp where
  | reserve (pane : String)
  | insert (pane : String)
  | answer (pane : String)
  | reap (pane : String)
  | entomb (pane : String) (life : Nat)
  | release (pane : String)
  | bury (pane : String)
  deriving DecidableEq

/-- What a resume is answered from: a life's ring. -/
inductive Resumed where
  | served (life : Nat) (ended : Bool)
  | unknownPane
  deriving DecidableEq, Repr

/-- Answered from the ring of a life that is no older. -/
def Resumed.NotOlder (life : Nat) : Resumed → Prop
  | .served other _ => life ≤ other
  | .unknownPane => False

instance (life : Nat) (answer : Resumed) : Decidable (answer.NotOlder life) :=
  match answer with
  | .served _ _ => inferInstanceAs (Decidable (_ ≤ _))
  | .unknownPane => inferInstanceAs (Decidable False)

namespace PaneRegistry

variable {n : Nat}

/-- Before any pane. -/
def init : PaneRegistry := ⟨∅, [], [], [], [], [], 0, ∅, [], []⟩

/-- `entomb`: the oldest goes once there are too many. -/
def entombed (graveyard : List Grave) (grave : Grave) : List Grave :=
  let graveyard := graveyard ++ [grave]
  graveyard.drop (graveyard.length - graveyardPanes)

/-- One step. -/
def step (s : PaneRegistry) : RegistryOp → PaneRegistry
  | .reserve pane =>
    if s.panes.lookup pane = none ∧ pane ∉ s.reserving ∧ pane ∉ s.returning then
      { s with reserving := pane :: s.reserving }
    else s
  | .insert pane =>
    if pane ∈ s.reserving then
      { s with
        panes := s.panes.insert pane s.lives
        reserving := s.reserving.filter (· ≠ pane)
        returning := pane :: s.returning
        lives := s.lives + 1
        newest := s.newest.insert pane s.lives
        held := (pane, s.lives) :: s.held }
    else s
  | .answer pane =>
    { s with reserving := s.reserving.filter (· ≠ pane), returning := s.returning.filter (· ≠ pane) }
  | .reap pane =>
    match s.panes.lookup pane with
    | none => s
    | some life => { s with panes := s.panes.erase pane, dying := (pane, life) :: s.dying }
  | .entomb pane life =>
    if (pane, life) ∈ s.dying then
      let grave := ⟨pane, life, s.dug.length⟩
      { s with
        dying := s.dying.erase (pane, life)
        graveyard := entombed s.graveyard grave
        dug := grave :: s.dug }
    else s
  | .release pane =>
    let held := s.held.filter (·.1 ≠ pane)
    match s.panes.lookup pane with
    | none => { s with burying := pane :: s.burying, held := held }
    | some _ => { s with panes := s.panes.erase pane, held := held }
  | .bury pane =>
    if pane ∈ s.burying then
      { s with
        burying := s.burying.erase pane
        graveyard := s.graveyard.filter (·.pane ≠ pane)
        held := s.held.filter (·.1 ≠ pane) }
    else s

/-- The life's pane is live. -/
def Live (s : PaneRegistry) (pane : String) (life : Nat) : Prop := s.panes.lookup pane = some life

def exhume (s : PaneRegistry) (pane : String) : Resumed :=
  match s.graveyard.find? (·.pane = pane) with
  | some grave => .served grave.life true
  | none => .unknownPane

/-- `resume`: the table as it is in one state and, if the pane is not there,
the graveyard as it is in a later one. -/
def resume (s later : PaneRegistry) (pane : String) (hasEnded : Nat → Bool) : Resumed :=
  match s.panes.lookup pane with
  | some life => .served life (hasEnded life)
  | none => later.exhume pane

/-- The first grave of the id is of a life that is no older. -/
def Foremost (s : PaneRegistry) (pane : String) (life : Nat) : Prop :=
  ∃ front grave rest, s.graveyard = front ++ grave :: rest ∧ grave.pane = pane ∧ life ≤ grave.life ∧
    ∀ g ∈ front, g.pane ≠ pane

/-- The life has a grave. -/
def InGraveyard (s : PaneRegistry) (pane : String) (life : Nat) : Prop :=
  ∃ g ∈ s.graveyard, g.pane = pane ∧ g.life = life

/-- As many panes as the graveyard holds were entombed since. -/
def PushedOut (s : PaneRegistry) (pane : String) (life : Nat) : Prop :=
  ∃ g ∈ s.dug, g.pane = pane ∧ g.life = life ∧ g.order + 1 + graveyardPanes ≤ s.dug.length

/-! ## The graveyard -/

/-- Graves in the order in which they were dug, of which there were `n`. -/
structure InOrder (graveyard : List Grave) (n : Nat) : Prop where
  sorted : graveyard.Pairwise (·.order < ·.order)
  dug : ∀ g ∈ graveyard, g.order < n

theorem InOrder.first {g : Grave} {rest : List Grave} (h : InOrder (g :: rest) n) :
    g.order + rest.length < n := by
  induction rest generalizing g with
  | nil => exact h.dug g (List.mem_singleton_self g)
  | cons g' rest ih =>
    obtain ⟨hfirst, hrest⟩ := List.pairwise_cons.mp h.sorted
    have hnext := ih ⟨hrest, fun g'' hg'' => h.dug g'' (List.mem_cons_of_mem _ hg'')⟩
    have hlt := hfirst g' (List.mem_cons_self ..)
    rw [List.length_cons]
    omega

theorem InOrder.push {graveyard : List Grave} (h : InOrder graveyard n) {grave : Grave}
    (hgrave : grave.order = n) : InOrder (entombed graveyard grave) (n + 1) := by
  have hall : InOrder (graveyard ++ [grave]) (n + 1) := by
    constructor
    · rw [List.pairwise_append]
      refine ⟨h.sorted, List.pairwise_singleton .., fun g hg g' hg' => ?_⟩
      rw [List.mem_singleton.mp hg', hgrave]
      exact h.dug g hg
    · intro g hg
      rcases List.mem_append.mp hg with hg | hg
      · exact Nat.lt_succ_of_lt (h.dug g hg)
      · grind
  exact ⟨hall.sorted.sublist (List.drop_sublist ..), fun g hg => hall.dug g (List.mem_of_mem_drop hg)⟩

theorem length_entombed (graveyard : List Grave) (grave : Grave) :
    (entombed graveyard grave).length ≤ graveyardPanes := by
  simp only [entombed, List.length_drop]
  omega

theorem mem_entombed (graveyard : List Grave) (grave : Grave) (h : graveyard.length ≤ graveyardPanes) :
    grave ∈ entombed graveyard grave := by
  have hdrop : (graveyard ++ [grave]).length - graveyardPanes ≤ graveyard.length := by
    have hpanes : graveyardPanes = 16 := rfl
    rw [List.length_append, List.length_singleton]
    omega
  simp only [entombed]
  rw [List.drop_append_of_le_length hdrop]
  exact List.mem_append_right _ (List.mem_singleton_self grave)

/-- What a new grave pushes out, as many were dug behind as the graveyard
holds. -/
theorem entombed_or_pushedOut {graveyard : List Grave} (h : InOrder graveyard n)
    (hlength : graveyard.length ≤ graveyardPanes) (grave : Grave) {g : Grave} (hg : g ∈ graveyard) :
    g ∈ entombed graveyard grave ∨ g.order + 1 + graveyardPanes ≤ n + 1 := by
  by_cases hroom : (graveyard ++ [grave]).length ≤ graveyardPanes
  · grind [entombed, Nat.sub_eq_zero_of_le]
  · cases graveyard with
    | nil => exact absurd hg List.not_mem_nil
    | cons first rest =>
      have hone : (first :: rest ++ [grave]).length - graveyardPanes = 1 := by
        grind
      rcases List.mem_cons.mp hg with rfl | hg
      · have hfirst := h.first
        simp only [List.length_append, List.length_cons, List.length_nil] at hroom
        omega
      · left
        simp only [entombed]
        rw [hone]
        exact List.mem_append_left _ hg

/-! ## What is kept -/

/-- What every step keeps. -/
structure Ordered (s : PaneRegistry) : Prop where
  newest : ∀ pane life, s.panes.lookup pane = some life → s.newest.lookup pane = some life
  reserved : ∀ pane ∈ s.reserving, s.panes.lookup pane = none
  inOrder : InOrder s.graveyard s.dug.length
  room : s.graveyard.length ≤ graveyardPanes
  recorded : s.graveyard ⊆ s.dug
  somewhere : ∀ e ∈ s.held, s.Live e.1 e.2 ∨ e ∈ s.dying ∨ s.InGraveyard e.1 e.2 ∨ s.PushedOut e.1 e.2

theorem step_ordered (s : PaneRegistry) (op : RegistryOp) (h : s.Ordered) : (s.step op).Ordered := by
  cases op with
  | reserve pane =>
    rw [step]
    split
    case isFalse => exact h
    case isTrue hfree =>
      refine ⟨h.newest, fun other hother => ?_, h.inOrder, h.room, h.recorded, h.somewhere⟩
      rcases List.mem_cons.mp hother with rfl | hother
      · exact hfree.1
      · exact h.reserved other hother
  | insert pane =>
    rw [step]
    split
    case isFalse => exact h
    case isTrue hmem =>
      have hnone := h.reserved pane hmem
      refine ⟨fun other life => ?_, fun other hother => ?_, h.inOrder, h.room, h.recorded, fun e he => ?_⟩
      · rw [HashMap.lookup_insert, HashMap.lookup_insert]
        split
        · exact id
        · exact h.newest other life
      · obtain ⟨hother, hne⟩ := List.mem_filter.mp hother
        rw [HashMap.lookup_insert, if_neg (of_decide_eq_true hne)]
        exact h.reserved other hother
      · rcases List.mem_cons.mp he with rfl | he
        · left
          rw [Live, HashMap.lookup_insert, if_pos rfl]
        · refine (h.somewhere e he).imp_left fun hlive => ?_
          have hne : e.1 ≠ pane := by
            intro heq
            rw [Live, heq, hnone] at hlive
            contradiction
          rw [Live, HashMap.lookup_insert, if_neg hne]
          exact hlive
  | answer pane =>
    refine ⟨h.newest, fun other hother => ?_, h.inOrder, h.room, h.recorded, h.somewhere⟩
    exact h.reserved other (List.mem_filter.mp hother).1
  | reap pane =>
    rw [step]
    split
    · exact h
    case h_2 life hlive =>
      refine ⟨fun other life' => ?_, fun other hother => ?_, h.inOrder, h.room, h.recorded, fun e he => ?_⟩
      · rw [HashMap.lookup_erase]
        split
        · intro hnone
          contradiction
        · exact h.newest other life'
      · rw [HashMap.lookup_erase]
        split
        · rfl
        · exact h.reserved other hother
      · rcases h.somewhere e he with hl | hd | hrest
        · by_cases heq : e.1 = pane
          · right; left
            have hlife : e.2 = life := Option.some.inj (hl.symm.trans (heq ▸ hlive))
            exact List.mem_cons.mpr (.inl (Prod.ext heq hlife))
          · left
            rw [Live, HashMap.lookup_erase, if_neg heq]
            exact hl
        · exact .inr (.inl (List.mem_cons_of_mem _ hd))
        · exact .inr (.inr hrest)
  | entomb pane life =>
    rw [step]
    split
    case isFalse => exact h
    case isTrue =>
      refine ⟨h.newest, h.reserved, h.inOrder.push rfl, length_entombed .., fun g hg => ?_, fun e he => ?_⟩
      · rcases List.mem_append.mp (List.mem_of_mem_drop hg) with hg | hg
        · exact List.mem_cons_of_mem _ (h.recorded hg)
        · exact List.mem_cons.mpr (.inl (List.mem_singleton.mp hg))
      rcases h.somewhere e he with hl | hd | ⟨g, hg, hpane, hlife⟩ | ⟨g, hg, hpane, hlife, hout⟩
      · exact .inl hl
      · by_cases heq : e = (pane, life)
        · subst heq
          exact .inr (.inr (.inl ⟨_, mem_entombed _ _ h.room, rfl, rfl⟩))
        · exact .inr (.inl ((List.mem_erase_of_ne heq).mpr hd))
      · rcases entombed_or_pushedOut h.inOrder h.room ⟨pane, life, s.dug.length⟩ hg with hstill | hout
        · exact .inr (.inr (.inl ⟨g, hstill, hpane, hlife⟩))
        · exact .inr (.inr (.inr ⟨g, List.mem_cons_of_mem _ (h.recorded hg), hpane, hlife, hout⟩))
      · exact .inr (.inr (.inr ⟨g, List.mem_cons_of_mem _ hg, hpane, hlife, Nat.le_succ_of_le hout⟩))
  | release pane =>
    rw [step]
    split
    · refine ⟨h.newest, h.reserved, h.inOrder, h.room, h.recorded, fun e he => ?_⟩
      exact h.somewhere e (List.mem_filter.mp he).1
    · refine ⟨fun other life => ?_, fun other hother => ?_, h.inOrder, h.room, h.recorded, fun e he => ?_⟩
      · rw [HashMap.lookup_erase]
        split
        · intro hnone
          contradiction
        · exact h.newest other life
      · rw [HashMap.lookup_erase]
        split
        · rfl
        · exact h.reserved other hother
      · obtain ⟨he, hne⟩ := List.mem_filter.mp he
        refine (h.somewhere e he).imp_left fun hlive => ?_
        rw [Live, HashMap.lookup_erase, if_neg (of_decide_eq_true hne)]
        exact hlive
  | bury pane =>
    rw [step]
    split
    case isFalse => exact h
    case isTrue =>
      refine ⟨h.newest, h.reserved, ⟨h.inOrder.sorted.filter _, fun g hg => h.inOrder.dug g (List.mem_filter.mp hg).1⟩,
        Nat.le_trans (List.length_filter_le ..) h.room, fun g hg => h.recorded (List.mem_filter.mp hg).1, fun e he => ?_⟩
      obtain ⟨he, hne⟩ := List.mem_filter.mp he
      rcases h.somewhere e he with hl | hd | ⟨g, hg, hpane, hlife⟩ | hout
      · exact .inl hl
      · exact .inr (.inl hd)
      · have hkept : g.pane ≠ pane := by simpa [hpane] using hne
        exact .inr (.inr (.inl ⟨g, List.mem_filter.mpr ⟨hg, by simpa using hkept⟩, hpane, hlife⟩))
      · exact .inr (.inr (.inr hout))

theorem ordered_init : init.Ordered where
  newest := by simp [init]
  reserved := by simp [init]
  inOrder := ⟨.nil, by simp [init]⟩
  room := Nat.zero_le _
  recorded := List.nil_subset _
  somewhere := by simp [init]

theorem ordered_run (ops : List RegistryOp) : (run step init ops).Ordered :=
  run_invariant Ordered step_ordered ordered_init ops

/-! ## A resume -/

theorem exhume_notOlder_iff (s : PaneRegistry) (pane : String) (life : Nat) :
    (s.exhume pane).NotOlder life ↔ s.Foremost pane life := by
  unfold exhume
  cases hfind : s.graveyard.find? (·.pane = pane) with
  | none =>
    refine iff_of_false id ?_
    rintro ⟨front, grave, rest, hsplit, hpane, -, -⟩
    have hmem : grave ∈ s.graveyard := by simp [hsplit]
    simpa [hpane] using List.find?_eq_none.mp hfind grave hmem
  | some grave =>
    obtain ⟨hpane, front, rest, hsplit, hfront⟩ := List.find?_eq_some_iff_append.mp hfind
    constructor
    · intro hle
      exact ⟨front, grave, rest, hsplit, by simpa using hpane, hle, fun g hg => by simpa using hfront g hg⟩
    · rintro ⟨front', grave', rest', hsplit', hpane', hle, hfront'⟩
      have hsame : s.graveyard.find? (·.pane = pane) = some grave' := by
        grind
      rw [hfind] at hsame
      rw [Option.some.inj hsame]
      exact hle

/-- What a resume of a pane id is answered from, whatever comes between its
look into the table and its look into the graveyard. It is not an older life
than the newest there was if and only if that one was live, or the first
grave of the id is of no older life. A newest life that was not released is
live, on its way to the graveyard, there, or pushed out by as many graves as
there are places. -/
theorem resume_newest {ops between : List RegistryOp} {pane : String} {life : Nat}
    (hnewest : (run step init ops).newest.lookup pane = some life) (hasEnded : Nat → Bool) :
    (((run step init ops).resume (run step init (ops ++ between)) pane hasEnded).NotOlder life ↔
      (run step init ops).Live pane life ∨ (run step init (ops ++ between)).Foremost pane life) ∧
    ((pane, life) ∈ (run step init (ops ++ between)).held →
      (run step init (ops ++ between)).Live pane life ∨
      (pane, life) ∈ (run step init (ops ++ between)).dying ∨
      (run step init (ops ++ between)).InGraveyard pane life ∨
      (run step init (ops ++ between)).PushedOut pane life) := by
  constructor
  · unfold resume Live
    cases hlive : (run step init ops).panes.lookup pane with
    | none => simp [exhume_notOlder_iff]
    | some other =>
      have hsame := (ordered_run ops).newest pane other hlive
      obtain rfl : life = other := Option.some.inj (hnewest.symm.trans hsame)
      exact iff_of_true (Nat.le_refl life) (.inl rfl)
  · exact (ordered_run (ops ++ between)).somewhere _

/-- A pane that is spawned and lives. -/
def spawned (pane : String) : List RegistryOp := [.reserve pane, .insert pane, .answer pane]

theorem resume_newest_live :
    ((run step init (spawned "p")).resume (run step init (spawned "p" ++ [.reap "p"])) "p" fun _ => false).NotOlder 0 :=
  (@resume_newest (spawned "p") [.reap "p"] "p" 0 (by decide) fun _ => false).1.mpr (.inl rfl)

/-- A resume at one moment of a run is answered from the newest life of the
id, if that was not released and fewer panes were reaped than the graveyard
holds. -/
def ServesNewest (ops : List RegistryOp) (pane : String) (hasEnded : Nat → Bool) : Prop :=
  ∀ life ∈ (run step init ops).newest.lookup pane, (pane, life) ∈ (run step init ops).held →
    (ops.filter fun op => decide (op matches .reap _)).length < graveyardPanes →
      ((run step init ops).resume (run step init ops) pane hasEnded).NotOlder life

/-- A pane that was reaped and is not entombed is unknown, and behind the
grave of an older life the newest is not found. -/
theorem resume_misses_newest :
    ¬ ServesNewest (spawned "p" ++ [.reap "p"]) "p" (fun _ => false) ∧
    ¬ ServesNewest (spawned "p" ++ [.reap "p", .entomb "p" 0] ++ spawned "p" ++ [.reap "p", .entomb "p" 1]) "p"
      (fun _ => false) := by
  constructor
  · intro h
    exact absurd (h 0 (by decide) (by decide) (by decide)) (by decide)
  · intro h
    exact absurd (h 1 (by decide) (by decide) (by decide)) (by decide)

end PaneRegistry

end SlopDesk.Superd

/-! # What a subscriber is told when its backlog is
read again (`slopdesk-superd/src/registry.rs`, `sniff_backlog`).

A subscriber that resumes has had the live sniffer's events before its offset
and will have the later ones; for the bytes in between it gets the events of
a fresh sniffer. A fresh sniffer is at ground, runs no command and assembles
no notification; where that is so of the live one as well, the two are in
step (`Resuming`) but for two things that were said once already: the title
of the live sniffer and the idle status of the prompt. `Repeats` is what that
leaves in the events.
-/

namespace SlopDesk.Superd

open SlopDesk.Base SlopDesk.Sanitize

/-- The idle status of a prompt at which no command has run. -/
def promptReady : SniffEvent := .status (.idle none 0)

/-- `Repeats title idle events more`: `more` are the events with the title put
in at most once and, if `idle`, the idle status of the prompt at most once. -/
inductive Repeats : Option String → Bool → List SniffEvent → List SniffEvent → Prop
  | nil (title : Option String) (idle : Bool) : Repeats title idle [] []
  | same {title : Option String} {idle : Bool} {events more : List SniffEvent} (event : SniffEvent)
      (h : Repeats title idle events more) : Repeats title idle (event :: events) (event :: more)
  | title {value : String} {idle : Bool} {events more : List SniffEvent} (h : Repeats none idle events more) :
      Repeats (some value) idle events (.title value :: more)
  | idle {title : Option String} {events more : List SniffEvent} (h : Repeats title false events more) :
      Repeats title true events (promptReady :: more)

namespace Repeats

variable {title : Option String} {idle : Bool} {events more : List SniffEvent}

theorem refl (title : Option String) (idle : Bool) (events : List SniffEvent) : Repeats title idle events events := by
  induction events with
  | nil => exact .nil title idle
  | cons event events ih => exact .same event ih

theorem append_left (h : Repeats title idle events more) (before : List SniffEvent) :
    Repeats title idle (before ++ events) (before ++ more) := by
  induction before with
  | nil => exact h
  | cons event before ih => exact .same event ih

theorem append_right (h : Repeats title idle events more) (later : List SniffEvent) :
    Repeats title idle (events ++ later) (more ++ later) := by
  induction h with
  | nil title idle => exact refl title idle later
  | same event _ ih => exact .same event ih
  | title _ ih => exact .title ih
  | idle _ ih => exact .idle ih

end Repeats

namespace OutputSniffer

/-- What two sniffers remember from payload to payload, but for the title and
the idle status that only the first has sent. -/
structure Alike (title : Option String) (idle : Bool) (live fresh : OutputSniffer) : Prop where
  localHostnames : fresh.localHostnames = live.localHostnames
  kitty : fresh.kittyAssembly = live.kittyAssembly
  running : fresh.runningSinceMs = live.runningSinceMs
  lastTitle : fresh.lastTitle = live.lastTitle ∨ fresh.lastTitle = none ∧ live.lastTitle = title
  idleSent : fresh.idleSentSinceLastC = live.idleSentSinceLastC ∨
    fresh.idleSentSinceLastC = false ∧ live.runningSinceMs = none ∧ idle = true

/-- The events of one step of each: the same, or one that the first has sent
already. `Next` holds of what may still be sent again. -/
def Apart (title : Option String) (idle : Bool) (Next : Option String → Bool → Prop) (events more : List SniffEvent) :
    Prop :=
  more = events ∧ Next title idle ∨
  (∃ value, title = some value ∧ events = [] ∧ more = [.title value] ∧ Next none idle) ∨
  idle = true ∧ events = [] ∧ more = [promptReady] ∧ Next title false

theorem Apart.mono {title : Option String} {idle : Bool} {Next Next' : Option String → Bool → Prop}
    {events more : List SniffEvent} (h : Apart title idle Next events more)
    (himp : ∀ title idle, Next title idle → Next' title idle) : Apart title idle Next' events more := by
  rcases h with ⟨hsame, hnext⟩ | ⟨value, htitle, hnil, hmore, hnext⟩ | ⟨hidle, hnil, hmore, hnext⟩
  · exact .inl ⟨hsame, himp _ _ hnext⟩
  · exact .inr (.inl ⟨value, htitle, hnil, hmore, himp _ _ hnext⟩)
  · exact .inr (.inr ⟨hidle, hnil, hmore, himp _ _ hnext⟩)

theorem Apart.repeats {title : Option String} {idle : Bool} {Next : Option String → Bool → Prop}
    {events more later moreLater : List SniffEvent} (h : Apart title idle Next events more)
    (hlater : ∀ title idle, Next title idle → Repeats title idle later moreLater) :
    Repeats title idle (events ++ later) (more ++ moreLater) := by
  rcases h with ⟨rfl, hnext⟩ | ⟨value, rfl, rfl, rfl, hnext⟩ | ⟨rfl, rfl, rfl, hnext⟩
  · exact (hlater _ _ hnext).append_left _
  · exact .title (hlater _ _ hnext)
  · exact .idle (hlater _ _ hnext)

variable {title : Option String} {idle : Bool} {live fresh : OutputSniffer}

theorem Alike.onTitle (h : Alike title idle live fresh) (body : Option String) :
    Apart title idle (fun title idle => Alike title idle (live.onTitle body).1 (fresh.onTitle body).1)
      (live.onTitle body).2 (fresh.onTitle body).2 := by
  unfold OutputSniffer.onTitle
  cases body.filter (· ≠ "") with
  | none => exact .inl ⟨rfl, h⟩
  | some value =>
    dsimp only
    by_cases hfresh : fresh.lastTitle = some value
    · have hsame : fresh.lastTitle = live.lastTitle := by
        rcases h.lastTitle with hsame | ⟨hnone, -⟩
        · exact hsame
        · exact nomatch hnone.symm.trans hfresh
      rw [if_pos hfresh, if_pos (hsame.symm.trans hfresh)]
      exact .inl ⟨rfl, h⟩
    · rw [if_neg hfresh]
      by_cases hlive : live.lastTitle = some value
      · -- the title the first has sent already
        have htitle : title = some value := by
          rcases h.lastTitle with hsame | ⟨-, htitle⟩
          · exact absurd (hsame.trans hlive) hfresh
          · exact htitle.symm.trans hlive
        rw [if_pos hlive]
        refine .inr (.inl ⟨value, htitle, rfl, rfl, ?_⟩)
        exact ⟨h.localHostnames, h.kitty, h.running, .inl hlive.symm, h.idleSent⟩
      · rw [if_neg hlive]
        exact .inl ⟨rfl, ⟨h.localHostnames, h.kitty, h.running, .inl rfl, h.idleSent⟩⟩

theorem Alike.onCommandMark (nowMs : Int64) (h : Alike title idle live fresh) (buffer : List UInt8) :
    Apart title idle
      (fun title idle => Alike title idle (live.onCommandMark nowMs buffer).1 (fresh.onCommandMark nowMs buffer).1)
      (live.onCommandMark nowMs buffer).2 (fresh.onCommandMark nowMs buffer).2 := by
  have hrunning := h.running
  unfold OutputSniffer.onCommandMark
  split
  · exact .inl ⟨rfl, h⟩
  split
  · exact .inl ⟨rfl, h⟩
  dsimp only
  split
  · exact .inl ⟨rfl, ⟨h.localHostnames, h.kitty, rfl, h.lastTitle, .inl rfl⟩⟩
  · cases hlive : live.runningSinceMs with
    | none =>
      rw [hrunning.trans hlive]
      exact .inl ⟨rfl, h⟩
    | some started =>
      rw [hrunning.trans hlive]
      exact .inl ⟨rfl, ⟨h.localHostnames, h.kitty, rfl, h.lastTitle, .inl rfl⟩⟩
  · have hnext (idle : Bool) : Alike title idle { live with idleSentSinceLastC := true }
        { fresh with idleSentSinceLastC := true } :=
      ⟨h.localHostnames, h.kitty, hrunning, h.lastTitle, .inl rfl⟩
    by_cases hfresh : fresh.runningSinceMs.isNone && !fresh.idleSentSinceLastC
    · rw [if_pos hfresh]
      by_cases hlive : live.runningSinceMs.isNone && !live.idleSentSinceLastC
      · rw [if_pos hlive]
        exact .inl ⟨rfl, hnext idle⟩
      · -- the idle status the first has sent already
        rw [if_neg hlive]
        rw [hrunning, Bool.and_eq_true, Bool.not_eq_true'] at hfresh
        have hsent : live.idleSentSinceLastC = true := by simpa [hfresh.1] using hlive
        have hidle : idle = true := by
          rcases h.idleSent with hsame | ⟨-, -, hidle⟩
          · exact nomatch hfresh.2.symm.trans (hsame.trans hsent)
          · exact hidle
        refine .inr (.inr ⟨hidle, rfl, rfl, ?_⟩)
        exact ⟨h.localHostnames, h.kitty, hrunning, h.lastTitle, .inl hsent.symm⟩
    · rw [if_neg hfresh]
      have hlive : ¬ (live.runningSinceMs.isNone && !live.idleSentSinceLastC) := by
        rcases h.idleSent with hsame | ⟨hnot, hnone, -⟩
        · rwa [hrunning, hsame] at hfresh
        · exact absurd (by rw [hrunning, hnone, hnot]; rfl) hfresh
      rw [if_neg hlive]
      exact .inl ⟨rfl, h⟩
  · exact .inl ⟨rfl, h⟩

theorem Alike.onKitty (foreign : Foreign) (h : Alike title idle live fresh) (buffer : List UInt8)
    (remainder : Option String) :
    (fresh.onKitty foreign buffer remainder).2 = (live.onKitty foreign buffer remainder).2 ∧
      Alike title idle (live.onKitty foreign buffer remainder).1 (fresh.onKitty foreign buffer remainder).1 := by
  -- an assembly is all that is looked at and all that is changed
  have hset (assembly : List (String × String × String)) :
      Alike title idle { live with kittyAssembly := assembly } { fresh with kittyAssembly := assembly } :=
    ⟨h.localHostnames, rfl, h.running, h.lastTitle, h.idleSent⟩
  unfold OutputSniffer.onKitty
  dsimp only
  rw [h.kitty]
  repeat' split
  all_goals first
    | exact ⟨rfl, h⟩
    | exact ⟨rfl, hset _⟩

theorem Alike.parser (h : Alike title idle live fresh) (state state' : Sniffer.State) (buffer buffer' : List UInt8)
    (finished finished' : List (List UInt8)) :
    Alike title idle { live with state := state, oscBuffer := buffer, finished := finished }
      { fresh with state := state', oscBuffer := buffer', finished := finished' } :=
  ⟨h.localHostnames, h.kitty, h.running, h.lastTitle, h.idleSent⟩

theorem Alike.finishOsc (foreign : Foreign) (nowMs : Int64) (h : Alike title idle live fresh)
    (hbuffer : fresh.oscBuffer = live.oscBuffer) : Apart title idle
      (fun title idle => Alike title idle (live.finishOsc foreign nowMs).1 (fresh.finishOsc foreign nowMs).1)
      (live.finishOsc foreign nowMs).2 (fresh.finishOsc foreign nowMs).2 := by
  have htaken := h.parser live.state fresh.state [] [] (live.finished ++ [live.oscBuffer])
    (fresh.finished ++ [fresh.oscBuffer])
  unfold OutputSniffer.finishOsc
  dsimp only
  rw [hbuffer] at htaken ⊢
  split
  · exact .inl ⟨rfl, htaken⟩
  split
  · exact .inl ⟨rfl, htaken⟩
  split
  · exact htaken.onTitle _
  · exact htaken.onTitle _
  · exact htaken.onCommandMark nowMs _
  · rw [h.localHostnames]
    split <;> exact .inl ⟨rfl, ⟨rfl, h.kitty, h.running, h.lastTitle, h.idleSent⟩⟩
  · exact .inl ⟨rfl, htaken⟩
  · exact .inl ⟨rfl, htaken⟩
  · exact .inl (htaken.onKitty foreign _ _)
  · exact .inl ⟨rfl, htaken⟩

/-- The two read the same sequence, and remember alike. -/
structure Resuming (title : Option String) (idle : Bool) (live fresh : OutputSniffer) : Prop where
  alike : Alike title idle live fresh
  state : fresh.state = live.state
  buffer : live.state = .osc ∨ live.state = .oscEscape → fresh.oscBuffer = live.oscBuffer

theorem Alike.outside (h : Alike title idle live fresh) {state : Sniffer.State} (hosc : state ≠ .osc)
    (hescape : state ≠ .oscEscape) (buffer buffer' : List UInt8) :
    Resuming title idle { live with state := state, oscBuffer := buffer }
      { fresh with state := state, oscBuffer := buffer' } :=
  ⟨h.parser .., rfl, fun hin => (hin.elim hosc hescape).elim⟩

theorem Alike.classify (h : Alike title idle live fresh) (byte : UInt8) :
    Resuming title idle (live.classify byte) (fresh.classify byte) := by
  unfold OutputSniffer.classify
  split
  · exact ⟨h.parser .., rfl, fun _ => rfl⟩
  split
  · exact h.outside (by decide) (by decide) _ _
  split
  · exact h.outside (by decide) (by decide) _ _
  · exact h.outside (by decide) (by decide) _ _

theorem Resuming.step (foreign : Foreign) (nowMs : Int64) (h : Resuming title idle live fresh) (byte : UInt8) :
    Apart title idle
      (fun title idle => Resuming title idle (live.step foreign nowMs byte).1 (fresh.step foreign nowMs byte).1)
      (live.step foreign nowMs byte).2 (fresh.step foreign nowMs byte).2 := by
  have hstate := h.state
  unfold OutputSniffer.step
  cases hlive : live.state with
  | ground =>
    rw [hstate.trans hlive]
    dsimp only
    split
    · exact .inl ⟨rfl, h.alike.outside (by decide) (by decide) _ _⟩
    · split <;> exact .inl ⟨rfl, h⟩
  | escape =>
    rw [hstate.trans hlive]
    exact .inl ⟨rfl, h.alike.classify byte⟩
  | osc =>
    have hbuffer := h.buffer (.inl hlive)
    rw [hstate.trans hlive]
    dsimp only
    split
    · exact (h.alike.finishOsc foreign nowMs hbuffer).mono fun _ _ hnext => hnext.outside (by decide) (by decide) _ _
    split
    · exact .inl ⟨rfl, h.alike.parser .., rfl, fun _ => hbuffer⟩
    · rw [hbuffer]
      split
      · exact .inl ⟨rfl, h.alike.outside (by decide) (by decide) _ _⟩
      · exact .inl ⟨rfl, h.alike.parser .., rfl, fun _ => rfl⟩
  | oscEscape =>
    have hbuffer := h.buffer (.inr hlive)
    rw [hstate.trans hlive]
    dsimp only
    split
    · exact (h.alike.finishOsc foreign nowMs hbuffer).mono fun _ _ hnext => hnext.outside (by decide) (by decide) _ _
    · exact (h.alike.finishOsc foreign nowMs hbuffer).mono fun _ _ hnext => (hnext.parser ..).classify byte
  | oscDiscard =>
    rw [hstate.trans hlive]
    dsimp only
    split
    · exact .inl ⟨rfl, h.alike.outside (by decide) (by decide) _ _⟩
    · split
      · exact .inl ⟨rfl, h.alike.outside (by decide) (by decide) _ _⟩
      · exact .inl ⟨rfl, h⟩
  | oscDiscardEscape =>
    rw [hstate.trans hlive]
    dsimp only
    split
    · exact .inl ⟨rfl, h.alike.outside (by decide) (by decide) _ _⟩
    · exact .inl ⟨rfl, (h.alike.parser ..).classify byte⟩
  | stringConsume =>
    rw [hstate.trans hlive]
    dsimp only
    split
    · exact .inl ⟨rfl, h.alike.outside (by decide) (by decide) _ _⟩
    · split
      · exact .inl ⟨rfl, h.alike.outside (by decide) (by decide) _ _⟩
      · exact .inl ⟨rfl, h⟩
  | stringConsumeEscape =>
    rw [hstate.trans hlive]
    dsimp only
    split
    · exact .inl ⟨rfl, h.alike.outside (by decide) (by decide) _ _⟩
    · split
      · exact .inl ⟨rfl, h.alike.outside (by decide) (by decide) _ _⟩
      · exact .inl ⟨rfl, h.alike.outside (by decide) (by decide) _ _⟩

theorem Resuming.reading (foreign : Foreign) (nowMs : Int64) (h : Resuming title idle live fresh)
    (bytes : List UInt8) : Repeats title idle (feed (OutputSniffer.step foreign nowMs) live bytes).2
      (feed (OutputSniffer.step foreign nowMs) fresh bytes).2 := by
  induction bytes generalizing title idle live fresh with
  | nil => exact .nil title idle
  | cons byte bytes ih =>
    exact (h.step foreign nowMs byte).repeats fun _ _ hnext => ih hnext

theorem resuming_new (foreign : Foreign) (localHostnames : List String) (s : OutputSniffer)
    (hnames : s.localHostnames = localHostnames.map foreign.toLowercase) (hground : s.state = .ground)
    (hrunning : s.runningSinceMs = none) (hkitty : s.kittyAssembly = []) :
    Resuming s.lastTitle s.idleSentSinceLastC s (new foreign localHostnames) where
  alike := ⟨hnames.symm, hkitty.symm, hrunning.symm, .inr ⟨rfl, rfl⟩, by
    cases hidle : s.idleSentSinceLastC with
    | false => exact .inl rfl
    | true => exact .inr ⟨rfl, hrunning, rfl⟩⟩
  state := hground.symm
  buffer := by simp [hground]

/-! ### The names it answers to -/

theorem localHostnames_finishOsc (foreign : Foreign) (nowMs : Int64) (s : OutputSniffer) :
    (s.finishOsc foreign nowMs).1.localHostnames = s.localHostnames := by
  unfold OutputSniffer.finishOsc OutputSniffer.onTitle OutputSniffer.onCommandMark OutputSniffer.onKitty
  dsimp only
  repeat' split
  all_goals rfl

theorem localHostnames_classify (s : OutputSniffer) (byte : UInt8) :
    (s.classify byte).localHostnames = s.localHostnames := by
  unfold OutputSniffer.classify
  repeat' split
  all_goals rfl

theorem localHostnames_step (foreign : Foreign) (nowMs : Int64) (s : OutputSniffer) (byte : UInt8) :
    (s.step foreign nowMs byte).1.localHostnames = s.localHostnames := by
  unfold OutputSniffer.step
  dsimp only
  repeat' split
  all_goals simp only [localHostnames_finishOsc, localHostnames_classify]

end OutputSniffer

/-! ## The resume -/

/-- `sniff_backlog`, for a pane that is sniffed. -/
def sniffBacklog (foreign : Foreign) (localHostnames : List String) (bytes : List UInt8) (nowMs : Int64) :
    List SniffEvent :=
  ((OutputSniffer.new foreign localHostnames).observe foreign nowMs bytes).2

section
variable (foreign : Foreign) (localHostnames : List String) (nowMs : Int64)

/-- The live sniffer after some bytes, and the events it found in them. -/
def liveAfter (bytes : List UInt8) : OutputSniffer × List SniffEvent :=
  (OutputSniffer.new foreign localHostnames).observe foreign nowMs bytes

/-- What a subscriber is told that has had the events of `before`, resumes
there, is served `backlog` and stays for `later`. -/
def told (before backlog later : List UInt8) : List SniffEvent :=
  (liveAfter foreign localHostnames nowMs before).2 ++ sniffBacklog foreign localHostnames backlog nowMs ++
    ((liveAfter foreign localHostnames nowMs (before ++ backlog)).1.observe foreign nowMs later).2

end

variable {foreign : Foreign} {localHostnames : List String} {nowMs : Int64}

theorem localHostnames_liveAfter (bytes : List UInt8) :
    (liveAfter foreign localHostnames nowMs bytes).1.localHostnames = localHostnames.map foreign.toLowercase := by
  rw [liveAfter, OutputSniffer.observe_eq_feed]
  refine feed_invariant (fun s : OutputSniffer => s.localHostnames = localHostnames.map foreign.toLowercase)
    (fun s byte hs => ?_) rfl bytes
  rw [OutputSniffer.localHostnames_step, hs]

/-- Re-reading a backlog. Where the live sniffer is at ground, runs no command
and assembles no notification, the subscriber is told what one reading of the
stream tells, but for the title and the idle status of the prompt, which it
may be told once more. -/
theorem told_repeats {before backlog later : List UInt8}
    (hground : (liveAfter foreign localHostnames nowMs before).1.state = .ground)
    (hrunning : (liveAfter foreign localHostnames nowMs before).1.runningSinceMs = none)
    (hkitty : (liveAfter foreign localHostnames nowMs before).1.kittyAssembly = []) :
    Repeats (liveAfter foreign localHostnames nowMs before).1.lastTitle
      (liveAfter foreign localHostnames nowMs before).1.idleSentSinceLastC
      (liveAfter foreign localHostnames nowMs (before ++ backlog ++ later)).2
      (told foreign localHostnames nowMs before backlog later) := by
  have hresuming := OutputSniffer.resuming_new foreign localHostnames _ (localHostnames_liveAfter before) hground
    hrunning hkitty
  have hreading := hresuming.reading foreign nowMs backlog
  have hall : (liveAfter foreign localHostnames nowMs (before ++ backlog ++ later)).2
      = (liveAfter foreign localHostnames nowMs before).2
        ++ (feed (OutputSniffer.step foreign nowMs) (liveAfter foreign localHostnames nowMs before).1 backlog).2
        ++ ((liveAfter foreign localHostnames nowMs (before ++ backlog)).1.observe foreign nowMs later).2 := by
    simp only [liveAfter, OutputSniffer.observe_eq_feed, feed_append]
  have hfresh : sniffBacklog foreign localHostnames backlog nowMs
      = (feed (OutputSniffer.step foreign nowMs) (OutputSniffer.new foreign localHostnames) backlog).2 := by
    rw [sniffBacklog, OutputSniffer.observe_eq_feed]
  rw [hall, told, hfresh]
  exact (hreading.append_left _).append_right _

/-- A caller of the sniffer where nothing is base64 and no name has capitals. -/
def plain : Foreign := ⟨id, fun _ => none⟩

/-- `133;B`, as the shell sends it. -/
def markB : List UInt8 := [0x1B, 0x5D, 0x31, 0x33, 0x33, 0x3B, 0x42, 0x07]
/-- `133;C`. -/
def markC : List UInt8 := [0x1B, 0x5D, 0x31, 0x33, 0x33, 0x3B, 0x43, 0x07]
/-- `133;D;0`. -/
def markD : List UInt8 := [0x1B, 0x5D, 0x31, 0x33, 0x33, 0x3B, 0x44, 0x3B, 0x30, 0x07]

theorem told_repeats_rest :
    Repeats none true (liveAfter plain [] 0 (markC ++ markD ++ (markC ++ markD) ++ markC)).2
      (told plain [] 0 (markC ++ markD) (markC ++ markD) markC) := by
  have hlive : liveAfter plain [] 0 (markC ++ markD)
      = feed (OutputSniffer.step plain 0) (OutputSniffer.new plain []) (markC ++ markD) :=
    OutputSniffer.observe_eq_feed ..
  have hrepeats := @told_repeats plain [] 0 (markC ++ markD) (markC ++ markD) markC (by decide +kernel)
    (by decide +kernel) (by decide +kernel)
  rw [hlive] at hrepeats
  exact hrepeats

/-- The events but for the titles. -/
def untitled (events : List SniffEvent) : List SniffEvent := events.filter fun event => !(event matches .title _)

/-- Between the start and the end of a command the exit status is not told,
inside a title its terminator rings, and behind a prompt its idle status is
told again. -/
theorem told_otherwise :
    untitled (told plain [] 0 markC markD []) ≠ untitled (liveAfter plain [] 0 (markC ++ markD ++ [])).2 ∧
    untitled (told plain [] 0 [0x1B, 0x5D, 0x32, 0x3B] [0x61, 0x07] [])
      ≠ untitled (liveAfter plain [] 0 ([0x1B, 0x5D, 0x32, 0x3B] ++ [0x61, 0x07] ++ [])).2 ∧
    untitled (told plain [] 0 markB markB []) ≠ untitled (liveAfter plain [] 0 (markB ++ markB ++ [])).2 := by
  decide +kernel

end SlopDesk.Superd
