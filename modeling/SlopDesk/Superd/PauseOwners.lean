/-
SlopDesk.Superd.PauseOwners — who can leave a pane paused
(`slopdesk-superd/src/pump.rs`, `registry.rs` and `server.rs`).

A pane has one pause flag and a count of subscribers. The count goes up in
the server, behind a subscribe that was served, and down by what a
connection's own set says it follows, when it unsubscribes or is gone; the
last one off lifts the pause. As long as no connection is counted twice the
count is at most the number of connections that were counted on the pane and
have not been taken off (`Accounted`), so it is zero when the last of them
leaves. Each step is one hold of a lock: a subscribe that was served is not
yet counted, and what a connection leaves is taken off pane by pane.
-/
import Mathlib.Data.List.Count
import SlopDesk.Base.HashMap
import SlopDesk.Base.Runs

namespace SlopDesk.Superd

open SlopDesk.Base

/-! ## §1 The pump, the registry and the connections -/

/-- What a pump knows of its subscribers. `askers` are the connections that
have asked for the pause that is on, each with whether it followed the pane. -/
structure Gate where
  paused : Bool
  subscribers : Nat
  askers : List (Nat × Bool)
  deriving DecidableEq

namespace Gate

/-- `set_paused`, asked for by nobody or by a connection. -/
def setPaused (g : Gate) (paused : Bool) (asker : Option (Nat × Bool)) : Gate :=
  { g with paused := paused, askers := if paused then asker.toList ++ g.askers else [] }

def subscribed (g : Gate) : Gate := { g with subscribers := g.subscribers + 1 }

def clearPauseOnLastUnsubscribe (g : Gate) : Gate :=
  let left := g.subscribers - 1
  let g := { g with subscribers := left }
  if left = 0 then g.setPaused false none else g

end Gate

/-- A connection: the set it follows, the subscribe that was served and is not
counted yet, and what it has left and is not taken off yet. -/
structure Link where
  follows : List String
  serving : Option String
  owing : List String
  connected : Bool
  deriving DecidableEq

namespace Link

/-- The connection's thread is reading its next request. -/
def Idle (l : Link) : Prop := l.connected ∧ l.serving = none ∧ l.owing = []

instance (l : Link) : Decidable l.Idle := inferInstanceAs (Decidable (_ ∧ _))

/-- The connection follows the pane, or has left it and is not taken off. -/
def Holds (l : Link) (pane : String) : Prop := pane ∈ l.follows ∨ pane ∈ l.owing

end Link

/-- What became of a subscribe. -/
inductive Subscribed where
  | served
  | broken
  | rejected
  deriving DecidableEq

/-- The pumps of the live panes and the connections. `counted` are the
connections that were counted on a pane in its present life. -/
structure Custody where
  panes : HashMap String Gate
  links : HashMap Nat Link
  counted : List (Nat × String)

/-- What happens next: a connection, a life of a pane, a request, or the step
behind one. -/
inductive PauseOp where
  | connect (c : Nat)
  | spawn (pane : String)
  | exit (pane : String)
  | subscribe (c : Nat) (pane : String) (outcome : Subscribed)
  | count (c : Nat)
  | unsubscribe (c : Nat) (pane : String)
  | disconnect (c : Nat)
  | takeOff (c : Nat) (pane : String)
  | pause (c : Nat) (pane : String) (paused : Bool)
  deriving DecidableEq

namespace Custody

variable {s : Custody} {pane other : String} {l : Link}
variable {g : Gate}

/-- Before any connection. -/
def init : Custody := ⟨∅, ∅, []⟩

/-- `with_pump`: nothing where the pane is gone. -/
def withPump (s : Custody) (pane : String) (action : Gate → Gate) : Custody :=
  match s.panes.lookup pane with
  | none => s
  | some g => { s with panes := s.panes.insert pane (action g) }

/-- A request of a connection whose thread can take it. -/
def onLink (s : Custody) (c : Nat) (request : Link → Custody) : Custody :=
  match s.links.lookup c with
  | none => s
  | some l => if l.Idle then request l else s

/-- One step. -/
def step (s : Custody) : PauseOp → Custody
  | .connect c =>
    if s.links.lookup c = none then { s with links := s.links.insert c ⟨[], none, [], true⟩ } else s
  | .spawn pane =>
    if s.panes.lookup pane = none then
      { s with panes := s.panes.insert pane ⟨false, 0, []⟩, counted := s.counted.filter (·.2 ≠ pane) }
    else s
  | .exit pane => { s with panes := s.panes.erase pane }
  | .subscribe c pane outcome =>
    s.onLink c fun l =>
      match outcome with
      | .rejected => s
      | .broken => { s with links := s.links.insert c { l with follows := l.follows.insert pane } }
      | .served =>
        { s with links := s.links.insert c { l with follows := l.follows.insert pane, serving := some pane } }
  | .count c =>
    match s.links.lookup c with
    | none => s
    | some l =>
      match l.serving with
      | none => s
      | some pane =>
        let counted := if s.panes.lookup pane = none then s.counted else (c, pane) :: s.counted
        { s.withPump pane Gate.subscribed with
          links := s.links.insert c { l with serving := none }
          counted := counted }
  | .unsubscribe c pane =>
    s.onLink c fun l =>
      if pane ∈ l.follows then
        { s with links := s.links.insert c { l with follows := l.follows.erase pane, owing := [pane] } }
      else s
  | .disconnect c =>
    s.onLink c fun l =>
      { s with links := s.links.insert c { l with follows := [], owing := l.follows, connected := false } }
  | .takeOff c pane =>
    match s.links.lookup c with
    | none => s
    | some l =>
      if pane ∈ l.owing then
        { s.withPump pane Gate.clearPauseOnLastUnsubscribe with
          links := s.links.insert c { l with owing := l.owing.erase pane }
          counted := s.counted.erase (c, pane) }
      else s
  | .pause c pane paused =>
    s.onLink c fun l => s.withPump pane fun g => g.setPaused paused (some (c, decide (pane ∈ l.follows)))

/-! ## §2 What is kept -/

/-- A connection follows the pane, or is being taken off it. -/
def Followed (s : Custody) (pane : String) : Prop := ∃ e ∈ s.links.entries, e.2.Holds pane

/-- A pane is paused only while it is followed, or by one that did not follow
it. -/
def PausesFollowed (s : Custody) : Prop :=
  ∀ e ∈ s.panes.entries, e.2.paused → s.Followed e.1 ∨ ∃ c, (c, false) ∈ e.2.askers

/-- No connection is counted on a pane a second time. -/
def CountsOnce (s : Custody) : PauseOp → Prop
  | .subscribe c pane .served => (c, pane) ∉ s.counted
  | _ => True

instance (s : Custody) (op : PauseOp) : Decidable (s.CountsOnce op) :=
  match op with
  | .subscribe _ _ .served => inferInstanceAs (Decidable (¬ _))
  | .subscribe _ _ .broken | .subscribe _ _ .rejected | .connect _ | .spawn _ | .exit _ | .count _
  | .unsubscribe .. | .disconnect _ | .takeOff .. | .pause .. => .isTrue trivial

/-- The counts are of connections that were counted and not taken off. -/
structure Accounted (s : Custody) : Prop where
  bounded : ∀ e ∈ s.panes.entries, e.2.subscribers ≤ s.counted.countP (·.2 = e.1)
  holding : ∀ p ∈ s.counted, ∃ l, s.links.lookup p.1 = some l ∧ l.Holds p.2
  once : s.counted.Nodup
  serving : ∀ e ∈ s.links.entries, ∀ pane ∈ e.2.serving, pane ∈ e.2.follows ∧ (e.1, pane) ∉ s.counted
  followed : s.PausesFollowed

theorem accounted_init : init.Accounted := ⟨nofun, nofun, List.nodup_nil, nofun, nofun⟩

theorem Accounted.relink (h : s.Accounted) {c : Nat} {l' : Link}
    (hholds : ∀ l, s.links.lookup c = some l → ∀ pane, l.Holds pane → l'.Holds pane)
    (hserving : ∀ pane ∈ l'.serving, pane ∈ l'.follows ∧ (c, pane) ∉ s.counted) :
    ({ s with links := s.links.insert c l' } : Custody).Accounted where
  bounded := h.bounded
  holding := by
    intro p hp
    obtain ⟨l, hl, hheld⟩ := h.holding p hp
    by_cases heq : p.1 = c
    · exact ⟨l', by rw [HashMap.lookup_insert, if_pos heq], hholds l (heq ▸ hl) _ hheld⟩
    · exact ⟨l, by rw [HashMap.lookup_insert, if_neg heq, hl], hheld⟩
  once := h.once
  serving := by
    intro e he
    rcases HashMap.mem_entries_insert.mp he with rfl | ⟨he, -⟩
    · exact hserving
    · exact h.serving e he
  followed := by
    intro e he hpaused
    refine (h.followed e he hpaused).imp_left ?_
    rintro ⟨k, hk, hheld⟩
    by_cases heq : k.1 = c
    · have hl : s.links.lookup c = some k.2 := (HashMap.mem_entries ..).mp (heq ▸ hk)
      exact ⟨⟨c, l'⟩, HashMap.mem_entries_insert.mpr (.inl rfl), hholds k.2 hl _ hheld⟩
    · exact ⟨k, HashMap.mem_entries_insert.mpr (.inr ⟨hk, heq⟩), hheld⟩

theorem Accounted.regate (h : s.Accounted) {g' : Gate}
    (hbounded : g'.subscribers ≤ s.counted.countP (·.2 = pane))
    (hfollowed : g'.paused → s.Followed pane ∨ ∃ c, (c, false) ∈ g'.askers) :
    ({ s with panes := s.panes.insert pane g' } : Custody).Accounted where
  bounded := by
    intro e he
    rcases HashMap.mem_entries_insert.mp he with rfl | ⟨he, -⟩
    · exact hbounded
    · exact h.bounded e he
  holding := h.holding
  once := h.once
  serving := h.serving
  followed := by
    intro e he
    rcases HashMap.mem_entries_insert.mp he with rfl | ⟨he, -⟩
    · exact hfollowed
    · exact h.followed e he

theorem Accounted.entry (h : s.Accounted) (hg : s.panes.lookup pane = some g) :
    g.subscribers ≤ s.counted.countP (·.2 = pane) ∧ (g.paused → s.Followed pane ∨ ∃ c, (c, false) ∈ g.askers) := by
  have hmem := (HashMap.mem_entries s.panes pane g).mpr hg
  exact ⟨h.bounded _ hmem, h.followed _ hmem⟩

theorem Accounted.onLink (h : s.Accounted) {c : Nat} {request : Link → Custody}
    (hrequest : ∀ l, s.links.lookup c = some l → l.Idle → (request l).Accounted) : (s.onLink c request).Accounted := by
  unfold Custody.onLink
  split
  · exact h
  case h_2 l hl =>
    grind

theorem holds_insert {serving : Option String} (h : l.Holds other) :
    Link.Holds { l with follows := l.follows.insert pane, serving := serving } other := by
  rcases h with h | h
  · exact .inl (List.mem_insert_iff.mpr (.inr h))
  · exact .inr h

theorem Accounted.count (h : s.Accounted) {c : Nat}
    (hl : s.links.lookup c = some l) (hserving : l.serving = some pane) (hg : s.panes.lookup pane = some g) :
    ({ s with
        panes := s.panes.insert pane g.subscribed
        links := s.links.insert c { l with serving := none }
        counted := (c, pane) :: s.counted } : Custody).Accounted := by
  obtain ⟨hfollows, hnew⟩ := h.serving ⟨c, l⟩ ((HashMap.mem_entries ..).mpr hl) pane hserving
  have hrelinked := @relink s h c { l with serving := none }
    (fun k hk other hheld => by rwa [Option.some.inj (hl.symm.trans hk)]) nofun
  obtain ⟨hbound, hfollowed⟩ := hrelinked.entry hg
  constructor
  case bounded =>
    intro e he
    rw [List.countP_cons]
    rcases HashMap.mem_entries_insert.mp he with rfl | ⟨he, -⟩
    · simpa [Gate.subscribed] using hbound
    · exact Nat.le_add_right_of_le (h.bounded e he)
  case holding =>
    intro p hp
    rcases List.mem_cons.mp hp with rfl | hp
    · exact ⟨{ l with serving := none }, by rw [HashMap.lookup_insert, if_pos rfl], .inl hfollows⟩
    · exact hrelinked.holding p hp
  case once => exact List.nodup_cons.mpr ⟨hnew, h.once⟩
  case serving =>
    intro e he other hother
    rcases HashMap.mem_entries_insert.mp he with rfl | ⟨he, hne⟩
    · exact nomatch hother
    · obtain ⟨hmem, hnot⟩ := h.serving e he other hother
      refine ⟨hmem, fun hcons => ?_⟩
      rcases List.mem_cons.mp hcons with heq | hold
      · exact hne (Prod.mk.inj heq).1
      · exact hnot hold
  case followed =>
    intro e he
    rcases HashMap.mem_entries_insert.mp he with rfl | ⟨he, -⟩
    · exact hfollowed
    · exact hrelinked.followed e he

theorem clear_bounded (g : Gate) {n : Nat} (h : g.subscribers ≤ n + 1) :
    g.clearPauseOnLastUnsubscribe.subscribers ≤ n ∧ (g.clearPauseOnLastUnsubscribe.paused → 0 < n) := by
  simp only [Gate.clearPauseOnLastUnsubscribe]
  split
  case isTrue hlast => exact ⟨by simp [Gate.setPaused, hlast], nofun⟩
  case isFalse hleft => exact ⟨Nat.sub_le_of_le_add h, fun _ => by omega⟩

theorem countP_erase_of_ne {counted : List (Nat × String)} {c : Nat} (h : other ≠ pane) :
    (counted.erase (c, pane)).countP (·.2 = other) = counted.countP (·.2 = other) := by
  rw [List.countP_erase]
  simp [Ne.symm h]

theorem countP_le_erase (counted : List (Nat × String)) (c : Nat) (pane : String) :
    counted.countP (·.2 = pane) ≤ (counted.erase (c, pane)).countP (·.2 = pane) + 1 := by
  rw [List.countP_erase]
  split <;> omega

theorem holds_erase (h : l.Holds other) (hne : other ≠ pane) :
    Link.Holds { l with owing := l.owing.erase pane } other := by
  rcases h with h | h
  · exact .inl h
  · exact .inr ((List.mem_erase_of_ne hne).mpr h)

theorem Accounted.takeOff (h : s.Accounted) {c : Nat}
    (hl : s.links.lookup c = some l) {panes : HashMap String Gate}
    (hpanes : ∀ e ∈ panes.entries, e ∈ s.panes.entries ∧ e.1 ≠ pane ∨
      ∃ g, s.panes.lookup pane = some g ∧ e = ⟨pane, g.clearPauseOnLastUnsubscribe⟩) :
    ({ panes := panes
       links := s.links.insert c { l with owing := l.owing.erase pane }
       counted := s.counted.erase (c, pane) } : Custody).Accounted := by
  have hholding : ∀ p ∈ s.counted.erase (c, pane),
      ∃ k, (s.links.insert c { l with owing := l.owing.erase pane }).lookup p.1 = some k ∧ k.Holds p.2 := by
    intro p hp
    obtain ⟨hpair, hp⟩ := (h.once.mem_erase_iff).mp hp
    obtain ⟨k, hk, hheld⟩ := h.holding p hp
    by_cases heq : p.1 = c
    · have hother : p.2 ≠ pane := fun hsame => hpair (Prod.ext heq hsame)
      obtain rfl : l = k := Option.some.inj (hl.symm.trans (heq ▸ hk))
      exact ⟨_, by rw [HashMap.lookup_insert, if_pos heq], holds_erase hheld hother⟩
    · exact ⟨k, by rw [HashMap.lookup_insert, if_neg heq, hk], hheld⟩
  have hsubset : s.counted.erase (c, pane) ⊆ s.counted := List.erase_subset
  constructor
  case bounded =>
    intro e he
    rcases hpanes e he with ⟨he, hne⟩ | ⟨g, hg, rfl⟩
    · rw [countP_erase_of_ne hne]
      exact h.bounded e he
    · obtain ⟨hbound, -⟩ := h.entry hg
      exact (clear_bounded g (Nat.le_trans hbound (countP_le_erase ..))).1
  case holding => exact hholding
  case once => exact h.once.erase _
  case serving =>
    intro e he other hother
    rcases HashMap.mem_entries_insert.mp he with rfl | ⟨he, -⟩
    · obtain ⟨hmem, hnot⟩ := h.serving ⟨c, l⟩ ((HashMap.mem_entries ..).mpr hl) other hother
      exact ⟨hmem, fun hin => hnot (hsubset hin)⟩
    · obtain ⟨hmem, hnot⟩ := h.serving e he other hother
      exact ⟨hmem, fun hin => hnot (hsubset hin)⟩
  case followed =>
    intro e he hpaused
    rcases hpanes e he with ⟨he, hne⟩ | ⟨g, hg, rfl⟩
    · refine (h.followed e he hpaused).imp_left ?_
      rintro ⟨k, hk, hheld⟩
      by_cases heq : k.1 = c
      · obtain rfl : k.2 = l := Option.some.inj (((HashMap.mem_entries ..).mp (heq ▸ hk)).symm.trans hl)
        exact ⟨⟨c, _⟩, HashMap.mem_entries_insert.mpr (.inl rfl), holds_erase hheld hne⟩
      · exact ⟨k, HashMap.mem_entries_insert.mpr (.inr ⟨hk, heq⟩), hheld⟩
    · -- still paused, so another connection is counted
      obtain ⟨hbound, -⟩ := h.entry hg
      have hpos := (clear_bounded g (Nat.le_trans hbound (countP_le_erase _ c pane))).2 hpaused
      obtain ⟨p, hp, hsame⟩ := List.countP_pos_iff.mp hpos
      obtain ⟨k, hk, hheld⟩ := hholding p hp
      have hheld : k.Holds pane := by simpa [of_decide_eq_true hsame] using hheld
      exact .inl ⟨⟨p.1, k⟩, (HashMap.mem_entries ..).mpr hk, hheld⟩

theorem step_accounted {op : PauseOp} (hop : s.CountsOnce op) (h : s.Accounted) :
    (s.step op).Accounted := by
  cases op with
  | connect c =>
    rw [step]
    split
    case isTrue hnone => exact h.relink (fun l hl => nomatch hnone.symm.trans hl) nofun
    case isFalse => exact h
  | spawn pane =>
    rw [step]
    split
    case isFalse => exact h
    case isTrue =>
      have hsubset : s.counted.filter (·.2 ≠ pane) ⊆ s.counted := List.filter_subset_self _
      constructor
      case bounded =>
        intro e he
        rcases HashMap.mem_entries_insert.mp he with rfl | ⟨he, hne⟩
        · exact Nat.zero_le _
        · have hsame : (s.counted.filter (·.2 ≠ pane)).countP (·.2 = e.1) = s.counted.countP (·.2 = e.1) := by
            rw [List.countP_filter]
            refine List.countP_congr fun p _ => ?_
            by_cases hp : p.2 = e.1 <;> simp [hp, hne]
          exact hsame ▸ h.bounded e he
      case holding => exact fun p hp => h.holding p (hsubset hp)
      case once => exact h.once.filter _
      case serving =>
        intro e he other hother
        obtain ⟨hmem, hnot⟩ := h.serving e he other hother
        exact ⟨hmem, fun hin => hnot (hsubset hin)⟩
      case followed =>
        intro e he
        rcases HashMap.mem_entries_insert.mp he with rfl | ⟨he, -⟩
        · exact nofun
        · exact h.followed e he
  | exit pane =>
    refine ⟨fun e he => ?_, h.holding, h.once, h.serving, fun e he => ?_⟩
    · exact h.bounded e (HashMap.mem_entries_erase.mp he).1
    · exact h.followed e (HashMap.mem_entries_erase.mp he).1
  | subscribe c pane outcome =>
    refine h.onLink fun l hl hidle => ?_
    obtain ⟨-, hserving, -⟩ := hidle
    cases outcome with
    | rejected => exact h
    | broken =>
      refine h.relink (fun k hk other hheld => ?_) ?_
      · obtain rfl : l = k := Option.some.inj (hl.symm.trans hk)
        exact holds_insert hheld
      · simp [hserving]
    | served =>
      refine h.relink (fun k hk other hheld => ?_) ?_
      · obtain rfl : l = k := Option.some.inj (hl.symm.trans hk)
        exact holds_insert hheld
      · rintro other hother
        obtain rfl := Option.some.inj hother
        exact ⟨List.mem_insert_iff.mpr (.inl rfl), hop⟩
  | count c =>
    rw [step]
    split
    · exact h
    case h_2 l hl =>
      split
      · exact h
      case h_2 pane hserving =>
        cases hg : s.panes.lookup pane with
        | none =>
          simp only [withPump, hg, if_true]
          refine h.relink (fun k hk other hheld => ?_) nofun
          rwa [Option.some.inj (hl.symm.trans hk)]
        | some g =>
          simp only [withPump, hg, reduceCtorEq, if_false]
          exact h.count hl hserving hg
  | unsubscribe c pane =>
    refine h.onLink fun l hl hidle => ?_
    obtain ⟨-, hserving, howing⟩ := hidle
    split
    case isFalse => exact h
    case isTrue =>
      refine h.relink (fun k hk other hheld => ?_) (by simp [hserving])
      obtain rfl : l = k := Option.some.inj (hl.symm.trans hk)
      rcases hheld with hheld | hheld
      · by_cases heq : other = pane
        · exact .inr (List.mem_singleton.mpr heq)
        · exact .inl ((List.mem_erase_of_ne heq).mpr hheld)
      · grind
  | disconnect c =>
    refine h.onLink fun l hl hidle => ?_
    obtain ⟨-, hserving, howing⟩ := hidle
    refine h.relink (fun k hk other hheld => ?_) (by simp [hserving])
    obtain rfl : l = k := Option.some.inj (hl.symm.trans hk)
    rcases hheld with hheld | hheld
    · exact .inr hheld
    · grind
  | takeOff c pane =>
    rw [step]
    split
    · exact h
    case h_2 l hl =>
      split
      case isFalse => exact h
      case isTrue =>
        cases hg : s.panes.lookup pane with
        | none =>
          simp only [withPump, hg]
          refine h.takeOff hl fun e he => .inl ⟨he, ?_⟩
          rintro rfl
          exact nomatch hg.symm.trans ((HashMap.mem_entries ..).mp he)
        | some g =>
          simp only [withPump, hg]
          refine h.takeOff hl fun e he => ?_
          rcases HashMap.mem_entries_insert.mp he with rfl | hold
          · exact .inr ⟨g, hg, rfl⟩
          · exact .inl hold
  | pause c pane paused =>
    refine h.onLink fun l hl _ => ?_
    unfold withPump
    split
    · exact h
    case h_2 g hg =>
      obtain ⟨hbound, -⟩ := h.entry hg
      refine h.regate hbound fun hpaused => ?_
      obtain rfl : paused = true := hpaused
      by_cases hfollows : pane ∈ l.follows
      · exact .inl ⟨⟨c, l⟩, (HashMap.mem_entries ..).mpr hl, .inl hfollows⟩
      · simp [Gate.setPaused, hfollows]

/-- A pause does not outlive the last subscriber. In every run in which no
connection is counted on a pane twice, a pane is paused only while some
connection follows it or is being taken off it, or when a connection that did
not follow it has asked. -/
theorem pause_followed {ops : List PauseOp} (h : Meets step CountsOnce init ops) :
    Throughout step PausesFollowed init ops :=
  (h.throughout Accounted (fun _ _ => step_accounted) accounted_init).imp fun _ => Accounted.followed

/-- Two connections follow a pane; one pauses it and is gone. -/
def pausedAndGone : List PauseOp :=
  [.spawn "p", .connect 1, .connect 2, .subscribe 1 "p" .served, .count 1, .subscribe 2 "p" .served, .count 2,
    .pause 1 "p" true, .disconnect 1, .takeOff 1 "p"]

/-- One connection follows a pane, asks for its stream again, pauses it and is
gone. -/
def servedTwice : List PauseOp :=
  [.spawn "p", .connect 1, .subscribe 1 "p" .served, .count 1, .subscribe 1 "p" .served, .count 1, .pause 1 "p" true,
    .disconnect 1, .takeOff 1 "p"]

theorem pause_followed_gone : Throughout step PausesFollowed init pausedAndGone := pause_followed (by decide)

/-- Every pause has an owner: a connection that asked for it and still follows
the pane. -/
def PausesOwned (s : Custody) : Prop :=
  ∀ e ∈ s.panes.entries, e.2.paused →
    ∃ k ∈ s.links.entries, k.1 ∈ e.2.askers.map (·.1) ∧ k.2.connected ∧ e.1 ∈ k.2.follows

instance (s : Custody) : Decidable s.PausesOwned := inferInstanceAs (Decidable (∀ _ ∈ _, _ → _))

/-- A pause outlives its owner while another connection follows the pane, and
a connection that was counted twice. -/
theorem pause_outlives_owner : ¬ Throughout step PausesOwned init pausedAndGone ∧
    ¬ Throughout step PausesOwned init servedTwice :=
  ⟨fun h => absurd h.last (by decide), fun h => absurd h.last (by decide)⟩

end Custody

end SlopDesk.Superd
