/-
SlopDesk.Tree.TabSteps — where every tab an operation leaves comes from.

`Tab.Step` is one change to a tab, with what it does to the panes of the
tree, to the focus and to the zoom. After any operation of `TreeOps` every
tab is one from before after some of these, or a new tab of one pane after
some (`Derived`); so whatever each change keeps of a tab, every operation
keeps of all of them.

  §1 Steps      — the changes, and what they keep.
  §2 Derived    — lists of tabs, sessions and workspaces.
  §3 Repairs    — `normalized`.
-/
import SlopDesk.Tree.SplitTreeTheorems
import SlopDesk.Tree.TreeOps

namespace SlopDesk.Tree

open SlopDesk.Base

/-! ## §1 Steps -/

namespace Tab

/-- One change to a tab. Where `shown` holds, a pane brought to the front
without touching the zoom is not behind one, and a zoom is on the focused
pane. -/
inductive Step (shown : Prop) : Tab → Tab → Prop
  | renamed (tab : Tab) (title : String) : Step shown tab { tab with title := title }
  | reshaped {tab : Tab} {root : SplitNode}
      (panes : ∀ p, p ∈ root.allPaneIds ↔ p ∈ tab.allPaneIds)
      (shaped : Shaped tab.root → Shaped root) : Step shown tab { tab with root := root }
  | rearranged {tab : Tab} {root : SplitNode} {pane : PaneId}
      (seen : shown → tab.zoomedPane = none ∨ tab.zoomedPane = some pane)
      (held : pane ∈ tab.allPaneIds) (panes : ∀ p, p ∈ root.allPaneIds ↔ p ∈ tab.allPaneIds)
      (shaped : Shaped tab.root → Shaped root) :
      Step shown tab { tab with root := root, activePane := some pane }
  | grown {tab : Tab} {root : SplitNode} {pane : PaneId}
      (panes : ∀ p, p ∈ root.allPaneIds ↔ p = pane ∨ p ∈ tab.allPaneIds)
      (shaped : Shaped tab.root → Shaped root) :
      Step shown tab { tab with root := root, activePane := some pane, zoomedPane := none }
  | pruned {tab : Tab} {root : SplitNode} {target : PaneId} {refocus : Option PaneId}
      (panes : ∀ p, p ∈ root.allPaneIds ↔ p ∈ tab.allPaneIds ∧ p ≠ target)
      (held : ∀ p, refocus = some p → p ∈ root.allPaneIds)
      (shaped : Shaped tab.root → Shaped root) :
      Step shown tab (tab.pruned target root refocus)
  | focused {tab : Tab} {target : PaneId} (held : target ∈ tab.allPaneIds) :
      Step shown tab { tab with
        activePane := some target
        zoomedPane := if tab.zoomedPane ≠ some target then none else tab.zoomedPane }
  | zoomed {tab : Tab} {zoom : Option PaneId} (seen : shown → zoom = none ∨ zoom = tab.activePane)
      (held : ∀ p, zoom = some p → p ∈ tab.allPaneIds) : Step shown tab { tab with zoomedPane := zoom }
  | reselected (tab : Tab) : Step shown tab tab.reselected

/-- Some changes, one after the other. -/
abbrev Steps (shown : Prop) : Tab → Tab → Prop := Relation.ReflTransGen (Step shown)

/-- The focus and the zoom, where there is one, are panes of the tab. -/
structure Selected (tab : Tab) : Prop where
  active : ∀ p, tab.activePane = some p → p ∈ tab.allPaneIds
  zoomed : ∀ p, tab.zoomedPane = some p → p ∈ tab.allPaneIds

/-- The zoom, where there is one, is on the focused pane. -/
def Unhidden (tab : Tab) : Prop := tab.zoomedPane = none ∨ tab.zoomedPane = tab.activePane
deriving Decidable

variable {shown : Prop} {tab tab' : Tab}

theorem Step.shaped (h : Step shown tab tab') (hs : Shaped tab.root) : Shaped tab'.root := by
  cases h with
  | renamed | focused | zoomed | reselected => exact hs
  | reshaped _ shaped | rearranged _ _ _ shaped | grown _ shaped | pruned _ _ shaped => exact shaped hs

theorem reselected_selected (tab : Tab) : tab.reselected.Selected := by
  have hheld : ∀ p, (some p).any (fun pane => tab.allPaneIds.contains pane) = true →
      p ∈ tab.reselected.allPaneIds := fun p hany => by
    have hmem : p ∈ tab.allPaneIds := by simpa using hany
    exact hmem
  constructor
  · intro p hp
    simp only [reselected] at hp
    split at hp
    · grind
    · exact SplitNode.firstLeafId_mem hp
  · intro p hp
    simp only [reselected] at hp
    split at hp
    · grind
    · cases hp

theorem Step.selected (h : Step shown tab tab') (hs : tab.Selected) : tab'.Selected := by
  cases h with
  | renamed => exact ⟨hs.active, hs.zoomed⟩
  | reshaped panes =>
    exact ⟨fun p hp => (panes p).mpr (hs.active p hp), fun p hp => (panes p).mpr (hs.zoomed p hp)⟩
  | rearranged _ held panes =>
    refine ⟨fun p hp => ?_, fun p hp => (panes p).mpr (hs.zoomed p hp)⟩
    cases hp
    exact (panes _).mpr held
  | grown panes =>
    refine ⟨fun p hp => ?_, fun p hp => by cases hp⟩
    cases hp
    exact (panes _).mpr (.inl rfl)
  | @pruned root target refocus panes held =>
    constructor
    · intro p hp
      simp only [Tab.pruned] at hp
      split at hp
      · rcases Option.or_eq_some_iff.mp hp with h | ⟨-, h⟩
        · exact held p h
        · exact SplitNode.firstLeafId_mem h
      · rename_i hne
        exact (panes p).mpr ⟨hs.active p hp, fun heq => hne (heq ▸ hp)⟩
    · intro p hp
      simp only [Tab.pruned] at hp
      split at hp
      · cases hp
      · rename_i hne
        exact (panes p).mpr ⟨hs.zoomed p hp, fun heq => hne (heq ▸ hp)⟩
  | focused held =>
    refine ⟨fun p hp => ?_, fun p hp => ?_⟩
    · cases hp
      exact held
    · split at hp
      · cases hp
      · exact hs.zoomed p hp
  | zoomed _ held => exact ⟨hs.active, held⟩
  | reselected => exact reselected_selected tab

/-- A repair of the selection loses the zoom or leaves it where it was, and
the focus with it. -/
theorem reselected_cases (tab : Tab) :
    tab.reselected.zoomedPane = none ∨ (tab.reselected.zoomedPane = tab.zoomedPane ∧
      (tab.zoomedPane = tab.activePane → tab.reselected.activePane = tab.activePane)) := by
  simp only [reselected]
  split
  · grind
  · exact .inl rfl

theorem Step.unhidden (h : Step shown tab tab') (hshown : shown) (hu : tab.Unhidden) : tab'.Unhidden := by
  cases h with
  | renamed => exact hu
  | reshaped => exact hu
  | rearranged seen => exact seen hshown
  | grown => exact .inl rfl
  | @pruned root target refocus =>
    by_cases hz : tab.zoomedPane = some target
    · exact .inl (if_pos hz)
    · have hzoom : (tab.pruned target root refocus).zoomedPane = tab.zoomedPane := if_neg hz
      rcases hu with hnone | hsame
      · exact .inl (hzoom.trans hnone)
      · have hactive : (tab.pruned target root refocus).activePane = tab.activePane :=
          if_neg (hsame ▸ hz)
        exact .inr (by rw [hzoom, hactive, hsame])
  | @focused target =>
    by_cases hz : tab.zoomedPane = some target
    · exact .inr (by simp [hz])
    · exact .inl (by simp [hz])
  | zoomed seen => exact seen hshown
  | reselected =>
    rcases reselected_cases tab with hnone | ⟨hzoom, hactive⟩
    · exact .inl hnone
    · rcases hu with hnone | hsame
      · exact .inl (hzoom.trans hnone)
      · exact .inr (by rw [hzoom, hactive hsame, hsame])

/-! ### A tab of one pane -/

variable (id : TabId) (pane : PaneId)

theorem new_shaped : Shaped (new id (.leaf pane)).root := .leaf

theorem new_selected : (new id (.leaf pane)).Selected where
  active := by simp [new, SplitNode.firstLeafId, allPaneIds]
  zoomed := by simp [new]

theorem new_unhidden : (new id (.leaf pane)).Unhidden := .inl rfl

end Tab

/-! ## §2 Derived -/

/-- Every tab of `after` comes from one of `before`, or was new. -/
def Derived (shown : Prop) (before after : List Tab) : Prop :=
  ∀ tab' ∈ after, (∃ tab ∈ before, Tab.Steps shown tab tab') ∨
    ∃ id pane, Tab.Steps shown (.new id (.leaf pane)) tab'

namespace Derived

variable {shown : Prop} {before after last : List Tab} {tab tab' : Tab} {i : Nat}

theorem of_subset (h : after ⊆ before) : Derived shown before after :=
  fun tab htab => .inl ⟨tab, h htab, .refl⟩

theorem refl : Derived shown before before := of_subset (List.Subset.refl _)

theorem trans (h : Derived shown before after) (h' : Derived shown after last) :
    Derived shown before last := by
  intro tab'' hmem
  rcases h' tab'' hmem with ⟨tab', hmem', hsteps'⟩ | hnew
  · rcases h tab' hmem' with ⟨tab, hmem, hsteps⟩ | ⟨id, pane, hsteps⟩
    · exact .inl ⟨tab, hmem, hsteps.trans hsteps'⟩
    · exact .inr ⟨id, pane, hsteps.trans hsteps'⟩
  · exact .inr hnew

theorem append (h : Derived shown before after) (h' : Derived shown before last) :
    Derived shown before (after ++ last) :=
  fun tab htab => (List.mem_append.mp htab).elim (h tab) (h' tab)

theorem mono (h : Derived shown before after) (hsub : before ⊆ last) : Derived shown last after :=
  (of_subset hsub).trans h

theorem step (htab : tab ∈ before) (h : tab.Step shown tab') : Derived shown before [tab'] := by
  intro t ht
  obtain rfl := List.mem_singleton.mp ht
  exact .inl ⟨tab, htab, .single h⟩

theorem new (id : TabId) (pane : PaneId) : Derived shown before [.new id (.leaf pane)] := by
  intro t ht
  obtain rfl := List.mem_singleton.mp ht
  exact .inr ⟨id, pane, .refl⟩

/-- What every step keeps, and what holds of every new tab, holds of all of
them after. -/
theorem keeps {Q : Tab → Prop} (h : Derived shown before after)
    (hstep : ∀ tab tab', tab.Step shown tab' → Q tab → Q tab')
    (hnew : ∀ id pane, Q (.new id (.leaf pane))) (hbefore : ∀ tab ∈ before, Q tab) :
    ∀ tab ∈ after, Q tab := by
  have hsteps : ∀ tab tab', tab.Steps shown tab' → Q tab → Q tab' := by
    intro tab tab' hsteps hq
    induction hsteps with
    | refl => exact hq
    | tail _ step ih => exact hstep _ _ step ih
  intro tab' htab'
  rcases h tab' htab' with ⟨tab, htab, hs⟩ | ⟨id, pane, hs⟩
  · exact hsteps tab tab' hs (hbefore tab htab)
  · exact hsteps _ tab' hs (hnew id pane)

/-! ### Edits of a list of tabs -/

theorem set (h : Derived shown before [tab]) : Derived shown before (before.set i tab) := by
  intro t ht
  rcases List.mem_or_eq_of_mem_set ht with hold | rfl
  · exact refl t hold
  · exact h t (by simp)

theorem eraseIdx : Derived shown before (before.eraseIdx i) := of_subset List.eraseIdx_subset

theorem insertIdx (h : Derived shown before [tab]) : Derived shown before (before.insertIdx i tab) := by
  intro t ht
  rcases List.eq_or_mem_of_mem_insertIdx ht with rfl | hold
  · exact h t (by simp)
  · exact refl t hold

end Derived

/-! ### Sessions and workspaces -/

section

variable {shown : Prop} {ws : TreeWorkspace} {s s' : Session} {i : Nat}

theorem TreeWorkspace.mem_tabs {tab : Tab} : tab ∈ ws.tabs ↔ ∃ s ∈ ws.sessions, tab ∈ s.tabs :=
  List.mem_flatMap

theorem TreeWorkspace.tabs_subset (h : ws.sessions[i]? = some s) : s.tabs ⊆ ws.tabs :=
  fun _ htab => TreeWorkspace.mem_tabs.mpr ⟨s, List.mem_of_getElem? h, htab⟩

theorem Derived.setSession (hs : ws.sessions[i]? = some s) (h : Derived shown s.tabs s'.tabs) :
    Derived shown ws.tabs (ws.setSession i s').tabs := by
  intro tab htab
  obtain ⟨x, hx, hmem⟩ := TreeWorkspace.mem_tabs.mp htab
  rcases List.mem_or_eq_of_mem_set hx with hold | rfl
  · exact Derived.refl tab (TreeWorkspace.mem_tabs.mpr ⟨x, hold, hmem⟩)
  · exact h.mono (TreeWorkspace.tabs_subset hs) tab hmem

end

/-! ## §3 Repairs -/

section

variable {shown : Prop}
variable (ws : TreeWorkspace)

theorem normalizingSpecs_derived : Derived shown ws.tabs ws.normalizingSpecs.tabs := by
  refine .of_subset fun tab htab => ?_
  obtain ⟨s, hs, hmem⟩ := TreeWorkspace.mem_tabs.mp htab
  obtain ⟨old, hold, rfl⟩ := List.mem_map.mp hs
  exact TreeWorkspace.mem_tabs.mpr ⟨old, hold, hmem⟩

theorem seeded_cases (s : Session) (ids : IdSource) : (s.tabs ≠ [] ∧ s.seeded ids = (s, ids)) ∨
      (s.tabs = [] ∧ (s.seeded ids).1 =
        { s with specs := s.specs.insert ids.tab.2.pane.1 .seeded
                 tabs := [.new ids.tab.1 (.leaf ids.tab.2.pane.1)] }) := by
  by_cases h : s.tabs = []
  · exact .inr ⟨h, by simp [Session.seeded, h]⟩
  · exact .inl ⟨h, by simp [Session.seeded, h]⟩

theorem mem_normalizedSessions {sessions : List Session} {ids : IdSource} {s' : Session}
    (h : s' ∈ (TreeWorkspace.normalizedSessions sessions ids).1) :
    ∃ s ∈ sessions, ∃ ids, s' = (s.seeded ids).1.reselected := by
  induction sessions generalizing ids with
  | nil => simp [TreeWorkspace.normalizedSessions] at h
  | cons s rest ih =>
    rcases List.mem_cons.mp h with rfl | hrest
    · exact ⟨s, List.mem_cons_self, ids, rfl⟩
    · grind

theorem seeded_reselected_derived (s : Session) (ids : IdSource) :
    Derived shown s.tabs (s.seeded ids).1.reselected.tabs := by
  intro tab' htab'
  obtain ⟨tab, htab, rfl⟩ := List.mem_map.mp htab'
  rcases seeded_cases s ids with ⟨-, heq⟩ | ⟨-, heq⟩
  · rw [heq] at htab
    exact .inl ⟨tab, htab, .single (.reselected tab)⟩
  · rw [heq] at htab
    obtain rfl := List.mem_singleton.mp htab
    exact .inr ⟨_, _, .single (.reselected _)⟩

theorem normalizingActive_derived (ids : IdSource) :
    Derived shown ws.tabs (ws.normalizingActive ids).1.tabs := by
  rw [TreeWorkspace.normalizingActive]
  split
  · exact Derived.new _ _
  · intro tab' htab'
    obtain ⟨s', hs', hmem⟩ := TreeWorkspace.mem_tabs.mp htab'
    obtain ⟨s, hs, ids', rfl⟩ := mem_normalizedSessions hs'
    exact (seeded_reselected_derived s ids').mono
      (fun _ h => TreeWorkspace.mem_tabs.mpr ⟨s, hs, h⟩) tab' hmem

theorem normalized_derived (ids : IdSource) : Derived shown ws.tabs (ws.normalized ids).1.tabs :=
  (normalizingSpecs_derived ws).trans (normalizingActive_derived _ ids)

end

end SlopDesk.Tree
