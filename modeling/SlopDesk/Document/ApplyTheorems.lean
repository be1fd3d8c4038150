/-
SlopDesk.Document.ApplyTheorems — what an intent that is applied does to a
topology.

`Edit` is `TreeWorkspace.Edit` with the reopen ring counted in: where the
tabs come from, live or on the ring, and that no pane and no tab id is in
more places than it was, but for the new ones. Every intent whose outcome
is not the client's own arrangement is one: all but an adoption and a new
layout.

  §1 Answers     — what an answer of `applied` has passed.
  §2 Edits       — of a topology by its tree and by its ring.
  §3 Intents     — one lemma each.
-/
import Mathlib.Data.List.Flatten
import Mathlib.Data.List.Perm.Subperm
import SlopDesk.Document.Apply
import SlopDesk.Tree.TreeOpsTheorems

namespace SlopDesk.Document

open SlopDesk.Base
open SlopDesk.Wire (WireError RawUuid)
open SlopDesk.Tree

variable {t t' u : WorkspaceTopology} {args : List UInt8} {ids : IdSource}

/-! ## §1 Answers -/

theorem withArgs_applied {α : Type} {x : Outcome WireError α} {rest : α → IntentOutcome}
    (h : withArgs x rest = .applied t') : ∃ value, x = .ok value ∧ rest value = .applied t' := by
  unfold withArgs at h
  split at h
  · exact ⟨_, rfl, h⟩
  · cases h

theorem withVideo_applied {blob : List UInt8} {rest : Option VideoEndpoint → IntentOutcome}
    (h : withVideo blob rest = .applied t') : ∃ video, rest video = .applied t' := by
  unfold withVideo at h
  split at h
  · exact ⟨none, h⟩
  · split at h
    · cases h
    · exact ⟨some _, h⟩

/-- What `accept` checks: specs that match, and trees within the depth
cap. -/
structure Accepted (t : WorkspaceTopology) : Prop where
  specs : t.tree.invariantHolds = true
  depth : ∀ tab ∈ t.tree.tabs, tab.root.depth ≤ maxDepth

theorem accept_applied (h : accept t = .applied t') : t' = t ∧ Accepted t := by
  unfold accept at h
  split at h
  · cases h
  · rename_i hspecs
    split at h
    · cases h
    · rename_i hdeep
      refine ⟨(IntentOutcome.applied.inj h).symm, by simpa using hspecs, fun tab htab => ?_⟩
      have hnot := hdeep
      simp only [List.any_eq_true, decide_eq_true_eq, not_exists, not_and] at hnot
      have := hnot tab htab
      omega

/-- What an answer leaves is what there was, or has been accepted. -/
def Answers (t : WorkspaceTopology) (outcome : IntentOutcome) : Prop :=
  ∀ t', outcome = .applied t' → t' = t ∨ Accepted t'

namespace Answers

theorem accept : Answers t (accept u) := fun t' h => by
  obtain ⟨rfl, haccepted⟩ := accept_applied h
  exact .inr haccepted

theorem same : Answers t (.applied t) := fun _ h => .inl (IntentOutcome.applied.inj h).symm

theorem refused {outcome : IntentOutcome} (h : outcome.topology = none) : Answers t outcome := by
  rintro t' rfl
  cases h

theorem withArgs {α : Type} {x : Outcome WireError α} {rest : α → IntentOutcome}
    (h : ∀ value, Answers t (rest value)) : Answers t (withArgs x rest) := fun t' h' => by
  obtain ⟨value, -, happlied⟩ := withArgs_applied h'
  exact h value t' happlied

theorem withVideo {blob : List UInt8} {rest : Option VideoEndpoint → IntentOutcome}
    (h : ∀ video, Answers t (rest video)) : Answers t (withVideo blob rest) := fun t' h' => by
  obtain ⟨video, happlied⟩ := withVideo_applied h'
  exact h video t' happlied

end Answers

/-- Every branch of every intent ends in `accept`, in a refusal, or, past
the end of the reopen ring, in the topology as it was. -/
theorem apply_answers (op : UInt8) (args : List UInt8) (t : WorkspaceTopology) (c : IntentContext) :
    Answers t (apply op args t c) := by
  unfold apply
  split
  · exact .refused rfl
  all_goals
    first
    | unfold adopt
    | unfold renamePane
    | unfold renameTab
    | unfold renameSession
    | unfold closePane
    | unfold closeTab
    | unfold splitPane
    | unfold spawnPane
    | unfold movePane
    | unfold reorderTabs
    | unfold focusTab
    | unfold focusPane
    | unfold setSyncInput
    | unfold spawnTab
    | unfold setZoom
    | unfold detachPane
    | unfold reattachPane
    | unfold setDividerWeight
    | unfold newSession
    | unfold closeSession
    | unfold reopenClosedTab
    | unfold breakPaneToTab
    | unfold swapPanes
    | unfold dockPaneAtTabEdge
    | unfold setTabLayout
    | unfold spawnDetachedPane
    | unfold setPaneVideoTarget
  all_goals
    repeat' first
    | exact .accept
    | exact .refused rfl
    | exact .same
    | refine .withArgs fun _ => ?_
    | refine .withVideo fun _ => ?_
    | unfold inserting
    | split
    | dsimp only

/-! ## §2 Edits -/

namespace WorkspaceTopology

/-- Every tab, open or on the reopen ring. -/
def allTabs (t : WorkspaceTopology) : List Tab := t.tree.tabs ++ t.closedTabs.map ClosedTab.tab

/-- Where a pane is: a leaf of an open tab, a detached list, or a leaf of a
closed tab. -/
def placed (t : WorkspaceTopology) : List PaneId :=
  t.tree.placed ++ t.closedTabs.flatMap fun closed => closed.tab.allPaneIds

/-- The ids of the tabs, open and closed. -/
def tabIds (t : WorkspaceTopology) : List TabId :=
  t.tree.tabIds ++ t.closedTabs.flatMap fun closed => [closed.tab.id]

/-- No pane in two places, no tab id twice, a tab in every session, and
every tree shaped. -/
structure Tidy (t : WorkspaceTopology) : Prop where
  placed : t.placed.Nodup
  tabIds : t.tabIds.Nodup
  peopled : t.tree.Peopled
  shaped : ∀ tab ∈ t.allTabs, Shaped tab.root

theorem Tidy.tree (h : t.Tidy) : t.tree.Tidy where
  placed := (List.nodup_append.mp h.placed).1
  tabIds := (List.nodup_append.mp h.tabIds).1
  peopled := h.peopled

/-- What an intent may do to a topology, the tabs themselves apart. -/
structure Moves (panes : List PaneId) (tabs : List TabId) (t t' : WorkspaceTopology) : Prop where
  closed : ∀ c ∈ t'.closedTabs, c.tab ∈ t.allTabs
  placed : t.Tidy → ∀ p, t'.placed.count p ≤ (panes ++ t.placed).count p
  tabIds : t.Tidy → ∀ id, t'.tabIds.count id ≤ (tabs ++ t.tabIds).count id
  peopled : t.tree.Peopled → t'.tree.Peopled
  indexed : t.tree.Indexed → t'.tree.Indexed
  named : t.tree.Named → t'.tree.Named

/-- And where the tabs come from. -/
structure Edit (shown : Prop) (panes : List PaneId) (tabs : List TabId)
    (t t' : WorkspaceTopology) : Prop extends Moves panes tabs t t' where
  derived : Derived shown t.allTabs t'.allTabs

variable {shown : Prop} {panes : List PaneId} {tabs : List TabId}

theorem mem_allTabs_of_closed {c : ClosedTab} (h : c ∈ t.closedTabs) : c.tab ∈ t.allTabs :=
  List.mem_append_right _ (List.mem_map_of_mem h)

theorem mem_allTabs_of_open {tab : Tab} (h : tab ∈ t.tree.tabs) : tab ∈ t.allTabs :=
  List.mem_append_left _ h

theorem Edit.refl : t.Edit shown panes tabs t where
  closed _ := mem_allTabs_of_closed
  placed _ p := by simp
  tabIds _ id := by simp
  peopled h := h
  indexed h := h
  named h := h
  derived := .refl

theorem Edit.same (h : t.Edit shown panes tabs u) (htree : t'.tree = u.tree)
    (hring : t'.closedTabs = u.closedTabs) : t.Edit shown panes tabs t' := by
  have hplaced : t'.placed = u.placed := by rw [WorkspaceTopology.placed, htree, hring]; rfl
  have htabIds : t'.tabIds = u.tabIds := by rw [WorkspaceTopology.tabIds, htree, hring]; rfl
  have hall : t'.allTabs = u.allTabs := by rw [allTabs, htree, hring]; rfl
  exact { closed := hring ▸ h.closed, placed := hplaced ▸ h.placed, tabIds := htabIds ▸ h.tabIds, peopled := htree ▸ h.peopled,
          indexed := htree ▸ h.indexed, named := htree ▸ h.named, derived := hall ▸ h.derived }

theorem Edit.withTree {tree : TreeWorkspace} (h : t.tree.Edit shown panes tabs tree) :
    t.Edit shown panes tabs (t.withTree tree) where
  closed _ hc := List.mem_append_right _ (List.mem_map_of_mem hc)
  placed htidy p := by
    have hcount := h.placed htidy.tree p
    simp only [WorkspaceTopology.placed, WorkspaceTopology.withTree, List.count_append] at hcount ⊢
    omega
  tabIds htidy id := by
    have hcount := h.tabIds htidy.tree id
    simp only [WorkspaceTopology.tabIds, WorkspaceTopology.withTree, List.count_append] at hcount ⊢
    omega
  peopled := h.peopled
  indexed := h.indexed
  named := h.named
  derived := (h.derived.mono (List.subset_append_left ..)).append
    (.of_subset (List.subset_append_right ..))

section

variable (t : WorkspaceTopology)

@[simp] theorem notingFocus_tree (tab : TabId) :
    (t.notingFocus tab).tree = t.tree := by
  unfold notingFocus
  split <;> rfl

@[simp] theorem notingFocus_closedTabs (tab : TabId) :
    (t.notingFocus tab).closedTabs = t.closedTabs := by
  unfold notingFocus
  split <;> rfl

@[simp] theorem withCwd_tree (pane : PaneId) (cwd : String) :
    (t.withCwd pane cwd).tree = t.tree := by
  unfold withCwd
  split <;> rfl

@[simp] theorem withCwd_closedTabs (pane : PaneId) (cwd : String) :
    (t.withCwd pane cwd).closedTabs = t.closedTabs := by
  unfold withCwd
  split <;> rfl

@[simp] theorem pruned_tree : t.pruned.tree = t.tree := rfl

theorem pruned_closedTabs : t.pruned.closedTabs.Sublist t.closedTabs :=
  List.filter_sublist

end

theorem Edit.notingFocus (h : t.Edit shown panes tabs u) (tab : TabId) :
    t.Edit shown panes tabs (u.notingFocus tab) := h.same (by simp) (by simp)

theorem Edit.withCwd (h : t.Edit shown panes tabs u) (pane : PaneId) (cwd : String) :
    t.Edit shown panes tabs (u.withCwd pane cwd) := h.same (by simp) (by simp)

theorem Edit.pruned (h : t.Edit shown panes tabs u) : t.Edit shown panes tabs u.pruned where
  closed c hc := h.closed c ((pruned_closedTabs u).subset hc)
  placed htidy p := by
    have hcount := h.placed htidy p
    have hring := ((pruned_closedTabs u).flatMap fun closed => closed.tab.allPaneIds).count_le p
    simp only [WorkspaceTopology.placed, pruned_tree, List.count_append] at hcount ⊢
    omega
  tabIds htidy id := by
    have hcount := h.tabIds htidy id
    have hring := ((pruned_closedTabs u).flatMap fun closed => [closed.tab.id]).count_le id
    simp only [WorkspaceTopology.tabIds, pruned_tree, List.count_append] at hcount ⊢
    omega
  peopled := h.peopled
  indexed := h.indexed
  named := h.named
  derived := h.derived.trans (.of_subset (List.append_subset.mpr ⟨List.subset_append_left ..,
    List.Subset.trans (List.map_subset _ (pruned_closedTabs u).subset) (List.subset_append_right ..)⟩))

end WorkspaceTopology

open WorkspaceTopology

/-! ## §3 Intents -/

section

variable {shown : Prop} {panes : List PaneId} {tabs : List TabId}
variable {pane : PaneId} {s : Session}
variable {wanted : List TabId} {tab : Tab} {lower : Char → Char} {projectKey : PaneId → Option String}

theorem renamePane_edit (h : renamePane args t = .applied t') : t.Edit shown panes tabs t' := by
  obtain ⟨⟨pane, title⟩, -, h⟩ := withArgs_applied h
  simp only at h
  split at h
  · cases h
  · obtain ⟨rfl, -⟩ := accept_applied h
    exact .withTree (updatingSpec_edit _ _)

theorem renameTab_edit (h : renameTab args t = .applied t') : t.Edit shown panes tabs t' := by
  obtain ⟨⟨tab, title⟩, -, h⟩ := withArgs_applied h
  simp only at h
  split at h
  · cases h
  · obtain ⟨rfl, -⟩ := accept_applied h
    exact .withTree (Tree.renameTab_edit _ _)

theorem renameSession_edit (h : renameSession args t = .applied t') : t.Edit shown panes tabs t' := by
  obtain ⟨⟨session, name⟩, -, h⟩ := withArgs_applied h
  simp only at h
  split at h
  · cases h
  · obtain ⟨rfl, -⟩ := accept_applied h
    exact .withTree (Tree.renameSession_edit _ _)

theorem inserting_edit {target : PaneId} {axis : SplitAxis} {before : Bool} {cwd : String}
    (h : inserting t pane target axis before cwd ids = .applied t') : t.Edit shown [pane] tabs t' := by
  unfold inserting at h
  simp only at h
  split at h
  · cases h
  · obtain ⟨rfl, -⟩ := accept_applied h
    have hgrown : t.Edit shown [pane] tabs ((t.withTree
        (Tree.splitPane t.tree target axis .seeded before pane ids)).withCwd pane cwd) :=
      Edit.withCwd (.withTree (splitPane_edit ..)) _ _
    split
    · exact hgrown.notingFocus _
    · exact hgrown

theorem splitPane_edit (h : splitPane args t ids = .applied t') :
    ∃ pane, t.isFree pane = true ∧ t.Edit shown [pane] tabs t' := by
  obtain ⟨split, -, h⟩ := withArgs_applied h
  split at h
  · cases h
  · split at h
    · cases h
    · rename_i hfree
      exact ⟨split.newPane, by simpa using hfree, inserting_edit h⟩

theorem spawnPane_edit (h : spawnPane args t ids = .applied t') :
    ∃ pane, t.isFree pane = true ∧ t.Edit shown [pane] tabs t' := by
  obtain ⟨split, -, h⟩ := withArgs_applied h
  split at h
  · cases h
  · split at h
    · cases h
    · rename_i hfree
      exact ⟨split.newPane, by simpa using hfree, inserting_edit h⟩

/-- A move within one tab that brings the pane to the front brings it out
of no zoom but its own. -/
def MoveSeen (t : WorkspaceTopology) (moved : MoveArgs) (ids : IdSource) : Prop :=
  ∀ tab tab', t.tree.Holds moved.source tab → locate t.tree moved.source = locate t.tree moved.target →
    tab.movedBeside moved.source moved.target moved.axis moved.before ids.split.1 = some tab' →
    tab.zoomedPane = none ∨ tab.zoomedPane = some moved.source

/-- And so for a pane docked at an edge of the tab it is in. -/
def DockSeen (t : WorkspaceTopology) (dock : DockArgs) (ids : IdSource) : Prop :=
  ∀ tab tab', t.tree.Holds dock.source tab → tab.id = dock.tab →
    tab.movedToEdge dock.source dock.edge ids.split.1 = some tab' →
    tab.zoomedPane = none ∨ tab.zoomedPane = some dock.source

theorem movePane_edit (h : movePane args t ids = .applied t')
    (hseen : shown → ∀ moved, decodeMove args = .ok moved → MoveSeen t moved ids) :
    t.Edit shown panes tabs t' := by
  obtain ⟨moved, hargs, h⟩ := withArgs_applied h
  split at h
  · cases h
  · split at h
    · cases h
    · simp only at h
      split at h
      · cases h
      · obtain ⟨rfl, -⟩ := accept_applied h
        exact .withTree (moveLeafAcrossTabs_edit fun hshown => hseen hshown moved hargs)

theorem dockPaneAtTabEdge_edit (h : dockPaneAtTabEdge args t ids = .applied t')
    (hseen : shown → ∀ dock, decodeDockAtTabEdge args = .ok dock → DockSeen t dock ids) :
    t.Edit shown panes tabs t' := by
  obtain ⟨dock, hargs, h⟩ := withArgs_applied h
  split at h
  · cases h
  · simp only at h
    split at h
    · cases h
    · obtain ⟨rfl, -⟩ := accept_applied h
      refine Edit.pruned (.withTree (moveLeafToTabRootEdge_edit fun hshown tab tab' hholds hmoved hid =>
        hseen hshown dock hargs tab tab' hholds hid hmoved))

theorem swapPanes_edit (h : swapPanes args t = .applied t') : t.Edit shown panes tabs t' := by
  obtain ⟨⟨a, b⟩, -, h⟩ := withArgs_applied h
  simp only at h
  split at h
  · cases h
  · split at h
    · cases h
    · obtain ⟨rfl, -⟩ := accept_applied h
      exact .withTree (Tree.swapPanes_edit _ _)

theorem setDividerWeight_edit (h : setDividerWeight args t = .applied t') : t.Edit shown panes tabs t' := by
  obtain ⟨⟨split, index, weight⟩, -, h⟩ := withArgs_applied h
  simp only at h
  split at h
  · cases h
  · split at h
    · cases h
    · obtain ⟨rfl, -⟩ := accept_applied h
      exact .withTree (Tree.setDividerWeight_edit ..)

/-! ### Selections -/

theorem focusTab_edit (h : focusTab args t = .applied t') : t.Edit shown panes tabs t' := by
  obtain ⟨tab, -, h⟩ := withArgs_applied h
  split at h
  · cases h
  · rename_i si ti hloc
    split at h
    · cases h
    · rename_i s hs
      obtain ⟨rfl, -⟩ := accept_applied h
      obtain ⟨s', found, hs', hfound, -⟩ := locateTab_spec hloc
      obtain rfl := Option.some.inj (hs.symm.trans hs')
      obtain ⟨hlt, -⟩ := List.getElem?_eq_some_iff.mp hfound
      have hself : s.Edit shown panes tabs s := respecified_edit
      have hsame : s.Edit shown panes tabs { s with activeTabIndex := ti } :=
        { hself with indexed := fun _ => hlt }
      exact Edit.notingFocus (.withTree (hsame.setActive hs)) _

theorem focusPane_edit (h : focusPane args t = .applied t') : t.Edit shown panes tabs t' := by
  obtain ⟨pane, -, h⟩ := withArgs_applied h
  split at h
  · cases h
  · obtain ⟨rfl, -⟩ := accept_applied h
    have hfocused : t.Edit shown panes tabs (t.withTree (Tree.focusPane t.tree pane)) :=
      .withTree (Tree.focusPane_edit _)
    split
    · exact hfocused.notingFocus _
    · exact hfocused

theorem setSyncInput_edit (h : setSyncInput args t = .applied t') : t.Edit shown panes tabs t' := by
  obtain ⟨⟨tab, armed⟩, -, h⟩ := withArgs_applied h
  simp only at h
  split at h
  · cases h
  · obtain ⟨rfl, -⟩ := accept_applied h
    exact Edit.refl.same rfl rfl

/-! ### New tabs and sessions -/

/-- A zoom that is set where the pane has the focus. -/
def ZoomSeen (t : WorkspaceTopology) (pane : PaneId) : Prop :=
  ∀ tab, t.tree.Holds pane tab → tab.activePane = some pane

theorem setZoom_edit (h : setZoom args t = .applied t')
    (hseen : shown → ∀ pane, decodeFlag args = .ok (pane, true) → ZoomSeen t pane) :
    t.Edit shown panes tabs t' := by
  obtain ⟨⟨pane, zoomed⟩, hargs, h⟩ := withArgs_applied h
  simp only at h
  split at h
  · cases h
  · rename_i si ti hloc
    obtain ⟨rfl, -⟩ := accept_applied h
    refine .withTree (editingTab_edit fun s tab tab' hs ht hedit => ?_)
    obtain ⟨s', found, hs', ht', hmem⟩ := locate_spec hloc
    obtain rfl := Option.some.inj (hs.symm.trans hs')
    obtain rfl := Option.some.inj (ht.symm.trans ht')
    obtain rfl := Option.some.inj hedit
    refine ⟨.zoomed (fun hshown => ?_) fun p hp => ?_, rfl, fun _ p => by simp [Tab.allPaneIds]⟩
    · cases zoomed with
      | false => exact .inl rfl
      | true => exact .inr (hseen hshown pane hargs tab ⟨si, ti, s, hloc, hs, ht⟩).symm
    · grind

theorem spawnTab_edit (h : spawnTab args t ids = .applied t') :
    ∃ pane, t.isFree pane = true ∧ t.Edit shown [pane] [ids.tab.1] t' := by
  obtain ⟨spawn, -, h⟩ := withArgs_applied h
  split at h
  · cases h
  · split at h
    · cases h
    · rename_i hfree
      simp only at h
      split at h
      · cases h
      · obtain ⟨rfl, -⟩ := accept_applied h
        have hselected : t.tree.Edit shown [] [] (selectSession t.tree spawn.session) :=
          selectSession_edit _
        exact ⟨spawn.newPane, by simpa using hfree,
          Edit.notingFocus (Edit.withCwd (.withTree (hselected.trans (newTab_edit ..))) _ _) _⟩

theorem newSession_edit (h : newSession args t ids = .applied t') :
    ∃ pane, t.isFree pane = true ∧ t.Edit shown [pane] [ids.tab.1] t' := by
  obtain ⟨new, -, h⟩ := withArgs_applied h
  split at h
  · cases h
  · rename_i hfree
    obtain ⟨rfl, -⟩ := accept_applied h
    simp only [Bool.or_eq_true, Bool.not_eq_true', not_or, Bool.not_eq_false] at hfree
    have hinserted : t.Edit shown [new.newPane] [ids.tab.1] (t.withTree (insertSession t.tree
        (.singlePane new.session (if new.name.isEmpty then defaultSessionName else new.name) ids.tab.1
          new.newPane .seeded) true)) := .withTree (insertSession_edit ..)
    exact ⟨new.newPane, hfree.2, Edit.notingFocus (hinserted.same (by simp [withTree]) (by
      simp [withTree])) _⟩

theorem closeSession_edit (h : closeSession args t ids = .applied t') :
    t.Edit shown [ids.pane.1] [ids.tab.1] t' := by
  obtain ⟨session, -, h⟩ := withArgs_applied h
  split at h
  · cases h
  · obtain ⟨rfl, -⟩ := accept_applied h
    exact Edit.pruned (.withTree (Tree.closeSession_edit _))

theorem breakPaneToTab_edit (h : breakPaneToTab args t ids = .applied t') :
    t.Edit shown [] [ids.tab.1] t' := by
  obtain ⟨pane, -, h⟩ := withArgs_applied h
  split at h
  · cases h
  · simp only at h
    split at h
    · cases h
    · obtain ⟨rfl, -⟩ := accept_applied h
      exact Edit.notingFocus (.withTree (Tree.breakPaneToTab_edit ..)) _

/-! ### Detached panes -/

theorem detachPane_edit (h : detachPane args t ids = .applied t') :
    t.Edit shown [ids.pane.1] [ids.tab.1] t' := by
  obtain ⟨pane, -, h⟩ := withArgs_applied h
  split at h
  · cases h
  · obtain ⟨rfl, -⟩ := accept_applied h
    exact Edit.pruned (.withTree (Tree.detachPane_edit _))

theorem reattachPane_edit (h : reattachPane args t ids = .applied t') : t.Edit shown [] [ids.tab.1] t' := by
  obtain ⟨pane, -, h⟩ := withArgs_applied h
  split at h
  · cases h
  · simp only at h
    split at h
    · cases h
    · obtain ⟨rfl, -⟩ := accept_applied h
      exact Edit.pruned (.withTree (Tree.reattachPane_edit ..))

theorem spawnDetachedPane_edit (h : spawnDetachedPane args t = .applied t') :
    ∃ pane, t.isFree pane = true ∧ t.Edit shown [pane] tabs t' := by
  obtain ⟨spawn, -, h⟩ := withArgs_applied h
  split at h
  · cases h
  · rename_i hfree
    obtain ⟨video, h⟩ := withVideo_applied h
    simp only at h
    split at h
    · cases h
    · obtain ⟨rfl, -⟩ := accept_applied h
      exact ⟨spawn.newPane, by simpa using hfree, .withTree (mintDetachedPane_edit ..)⟩

theorem setPaneVideoTarget_edit (h : setPaneVideoTarget args t = .applied t') :
    t.Edit shown panes tabs t' := by
  obtain ⟨⟨pane, blob⟩, -, h⟩ := withArgs_applied h
  obtain ⟨video, h⟩ := withVideo_applied h
  split at h
  · cases h
  · obtain ⟨rfl, -⟩ := accept_applied h
    refine .withTree (editingSession_edit fun s s' _ hedit => ?_)
    obtain ⟨spec, -, rfl⟩ := Option.map_eq_some_iff.mp hedit
    exact respecified_edit

/-! ### The order of the tabs -/

/-- The tabs of a session in another order. -/
def reordered (s : Session) (wanted : List TabId) : List Tab :=
  wanted.filterMap fun id => s.tabs.find? fun tab => tab.id = id

theorem reordered_subset (s : Session) (wanted : List TabId) : reordered s wanted ⊆ s.tabs := by
  intro tab htab
  obtain ⟨id, -, hfind⟩ := List.mem_filterMap.mp htab
  exact List.mem_of_find?_eq_some hfind

theorem reordered_ids (h : ∀ id ∈ wanted, id ∈ s.tabs.map Tab.id) :
    (reordered s wanted).map Tab.id = wanted := by
  induction wanted with
  | nil => rfl
  | cons id rest ih =>
    obtain ⟨tab, htab, hid⟩ := List.mem_map.mp (h id List.mem_cons_self)
    have hrest := ih fun id hid => h id (List.mem_cons_of_mem _ hid)
    cases hfind : s.tabs.find? fun tab => tab.id = id with
    | none => exact absurd hid (by simpa using List.find?_eq_none.mp hfind tab htab)
    | some found =>
      have hfound : found.id = id := by simpa using List.find?_some hfind
      rw [reordered] at hrest
      simp [reordered, hfind, hfound, hrest]

/-- An order that is a permutation of tabs with unique ids is one of the
tabs. -/
theorem reordered_perm (hunique : s.tabIds.Nodup)
    (hin : ∀ id ∈ wanted, id ∈ s.tabs.map Tab.id) (hall : ∀ id ∈ s.tabs.map Tab.id, id ∈ wanted)
    (hlen : wanted.length = s.tabs.length) : (reordered s wanted).Perm s.tabs := by
  rw [Session.tabIds_eq] at hunique
  have hperm : (s.tabs.map Tab.id).Perm wanted :=
    (List.Nodup.subperm hunique hall).perm_of_length_le (by simp [hlen])
  have hnodup : (reordered s wanted).Nodup := by
    have hids : ((reordered s wanted).map Tab.id).Nodup := by
      grind [reordered_ids]
    exact hids.of_map
  refine (List.Nodup.subperm hnodup (reordered_subset s wanted)).perm_of_length_le ?_
  have hlength := congrArg List.length (reordered_ids hin)
  rw [List.length_map] at hlength
  omega

theorem sameElements_iff {xs ys : List TabId} :
    sameElements xs ys = true ↔ (∀ x ∈ xs, x ∈ ys) ∧ ∀ y ∈ ys, y ∈ xs := by
  simp [sameElements]

theorem reorderTabs_edit (h : reorderTabs args t = .applied t') : t.Edit shown panes tabs t' := by
  obtain ⟨⟨session, wanted⟩, -, h⟩ := withArgs_applied h
  simp only at h
  split at h
  · cases h
  · split at h
    · cases h
    · rename_i index _ s hs
      split at h
      · cases h
      · rename_i hperm
        obtain ⟨rfl, -⟩ := accept_applied h
        simp only [Bool.or_eq_true, Bool.not_eq_true', not_or, Bool.not_eq_false, decide_eq_true_eq,
          Decidable.not_not, sameElements_iff] at hperm
        obtain ⟨⟨hin, hall⟩, hlen⟩ := hperm
        refine .withTree (Session.Edit.setSession hs
          { id := rfl, derived := .of_subset (reordered_subset s wanted),
            placed := fun _ hunique p => ?_, tabIds := fun hunique id => ?_, peopled := fun hne => ?_,
            indexed := fun hlt => ?_ })
        · have hcount := ((reordered_perm hunique hin hall hlen).flatMap_right Tab.allPaneIds).count_eq p
          simp only [Session.count_placed, List.count_append]
          simp only [Session.detachedIds, reordered] at hcount ⊢
          omega
        · have hcount := ((reordered_perm hunique hin hall hlen).map Tab.id).count_eq id
          simp only [Session.tabIds_eq, List.count_append]
          simp only [reordered] at hcount ⊢
          omega
        all_goals
          have hlength := congrArg List.length (reordered_ids hin)
          rw [List.length_map] at hlength
        · grind [reordered]
        · have hindex : ((s.tabs[s.activeTabIndex]?.map Tab.id).bind fun id =>
              wanted.findIdx? fun tab => tab = id).getD 0 < wanted.length := by
            cases hfind : (s.tabs[s.activeTabIndex]?.map Tab.id).bind fun id =>
                wanted.findIdx? fun tab => tab = id with
            | none =>
              simp only [Option.getD_none]
              omega
            | some i =>
              obtain ⟨id, -, hidx⟩ := Option.bind_eq_some_iff.mp hfind
              obtain ⟨hi, -⟩ := List.findIdx?_eq_some_iff_getElem.mp hidx
              simpa using hi
          simp only [reordered] at hlength ⊢
          omega

/-! ### Closes -/

theorem capturing_cases (t : WorkspaceTopology) (id : TabId) :
    t.capturing id = t ∨ ∃ i j s tab, locateTab t.tree id = some (i, j) ∧
      t.tree.sessions[i]? = some s ∧ s.tabs[j]? = some tab ∧ tab.id = id ∧
      t.capturing id = { t with
        closedTabs := (t.closedTabs ++ [closedRecord s tab]).drop
          ((t.closedTabs ++ [closedRecord s tab]).length - closedTabRingCap) } := by
  unfold capturing
  split
  · exact .inl rfl
  · rename_i s hsession
    split
    · exact .inl rfl
    · rename_i tab htab
      obtain ⟨-, pre, post, hsessions, hpre⟩ := List.find?_eq_some_iff_append.mp hsession
      obtain ⟨hid, before, after, htabs, hbefore⟩ := List.find?_eq_some_iff_append.mp htab
      have hindex : s.tabIndexOf id = some before.length := by
        rw [Session.tabIndexOf, htabs]
        exact Position.findIdx?_cut (fun y hy => by simpa using hbefore y hy) hid
      have hlocate : locateTab t.tree id = some (pre.length, before.length) := by
        rw [locateTab, hsessions]
        refine Position.findMap_cut (fun y hy => ?_) hindex
        have hnone := hpre y hy
        simpa [Session.tabIndexOf] using hnone
      exact .inr ⟨pre.length, before.length, s, tab, hlocate, by simp [hsessions], by simp [htabs],
        by simpa using hid, rfl⟩

theorem captured_ring (closed : List ClosedTab) (record : ClosedTab) (n : Nat) (p : PaneId) (id : TabId) :
    (((closed ++ [record]).drop n).flatMap fun c => c.tab.allPaneIds).count p ≤
        (closed.flatMap fun c => c.tab.allPaneIds).count p + record.tab.allPaneIds.count p ∧
      (((closed ++ [record]).drop n).flatMap fun c => [c.tab.id]).count id ≤
        (closed.flatMap fun c => [c.tab.id]).count id + [record.tab.id].count id ∧
      ((closed ++ [record]).drop n).map ClosedTab.tab ⊆ closed.map ClosedTab.tab ++ [record.tab] := by
  have hsub := List.drop_sublist n (closed ++ [record])
  have hpanes := (hsub.flatMap fun c => c.tab.allPaneIds).count_le p
  have hids := (hsub.flatMap fun c => [c.tab.id]).count_le id
  simp only [List.flatMap_append, List.flatMap_cons, List.flatMap_nil, List.append_nil,
    List.count_append] at hpanes hids
  refine ⟨hpanes, hids, ?_⟩
  have hmap := List.map_subset ClosedTab.tab hsub.subset
  simpa using hmap

/-- A tab that is captured and then leaves the tree is in one place
still. -/
theorem captured_edit {i j : Nat} {n : Nat} {tree : TreeWorkspace}
    (hs : t.tree.sessions[i]? = some s) (ht : s.tabs[j]? = some tab)
    (hedit : t.tree.Edit shown [ids.pane.1] [ids.tab.1] tree)
    (hleft : t.Tidy → ∀ p id, tree.placed.count p + tab.allPaneIds.count p ≤
        [ids.pane.1].count p + t.tree.placed.count p ∧
      tree.tabIds.count id + [tab.id].count id ≤ [ids.tab.1].count id + t.tree.tabIds.count id) :
    t.Edit shown [ids.pane.1] [ids.tab.1] { t with
      tree := tree
      closedTabs := (t.closedTabs ++ [closedRecord s tab]).drop n } where
  closed c hc := by
    rcases List.mem_append.mp ((List.drop_sublist _ _).subset hc) with hold | hnew
    · exact mem_allTabs_of_closed hold
    · obtain rfl := List.mem_singleton.mp hnew
      exact mem_allTabs_of_open (TreeWorkspace.tabs_subset hs (List.mem_of_getElem? ht))
  placed htidy p := by
    have hring := (captured_ring t.closedTabs (closedRecord s tab) n p p).1
    have hcount := (hleft htidy p p).1
    have htab : (closedRecord s tab).tab = tab := rfl
    rw [htab] at hring
    simp only [WorkspaceTopology.placed, List.count_append]
    omega
  tabIds htidy id := by
    have hring := (captured_ring t.closedTabs (closedRecord s tab) n id id).2.1
    have hcount := (hleft htidy id id).2
    have htab : (closedRecord s tab).tab = tab := rfl
    rw [htab] at hring
    simp only [WorkspaceTopology.tabIds, List.count_append]
    omega
  peopled := hedit.peopled
  indexed := hedit.indexed
  named := hedit.named
  derived := by
    have hring := (captured_ring t.closedTabs (closedRecord s tab) n ids.pane.1 ids.pane.1).2.2
    have htab : tab ∈ t.tree.tabs := TreeWorkspace.tabs_subset hs (List.mem_of_getElem? ht)
    refine (hedit.derived.mono (List.subset_append_left ..)).append (.of_subset fun x hx => ?_)
    rcases List.mem_append.mp (hring hx) with hold | hnew
    · exact List.mem_append_right _ hold
    · obtain rfl := List.mem_singleton.mp hnew
      exact List.mem_append_left _ htab

theorem closeTab_edit (h : closeTab args t ids projectKey lower = .applied t') :
    t.Edit shown [ids.pane.1] [ids.tab.1] t' := by
  obtain ⟨tab, -, h⟩ := withArgs_applied h
  split at h
  · cases h
  · obtain ⟨rfl, -⟩ := accept_applied h
    refine Edit.pruned ?_
    rcases capturing_cases t tab with heq | ⟨i, j, s, found, hloc, hs, ht, -, heq⟩
    · rw [heq]
      exact .withTree (Tree.closeTab_edit ..)
    · rw [heq]
      exact captured_edit hs ht (Tree.closeTab_edit ..)
        fun htidy p id => count_closeTab hloc hs ht htidy.peopled p id

theorem removing_only {node : SplitNode} (hshaped : Shaped node)
    (h : node.allPaneIds = [pane]) : node.removing pane = none := by
  cases hr : node.removing pane with
  | none => rfl
  | some pruned =>
    have hnil : pruned.allPaneIds = [] := by
      rw [SplitNode.removing_some hr, h]
      simp
    exact absurd hnil (SplitNode.allPaneIds_ne_nil (SplitNode.removing_shaped hshaped hr))

theorem soleLeaf_spec (hunique : t.tree.tabIds.Nodup)
    (htab : tab ∈ t.tree.tabs) (h : t.soleLeaf tab.id = some pane) : tab.allPaneIds = [pane] := by
  obtain ⟨found, hfound, hsole⟩ := Option.bind_eq_some_iff.mp h
  have hid : found.id = tab.id := by simpa using List.find?_some hfound
  obtain rfl := TreeWorkspace.eq_of_id hunique (List.mem_of_find?_eq_some hfound) htab hid
  split at hsole
  · rename_i hone
    rw [SplitNode.leafCount_eq] at hone
    obtain ⟨only, honly⟩ := List.length_eq_one_iff.mp hone
    rw [honly] at hsole
    obtain rfl : only = pane := by simpa using hsole
    exact honly
  · cases hsole

theorem closePane_edit (h : closePane args t ids projectKey lower = .applied t') :
    t.Edit shown [ids.pane.1] [ids.tab.1] t' := by
  obtain ⟨pane, -, h⟩ := withArgs_applied h
  split at h
  · cases h
  · split at h
    · obtain ⟨rfl, -⟩ := accept_applied h
      exact Edit.pruned (.withTree (closeDetachedPane_edit _))
    · obtain ⟨rfl, -⟩ := accept_applied h
      refine Edit.pruned ?_
      cases howning : t.tabOfPane pane with
      | none => exact .withTree (Tree.closePane_edit ..)
      | some tab =>
        simp only
        split
        · rename_i hsole
          rcases capturing_cases t tab with heq | ⟨i, j, s, found, -, hs, ht, hid, heq⟩
          · rw [heq]
            exact .withTree (Tree.closePane_edit ..)
          · rw [heq]
            refine captured_edit hs ht (Tree.closePane_edit ..) fun htidy p id => ?_
            -- the tab filed is the tab of the pane, which leaves with it
            obtain ⟨at_, hat, hatId⟩ := Option.map_eq_some_iff.mp howning
            obtain ⟨i', j', s', own, hloc, hs', ht', hmem, rfl⟩ := locationOf_spec hat
            obtain rfl : own.id = tab := hatId
            have hown : own ∈ t.tree.tabs := TreeWorkspace.tabs_subset hs' (List.mem_of_getElem? ht')
            have hfound : found ∈ t.tree.tabs := TreeWorkspace.tabs_subset hs (List.mem_of_getElem? ht)
            obtain rfl := TreeWorkspace.eq_of_id htidy.tree.tabIds hfound hown hid
            have hlast := removing_only (htidy.shaped found (List.mem_append_left _ hown))
              (soleLeaf_spec htidy.tree.tabIds hown hsole)
            exact count_closePane hloc hs' ht' hlast htidy.peopled p id
        · exact .withTree (Tree.closePane_edit ..)

theorem reopenClosedTab_edit (h : reopenClosedTab args t = .applied t') : t.Edit shown panes tabs t' := by
  obtain ⟨⟨lifoIndex, position⟩, -, h⟩ := withArgs_applied h
  simp only at h
  split at h
  · obtain rfl := IntentOutcome.applied.inj h
    exact .refl
  · split at h
    · obtain rfl := IntentOutcome.applied.inj h
      exact .refl
    · rename_i restored hrestored
      split at h
      · cases h
      · split at h
        · cases h
        · obtain ⟨rfl, -⟩ := accept_applied h
          refine Edit.notingFocus ?_ _
          have hselected : t.tree.Edit shown [] [] (selectSession t.tree restored.sessionId) :=
            selectSession_edit _
          have hsessions : (selectSession t.tree restored.sessionId).sessions = t.tree.sessions := by
            unfold selectSession
            split <;> rfl
          obtain ⟨hpeopled, hindexed, hnamed⟩ := insertTab_settled
            (selectSession t.tree restored.sessionId) restored.specs position restored.tab
          have hcounts := count_insertTab (selectSession t.tree restored.sessionId) restored.specs
            position restored.tab
          refine { closed := fun c hc => mem_allTabs_of_closed (List.mem_of_mem_eraseIdx hc),
                   placed := fun _ p => ?_, tabIds := fun _ id => ?_, peopled := fun hp => hpeopled (hselected.peopled hp),
                   indexed := fun hi => hindexed (hselected.indexed hi),
                   named := fun hn => hnamed (hselected.named hn), derived := ?_ }
          · have hring := Position.count_eraseIdx (fun c : ClosedTab => c.tab.allPaneIds) p hrestored
            have hcount := (hcounts p p).1
            simp only [TreeWorkspace.placed, hsessions] at hcount
            simp only [WorkspaceTopology.placed, TreeWorkspace.placed, List.count_append]
            omega
          · have hring := Position.count_eraseIdx (fun c : ClosedTab => [c.tab.id]) id hrestored
            have hcount := (hcounts id id).2
            simp only [TreeWorkspace.tabIds, hsessions] at hcount
            simp only [WorkspaceTopology.tabIds, TreeWorkspace.tabIds, List.count_append]
            omega
          · have htabs : (selectSession t.tree restored.sessionId).tabs = t.tree.tabs := by
              rw [TreeWorkspace.tabs, hsessions]
              rfl
            have hinserted : Derived shown (restored.tab :: (selectSession t.tree restored.sessionId).tabs)
                (insertTab (selectSession t.tree restored.sessionId) restored.tab restored.specs
                  position).tabs := insertTab_derived _ _ _ _
            refine (hinserted.mono fun x hx => ?_).append (.of_subset fun x hx => ?_)
            · rw [htabs] at hx
              rcases List.mem_cons.mp hx with rfl | hold
              · exact List.mem_append_right _ (List.mem_map_of_mem (List.mem_of_getElem? hrestored))
              · exact List.mem_append_left _ hold
            · obtain ⟨c, hc, rfl⟩ := List.mem_map.mp hx
              exact List.mem_append_right _ (List.mem_map_of_mem (List.mem_of_mem_eraseIdx hc))

end

end SlopDesk.Document
