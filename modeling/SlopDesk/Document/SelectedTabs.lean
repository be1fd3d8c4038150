/-
SlopDesk.Document.SelectedTabs — the selected tab, and the tabs that are reopened.
-/
import SlopDesk.Document.Honesty
import SlopDesk.Document.Structure
import SlopDesk.Tree.RepairPass
import SlopDesk.Tree.Selections
import SlopDesk.Tree.TabRestore

/-! # Whether the tab a session has selected is
the same tab after a request that takes another one out.

A tab that closes names its successor by id and a new order looks the
selected tab up, so that both keep it. A pane that moves selects the tab it
moves to. A pane that is detached takes its tab out and clamps the index,
which is another tab's where the tab was before the selected one.
-/

namespace SlopDesk.Document

open SlopDesk.Base
open SlopDesk.Wire (WireError RawUuid)
open SlopDesk.Tree
open WorkspaceTopology

variable {t t' : WorkspaceTopology} {r : Request} {s : Session} {tab : Tab} {i j : Nat}
variable {id : TabId} {pane : PaneId}

/-! ## The successor of a tab that closes -/

theorem successorAfterClosing_selected {selected : TabId} {projectKey : PaneId → Option String}
    {lower : Char → Char} (hfound : t.tree.sessions.find? (fun s => s.tabs.any fun x => x.id = id) = some s)
    (hselected : s.selectedTab = some selected) (hne : selected ≠ id) :
    t.successorAfterClosing id projectKey lower = some selected := by
  rw [Session.selectedTab] at hselected
  simp [successorAfterClosing, hfound, hselected, Option.filter, hne]

theorem find?_of_locateTab (hloc : locateTab t.tree id = some (i, j)) (hs : t.tree.sessions[i]? = some s) :
    t.tree.sessions.find? (fun s => s.tabs.any fun x => x.id = id) = some s := by
  obtain ⟨pre, found, post, hcut, rfl, hindex, hpre⟩ := Position.of_findMap hloc
  obtain rfl : found = s := by simpa [hcut] using hs
  obtain ⟨before, tab, after, htabs, -, hid, -⟩ := Position.of_findIdx? hindex
  rw [hcut]
  refine List.find?_eq_some_iff_append.mpr ⟨?_, pre, post, rfl, fun x hx => ?_⟩
  · grind
  · grind [Session.tabIndexOf]

theorem tabOfPane_of_locate (hloc : locate t.tree pane = some (i, j))
    (hs : t.tree.sessions[i]? = some s) (ht : s.tabs[j]? = some tab) : t.tabOfPane pane = some tab.id := by
  rw [tabOfPane]
  cases hat : t.tree.locationOf pane with
  | some place =>
    obtain ⟨i', j', s', tab', hloc', hs', ht', -, rfl⟩ := locationOf_spec hat
    obtain ⟨rfl, rfl⟩ := Prod.mk.inj (Option.some.inj (hloc.symm.trans hloc'))
    obtain rfl : s = s' := Option.some.inj (hs.symm.trans hs')
    obtain rfl : tab = tab' := Option.some.inj (ht.symm.trans ht')
    rfl
  | none =>
    obtain ⟨s, tab, hs, ht, hmem⟩ := locate_spec hloc
    have hnone := List.findSome?_eq_none_iff.mp hat s (List.mem_of_getElem? hs)
    rw [Option.map_eq_none_iff, List.find?_eq_none] at hnone
    exact absurd (SplitNode.contains_iff.mpr hmem) (hnone tab (List.mem_of_getElem? ht))

/-! ## Requests -/

/-- A request that takes out, or puts elsewhere, a tab that is not the one
selected. A detached pane's tab is after that one, or that one is the
last. -/
inductive Request.InBackground (t : WorkspaceTopology) (r : Request) : Prop
  | closeTab {id : TabId} (op : r.intent = some .closeTab) (args : decodeIdentity r.args = .ok id)
      (other : ∀ i j s, locateTab t.tree id = some (i, j) → t.tree.sessions[i]? = some s →
        ∃ selected, s.selectedTab = some selected ∧ selected ≠ id)
  | closePane {pane : PaneId} (op : r.intent = some .closePane) (args : decodeIdentity r.args = .ok pane)
      (other : ∀ i j s tab, locate t.tree pane = some (i, j) → t.tree.sessions[i]? = some s →
        s.tabs[j]? = some tab → (∃ selected, s.selectedTab = some selected ∧ selected ≠ tab.id) ∧
          ∀ s' ∈ t.tree.sessions, tab.id ∈ s'.tabIds → s' = s)
  | reorderTabs (op : r.intent = some .reorderTabs)
  | detachPane {pane : PaneId} (op : r.intent = some .detachPane) (args : decodeIdentity r.args = .ok pane)
      (other : ∀ i j s tab, locate t.tree pane = some (i, j) → t.tree.sessions[i]? = some s →
        s.tabs[j]? = some tab → s.Unmissed pane j tab)

/-- A request that moves a pane into another tab of its session. -/
inductive Request.Carries (t : WorkspaceTopology) (i : Nat) (destination : TabId) (r : Request) : Prop
  | movePane {moved : MoveArgs} {j k : Nat} {s : Session} {tab : Tab} (op : r.intent = some .movePane)
      (args : decodeMove r.args = .ok moved) (source : locate t.tree moved.source = some (i, j))
      (target : locate t.tree moved.target = some (i, k)) (across : j ≠ k)
      (session : t.tree.sessions[i]? = some s) (found : s.tabs[k]? = some tab) (named : tab.id = destination)
  | dockPane {dock : DockArgs} {j k : Nat} {s : Session} (op : r.intent = some .dockPaneAtTabEdge)
      (args : decodeDockAtTabEdge r.args = .ok dock) (source : locate t.tree dock.source = some (i, j))
      (session : t.tree.sessions[i]? = some s) (target : s.tabIndexOf dock.tab = some k) (across : j ≠ k)
      (named : dock.tab = destination)

/-! ## Closes and detaches -/

theorem capturing_tree (id : TabId) : (t.capturing id).tree = t.tree := by
  rcases capturing_cases t id with heq | ⟨i, j, s, tab, -, -, -, -, heq⟩ <;> rw [heq]

theorem closeTab_keeps (hop : r.intent = some .closeTab) (hargs : decodeIdentity r.args = .ok id)
    (hother : ∀ i j s, locateTab t.tree id = some (i, j) → t.tree.sessions[i]? = some s →
      ∃ selected, s.selectedTab = some selected ∧ selected ≠ id)
    (h : r.answer t = .applied t') : t.tree.KeepTabs t'.tree := by
  rw [Request.answer, apply, ← Request.intent, hop] at h
  obtain ⟨id', hid', h⟩ := withArgs_applied h
  obtain rfl : id = id' := Outcome.ok.inj (hargs.symm.trans hid')
  split at h
  · cases h
  · obtain ⟨rfl, -⟩ := accept_applied h
    have hsame := capturing_tree (t := t) id
    cases hloc : locateTab t.tree id with
    | none =>
      have hnone : ∀ successor, Tree.closeTab t.tree id successor r.context.ids = t.tree := fun successor => by
        simp [Tree.closeTab, closeTab?, hloc]
      simp only [pruned_tree, withTree, hsame, hnone]
      exact .refl
    | some place =>
      obtain ⟨i, j⟩ := place
      obtain ⟨s, tab, hs, ht, rfl⟩ := locateTab_spec hloc
      obtain ⟨selected, hselected, hne⟩ := hother i j s hloc hs
      have hsuccessor : (t.capturing tab.id).successorAfterClosing tab.id r.context.projectKey
          r.context.lower = some selected :=
        successorAfterClosing_selected (by rw [hsame]; exact find?_of_locateTab hloc hs) hselected hne
      simp only [pruned_tree, withTree, hsame, hsuccessor]
      exact Tree.closeTab_keeps hloc hs ht hselected hne

theorem closePane_keeps (hop : r.intent = some .closePane) (hargs : decodeIdentity r.args = .ok pane)
    (hother : ∀ i j s tab, locate t.tree pane = some (i, j) → t.tree.sessions[i]? = some s →
      s.tabs[j]? = some tab → (∃ selected, s.selectedTab = some selected ∧ selected ≠ tab.id) ∧
        ∀ s' ∈ t.tree.sessions, tab.id ∈ s'.tabIds → s' = s)
    (h : r.answer t = .applied t') : t.tree.KeepTabs t'.tree := by
  rw [Request.answer, apply, ← Request.intent, hop] at h
  obtain ⟨pane', hpane', h⟩ := withArgs_applied h
  obtain rfl : pane = pane' := Outcome.ok.inj (hargs.symm.trans hpane')
  split at h
  · cases h
  · rename_i hpane
    split at h
    · obtain ⟨rfl, -⟩ := accept_applied h
      exact closeDetachedPane_keeps pane
    · rename_i hattached
      obtain ⟨rfl, -⟩ := accept_applied h
      have hcontains : t.tree.contains pane = true := by simpa [hasPane, hattached] using hpane
      obtain ⟨i, j, hloc⟩ := locate_of_contains hcontains
      obtain ⟨s, tab, hs, ht, -⟩ := locate_spec hloc
      obtain ⟨⟨selected, hselected, hne⟩, hown⟩ := hother i j s tab hloc hs ht
      have howning := tabOfPane_of_locate hloc hs ht
      have hfound : t.tree.sessions.find? (fun s => s.tabs.any fun x => x.id = tab.id) = some s := by
        have hholds : ∃ x ∈ t.tree.sessions, (x.tabs.any fun y => y.id = tab.id) = true :=
          ⟨s, List.mem_of_getElem? hs, List.any_eq_true.mpr ⟨tab, List.mem_of_getElem? ht, by simp⟩⟩
        obtain ⟨x, hx⟩ := Option.isSome_iff_exists.mp (List.find?_isSome.mpr hholds)
        obtain ⟨hany, -⟩ := List.find?_eq_some_iff_append.mp hx
        obtain ⟨y, hy, hid⟩ := List.any_eq_true.mp hany
        have hmem : tab.id ∈ x.tabIds := by
          rw [Session.tabIds_eq]
          exact List.mem_map.mpr ⟨y, hy, by simpa using hid⟩
        rw [hx, hown x (List.mem_of_find?_eq_some hx) hmem]
      have hsuccessor : t.successorAfterClosing tab.id r.context.projectKey r.context.lower =
          some selected := successorAfterClosing_selected hfound hselected hne
      have htree : (if t.soleLeaf tab.id = some pane then t.capturing tab.id else t).tree = t.tree := by
        split
        · exact capturing_tree tab.id
        · rfl
      simp only [pruned_tree, withTree, howning, Option.bind_some, hsuccessor]
      rw [htree]
      exact Tree.closePane_keeps hloc hs ht hselected hne

theorem detachPane_keeps (hop : r.intent = some .detachPane) (hargs : decodeIdentity r.args = .ok pane)
    (hother : ∀ i j s tab, locate t.tree pane = some (i, j) → t.tree.sessions[i]? = some s →
      s.tabs[j]? = some tab → s.Unmissed pane j tab)
    (h : r.answer t = .applied t') : t.tree.KeepTabs t'.tree := by
  rw [Request.answer, apply, ← Request.intent, hop] at h
  obtain ⟨pane', hpane', h⟩ := withArgs_applied h
  obtain rfl : pane = pane' := Outcome.ok.inj (hargs.symm.trans hpane')
  split at h
  · cases h
  · obtain ⟨rfl, -⟩ := accept_applied h
    exact Tree.detachPane_keeps hother

/-! ## A new order -/

/-- Where the selected tab is found in the new order, the tabs in that
order have it. -/
theorem reorderTabs_keeps (hop : r.intent = some .reorderTabs) (h : r.answer t = .applied t') :
    t.tree.KeepTabs t'.tree := by
  rw [Request.answer, apply, ← Request.intent, hop] at h
  obtain ⟨⟨session, wanted⟩, -, h⟩ := withArgs_applied h
  simp only at h
  split at h
  · cases h
  · split at h
    · cases h
    · rename_i index _ s hs
      split at h
      · cases h
      · rename_i hperm
        obtain ⟨rfl, -⟩ := accept_applied h
        simp only [Bool.or_eq_true, Bool.not_eq_true', not_or, Bool.not_eq_false, decide_eq_true_eq,
          Decidable.not_not, sameElements_iff] at hperm
        obtain ⟨⟨hin, hall⟩, hlen⟩ := hperm
        refine .setSession hs ⟨rfl, fun id hid => ?_⟩
        have hmem : id ∈ s.tabs.map Tab.id := by
          obtain ⟨tab, htab, hid⟩ := Session.mem_of_selectedTab hid
          exact List.mem_map.mpr ⟨tab, htab, hid⟩
        obtain ⟨k, hk⟩ := Position.exists_findIdx? (p := fun tab : TabId => tab = id) (hall id hmem) (by simp)
        obtain ⟨pre, x, post, hwanted, rfl, hx, -⟩ := Position.of_findIdx? hk
        obtain rfl : x = id := by simpa using hx
        have hids := reordered_ids hin
        rw [Session.selectedTab] at hid ⊢
        rw [← List.getElem?_map]
        simp only [hid, Option.bind_some, hk, Option.getD_some]
        rw [reordered] at hids
        rw [hids, hwanted, Position.getElem?_cut]

/-! ## Moves -/

theorem Request.Carries.selects {destination : TabId} (h : r.Carries t i destination)
    (happlied : r.answer t = .applied t') :
    t'.tree = t.tree ∨ TreeWorkspace.Selects i destination t.tree t'.tree := by
  cases h with
  | movePane op args source target across session found named =>
    rw [Request.answer, apply, ← Request.intent, op] at happlied
    obtain ⟨moved, hmoved, happlied⟩ := withArgs_applied happlied
    obtain rfl := Outcome.ok.inj (args.symm.trans hmoved)
    split at happlied
    · cases happlied
    · split at happlied
      · cases happlied
      · simp only at happlied
        split at happlied
        · cases happlied
        · obtain ⟨rfl, -⟩ := accept_applied happlied
          subst named
          exact moveLeafAcrossTabs_selects source target across session found
  | dockPane op args source session target across named =>
    rw [Request.answer, apply, ← Request.intent, op] at happlied
    obtain ⟨dock, hdock, happlied⟩ := withArgs_applied happlied
    obtain rfl := Outcome.ok.inj (args.symm.trans hdock)
    split at happlied
    · cases happlied
    · simp only at happlied
      split at happlied
      · cases happlied
      · obtain ⟨rfl, -⟩ := accept_applied happlied
        subst named
        exact moveLeafToTabRootEdge_selects source session target across

/-! ## Every request -/

theorem Request.InBackground.keeps (h : r.InBackground t) (happlied : r.answer t = .applied t') :
    t.tree.KeepTabs t'.tree := by
  cases h with
  | closeTab op args other => exact closeTab_keeps op args other happlied
  | closePane op args other => exact closePane_keeps op args other happlied
  | reorderTabs op => exact reorderTabs_keeps op happlied
  | detachPane op args other => exact detachPane_keeps op args other happlied

/-- A tab in the background that closes, takes another place or loses its
pane leaves the selection on its tab; a pane that moves into another tab
takes the selection with it; and a launch leaves it where no tab before it
is lost to the dropped panes. -/
theorem selection_followed (t : WorkspaceTopology) :
    (∀ r : Request, r.InBackground t → t.tree.KeepTabs (settle t r).tree) ∧
    (∀ (r : Request) (i : Nat) (destination : TabId), r.Carries t i destination →
      (settle t r).tree = t.tree ∨ TreeWorkspace.Selects i destination t.tree (settle t r).tree) ∧
    ∀ (i : Nat) (s : Session) (selected : TabId), t.tree.sessions[i]? = some s → s.OutlastsVideo →
      s.selectedTab = some selected →
      (∃ s', t.tree.droppingVideoPanes.sessions[i]? = some s' ∧ s'.id = s.id ∧
        s'.selectedTab = some selected) ∧
      ((t.tree.sessions.map Session.id).Nodup → ∀ ids,
        ∃ s', (redockingDetachedPanes t.tree ids).sessions[i]? = some s' ∧ s'.id = s.id ∧
          s'.selectedTab = some selected) := by
  refine ⟨fun r hbackground => ?_, fun r i destination hcarries => ?_, fun i s selected hs hvideo hselected =>
    ⟨?_, fun hunique ids => redocking_selects hunique hs hvideo hselected⟩⟩
  · rcases settle_cases t r with heq | happlied
    · rw [heq]
      exact .refl
    · exact hbackground.keeps happlied
  · rcases settle_cases t r with heq | happlied
    · exact .inl (by rw [heq])
    · exact hcarries.selects happlied
  · obtain ⟨hid, hkept⟩ := droppingVideoPanes_keeps hvideo
    exact ⟨s.droppingVideoPanes, by simp [TreeWorkspace.droppingVideoPanes, hs], hid, hkept _ hselected⟩

/-- Three tabs of one pane each, the second one selected. -/
def threeTabs : WorkspaceTopology :=
  run settle twoTabs [⟨13, (uniform 1).bytes ++ (uniform 5).bytes ++ [1, 0, 0], minting 12⟩,
    ⟨10, (uniform 4).bytes, minting 13⟩]

/-- The tabs of each session, and the one it has selected. -/
def selections (ws : TreeWorkspace) : List (List TabId × Option TabId) :=
  ws.sessions.map fun s => (s.tabs.map Tab.id, s.selectedTab)

/-- Of three tabs, the first one closes; the pane of the last one moves to
the first; and a launch finds it detached. -/
theorem selection_followed_thrice :
    let closed : Request := ⟨5, (uniform 2).bytes, minting 14⟩
    let moved : Request := ⟨7, (uniform 5).bytes ++ (uniform 3).bytes ++ [0, 0], minting 14⟩
    let detached := settle threeTabs ⟨15, (uniform 5).bytes, minting 14⟩
    threeTabs.tree.KeepTabs (settle threeTabs closed).tree ∧
      TreeWorkspace.Selects 0 (uniform 2) threeTabs.tree (settle threeTabs moved).tree ∧
      ∃ s', (redockingDetachedPanes detached.tree (minting 15).ids).sessions[0]? = some s' ∧
        s'.id = uniform 1 ∧ s'.selectedTab = some (uniform 11) := by
  intro closed moved detached
  refine ⟨?_, ?_, ?_⟩
  · have hselected : ∀ s ∈ threeTabs.tree.sessions, s.selectedTab = some (uniform 11) := by decide +kernel
    have hargs : decodeIdentity closed.args = .ok (uniform 2) := by decide +kernel
    have hbackground : closed.InBackground threeTabs := Request.InBackground.closeTab rfl hargs
      fun i j s _ hs => ⟨uniform 11, hselected s (List.mem_of_getElem? hs), by decide⟩
    exact (selection_followed threeTabs).1 closed hbackground
  · have hargs : decodeMove moved.args = .ok ⟨uniform 5, uniform 3, .horizontal, false⟩ := by decide +kernel
    have hsource : locate threeTabs.tree (uniform 5) = some (0, 2) := by decide +kernel
    have htarget : locate threeTabs.tree (uniform 3) = some (0, 0) := by decide +kernel
    have hfirst : ∀ s ∈ threeTabs.tree.sessions, ∀ tab, s.tabs[0]? = some tab → tab.id = uniform 2 := by
      have hids : ∀ s ∈ threeTabs.tree.sessions, s.tabs[0]?.map Tab.id = some (uniform 2) := by decide +kernel
      intro s hs tab ht
      have hid := hids s hs
      rw [ht] at hid
      exact Option.some.inj hid
    obtain ⟨s, tab, hs, ht, -⟩ := locate_spec htarget
    have hcarries : moved.Carries threeTabs 0 (uniform 2) := Request.Carries.movePane rfl hargs hsource
      htarget (by decide) hs ht (hfirst s (List.mem_of_getElem? hs) tab ht)
    rcases (selection_followed threeTabs).2.1 moved 0 (uniform 2) hcarries with hsame | hselects
    · have hchanged : selections (settle threeTabs moved).tree ≠ selections threeTabs.tree := by decide +kernel
      exact absurd (congrArg selections hsame) hchanged
    · exact hselects
  · have hfound : locate detached.tree (uniform 3) = some (0, 0) := by decide +kernel
    obtain ⟨s, tab, hs, -, -⟩ := locate_spec hfound
    have hshown : ∀ s ∈ detached.tree.sessions, s.id = uniform 1 ∧ s.selectedTab = some (uniform 11) ∧
        ∀ tab ∈ s.tabs, ∃ p ∈ tab.allPaneIds, p ∉ s.videoPanes := by decide +kernel
    obtain ⟨hid, hselected, hpanes⟩ := hshown s (List.mem_of_getElem? hs)
    have hlaunched := ((selection_followed detached).2.2 0 s (uniform 11) hs
      (fun j _ tab ht => hpanes tab (List.mem_of_getElem? ht)) hselected).2 (by decide +kernel)
    rw [hid] at hlaunched
    exact hlaunched (minting 15).ids

/-- The only pane of the first of three tabs, moved to the last one or
detached, leaves the last one selected in the place of the second. -/
theorem selection_shifted :
    selections threeTabs.tree = [([uniform 2, uniform 11, uniform 12], some (uniform 11))] ∧
      selections (settle threeTabs ⟨7, (uniform 3).bytes ++ (uniform 5).bytes ++ [0, 0], minting 14⟩).tree =
        [([uniform 11, uniform 12], some (uniform 12))] ∧
      selections (settle threeTabs ⟨15, (uniform 3).bytes, minting 14⟩).tree =
        [([uniform 11, uniform 12], some (uniform 12))] := by
  decide +kernel

end SlopDesk.Document

/-! # A tab that is closed and reopened
(`close_tab` and `reopen_closed_tab` in `slopdesk-wire/src/document/apply.rs`).

A close files the tab on the ring before the tree loses it, and prunes what
nothing names any more; a reopen takes the newest record and puts the tab
back. What the record holds is found again by identity: the session it was
in, and that no open tab has its id, which would take the record off the
ring. So it is the identity for a tab that is the only one of its id, in a
session that is the only one of its own.

  §1 Topologies at rest — which is what a document is read as.
  §2 The close.
  §3 The reopen.
-/

namespace SlopDesk.Document

open SlopDesk.Base
open SlopDesk.Wire (RawUuid)
open SlopDesk.Tree
open WorkspaceTopology

variable {t : WorkspaceTopology} {state : HostWorkspaceState} {s s' : Session} {tab : Tab}
  {target : TabId} {i j : Nat}

/-! ## §1 Topologies at rest -/

/-- Sessions the repairs leave as they are, and open tabs within the depth
cap. -/
structure WorkspaceTopology.Resting (t : WorkspaceTopology) : Prop where
  sessions : ∀ s ∈ t.tree.sessions, s.Resting
  depth : ∀ tab ∈ t.tree.tabs, tab.root.depth ≤ maxDepth

/-! ## §2 The close -/

theorem accept_of (h : Accepted t) : accept t = .applied t := by
  have hdepth : ¬ t.tree.tabs.any (fun tab => tab.root.depth > maxDepth) = true := by
    simpa using h.depth
  rw [accept, h.specs, if_neg hdepth]
  rfl

theorem capturing_eq (hloc : locateTab t.tree target = some (i, j)) (hs : t.tree.sessions[i]? = some s)
    (ht : s.tabs[j]? = some tab) :
    t.capturing target = { t with
      closedTabs := (t.closedTabs ++ [closedRecord s tab]).drop
        ((t.closedTabs ++ [closedRecord s tab]).length - closedTabRingCap) } := by
  have hindex : s.tabIndexOf target = some j := by
    obtain ⟨pre, found, post, hcut, rfl, hindex, -⟩ := Position.of_findMap hloc
    obtain rfl : found = s := by simpa [hcut] using hs
    exact hindex
  obtain ⟨before, found, after, htabs, rfl, hid, hbefore⟩ := Position.of_findIdx? hindex
  obtain rfl : found = tab := by simpa [htabs] using ht
  have hfind : s.tabs.find? (fun candidate => candidate.id = target) = some found :=
    List.find?_eq_some_iff_append.mpr ⟨hid, before, after, htabs, fun y hy => by simp [hbefore y hy]⟩
  rw [capturing, find?_of_locateTab hloc hs]
  simp only [hfind]

theorem lookup_closedRecord (s : Session) {p : PaneId} (hp : p ∈ tab.allPaneIds) :
    (closedRecord s tab).specs[p]? = s.specs[p]? := by
  rw [closedRecord, lookup_insertSpecs, if_pos hp]
  simp

theorem ring_captured (closed : List ClosedTab) (record : ClosedTab) (live : List TabId)
    (hrecord : record.tab.id ∉ live) :
    ∃ older, ((closed ++ [record]).drop ((closed ++ [record]).length - closedTabRingCap)).filter
      (fun closed => !live.contains closed.tab.id) = older ++ [record] := by
  have hlen : (closed ++ [record]).length - closedTabRingCap ≤ closed.length := by
    simp [closedTabRingCap]
  rw [List.drop_append_of_le_length hlen, List.filter_append]
  simp [hrecord]

/-- A tab of the tree, by where it is located, and that there is one such
session and one such tab. -/
structure WorkspaceTopology.Sole (t : WorkspaceTopology) (i j : Nat) (s : Session) (tab : Tab) : Prop where
  located : locateTab t.tree tab.id = some (i, j)
  session : t.tree.sessions[i]? = some s
  found : s.tabs[j]? = some tab
  tabOnce : t.tree.tabIds.count tab.id = 1
  sessionOnce : (t.tree.sessions.map Session.id).count s.id = 1

/-- A tree with the tab taken out. -/
structure Vacated (t : WorkspaceTopology) (i j : Nat) (s : Session) (tab : Tab) (s' : Session)
    (tree : TreeWorkspace) : Prop where
  without : s.Without j tab s'
  sessions : tree.sessions = t.tree.sessions.set i s'
  specs : tree.invariantHolds = true

theorem closeTab_vacated (successor : Option TabId) (ids : IdSource) (hrest : t.Resting)
    (hsole : t.Sole i j s tab) (hkeeps : 2 ≤ s.tabs.length) :
    ∃ s', Vacated t i j s tab s' (Tree.closeTab t.tree tab.id successor ids) := by
  obtain ⟨s', hwithout, hsessions⟩ := closeTab_sessions successor ids
    hrest.sessions hsole.located hsole.session hsole.found hkeeps
  refine ⟨s', hwithout, hsessions, ?_⟩
  simp only [Tree.closeTab, closeTab?, hsole.located, hsole.session, hsole.found, Option.bind_eq_bind,
    Option.bind_some, Option.pure_def, Option.getD_some]
  exact normalized_invariantHolds _ _

variable {tree : TreeWorkspace}

/-- The tabs of a tree the tab was taken out of are tabs it had, and none
has the id. -/
theorem Vacated.tabs (h : Vacated t i j s tab s' tree) (hsole : t.Sole i j s tab) :
    tree.tabs ⊆ t.tree.tabs ∧ tab.id ∉ tree.tabs.map Tab.id := by
  have hs := List.mem_of_getElem? hsole.session
  constructor
  · intro x hx
    obtain ⟨y, hy, hmem⟩ := TreeWorkspace.mem_tabs.mp hx
    rw [h.sessions] at hy
    rcases List.mem_or_eq_of_mem_set hy with hold | rfl
    · exact TreeWorkspace.mem_tabs.mpr ⟨y, hold, hmem⟩
    · rw [h.without.tabs] at hmem
      exact TreeWorkspace.mem_tabs.mpr ⟨s, hs, List.mem_of_mem_eraseIdx hmem⟩
  · have hset := Position.count_set Session.tabIds tab.id (y := s') hsole.session
    have herase := Position.count_eraseIdx (fun tab : Tab => [tab.id]) tab.id hsole.found
    have hids : s'.tabIds = (s.tabs.eraseIdx j).flatMap fun tab => [tab.id] := by
      rw [Session.tabIds, h.without.tabs]
    have honce := hsole.tabOnce
    rw [← TreeWorkspace.tabIds_eq, ← List.count_eq_zero]
    simp only [TreeWorkspace.tabIds, h.sessions] at honce ⊢
    rw [hids] at hset
    simp only [Session.tabIds] at hset honce ⊢
    simp only [List.count_singleton_self] at herase
    omega

/-- The topology a close leaves. -/
structure Closed (t : WorkspaceTopology) (i j : Nat) (s : Session) (tab : Tab) (s' : Session)
    (closed : WorkspaceTopology) : Prop where
  vacated : Vacated t i j s tab s' closed.tree
  ring : ∃ older, closed.closedTabs = older ++ [closedRecord s tab]
  spawnCwd : ∀ x ∈ t.tree.sessions, ∀ p ∈ x.specs, closed.spawnCwd[p]? = t.spawnCwd[p]?

/-- The panes a close keeps the start directories of: those of the sessions,
and those of the record. -/
theorem Vacated.live (h : Vacated t i j s tab s' tree) (hsole : t.Sole i j s tab) {x : Session}
    (hx : x ∈ t.tree.sessions) {p : PaneId} (hp : p ∈ x.specs) :
    p ∈ tree.sessions.flatMap (fun s => s.specs.keys) ∨ p ∈ (closedRecord s tab).specs := by
  rw [h.sessions]
  obtain ⟨k, hk⟩ := List.mem_iff_getElem?.mp hx
  by_cases hik : i = k
  · subst hik
    obtain rfl : s = x := Option.some.inj (hsole.session.symm.trans hk)
    by_cases htaken : p ∈ tab.allPaneIds
    · grind [Std.ExtTreeMap.mem_iff_isSome_getElem?, lookup_closedRecord, Std.ExtTreeMap.mem_iff_isSome_getElem?]
    · refine .inl (List.mem_flatMap.mpr ⟨s', List.mem_iff_getElem?.mpr ⟨i, ?_⟩, ?_⟩)
      · grind
      · grind [Std.ExtTreeMap.mem_keys, Std.ExtTreeMap.mem_iff_isSome_getElem?, h.without.specs, Std.ExtTreeMap.mem_iff_isSome_getElem?]
  · refine .inl (List.mem_flatMap.mpr ⟨x, List.mem_iff_getElem?.mpr ⟨k, ?_⟩, ?_⟩)
    · rw [List.getElem?_set_ne hik, hk]
    · exact Std.ExtTreeMap.mem_keys.mpr hp

/-- A tab that closes is filed with its session, its panes' specs and where
their shells were started. -/
theorem closeTab_closed {args : List UInt8} (ids : IdSource) (projectKey : PaneId → Option String)
    (lower : Char → Char) (hrest : t.Resting) (hsole : t.Sole i j s tab) (hkeeps : 2 ≤ s.tabs.length)
    (hargs : decodeIdentity args = .ok tab.id) :
    ∃ s' closed, closeTab args t ids projectKey lower = .applied closed ∧
      Closed t i j s tab s' closed := by
  obtain ⟨s', hvacated⟩ := closeTab_vacated
    ((t.capturing tab.id).successorAfterClosing tab.id projectKey lower) ids hrest hsole hkeeps
  generalize htree : Tree.closeTab t.tree tab.id
    ((t.capturing tab.id).successorAfterClosing tab.id projectKey lower) ids = tree at hvacated
  obtain ⟨hsubset, hgone⟩ := hvacated.tabs hsole
  obtain ⟨older, hring⟩ := ring_captured t.closedTabs (closedRecord s tab) _ hgone
  let filed : WorkspaceTopology := { t with
    tree := tree
    closedTabs := (t.closedTabs ++ [closedRecord s tab]).drop
      ((t.closedTabs ++ [closedRecord s tab]).length - closedTabRingCap) }
  have hclose : closeTab args t ids projectKey lower = accept filed.pruned := by
    have hhas : t.hasTab tab.id = true := by
      rw [hasTab, List.any_eq_true]
      refine ⟨s, List.mem_of_getElem? hsole.session, ?_⟩
      rw [List.any_eq_true]
      exact ⟨tab, List.mem_of_getElem? hsole.found, decide_eq_true rfl⟩
    rw [closeTab, hargs]
    simp only [withArgs, hhas, Bool.not_true, if_neg Bool.false_ne_true, capturing_tree, htree]
    rw [capturing_eq hsole.located hsole.session hsole.found]
    rfl
  have haccepted : Accepted filed.pruned := ⟨hvacated.specs, fun x hx => hrest.depth x (hsubset hx)⟩
  refine ⟨s', filed.pruned, by rw [hclose, accept_of haccepted], hvacated, ⟨older, hring⟩,
    fun x hx p hp => ?_⟩
  have hrecord : closedRecord s tab ∈ filed.closedTabs := by
    have hlast : closedRecord s tab ∈ older ++ [closedRecord s tab] := by simp
    rw [← hring] at hlast
    exact (List.mem_filter.mp hlast).1
  have hlive : p ∈ filed.tree.sessions.flatMap (fun s => s.specs.keys) ++
      filed.closedTabs.flatMap fun closed => closed.specs.keys := by
    rcases hvacated.live hsole hx hp with hopen | hclosed
    · exact List.mem_append_left _ hopen
    · exact List.mem_append_right _ (List.mem_flatMap.mpr ⟨_, hrecord, Std.ExtTreeMap.mem_keys.mpr hclosed⟩)
  rw [pruned, Std.ExtTreeMap.getElem?_filter']
  have hcontains := List.contains_iff_mem.mpr hlive
  simp only [hcontains]
  cases t.spawnCwd[p]? <;> rfl

/-! ## §3 The reopen -/

@[simp] theorem notingFocus_spawnCwd (t : WorkspaceTopology) (tab : TabId) :
    (t.notingFocus tab).spawnCwd = t.spawnCwd := by
  unfold notingFocus
  split <;> rfl

theorem insertTab_vacated (h : Vacated t i j s tab s' tree) (hrest : t.Resting)
    (hsole : t.Sole i j s tab) {specs : BTreeMap PaneId PaneSpec}
    (hspecs : ∀ p ∈ tab.allPaneIds, specs[p]? = s.specs[p]?) (position : NewTabPosition) :
    (selectSession tree s.id).activeSessionIndex = some i ∧
      insertTab (selectSession tree s.id) tab specs position =
        ⟨t.tree.sessions.set i { s with
          tabs := (s.tabs.eraseIdx j).insertIdx (s'.newTabIndex position) tab
          activeTabIndex := s'.newTabIndex position }, some s.id⟩ := by
  obtain ⟨pre, post, hcut, rfl⟩ := Position.of_getElem? hsole.session
  have hsessions : tree.sessions = pre ++ s' :: post := by
    rw [h.sessions, hcut, Position.set_cut]
  have hselect : selectSession tree s.id = ⟨pre ++ s' :: post, some s.id⟩ := by
    have hany : (tree.sessions.any fun x => x.id = s.id) = true := by
      rw [hsessions, List.any_eq_true]
      exact ⟨s', by simp, decide_eq_true h.without.id⟩
    rw [selectSession, if_pos hany, hsessions]
  have hpre : ∀ x ∈ pre, x.id ≠ s.id := by
    intro x hx heq
    have honce := hsole.sessionOnce
    have hone : 0 < (pre.map Session.id).count s.id :=
      List.count_pos_iff.mpr (List.mem_map.mpr ⟨x, hx, heq⟩)
    rw [hcut, List.map_append, List.map_cons, List.count_append, List.count_cons_self] at honce
    omega
  have hindex : (selectSession tree s.id).activeSessionIndex = some pre.length := by
    rw [hselect, TreeWorkspace.activeSessionIndex]
    simp only [TreeWorkspace.sessionIndexOf]
    rw [Position.findIdx?_cut (fun x hx => by simpa using hpre x hx) (by simpa using h.without.id),
      Option.some_or]
  have hrested : ∀ l : List Session, (∀ x ∈ l, x ∈ t.tree.sessions) →
      l.map Session.normalizingSpecs = l := fun l hl =>
    (List.map_congr_left fun x hx => normalizingSpecs_eq (hrest.sessions x (hl x hx)).toTabulated
      fun _ _ => rfl).trans (List.map_id _)
  have hs : s ∈ t.tree.sessions := List.mem_of_getElem? hsole.session
  refine ⟨hindex, ?_⟩
  rw [insertTab, hindex]
  have hreceived := h.without.received (hrest.sessions s hs) hsole.found hspecs position
  rw [Session.received] at hreceived
  simp only [hselect, editingSession, TreeWorkspace.normalizingSpecs, TreeWorkspace.setSession,
    Position.getElem?_cut, Position.set_cut, Option.bind_eq_bind, Option.bind_some, Option.pure_def,
    Option.getD_some, List.map_append, List.map_cons, hreceived, hcut,
    hrested pre fun x hx => by simp [hcut, hx], hrested post fun x hx => by simp [hcut, hx]]

/-- What a session is once its tab is back, at this index. -/
def restoredSession (s : Session) (j : Nat) (tab : Tab) (k : Nat) : Session :=
  { s with tabs := (s.tabs.eraseIdx j).insertIdx k tab, activeTabIndex := k }

theorem restored_accepted {k : Nat} (hrest : t.Resting) (hsole : t.Sole i j s tab)
    (hspecs : (restoredSession s j tab k).specsMatch = true) {reopened : WorkspaceTopology}
    (htree : reopened.tree = ⟨t.tree.sessions.set i (restoredSession s j tab k), some s.id⟩) :
    Accepted reopened := by
  have hs : s ∈ t.tree.sessions := List.mem_of_getElem? hsole.session
  constructor
  · rw [htree, TreeWorkspace.invariantHolds, List.all_eq_true]
    intro x hx
    rcases List.mem_or_eq_of_mem_set hx with hold | rfl
    · exact x.specsMatch_iff.mpr (hrest.sessions x hold).specified
    · exact hspecs
  · intro x hx
    refine hrest.depth x ?_
    obtain ⟨y, hy, hmem⟩ := TreeWorkspace.mem_tabs.mp hx
    rw [htree] at hy
    rcases List.mem_or_eq_of_mem_set hy with hold | rfl
    · exact TreeWorkspace.mem_tabs.mpr ⟨y, hold, hmem⟩
    · refine TreeWorkspace.mem_tabs.mpr ⟨s, hs, ?_⟩
      rcases List.eq_or_mem_of_mem_insertIdx hmem with rfl | hin
      · exact List.mem_of_getElem? hsole.found
      · exact List.mem_of_mem_eraseIdx hin

theorem reopenClosedTab_closed {args : List UInt8} {position : NewTabPosition}
    {closed : WorkspaceTopology} (h : Closed t i j s tab s' closed) (hrest : t.Resting)
    (hsole : t.Sole i j s tab) (hargs : decodeReopenClosedTab args = .ok (0, position)) :
    ∃ reopened, reopenClosedTab args closed = .applied reopened ∧
      reopened.tree = ⟨t.tree.sessions.set i (restoredSession s j tab (s'.newTabIndex position)),
        some s.id⟩ ∧
      reopened.spawnCwd = closed.spawnCwd := by
  obtain ⟨older, hring⟩ := h.ring
  obtain ⟨hindex, hinsert⟩ := insertTab_vacated h.vacated hrest hsole
    (fun p hp => lookup_closedRecord s hp) position
  have hlen : closed.closedTabs.length - ((0 : UInt16).toNat + 1) = older.length := by simp [hring]
  have hnonempty : ¬ closed.closedTabs.length < (0 : UInt16).toNat + 1 := by simp [hring]
  have hnewest : closed.closedTabs[older.length]? = some (closedRecord s tab) := by simp [hring]
  have hreceived := h.vacated.without.received (hrest.sessions s (List.mem_of_getElem? hsole.session))
    hsole.found (fun p hp => lookup_closedRecord s hp) position
  have hmatch : (restoredSession s j tab (s'.newTabIndex position)).specsMatch = true := by
    rw [restoredSession, ← hreceived]
    exact normalizingSpecs_specsMatch _
  let reopened : WorkspaceTopology := ({ closed with
    tree := insertTab (selectSession closed.tree s.id) tab (closedRecord s tab).specs position
    closedTabs := closed.closedTabs.eraseIdx older.length } : WorkspaceTopology).notingFocus tab.id
  have htree : reopened.tree =
      ⟨t.tree.sessions.set i (restoredSession s j tab (s'.newTabIndex position)), some s.id⟩ := by
    rw [notingFocus_tree]
    exact hinsert
  have hlanded : ((insertTab (selectSession closed.tree s.id) tab (closedRecord s tab).specs
      position).sessions[i]?.any fun s => s.tabs.any fun x => x.id = tab.id) = true := by
    obtain ⟨hi, -⟩ := List.getElem?_eq_some_iff.mp hsole.session
    have hmem : tab ∈ (s.tabs.eraseIdx j).insertIdx (s'.newTabIndex position) tab := by
      refine (List.mem_insertIdx ?_).mpr (.inl rfl)
      rw [← h.vacated.without.tabs]
      exact newTabIndex_le s' position
    rw [hinsert, List.getElem?_set_self hi, Option.any_some, List.any_eq_true]
    exact ⟨tab, hmem, decide_eq_true rfl⟩
  refine ⟨reopened, ?_, htree, notingFocus_spawnCwd _ _⟩
  have haccept : accept reopened = .applied reopened :=
    accept_of (restored_accepted hrest hsole hmatch htree)
  rw [reopenClosedTab, hargs]
  simp only [withArgs, if_neg hnonempty, hlen, hnewest]
  split
  case h_1 hnone =>
    have hsome := hindex.symm.trans hnone
    contradiction
  rename_i index hsome
  cases hindex.symm.trans hsome
  change (if !((insertTab (selectSession closed.tree s.id) tab (closedRecord s tab).specs
      position).sessions[i]?.any fun s => s.tabs.any fun x => x.id = tab.id) then _ else _) = _
  rw [hlanded]
  exact haccept

/-- A tab that closes in a session that keeps another one, and the reopen of
the newest record: both are taken; the tab is back as it was, with its tree,
its focus and its zoom, and the one selected; its session has the specs, the
detached panes and the other tabs it had, and every other session is as it
was; and every pane keeps where its shell was started. -/
theorem reopen_restores {closing reopening : List UInt8} {position : NewTabPosition} (ids : IdSource)
    (projectKey : PaneId → Option String) (lower : Char → Char) (hrest : t.Resting)
    (hsole : t.Sole i j s tab) (hkeeps : 2 ≤ s.tabs.length)
    (hclosing : decodeIdentity closing = .ok tab.id)
    (hreopening : decodeReopenClosedTab reopening = .ok (0, position)) :
    ∃ closed reopened, closeTab closing t ids projectKey lower = .applied closed ∧
      reopenClosedTab reopening closed = .applied reopened ∧
      (∃ k < s.tabs.length, reopened.tree =
        ⟨t.tree.sessions.set i { s with
          tabs := (s.tabs.eraseIdx j).insertIdx k tab
          activeTabIndex := k }, some s.id⟩) ∧
      ∀ x ∈ t.tree.sessions, ∀ p ∈ x.specs, reopened.spawnCwd[p]? = t.spawnCwd[p]? := by
  obtain ⟨s', closed, hclose, hclosed⟩ := closeTab_closed ids projectKey lower hrest hsole
    hkeeps hclosing
  obtain ⟨reopened, hreopen, htree, hcwd⟩ := reopenClosedTab_closed hclosed hrest hsole hreopening
  refine ⟨closed, reopened, hclose, hreopen, ⟨s'.newTabIndex position, ?_, htree⟩, fun x hx p hp => ?_⟩
  · have hle := newTabIndex_le s' position
    obtain ⟨hj, -⟩ := List.getElem?_eq_some_iff.mp hsole.found
    rw [hclosed.vacated.without.tabs, List.length_eraseIdx_of_lt hj] at hle
    omega
  · rw [hcwd]
    exact hclosed.spawnCwd x hx p hp

/-- The first of three tabs. -/
theorem reopen_restores_first :
    ∃ s tab closed reopened, threeTabs.tree.sessions = [s] ∧ s.tabs[0]? = some tab ∧ tab.id = uniform 2 ∧
      closeTab (uniform 2).bytes threeTabs (minting 14).ids (fun _ => none) id = .applied closed ∧
      reopenClosedTab [0, 0, 1] closed = .applied reopened ∧
      ∃ k < 3, reopened.tree = ⟨[{ s with
        tabs := (s.tabs.eraseIdx 0).insertIdx k tab, activeTabIndex := k }], some s.id⟩ := by
  have hlocated : locateTab threeTabs.tree (uniform 2) = some (0, 0) := by decide +kernel
  obtain ⟨s, tab, hs, ht, hid⟩ := locateTab_spec hlocated
  have hone : threeTabs.tree.sessions.length = 1 := by decide +kernel
  obtain ⟨only, honly⟩ := List.length_eq_one_iff.mp hone
  obtain rfl : only = s := by simpa [honly] using hs
  have hrest : threeTabs.Resting := by
    refine ⟨fun x hx => ?_, by decide +kernel⟩
    have hall : ∀ x ∈ threeTabs.tree.sessions, x.specsMatch = true ∧ x.detachedIds.Nodup ∧
        (∀ p ∈ x.detachedIds, p ∉ x.allPaneIds) ∧ x.activeTabIndex < x.tabs.length ∧
        ∀ tab ∈ x.tabs, tab.reselected = tab := by decide +kernel
    obtain ⟨hspecs, hdetached, hapart, hindexed, hselected⟩ := hall x hx
    exact { specified := x.specsMatch_iff.mp hspecs
            detached := hdetached
            apart := hapart
            indexed := hindexed
            selected := hselected }
  have hlen : ∀ x ∈ threeTabs.tree.sessions, x.tabs.length = 3 ∧ x.id = uniform 1 := by decide +kernel
  obtain ⟨hthree, hsession⟩ := hlen only (by simp [honly])
  have hsole : threeTabs.Sole 0 0 only tab :=
    { located := hid ▸ hlocated
      session := hs
      found := ht
      tabOnce := hid ▸ (by decide +kernel : threeTabs.tree.tabIds.count (uniform 2) = 1)
      sessionOnce := hsession ▸
        (by decide +kernel : (threeTabs.tree.sessions.map Session.id).count (uniform 1) = 1) }
  have hclosing : decodeIdentity (uniform 2).bytes = .ok tab.id :=
    hid ▸ (by decide +kernel : decodeIdentity (uniform 2).bytes = .ok (uniform 2))
  have hreopening : decodeReopenClosedTab [0, 0, 1] = .ok (0, .atEnd) := by decide +kernel
  obtain ⟨closed, reopened, hclose, hreopen, ⟨k, hk, htree⟩, -⟩ := reopen_restores (minting 14).ids
    (fun _ => none) id hrest hsole (hthree ▸ by decide) hclosing hreopening
  rw [hthree] at hk
  rw [honly, List.set_cons_zero] at htree
  exact ⟨only, tab, closed, reopened, honly, ht, hid, hclose, hreopen, k, hk, htree⟩

/-- A document that lists one tab in two sessions, the first of which has
another one. -/
def listedTwice : HostWorkspaceState :=
  let first := Session.singlePane (uniform 1) "" (uniform 2) (uniform 3) .seeded
  let second := Session.singlePane (uniform 6) "" (uniform 2) (uniform 3) .seeded
  let other := Tab.new (uniform 4) (.leaf (uniform 5))
  let topology : WorkspaceTopology :=
    { tree := ⟨[{ first with
        tabs := first.tabs ++ [other]
        specs := first.specs.insert (uniform 5) .seeded }, second], some (uniform 1)⟩ }
  .fromEntries topology.entries

/-- The tabs of each session of a topology. -/
def tabLists (t : WorkspaceTopology) : List (List TabId) := t.tree.sessions.map fun s => s.tabs.map Tab.id

/-- A tab of an id that is open twice: its record does not outlast the close,
and the reopen puts nothing back. -/
theorem reopen_of_twin :
    ((fromDocument listedTwice).map fun t => tabLists t) = some [[uniform 2, uniform 4], [uniform 2]] ∧
      (((fromDocument listedTwice).bind fun t =>
          (closeTab (uniform 2).bytes t (minting 14).ids (fun _ => none) id).topology).bind fun closed =>
        (reopenClosedTab [0, 0, 1] closed).topology.map fun reopened => tabLists reopened) =
        some [[uniform 4], [uniform 2]] := by
  decide +kernel

end SlopDesk.Document
