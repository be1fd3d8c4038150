/-
SlopDesk.Tree.Selections — the tab a session has selected, and what an
operation leaves of it.

The selection is an index into the tabs, so that it is another tab's once
one before it is gone. `KeepsTab` says of a session and what an operation
makes of it that the tab is the same one, by its id.

  §1 Keeping            — session by session.
  §2 Repairs            — `normalized` keeps what is selected.
  §3 Removals           — closes, by their successor, and detaches.
  §4 Moves              — select where they land.
  §5 The launch restore — puts back what it found.
-/
import SlopDesk.Tree.TreeOpsTheorems

namespace SlopDesk.Tree

open SlopDesk.Base

variable {ws ws' : TreeWorkspace} {s s' : Session} {tab : Tab} {id : TabId} {i j : Nat} {ids : IdSource}
variable {pane : PaneId}

/-! ## §1 Keeping -/

namespace Session

/-- The tab a session has selected, by its id. -/
def selectedTab (s : Session) : Option TabId := s.tabs[s.activeTabIndex]?.map Tab.id

/-- The same session, and the tab it had selected. -/
structure KeepsTab (s s' : Session) : Prop where
  id : s'.id = s.id
  selected : ∀ tab, s.selectedTab = some tab → s'.selectedTab = some tab

theorem KeepsTab.refl : s.KeepsTab s := ⟨rfl, fun _ h => h⟩

theorem KeepsTab.trans {s'' : Session} (h : s.KeepsTab s') (h' : s'.KeepsTab s'') : s.KeepsTab s'' :=
  ⟨h'.id.trans h.id, fun tab htab => h'.selected tab (h.selected tab htab)⟩

theorem mem_of_selectedTab (h : s.selectedTab = some id) : ∃ tab ∈ s.tabs, tab.id = id := by
  obtain ⟨tab, htab, rfl⟩ := Option.map_eq_some_iff.mp h
  exact ⟨tab, List.mem_of_getElem? htab, rfl⟩

/-- A session whose tabs have the ids they had, as far as the one that is
selected. -/
theorem KeepsTab.of_ids (hid : s'.id = s.id) (hindex : s'.activeTabIndex = s.activeTabIndex)
    (hids : s.tabs.map Tab.id <+: s'.tabs.map Tab.id) : s.KeepsTab s' := by
  refine ⟨hid, fun tab htab => ?_⟩
  obtain ⟨more, hmore⟩ := hids
  rw [selectedTab, ← List.getElem?_map] at htab ⊢
  obtain ⟨hlt, -⟩ := List.getElem?_eq_some_iff.mp htab
  rw [hindex, ← hmore, List.getElem?_append_left hlt, htab]

theorem setTab_ids (tab' : Tab) (ht : s.tabs[j]? = some tab) (hid : tab'.id = tab.id) :
    (s.setTab j tab').tabs.map Tab.id = s.tabs.map Tab.id := by
  obtain ⟨pre, post, hcut, rfl⟩ := Position.of_getElem? ht
  simp [setTab, hcut, hid]

theorem KeepsTab.setTab (tab' : Tab) (ht : s.tabs[j]? = some tab) (hid : tab'.id = tab.id) :
    s.KeepsTab (s.setTab j tab') := .of_ids rfl rfl (setTab_ids tab' ht hid ▸ List.prefix_rfl)

end Session

/-- Every session is where it was, with the tab it had selected. -/
def TreeWorkspace.KeepTabs (ws ws' : TreeWorkspace) : Prop :=
  ∀ (i : Nat) (s : Session), ws.sessions[i]? = some s →
    ∃ s' : Session, ws'.sessions[i]? = some s' ∧ s.KeepsTab s'

namespace TreeWorkspace

theorem KeepTabs.refl : ws.KeepTabs ws := fun _ s hs => ⟨s, hs, .refl⟩

theorem KeepTabs.trans {last : TreeWorkspace} (h : ws.KeepTabs ws') (h' : ws'.KeepTabs last) :
    ws.KeepTabs last := fun i s hs => by
  obtain ⟨s', hs', hkeeps⟩ := h i s hs
  obtain ⟨s'', hs'', hkeeps'⟩ := h' i s' hs'
  exact ⟨s'', hs'', hkeeps.trans hkeeps'⟩

theorem KeepTabs.setSession (hs : ws.sessions[i]? = some s) (h : s.KeepsTab s') :
    ws.KeepTabs (ws.setSession i s') := fun k x hx => by
  obtain ⟨hi, -⟩ := List.getElem?_eq_some_iff.mp hs
  by_cases hk : i = k
  · subst hk
    obtain rfl : s = x := Option.some.inj (hs.symm.trans hx)
    exact ⟨s', by simp [TreeWorkspace.setSession, hi], h⟩
  · exact ⟨x, by rw [TreeWorkspace.setSession, List.getElem?_set_ne hk, hx], .refl⟩

theorem KeepTabs.map {f : Session → Session} (hsessions : ws'.sessions = ws.sessions.map f)
    (h : ∀ s : Session, s.KeepsTab (f s)) : ws.KeepTabs ws' := fun i s hs =>
  ⟨f s, by rw [hsessions, List.getElem?_map, hs]; rfl, h s⟩

end TreeWorkspace

/-! ## §2 Repairs -/

theorem Session.reselected_keeps (s : Session) : s.KeepsTab s.reselected := by
  refine ⟨rfl, fun tab htab => ?_⟩
  obtain ⟨found, hfound, rfl⟩ := Option.map_eq_some_iff.mp htab
  obtain ⟨hlt, -⟩ := List.getElem?_eq_some_iff.mp hfound
  have hindex : s.reselected.activeTabIndex = s.activeTabIndex := if_neg (by omega)
  rw [selectedTab, hindex]
  simp [Session.reselected, hfound, Tab.reselected]

theorem Session.seeded_keeps (s : Session) (ids : IdSource) : s.KeepsTab (s.seeded ids).1 := by
  rcases seeded_cases s ids with ⟨-, heq⟩ | ⟨hnil, heq⟩
  · rw [heq]
    exact .refl
  · rw [heq]
    refine ⟨rfl, fun tab htab => ?_⟩
    simp [selectedTab, hnil] at htab

theorem normalizedSessions_keeps (sessions : List Session) (ids : IdSource) (i : Nat)
    (hs : sessions[i]? = some s) :
    ∃ s', (TreeWorkspace.normalizedSessions sessions ids).1[i]? = some s' ∧ s.KeepsTab s' := by
  induction sessions generalizing i ids with
  | nil => cases hs
  | cons head rest ih =>
    cases i with
    | zero =>
      obtain rfl : head = s := by simpa using hs
      exact ⟨_, rfl, (head.seeded_keeps ids).trans (Session.reselected_keeps _)⟩
    | succ i => exact ih _ i (by simpa using hs)

theorem normalizingSpecs_keeps (ws : TreeWorkspace) : ws.KeepTabs ws.normalizingSpecs :=
  .map rfl fun _ => ⟨rfl, fun _ h => h⟩

theorem normalized_keeps (ws : TreeWorkspace) (ids : IdSource) : ws.KeepTabs (ws.normalized ids).1 := by
  refine (normalizingSpecs_keeps ws).trans fun i s hs => ?_
  rw [TreeWorkspace.normalized, TreeWorkspace.normalizingActive]
  split
  · grind
  · exact normalizedSessions_keeps _ ids i hs

/-! ## §3 Removals -/

theorem cascade_selects (s' : Session) (removed : Nat) (ids : IdSource) (hs : ws.sessions[i]? = some s)
    (hid : ∃ tab ∈ s'.tabs, tab.id = id) :
    ∃ s'', cascadeAfterTabRemoval (ws.setSession i s') i removed (some id) ids =
      (ws.setSession i s'', ids) ∧ s''.id = s'.id ∧ s''.selectedTab = some id := by
  obtain ⟨hi, -⟩ := List.getElem?_eq_some_iff.mp hs
  obtain ⟨tab, htab, hid⟩ := hid
  obtain ⟨index, hindex⟩ := Position.exists_findIdx? (p := fun tab : Tab => tab.id = id) htab (by simp [hid])
  obtain ⟨found, hfound, rfl⟩ := tabIndexOf_spec hindex
  refine ⟨{ s' with activeTabIndex := index }, ?_, rfl, by simp [Session.selectedTab, hfound]⟩
  have hget : (ws.setSession i s').sessions[i]? = some s' := by simp [TreeWorkspace.setSession, hi]
  have hne : s'.tabs.isEmpty = false := by
    grind
  rw [cascadeAfterTabRemoval, hget]
  simp [hne, Session.tabIndexOf, hindex, TreeWorkspace.setSession]

/-- A session that loses a tab other than the one selected, which is what
the cascade is told to select. -/
theorem cascade_keeps {closing : Tab} {specs : BTreeMap PaneId PaneSpec} {removed : Nat}
    (hs : ws.sessions[i]? = some s) (ht : s.tabs[j]? = some closing) (hid : s.selectedTab = some id)
    (hne : id ≠ closing.id) :
    let removal := cascadeAfterTabRemoval
      (ws.setSession i { s with specs := specs, tabs := s.tabs.eraseIdx j }) i removed (some id) ids
    ws.KeepTabs (removal.1.normalized removal.2).1 := by
  obtain ⟨tab, htab, htabId⟩ := Session.mem_of_selectedTab hid
  obtain ⟨k, hk⟩ := List.mem_iff_getElem?.mp htab
  have hjk : k ≠ j := by
    grind
  obtain ⟨s', hcascade, hsame, hselected⟩ := cascade_selects
      { s with specs := specs, tabs := s.tabs.eraseIdx j } removed ids hs
    ⟨tab, List.mem_eraseIdx_iff_getElem?.mpr ⟨k, hjk, hk⟩, htabId⟩
  have hkeeps : s.KeepsTab s' := ⟨hsame, fun other hother => by
    rw [hselected, ← hid, hother]⟩
  simp only [hcascade]
  exact (TreeWorkspace.KeepTabs.setSession hs hkeeps).trans (normalized_keeps _ _)

theorem closeTab_keeps (hloc : locateTab ws tab.id = some (i, j)) (hs : ws.sessions[i]? = some s)
    (ht : s.tabs[j]? = some tab) (hid : s.selectedTab = some id) (hne : id ≠ tab.id) :
    ws.KeepTabs (closeTab ws tab.id (some id) ids) := by
  unfold closeTab
  cases hclose : closeTab? ws tab.id (some id) ids with
  | none => exact .refl
  | some ws' =>
    simp only [closeTab?, hloc, hs, ht, Option.bind_eq_bind, Option.bind_some] at hclose
    obtain rfl := Option.some.inj hclose
    exact cascade_keeps hs ht hid hne

theorem closePane_keeps (hloc : locate ws pane = some (i, j))
    (hs : ws.sessions[i]? = some s) (ht : s.tabs[j]? = some tab) (hid : s.selectedTab = some id)
    (hne : id ≠ tab.id) : ws.KeepTabs (closePane ws pane (some id) ids) := by
  unfold closePane
  cases hclose : closePane? ws pane (some id) ids with
  | none => exact .refl
  | some ws' =>
    simp only [closePane?, hloc, hs, ht, Option.bind_eq_bind, Option.bind_some] at hclose
    cases hr : tab.root.removing pane with
    | none =>
      rw [hr] at hclose
      obtain rfl := Option.some.inj hclose
      exact cascade_keeps hs ht hid hne
    | some root =>
      rw [hr] at hclose
      obtain rfl := Option.some.inj hclose
      have hids := Session.setTab_ids (tab.pruned pane root (neighbour pane tab)) ht rfl
      have hkeeps : s.KeepsTab ({ s with specs := s.specs.erase pane }.setTab j
          (tab.pruned pane root (neighbour pane tab))) := .of_ids rfl rfl (hids ▸ List.prefix_rfl)
      exact (TreeWorkspace.KeepTabs.setSession hs hkeeps).trans (normalizingSpecs_keeps _)

theorem closeDetachedPane_keeps (pane : PaneId) : ws.KeepTabs (closeDetachedPane ws pane) := by
  unfold closeDetachedPane
  split
  · exact .refl
  · unfold editingSession
    rename_i index _
    cases hs : ws.sessions[index]? with
    | none => simpa using TreeWorkspace.KeepTabs.refl
    | some s => exact .setSession hs ⟨rfl, fun _ h => h⟩

/-- The tab of a pane that is detached is not missed: it has another pane,
or comes after the tab selected, or that one is the last. -/
def Session.Unmissed (s : Session) (pane : PaneId) (j : Nat) (tab : Tab) : Prop :=
  (∃ p ∈ tab.allPaneIds, p ≠ pane) ∨ s.activeTabIndex < j ∨
    (j < s.activeTabIndex ∧ s.activeTabIndex + 1 = s.tabs.length)

variable {node : SplitNode} {p target source : PaneId} {k : Nat}

theorem removing_isSome (hp : p ∈ node.allPaneIds)
    (hne : p ≠ target) : ∃ root, node.removing target = some root ∧ p ∈ root.allPaneIds := by
  have hleft := SplitNode.removing_allPaneIds node target
  have hmem : p ∈ node.allPaneIds.filter fun id => id != target := by simpa using ⟨hp, hne⟩
  cases hr : node.removing target with
  | none =>
    rw [hr] at hleft
    rw [← hleft] at hmem
    cases hmem
  | some root =>
    grind

/-- The index, clamped to the tabs that are left, is the selected tab's
own. -/
theorem detached_keeps {detached : List DetachedPane} (ht : s.tabs[j]? = some tab)
    (h : s.Unmissed pane j tab) :
    s.KeepsTab { pruneLeafFromTab s pane j with
      detached := detached
      activeTabIndex := min (pruneLeafFromTab s pane j).activeTabIndex
        ((pruneLeafFromTab s pane j).tabs.length - 1) } := by
  rcases pruneLeafFromTab_cases pane ht with ⟨root, -, heq⟩ | ⟨hgone, heq⟩
  · rw [heq]
    refine ⟨rfl, fun other hother => ?_⟩
    obtain ⟨found, hfound, -⟩ := Option.map_eq_some_iff.mp hother
    obtain ⟨hlt, -⟩ := List.getElem?_eq_some_iff.mp hfound
    have hlen : (s.setTab j (tab.pruned pane root none)).tabs.length = s.tabs.length := by
      simp [Session.setTab]
    have hmin : min s.activeTabIndex (s.tabs.length - 1) = s.activeTabIndex := by omega
    have hsame := (Session.KeepsTab.setTab (tab.pruned pane root none) ht rfl).selected other hother
    simp only [Session.selectedTab, hlen] at hsame ⊢
    simpa only [Session.setTab, hmin] using hsame
  · rw [heq]
    obtain ⟨hj, -⟩ := List.getElem?_eq_some_iff.mp ht
    have hlen : (s.tabs.eraseIdx j).length = s.tabs.length - 1 := List.length_eraseIdx_of_lt hj
    refine ⟨rfl, fun other hother => ?_⟩
    obtain ⟨found, hfound, hfoundId⟩ := Option.map_eq_some_iff.mp hother
    rcases h with ⟨p, hp, hne⟩ | hafter | ⟨hbefore, hlast⟩
    · obtain ⟨root, hroot, -⟩ := removing_isSome hp hne
      rw [hgone] at hroot
      cases hroot
    · have hmin : min s.activeTabIndex (s.tabs.length - 1 - 1) = s.activeTabIndex := by omega
      simp only [Session.selectedTab, hlen, hmin]
      rw [List.getElem?_eraseIdx_of_lt hafter, hfound]
      exact congrArg some hfoundId
    · have hmin : min s.activeTabIndex (s.tabs.length - 1 - 1) = s.activeTabIndex - 1 := by omega
      simp only [Session.selectedTab, hlen, hmin]
      rw [List.getElem?_eraseIdx_of_ge (by omega), Nat.sub_add_cancel (by omega), hfound]
      exact congrArg some hfoundId

theorem detachPane_keeps
    (h : ∀ i j s tab, locate ws pane = some (i, j) → ws.sessions[i]? = some s → s.tabs[j]? = some tab →
      s.Unmissed pane j tab) : ws.KeepTabs (detachPane ws pane ids) := by
  unfold detachPane
  cases hdetach : detachPane? ws pane ids with
  | none => exact .refl
  | some ws' =>
    obtain ⟨⟨i, j⟩, hloc, hrest⟩ := Option.bind_eq_some_iff.mp hdetach
    obtain ⟨s, tab, hs, ht, -⟩ := locate_spec hloc
    simp only [hs, ht, Option.bind_eq_bind, Option.bind_some] at hrest
    obtain rfl := Option.some.inj hrest
    exact (TreeWorkspace.KeepTabs.setSession hs (detached_keeps ht (h i j s tab hloc hs ht))).trans
      (normalized_keeps _ _)

/-! ## §4 Moves -/

theorem pruneLeafFromTab_id (s : Session) (pane : PaneId) (j : Nat) : (pruneLeafFromTab s pane j).id = s.id := by
  unfold pruneLeafFromTab
  split
  · rfl
  · split <;> rfl

theorem landed_selects {grown : SplitNode} (h : s.landed pane j id grown = some s') :
    s'.id = s.id ∧ s'.selectedTab = some id := by
  obtain ⟨index, hindex, hrest⟩ := Option.bind_eq_some_iff.mp h
  obtain ⟨found, hfound, rfl⟩ := tabIndexOf_spec hindex
  obtain ⟨hlt, -⟩ := List.getElem?_eq_some_iff.mp hfound
  simp only [hfound, Option.bind_eq_bind, Option.bind_some] at hrest
  obtain rfl := Option.some.inj hrest
  exact ⟨pruneLeafFromTab_id s pane j, by simp [Session.selectedTab, Session.setTab, hlt]⟩

/-- A workspace where one session has a tab selected, and the others are
what they were. -/
def TreeWorkspace.Selects (i : Nat) (id : TabId) (ws ws' : TreeWorkspace) : Prop :=
  (∃ s s', ws.sessions[i]? = some s ∧ ws'.sessions[i]? = some s' ∧ s'.id = s.id ∧ s'.selectedTab = some id) ∧
    ∀ k, k ≠ i → ws'.sessions[k]? = ws.sessions[k]?

theorem TreeWorkspace.Selects.setSession (hs : ws.sessions[i]? = some s)
    (h : s'.id = s.id ∧ s'.selectedTab = some id) : Selects i id ws (ws.setSession i s') := by
  obtain ⟨hi, -⟩ := List.getElem?_eq_some_iff.mp hs
  refine ⟨⟨s, s', hs, by simp [TreeWorkspace.setSession, hi], h⟩, fun k hk => ?_⟩
  rw [TreeWorkspace.setSession, List.getElem?_set_ne (Ne.symm hk)]

theorem moveLeafAcrossTabs_selects {axis : SplitAxis} {before : Bool}
    (hsource : locate ws source = some (i, j)) (htarget : locate ws target = some (i, k)) (hne : j ≠ k)
    (hs : ws.sessions[i]? = some s) (ht : s.tabs[k]? = some tab) :
    moveLeafAcrossTabs ws source target axis before ids = ws ∨
      TreeWorkspace.Selects i tab.id ws (moveLeafAcrossTabs ws source target axis before ids) := by
  unfold moveLeafAcrossTabs
  split
  · exact .inl rfl
  · simp only [hsource, htarget, ne_eq, not_true, if_false, hne]
    cases hmove : moveLeafAcrossTabs? ws source target axis before i j k ids with
    | none => exact .inl rfl
    | some ws' =>
      simp only [moveLeafAcrossTabs?, hs, ht, Option.bind_eq_bind, Option.bind_some] at hmove
      obtain ⟨grown, -, hmove⟩ := Option.bind_eq_some_iff.mp hmove
      split at hmove
      · cases hmove
      · obtain ⟨s', hlanded, hmove⟩ := Option.bind_eq_some_iff.mp hmove
        obtain rfl := Option.some.inj hmove
        exact .inr (.setSession hs (landed_selects hlanded))

theorem moveLeafToTabRootEdge_selects {edge : PaneDropEdge}
    (hsource : locate ws source = some (i, j)) (hs : ws.sessions[i]? = some s)
    (htarget : s.tabIndexOf id = some k) (hne : j ≠ k) : moveLeafToTabRootEdge ws source id edge ids = ws ∨
      TreeWorkspace.Selects i id ws (moveLeafToTabRootEdge ws source id edge ids) := by
  obtain ⟨tab, ht, rfl⟩ := tabIndexOf_spec htarget
  unfold moveLeafToTabRootEdge
  simp only [hsource, hs, htarget, Option.bind_some, hne, if_false]
  cases hmove : moveLeafToTabRootEdge? ws source edge i j k ids with
  | none => exact .inl rfl
  | some ws' =>
    simp only [moveLeafToTabRootEdge?, hs, ht, Option.bind_eq_bind, Option.bind_some] at hmove
    split at hmove
    · cases hmove
    · obtain ⟨s', hlanded, hmove⟩ := Option.bind_eq_some_iff.mp hmove
      obtain rfl := Option.some.inj hmove
      exact .inr (.setSession hs (landed_selects hlanded))

/-! ## §5 The launch restore -/

/-- The panes a launch drops. -/
def Session.videoPanes (s : Session) : List PaneId :=
  s.specs.keys.filter fun id => s.specs[id]?.any fun spec => spec.kind.isVideo

/-- No tab up to the selected one shows video panes only. -/
def Session.OutlastsVideo (s : Session) : Prop :=
  ∀ j ≤ s.activeTabIndex, ∀ tab : Tab, s.tabs[j]? = some tab → ∃ p ∈ tab.allPaneIds, p ∉ s.videoPanes

theorem withoutPanes_isSome {panes : List PaneId}
    (hp : p ∈ node.allPaneIds) (hne : p ∉ panes) : (node.withoutPanes panes).isSome = true := by
  induction panes generalizing node with
  | nil => rfl
  | cons id rest ih =>
    obtain ⟨hid, hrest⟩ := not_or.mp (mt List.mem_cons.mpr hne)
    rw [SplitNode.withoutPanes]
    split
    · exact ih hp hrest
    · obtain ⟨root, hroot, hmem⟩ := removing_isSome hp hid
      rw [hroot]
      exact ih hmem hrest

theorem droppingVideoPanes_keeps (h : s.OutlastsVideo) : s.KeepsTab s.droppingVideoPanes := by
  rw [Session.droppingVideoPanes]
  split
  · exact .refl
  · refine ⟨rfl, fun id hid => ?_⟩
    obtain ⟨tab, ht, rfl⟩ := Option.map_eq_some_iff.mp hid
    have hkept : ∀ j ≤ s.activeTabIndex, ∀ tab, s.tabs[j]? = some tab →
        ((tab.root.withoutPanes s.videoPanes).map fun root => { tab with root := root }).isSome := by
      intro j hj tab ht
      obtain ⟨p, hp, hne⟩ := h j hj tab ht
      rw [Option.isSome_map]
      exact withoutPanes_isSome hp hne
    have hget := Position.getElem?_filterMap ht hkept
    obtain ⟨image, himage⟩ := Option.isSome_iff_exists.mp (hkept _ (Nat.le_refl _) tab ht)
    obtain ⟨root, -, rfl⟩ := Option.map_eq_some_iff.mp himage
    rw [himage] at hget
    exact congrArg (Option.map Tab.id) hget

/-- More tabs, after the ones there were. -/
structure TreeWorkspace.Grows (ws ws' : TreeWorkspace) : Prop where
  ids : ws'.sessions.map Session.id = ws.sessions.map Session.id
  tabs : ∀ (i : Nat) (s : Session), ws.sessions[i]? = some s →
    ∃ s' : Session, ws'.sessions[i]? = some s' ∧ s.tabs.map Tab.id <+: s'.tabs.map Tab.id

theorem TreeWorkspace.Grows.refl : ws.Grows ws := ⟨rfl, fun _ s hs => ⟨s, hs, List.prefix_rfl⟩⟩

theorem TreeWorkspace.Grows.trans {last : TreeWorkspace} (h : ws.Grows ws') (h' : ws'.Grows last) :
    ws.Grows last := by
  refine ⟨h'.ids.trans h.ids, fun i s hs => ?_⟩
  obtain ⟨s', hs', hgrown⟩ := h.tabs i s hs
  obtain ⟨s'', hs'', hgrown'⟩ := h'.tabs i s' hs'
  exact ⟨s'', hs'', hgrown.trans hgrown'⟩

theorem TreeWorkspace.Grows.setSession (hs : ws.sessions[i]? = some s) (hid : s'.id = s.id)
    (htabs : s.tabs.map Tab.id <+: s'.tabs.map Tab.id) : ws.Grows (ws.setSession i s') := by
  obtain ⟨hi, hget⟩ := List.getElem?_eq_some_iff.mp hs
  constructor
  · obtain ⟨pre, post, hcut, rfl⟩ := Position.of_getElem? hs
    simp [TreeWorkspace.setSession, hcut, hid]
  · intro k x hx
    by_cases hk : i = k
    · subst hk
      obtain rfl : s = x := Option.some.inj (hs.symm.trans hx)
      exact ⟨s', by simp [TreeWorkspace.setSession, hi], htabs⟩
    · exact ⟨x, by rw [TreeWorkspace.setSession, List.getElem?_set_ne hk, hx], List.prefix_rfl⟩

/-- A pane that comes back changes a tab in its place, or adds one at the
end. -/
theorem reattached_tabs (s : Session) (target : PaneId) (tab : TabId) (fresh : SplitNodeId) :
    (s.reattached target tab fresh).id = s.id ∧
      s.tabs.map Tab.id <+: (s.reattached target tab fresh).tabs.map Tab.id := by
  rcases reattached_cases s target tab fresh with heq | ⟨index, existing, ht, heq⟩
  · rw [heq]
    exact ⟨rfl, by simp⟩
  · have hids := Session.setTab_ids { existing with
      root := existing.root.insertingAtRoot target .horizontal false fresh
      activePane := some target
      zoomedPane := none } ht rfl
    rw [heq]
    exact ⟨rfl, hids ▸ List.prefix_rfl⟩

theorem reattachPane_grows (ws : TreeWorkspace) (target : PaneId) (tab : TabId) (ids : IdSource) :
    ws.Grows (reattachPane ws target tab ids).1 := by
  unfold reattachPane
  cases detachedOwner ws target with
  | none => exact .refl
  | some index =>
    cases hs : ws.sessions[index]? with
    | none => simpa [hs] using TreeWorkspace.Grows.refl
    | some s =>
      obtain ⟨hid, htabs⟩ := reattached_tabs s target tab ids.split.1
      have hgrown := TreeWorkspace.Grows.setSession hs hid htabs
      simp only [hs]
      exact ⟨hgrown.ids, hgrown.tabs⟩

theorem reattachAll_grows (panes : List PaneId) (ws : TreeWorkspace) (ids : IdSource) :
    ws.Grows (reattachAll panes ws ids).1 := by
  induction panes generalizing ws ids with
  | nil => exact .refl
  | cons pane rest ih => exact (reattachPane_grows ws pane _ _).trans (ih _ _)

/-- One session of those that have ids of their own, with its saved index
put back. -/
theorem restoreActiveTab_spec (hunique : (sessions.map Session.id).Nodup)
    (hs : sessions[i]? = some s) (saved : SessionId × Nat) :
    (restoreActiveTab sessions saved).map Session.id = sessions.map Session.id ∧
      (restoreActiveTab sessions saved)[i]? =
        some (if s.id = saved.1 ∧ saved.2 < s.tabs.length then { s with activeTabIndex := saved.2 } else s) := by
  unfold restoreActiveTab
  cases hfound : sessions.findIdx? fun s => s.id = saved.1 with
  | none =>
    grind
  | some k =>
    obtain ⟨pre, found, post, rfl, rfl, hid, -⟩ := Position.of_findIdx? hfound
    have hid : found.id = saved.1 := by simpa using hid
    simp only [Position.modify_cut]
    constructor
    · simp only [List.map_append, List.map_cons]
      split <;> rfl
    · by_cases hi : i = pre.length
      · subst hi
        obtain rfl : found = s := by simpa using hs
        simp [hid]
      · have hne : s.id ≠ saved.1 := fun heq => by
          have hlt := (List.getElem?_eq_some_iff.mp hs).1
          refine hi ((List.getElem?_inj (by simpa using hlt) hunique).mp ?_)
          rw [List.getElem?_map, hs, List.getElem?_map, Position.getElem?_cut]
          exact congrArg some (heq.trans hid.symm)
        generalize (if saved.2 < found.tabs.length then { found with activeTabIndex := saved.2 } else found) =
          restored
        rw [← Position.set_cut (x := found) (y := restored), List.getElem?_set_ne (Ne.symm hi), hs,
          if_neg fun h => hne h.1]

variable {saved : List (SessionId × Nat)}

theorem restored_other (hunique : (sessions.map Session.id).Nodup) (hs : sessions[i]? = some s)
    (hne : s.id ∉ saved.map Prod.fst) : (saved.foldl restoreActiveTab sessions)[i]? = some s := by
  induction saved generalizing sessions with
  | nil => exact hs
  | cons entry rest ih =>
    obtain ⟨hids, hget⟩ := restoreActiveTab_spec hunique hs entry
    obtain ⟨hentry, hrest⟩ := not_or.mp (mt List.mem_cons.mpr hne)
    rw [if_neg fun h => hentry h.1] at hget
    exact ih (hids ▸ hunique) hget hrest

/-- The saved indices put back: each session has its own again, where it
has as many tabs. -/
theorem restored_spec {k : Nat}
    (hunique : (sessions.map Session.id).Nodup) (hkeys : (saved.map Prod.fst).Nodup)
    (hs : sessions[i]? = some s) (hsaved : (s.id, k) ∈ saved) (hk : k < s.tabs.length) :
    (saved.foldl restoreActiveTab sessions)[i]? = some { s with activeTabIndex := k } := by
  induction saved generalizing sessions with
  | nil => cases hsaved
  | cons entry rest ih =>
    obtain ⟨hids, hget⟩ := restoreActiveTab_spec hunique hs entry
    obtain ⟨hfresh, hrest⟩ := List.nodup_cons.mp hkeys
    rw [← hids] at hunique
    rw [List.foldl_cons]
    rcases List.mem_cons.mp hsaved with rfl | hlater
    · rw [if_pos ⟨rfl, hk⟩] at hget
      exact restored_other hunique hget hfresh
    · grind

/-- A session that loses no tab before the selected one has it selected
after a launch. -/
theorem redocking_selects (hunique : (ws.sessions.map Session.id).Nodup)
    (hs : ws.sessions[i]? = some s) (h : s.OutlastsVideo) (hid : s.selectedTab = some id) :
    ∃ s', (redockingDetachedPanes ws ids).sessions[i]? = some s' ∧ s'.id = s.id ∧
      s'.selectedTab = some id := by
  obtain ⟨hname, hdropped⟩ := droppingVideoPanes_keeps h
  have hselected := hdropped id hid
  have hget : ws.droppingVideoPanes.sessions[i]? = some s.droppingVideoPanes := by
    simp [TreeWorkspace.droppingVideoPanes, hs]
  have hids : ws.droppingVideoPanes.sessions.map Session.id = ws.sessions.map Session.id := by
    rw [TreeWorkspace.droppingVideoPanes, List.map_map]
    refine List.map_congr_left fun x _ => ?_
    simp only [Function.comp, Session.droppingVideoPanes]
    split <;> rfl
  rw [← hids] at hunique
  unfold redockingDetachedPanes
  simp only
  generalize ws.droppingVideoPanes = next at hget hunique ⊢
  generalize s.droppingVideoPanes = dropped at hname hselected hget
  split
  · obtain ⟨s', hs', hkeeps⟩ := normalized_keeps next ids i _ hget
    exact ⟨s', hs', hkeeps.id.trans hname, hkeeps.selected id hselected⟩
  · obtain ⟨hsame, hgrows⟩ := reattachAll_grows next.detachedPaneIds next ids
    obtain ⟨grown, hgrown, htabs⟩ := hgrows i _ hget
    have hgrownId : grown.id = dropped.id := by
      have hpoint := congrArg (fun l => l[i]?) hsame
      simpa [hgrown, hget] using hpoint
    -- the saved index is one of the tabs it was saved from, which are still the first ones
    have hkeeps : dropped.KeepsTab { grown with activeTabIndex := dropped.activeTabIndex } :=
      .of_ids hgrownId rfl htabs
    have hlt : dropped.activeTabIndex < grown.tabs.length := by
      obtain ⟨tab, htab, -⟩ := Option.map_eq_some_iff.mp (hkeeps.selected id hselected)
      exact (List.getElem?_eq_some_iff.mp htab).1
    have hkeys : (next.sessions.map fun s => (s.id, s.activeTabIndex)).map Prod.fst =
        next.sessions.map Session.id := by simp
    have hrestored := restored_spec (hsame ▸ hunique) (hkeys ▸ hunique) hgrown
      (List.mem_map.mpr ⟨dropped, List.mem_of_getElem? hget, by rw [hgrownId]⟩) hlt
    obtain ⟨s', hs', hfinal⟩ := normalized_keeps ⟨(next.sessions.map fun s =>
      (s.id, s.activeTabIndex)).foldl restoreActiveTab (reattachAll next.detachedPaneIds next ids).1.sessions,
      next.activeSessionId⟩ (reattachAll next.detachedPaneIds next ids).2 i _ hrestored
    exact ⟨s', hs', (hkeeps.trans hfinal).id.trans hname, (hkeeps.trans hfinal).selected id hselected⟩

end SlopDesk.Tree
