/-
SlopDesk.Tree.Edits — what an operation may do to the panes, the tabs and
the selections of a workspace.

`Edit` says of a workspace and the one an operation leaves: where the tabs
come from; that no pane and no tab is in more places than it was, but for
the ones named as new; that no session loses its last tab, no active index
its tab and no active session its name.

  §1 Places  — where a pane is.
  §2 Edits   — of a session, and of a workspace by one of its sessions.
  §3 Repairs — `normalizingSpecs` and `normalized`.
-/
import SlopDesk.Tree.TabSteps

namespace SlopDesk.Tree

open SlopDesk.Base

/-! ## §1 Places -/

/-- Where the panes of a session are: its leaves and its detached list. -/
def Session.placed (s : Session) : List PaneId := s.allPaneIds ++ s.detachedIds

/-- The ids of the tabs of a session. -/
def Session.tabIds (s : Session) : List TabId := s.tabs.flatMap fun tab => [tab.id]

namespace TreeWorkspace

/-- Where the panes of a workspace are. -/
def placed (ws : TreeWorkspace) : List PaneId := ws.sessions.flatMap Session.placed

/-- The ids of its tabs. -/
def tabIds (ws : TreeWorkspace) : List TabId := ws.sessions.flatMap Session.tabIds

/-- Every session has a tab. -/
def Peopled (ws : TreeWorkspace) : Prop := ∀ s ∈ ws.sessions, s.tabs ≠ []

/-- Every active index is one of a tab. -/
def Indexed (ws : TreeWorkspace) : Prop := ∀ s ∈ ws.sessions, s.activeTabIndex < s.tabs.length

/-- The active session is one of the sessions. -/
def Named (ws : TreeWorkspace) : Prop := ∃ s ∈ ws.sessions, ws.activeSessionId = some s.id
deriving Decidable

/-- No pane is in two places, no two tabs have one id, and every session
has a tab. -/
structure Tidy (ws : TreeWorkspace) : Prop where
  placed : ws.placed.Nodup
  tabIds : ws.tabIds.Nodup
  peopled : ws.Peopled

end TreeWorkspace

section

variable {ws : TreeWorkspace} {s : Session} {tab : Tab} {i j : Nat} {pane : PaneId}
variable {tab' : Tab} {id : TabId} {axis : SplitAxis} {before : Bool} {fresh : SplitNodeId}
variable {leaf target : PaneId} {node : SplitNode}

theorem Session.count_placed (s : Session) (pane : PaneId) :
    s.placed.count pane = (s.tabs.flatMap Tab.allPaneIds).count pane + s.detachedIds.count pane := by
  simp [Session.placed, Session.allPaneIds]

theorem Session.placed_nodup (h : ws.placed.Nodup) (hs : s ∈ ws.sessions) : s.placed.Nodup :=
  (List.nodup_flatMap.mp h).1 s hs

theorem Session.tabIds_nodup (h : ws.tabIds.Nodup) (hs : s ∈ ws.sessions) : s.tabIds.Nodup :=
  (List.nodup_flatMap.mp h).1 s hs

theorem Session.tabIds_eq (s : Session) : s.tabIds = s.tabs.map Tab.id := by
  rw [tabIds, ← List.map_eq_flatMap]

theorem Tab.eq_of_id (h : s.tabIds.Nodup) (htab : tab ∈ s.tabs) (htab' : tab' ∈ s.tabs)
    (hid : tab.id = tab'.id) : tab = tab' :=
  List.inj_on_of_nodup_map (Session.tabIds_eq s ▸ h) htab htab' hid

theorem Tab.nodup (h : s.placed.Nodup) (htab : tab ∈ s.tabs) : tab.allPaneIds.Nodup :=
  (List.nodup_flatMap.mp (List.nodup_append.mp h).1).1 tab htab

theorem locate_spec (h : locate ws pane = some (i, j)) :
    ∃ s tab, ws.sessions[i]? = some s ∧ s.tabs[j]? = some tab ∧ pane ∈ tab.allPaneIds := by
  obtain ⟨pre, s, post, hsessions, rfl, hs, -⟩ := Position.of_findMap h
  obtain ⟨before, tab, after, htabs, rfl, hmem, -⟩ := Position.of_findIdx? hs
  exact ⟨s, tab, by simp [hsessions], by simp [htabs], SplitNode.contains_iff.mp hmem⟩

theorem locateTab_spec (h : locateTab ws id = some (i, j)) :
    ∃ s tab, ws.sessions[i]? = some s ∧ s.tabs[j]? = some tab ∧ tab.id = id := by
  obtain ⟨pre, s, post, hsessions, rfl, hs, -⟩ := Position.of_findMap h
  obtain ⟨before, tab, after, htabs, rfl, hid, -⟩ := Position.of_findIdx? hs
  exact ⟨s, tab, by simp [hsessions], by simp [htabs], by simpa using hid⟩

theorem TreeWorkspace.tabIds_eq (ws : TreeWorkspace) : ws.tabIds = ws.tabs.map Tab.id := by
  rw [tabIds, tabs, List.map_flatMap]
  exact List.flatMap_congr fun s _ => Session.tabIds_eq s

theorem TreeWorkspace.eq_of_id (h : ws.tabIds.Nodup) (htab : tab ∈ ws.tabs)
    (htab' : tab' ∈ ws.tabs) (hid : tab.id = tab'.id) : tab = tab' :=
  List.inj_on_of_nodup_map (TreeWorkspace.tabIds_eq ws ▸ h) htab htab' hid

theorem locationOf_spec {at_ : SessionId × TabId} (h : ws.locationOf pane = some at_) :
    ∃ i j s tab, locate ws pane = some (i, j) ∧ ws.sessions[i]? = some s ∧ s.tabs[j]? = some tab ∧
      pane ∈ tab.allPaneIds ∧ at_ = (s.id, tab.id) := by
  obtain ⟨pre, s, post, hsessions, hfound, hpre⟩ := List.findSome?_eq_some_iff.mp h
  obtain ⟨tab, htab, rfl⟩ := Option.map_eq_some_iff.mp hfound
  obtain ⟨hmem, before, after, htabs, hbefore⟩ := List.find?_eq_some_iff_append.mp htab
  have hindex : s.tabIndexContaining pane = some before.length := by
    rw [Session.tabIndexContaining, htabs]
    exact Position.findIdx?_cut (fun y hy => by simpa using hbefore y hy) hmem
  have hlocate : locate ws pane = some (pre.length, before.length) := by
    rw [locate, hsessions]
    refine Position.findMap_cut (fun y hy => ?_) hindex
    have hnone := hpre y hy
    simpa [Session.tabIndexContaining] using hnone
  exact ⟨pre.length, before.length, s, tab, hlocate, by simp [hsessions], by simp [htabs],
    SplitNode.contains_iff.mp hmem, rfl⟩

theorem tabIndexOf_spec (h : s.tabIndexOf id = some j) :
    ∃ tab, s.tabs[j]? = some tab ∧ tab.id = id := by
  obtain ⟨before, tab, after, htabs, rfl, hid, -⟩ := Position.of_findIdx? h
  exact ⟨tab, by simp [htabs], by simpa using hid⟩

theorem activeSessionIndex_spec (h : ws.activeSessionIndex = some i) :
    ∃ s, ws.sessions[i]? = some s := by
  have hfirst : (if ws.sessions.isEmpty then none else some 0) = some i →
      ∃ s, ws.sessions[i]? = some s := by
    intro hif
    cases hws : ws.sessions with
    | nil => simp [hws] at hif
    | cons s rest =>
      obtain rfl : 0 = i := by simpa [hws] using hif
      exact ⟨s, rfl⟩
  simp only [TreeWorkspace.activeSessionIndex] at h
  split at h
  · exact hfirst h
  · rcases Option.or_eq_some_iff.mp h with hidx | ⟨-, hif⟩
    · obtain ⟨pre, s, post, hsessions, rfl, -⟩ := Position.of_findIdx? hidx
      exact ⟨s, by simp [hsessions]⟩
    · exact hfirst hif

/-! ### The trees an operation grows and prunes -/

theorem SplitNode.count_insertBesideImpl (h : node.allPaneIds.Nodup) (pane : PaneId) :
    (node.insertBesideImpl leaf target axis before fresh).allPaneIds.count pane ≤
      (leaf :: node.allPaneIds).count pane := by
  rw [insertBesideImpl_allPaneIds h]
  by_cases htarget : target ∈ node.allPaneIds
  · obtain ⟨pre, post, hcut⟩ := List.append_of_mem htarget
    rw [hcut] at h ⊢
    have hpre : target ∉ pre := fun hmem => List.disjoint_of_nodup_append h hmem (by simp)
    have hpost : target ∉ post := (List.nodup_cons.mp (List.nodup_append.mp h).2.1).1
    rw [placedBeside_append, placedBeside_of_not_mem hpre, ← List.singleton_append,
      placedBeside_append, placedBeside_of_not_mem hpost]
    cases before <;> simp [placedBeside, List.count_cons] <;> omega
  · grind [placedBeside_of_not_mem]

theorem SplitNode.count_insertingAtRoot (node : SplitNode) (pane : PaneId) :
    (node.insertingAtRoot leaf axis before fresh).allPaneIds.count pane =
      (leaf :: node.allPaneIds).count pane := by
  rw [insertingAtRoot_allPaneIds]
  cases before <;> simp [List.count_cons]

theorem SplitNode.count_removing {pruned : SplitNode}
    (h : node.removing target = some pruned) (pane : PaneId) :
    pruned.allPaneIds.count pane = if pane = target then 0 else node.allPaneIds.count pane := by
  rw [removing_some h]
  by_cases hp : pane = target
  · rw [if_pos hp, List.count_eq_zero]
    simp [hp]
  · rw [if_neg hp, List.count_filter (by simpa using hp)]

end

/-! ## §2 Edits -/

/-- What an edit of a session may do: `panes` and `tabs` are the ones it
brings in. -/
structure Session.Moves (shown : Prop) (panes : List PaneId) (tabs : List TabId)
    (s s' : Session) : Prop where
  id : s'.id = s.id
  derived : Derived shown s.tabs s'.tabs
  placed : s.placed.Nodup → s.tabIds.Nodup → ∀ p, s'.placed.count p ≤ (panes ++ s.placed).count p
  tabIds : s.tabIds.Nodup → ∀ id, s'.tabIds.count id ≤ (tabs ++ s.tabIds).count id

/-- An edit that leaves the session a tab, and its active index on one. -/
structure Session.Edit (shown : Prop) (panes : List PaneId) (tabs : List TabId)
    (s s' : Session) : Prop extends Session.Moves shown panes tabs s s' where
  peopled : s.tabs ≠ [] → s'.tabs ≠ []
  indexed : s.activeTabIndex < s.tabs.length → s'.activeTabIndex < s'.tabs.length

/-- What an operation may do to the panes and tabs of a workspace. -/
structure TreeWorkspace.Moves (shown : Prop) (panes : List PaneId) (tabs : List TabId)
    (ws ws' : TreeWorkspace) : Prop where
  derived : Derived shown ws.tabs ws'.tabs
  placed : ws.Tidy → ∀ p, ws'.placed.count p ≤ (panes ++ ws.placed).count p
  tabIds : ws.Tidy → ∀ id, ws'.tabIds.count id ≤ (tabs ++ ws.tabIds).count id

/-- And to its selections. -/
structure TreeWorkspace.Edit (shown : Prop) (panes : List PaneId) (tabs : List TabId)
    (ws ws' : TreeWorkspace) : Prop extends TreeWorkspace.Moves shown panes tabs ws ws' where
  peopled : ws.Peopled → ws'.Peopled
  indexed : ws.Indexed → ws'.Indexed
  named : ws.Named → ws'.Named

section

variable {shown : Prop} {panes : List PaneId} {tabs : List TabId}
variable {ws ws' : TreeWorkspace} {s s' : Session} {tab tab' : Tab} {i j : Nat}

theorem TreeWorkspace.Edit.refl : ws.Edit shown panes tabs ws where
  derived := .refl
  placed _ p := by simp
  tabIds _ id := by simp
  peopled h := h
  indexed h := h
  named h := h

theorem TreeWorkspace.Edit.trans {last : TreeWorkspace} (h : ws.Edit shown [] [] ws')
    (h' : ws'.Edit shown panes tabs last) : ws.Edit shown panes tabs last := by
  have hplaced : ws.Tidy → ∀ p, ws'.placed.count p ≤ ws.placed.count p := by simpa using h.placed
  have htabIds : ws.Tidy → ∀ id, ws'.tabIds.count id ≤ ws.tabIds.count id := by simpa using h.tabIds
  have htidy : ws.Tidy → ws'.Tidy := fun ht =>
    { placed := List.nodup_iff_count_le_one.mpr fun p =>
        (hplaced ht p).trans (List.nodup_iff_count_le_one.mp ht.placed p)
      tabIds := List.nodup_iff_count_le_one.mpr fun id =>
        (htabIds ht id).trans (List.nodup_iff_count_le_one.mp ht.tabIds id)
      peopled := h.peopled ht.peopled }
  refine { derived := h.derived.trans h'.derived, placed := fun ht p => ?_, tabIds := fun ht id => ?_,
           peopled := fun hp => h'.peopled (h.peopled hp),
           indexed := fun hi => h'.indexed (h.indexed hi), named := fun hn => h'.named (h.named hn) }
  · have hlast := h'.placed (htidy ht) p
    have hfirst := hplaced ht p
    simp only [List.count_append] at hlast ⊢
    omega
  · have hlast := h'.tabIds (htidy ht) id
    have hfirst := htabIds ht id
    simp only [List.count_append] at hlast ⊢
    omega

theorem TreeWorkspace.Edit.activate (h : ws'.sessions = ws.sessions) (hnamed : ws'.Named) :
    ws.Edit shown panes tabs ws' := by
  obtain ⟨sessions, active⟩ := ws'
  obtain rfl : sessions = ws.sessions := h
  exact { derived := Derived.refl, placed := fun _ p => by simp [TreeWorkspace.placed],
          tabIds := fun _ id => by simp [TreeWorkspace.tabIds], peopled := fun h => h, indexed := fun h => h,
          named := fun _ => hnamed }

theorem TreeWorkspace.mem_setSession {x : Session} (h : x ∈ (ws.setSession i s').sessions) :
    x ∈ ws.sessions ∨ x = s' := List.mem_or_eq_of_mem_set h

theorem TreeWorkspace.named_setSession (hs : ws.sessions[i]? = some s) (hid : s'.id = s.id)
    (h : ws.Named) : (ws.setSession i s').Named := by
  obtain ⟨x, hx, hactive⟩ := h
  obtain ⟨pre, post, hcut, rfl⟩ := Position.of_getElem? hs
  have hset : (ws.setSession pre.length s').sessions = pre ++ s' :: post := by
    simp [setSession, hcut]
  rw [hcut, List.mem_append, List.mem_cons] at hx
  rcases hx with hx | rfl | hx
  · exact ⟨x, by simp [hset, hx], hactive⟩
  · exact ⟨s', by simp [hset], hactive.trans (by rw [hid])⟩
  · exact ⟨x, by simp [hset, hx], hactive⟩

theorem Session.Edit.setSession (hs : ws.sessions[i]? = some s) (h : s.Edit shown panes tabs s') :
    ws.Edit shown panes tabs (ws.setSession i s') where
  derived := h.derived.setSession hs
  placed htidy p := by
    have hcount := Position.count_set Session.placed p (y := s') hs
    have hedit := h.placed (Session.placed_nodup htidy.placed (List.mem_of_getElem? hs))
      (Session.tabIds_nodup htidy.tabIds (List.mem_of_getElem? hs)) p
    simp only [List.count_append] at hedit ⊢
    simp only [TreeWorkspace.placed, TreeWorkspace.setSession]
    omega
  tabIds htidy id := by
    have hcount := Position.count_set Session.tabIds id (y := s') hs
    have hedit := h.tabIds (Session.tabIds_nodup htidy.tabIds (List.mem_of_getElem? hs)) id
    simp only [List.count_append] at hedit ⊢
    simp only [TreeWorkspace.tabIds, TreeWorkspace.setSession]
    omega
  peopled hall x hx := by
    rcases TreeWorkspace.mem_setSession hx with hold | rfl
    · exact hall x hold
    · exact h.peopled (hall s (List.mem_of_getElem? hs))
  indexed hall x hx := by
    rcases TreeWorkspace.mem_setSession hx with hold | rfl
    · exact hall x hold
    · exact h.indexed (hall s (List.mem_of_getElem? hs))
  named := TreeWorkspace.named_setSession hs h.id

theorem Session.Edit.withSpecs (h : s.Edit shown panes tabs s') (specs : BTreeMap PaneId PaneSpec) :
    s.Edit shown panes tabs { s' with specs := specs } :=
  { id := h.id, derived := h.derived, placed := h.placed, tabIds := h.tabIds, peopled := h.peopled,
    indexed := h.indexed }

theorem Session.Edit.setActive (hs : ws.sessions[i]? = some s) (h : s.Edit shown panes tabs s') :
    ws.Edit shown panes tabs { ws.setSession i s' with activeSessionId := some s.id } := by
  have hset := h.setSession hs
  refine { derived := hset.derived, placed := hset.placed, tabIds := hset.tabIds,
           peopled := hset.peopled, indexed := hset.indexed, named := fun _ => ?_ }
  obtain ⟨hi, -⟩ := List.getElem?_eq_some_iff.mp hs
  exact ⟨s', by simpa [TreeWorkspace.setSession] using List.mem_set hi s', by rw [h.id]⟩

theorem editingSession_edit {edit : Session → Option Session}
    (h : ∀ s s', ws.sessions[i]? = some s → edit s = some s' → s.Edit shown panes tabs s') :
    ws.Edit shown panes tabs (editingSession ws i edit) := by
  unfold editingSession
  cases hs : ws.sessions[i]? with
  | none => exact .refl
  | some s =>
    cases hedit : edit s with
    | none => simpa [hedit] using TreeWorkspace.Edit.refl
    | some s' => simpa [hedit] using (h s s' hs hedit).setSession hs

theorem Session.Edit.setTab (ht : s.tabs[j]? = some tab) (h : tab.Step shown tab') (hid : tab'.id = tab.id)
    (hcount : tab.allPaneIds.Nodup → ∀ p, tab'.allPaneIds.count p ≤ (panes ++ tab.allPaneIds).count p) :
    s.Edit shown panes tabs (s.setTab j tab') where
  id := rfl
  derived := .set (.step (List.mem_of_getElem? ht) h)
  placed hnodup _ p := by
    have hset := Position.count_set Tab.allPaneIds p (y := tab') ht
    have htab := hcount (Tab.nodup hnodup (List.mem_of_getElem? ht)) p
    simp only [Session.count_placed, List.count_append] at htab ⊢
    simp only [Session.setTab, Session.detachedIds]
    omega
  tabIds _ id := by
    have hset := Position.count_set (fun tab : Tab => [tab.id]) id (y := tab') ht
    rw [hid] at hset
    simp only [Session.tabIds, Session.setTab, List.count_append]
    omega
  peopled hne := by simpa [Session.setTab] using hne
  indexed hlt := by simpa [Session.setTab] using hlt

theorem editingTab_edit {edit : Tab → Option Tab}
    (h : ∀ s tab tab', ws.sessions[i]? = some s → s.tabs[j]? = some tab → edit tab = some tab' →
      tab.Step shown tab' ∧ tab'.id = tab.id ∧
        (tab.allPaneIds.Nodup → ∀ p, tab'.allPaneIds.count p ≤ (panes ++ tab.allPaneIds).count p)) :
    ws.Edit shown panes tabs (editingTab ws i j edit) := by
  unfold editingTab
  cases hs : ws.sessions[i]? with
  | none => exact .refl
  | some s =>
    cases ht : s.tabs[j]? with
    | none => simpa [ht] using TreeWorkspace.Edit.refl
    | some tab =>
      cases hedit : edit tab with
      | none => simpa [ht, hedit] using TreeWorkspace.Edit.refl
      | some tab' =>
        obtain ⟨hstep, hid, hcount⟩ := h s tab tab' hs ht hedit
        have hset : s.Edit shown panes tabs (s.setTab j tab') := .setTab ht hstep hid hcount
        simpa [ht, hedit] using hset.setSession hs

end

/-! ## §3 Repairs -/

section

variable {shown : Prop} {panes : List PaneId} {tabs : List TabId}
variable {ws ws' : TreeWorkspace} {s s' : Session} {i : Nat} {ids : IdSource}
variable {post pre : List Session} {active : Option SessionId}

theorem retainDetached_sublist (leaves : List PaneId) (specs : BTreeMap PaneId PaneSpec)
    (seen : List PaneId) (detached : List DetachedPane) :
    (Session.retainDetached leaves specs seen detached).Sublist detached := by
  induction detached generalizing seen with
  | nil => exact .refl _
  | cons entry rest ih =>
    grind [Session.retainDetached]

theorem count_normalizingSpecs (s : Session) (p : PaneId) :
    s.normalizingSpecs.placed.count p ≤ s.placed.count p := by
  have hsub : s.normalizingSpecs.detachedIds.Sublist s.detachedIds :=
    (retainDetached_sublist _ _ _ _).map _
  have hcount := hsub.count_le p
  simp only [Session.count_placed]
  simp only [Session.normalizingSpecs] at hcount ⊢
  omega

theorem TreeWorkspace.count_normalizingSpecs (ws : TreeWorkspace) (p : PaneId) :
    ws.normalizingSpecs.placed.count p ≤ ws.placed.count p :=
  Position.count_map_le _ _ fun s _ => Tree.count_normalizingSpecs s p

theorem TreeWorkspace.tabIds_normalizingSpecs (ws : TreeWorkspace) :
    ws.normalizingSpecs.tabIds = ws.tabIds := by
  simp only [tabIds, normalizingSpecs, List.flatMap_map]
  rfl

theorem TreeWorkspace.Edit.normalizingSpecs (h : ws.Edit shown panes tabs ws') :
    ws.Edit shown panes tabs ws'.normalizingSpecs where
  derived := h.derived.trans (normalizingSpecs_derived ws')
  placed htidy p := (count_normalizingSpecs ws' p).trans (h.placed htidy p)
  tabIds hp id := by
    rw [tabIds_normalizingSpecs]
    exact h.tabIds hp id
  peopled hp s hs := by
    obtain ⟨old, hold, rfl⟩ := List.mem_map.mp hs
    exact h.peopled hp old hold
  indexed hi s hs := by
    obtain ⟨old, hold, rfl⟩ := List.mem_map.mp hs
    exact h.indexed hi old hold
  named hn := by
    obtain ⟨s, hs, hactive⟩ := h.named hn
    exact ⟨s.normalizingSpecs, List.mem_map_of_mem hs, hactive⟩

/-! ### The selections -/

@[simp] theorem reselected_length (s : Session) : s.reselected.tabs.length = s.tabs.length := by
  simp [Session.reselected]

@[simp] theorem reselected_placed (s : Session) : s.reselected.placed = s.placed := by
  simp only [Session.placed, Session.allPaneIds, Session.reselected, List.flatMap_map]
  rfl

@[simp] theorem reselected_tabIds (s : Session) : s.reselected.tabIds = s.tabIds := by
  simp only [Session.tabIds, Session.reselected, List.flatMap_map]
  rfl

theorem seeded_ne_nil (s : Session) (ids : IdSource) : (s.seeded ids).1.tabs ≠ [] := by
  rcases seeded_cases s ids with ⟨hne, heq⟩ | ⟨-, heq⟩
  · rw [heq]
    exact hne
  · rw [heq]
    simp

theorem count_seeded (s : Session) (ids : IdSource) (p : PaneId) (id : TabId) :
    (s.seeded ids).1.placed.count p ≤ ([ids.pane.1] ++ s.placed).count p ∧
      (s.seeded ids).1.tabIds.count id ≤ ([ids.tab.1] ++ s.tabIds).count id := by
  rcases seeded_cases s ids with ⟨-, heq⟩ | ⟨hnil, heq⟩
  · rw [heq]
    simp only [List.count_append]
    omega
  · have hnew : (Tab.new ids.tab.1 (.leaf ids.tab.2.pane.1)).allPaneIds = [ids.pane.1] := rfl
    rw [heq]
    constructor
    · simp only [List.count_append, Session.count_placed, hnil, List.flatMap_cons, List.flatMap_nil, hnew,
        Session.detachedIds]
      omega
    · simp only [Session.tabIds, hnil, List.flatMap_cons, List.flatMap_nil, Tab.new, List.append_nil]
      omega

theorem reselected_indexed {s : Session} (h : s.tabs ≠ []) :
    s.reselected.activeTabIndex < s.reselected.tabs.length := by
  have hpos := List.length_pos_iff.mpr h
  rw [reselected_length]
  simp only [Session.reselected]
  split <;> omega

/-- After the repair of the selections, whatever the workspace, every
active index is one of a tab and the active session one of the sessions. -/
theorem normalizingActive_settled (ws : TreeWorkspace) (ids : IdSource) :
    (ws.normalizingActive ids).1.Indexed ∧ (ws.normalizingActive ids).1.Named := by
  rw [TreeWorkspace.normalizingActive]
  split
  · refine ⟨fun s hs => ?_, _, List.mem_singleton_self _, rfl⟩
    obtain rfl := List.mem_singleton.mp hs
    simp [Session.singlePane]
  · rename_i hne
    constructor
    · intro s' hs'
      obtain ⟨s, -, ids', rfl⟩ := mem_normalizedSessions hs'
      exact reselected_indexed (seeded_ne_nil s ids')
    · simp only [TreeWorkspace.Named]
      split
      · rename_i hnamed
        cases hactive : ws.activeSessionId with
        | none => simp [hactive] at hnamed
        | some id =>
          grind
      · cases hs : ws.sessions with
        | nil => simp [hs] at hne
        | cons s rest => exact ⟨_, List.mem_cons_self, rfl⟩

theorem TreeWorkspace.Indexed.peopled (h : ws.Indexed) : ws.Peopled := fun s hs hnil => by
  simpa [hnil] using h s hs

theorem normalizedSessions_peopled {sessions : List Session} (h : ∀ s ∈ sessions, s.tabs ≠ []) :
    TreeWorkspace.normalizedSessions sessions ids = (sessions.map Session.reselected, ids) := by
  induction sessions with
  | nil => rfl
  | cons s rest ih =>
    have hs : s.seeded ids = (s, ids) := by simp [Session.seeded, h s List.mem_cons_self]
    simp [TreeWorkspace.normalizedSessions, hs, ih fun s hs => h s (List.mem_cons_of_mem _ hs)]

theorem normalizedSessions_cut (s : Session) (ids : IdSource) (hpre : ∀ s ∈ pre, s.tabs ≠ [])
    (hpost : ∀ s ∈ post, s.tabs ≠ []) : (TreeWorkspace.normalizedSessions (pre ++ s :: post) ids).1 =
      pre.map Session.reselected ++ (s.seeded ids).1.reselected :: post.map Session.reselected := by
  induction pre with
  | nil => simp [TreeWorkspace.normalizedSessions, normalizedSessions_peopled hpost]
  | cons first rest ih =>
    have hfirst : first.seeded ids = (first, ids) := by
      simp [Session.seeded, hpre first List.mem_cons_self]
    simp [TreeWorkspace.normalizedSessions, hfirst,
      ih fun s hs => hpre s (List.mem_cons_of_mem _ hs)]

/-! ### The whole repair -/

/-- What the whole repair makes of a session that has a tab. -/
def Session.repaired (s : Session) : Session := s.normalizingSpecs.reselected

theorem count_repaired (s : Session) (p : PaneId) : s.repaired.placed.count p ≤ s.placed.count p := by
  rw [Session.repaired, reselected_placed]
  exact Tree.count_normalizingSpecs s p

theorem tabIds_repaired (s : Session) : s.repaired.tabIds = s.tabIds := by
  rw [Session.repaired, reselected_tabIds]
  rfl

theorem count_repaired_map (l : List Session) (p : PaneId) (id : TabId) :
    ((l.map Session.repaired).flatMap Session.placed).count p ≤ (l.flatMap Session.placed).count p ∧
      ((l.map Session.repaired).flatMap Session.tabIds).count id ≤ (l.flatMap Session.tabIds).count id :=
  ⟨Position.count_map_le _ _ fun s _ => count_repaired s p,
    Position.count_map_le _ _ fun s _ => by rw [tabIds_repaired]⟩

theorem normalized_settled (ws : TreeWorkspace) (ids : IdSource) :
    (ws.normalized ids).1.Indexed ∧ (ws.normalized ids).1.Named := normalizingActive_settled _ ids

theorem normalized_cut (s : Session) (ids : IdSource) (active : Option SessionId)
    (hpre : ∀ s ∈ pre, s.tabs ≠ []) (hpost : ∀ s ∈ post, s.tabs ≠ []) :
    ((⟨pre ++ s :: post, active⟩ : TreeWorkspace).normalized ids).1.sessions =
      pre.map Session.repaired ++ (s.normalizingSpecs.seeded ids).1.reselected ::
        post.map Session.repaired := by
  have hmapped : ∀ l : List Session, (∀ s ∈ l, s.tabs ≠ []) →
      ∀ s ∈ l.map Session.normalizingSpecs, s.tabs ≠ [] := by
    intro l hl s hs
    obtain ⟨old, hold, rfl⟩ := List.mem_map.mp hs
    exact hl old hold
  have hcut := normalizedSessions_cut s.normalizingSpecs ids (hmapped pre hpre) (hmapped post hpost)
  have hrepaired : Session.reselected ∘ Session.normalizingSpecs = Session.repaired := rfl
  rw [List.map_map, List.map_map, hrepaired] at hcut
  simpa [TreeWorkspace.normalized, TreeWorkspace.normalizingSpecs, TreeWorkspace.normalizingActive]
    using hcut

theorem normalized_peopled (h : ws.Peopled) (hne : ws.sessions ≠ []) :
    (ws.normalized ids).1.sessions = ws.sessions.map Session.repaired := by
  obtain ⟨sessions, active⟩ := ws
  cases sessions with
  | nil => exact absurd rfl hne
  | cons s rest =>
    have hs : s.tabs ≠ [] := h s List.mem_cons_self
    have hnone : ∀ s ∈ ([] : List Session), s.tabs ≠ [] := by simp
    have hcut := normalized_cut s ids active hnone fun s hs => h s (List.mem_cons_of_mem _ hs)
    have hseeded : s.normalizingSpecs.seeded ids = (s.normalizingSpecs, ids) := by
      have hs' : s.normalizingSpecs.tabs ≠ [] := hs
      simp [Session.seeded, hs']
    rw [hseeded] at hcut
    exact hcut

/-- What the repair of a workspace with one session edited adds to it: one
pane in one tab at most, for a session that lost its last tab. -/
theorem count_normalized (s' : Session) (ids : IdSource) (hs : ws.sessions[i]? = some s)
    (hp : ws.Peopled) (p : PaneId) (id : TabId) :
    ((ws.setSession i s').normalized ids).1.placed.count p + s.placed.count p ≤
        [ids.pane.1].count p + ws.placed.count p + s'.placed.count p ∧
      ((ws.setSession i s').normalized ids).1.tabIds.count id + s.tabIds.count id ≤
        [ids.tab.1].count id + ws.tabIds.count id + s'.tabIds.count id := by
  obtain ⟨pre, post, hcut, rfl⟩ := Position.of_getElem? hs
  have hset : ws.setSession pre.length s' = ⟨pre ++ s' :: post, ws.activeSessionId⟩ := by
    simp [TreeWorkspace.setSession, hcut]
  have hsessions : ((ws.setSession pre.length s').normalized ids).1.sessions =
      pre.map Session.repaired ++ (s'.normalizingSpecs.seeded ids).1.reselected ::
        post.map Session.repaired := by
    rw [hset]
    exact normalized_cut s' ids _ (fun s hs => hp s (by simp [hcut, hs]))
      fun s hs => hp s (by simp [hcut, hs])
  obtain ⟨hbefore, hbeforeIds⟩ := count_repaired_map pre p id
  obtain ⟨hafter, hafterIds⟩ := count_repaired_map post p id
  obtain ⟨hseed, hseedIds⟩ := count_seeded s'.normalizingSpecs ids p id
  have hspecs := Tree.count_normalizingSpecs s' p
  have hsame : s'.normalizingSpecs.tabIds = s'.tabIds := rfl
  simp only [List.count_append, hsame] at hseed hseedIds
  simp only [TreeWorkspace.placed, TreeWorkspace.tabIds, hsessions]
  simp only [hcut, List.flatMap_append, List.flatMap_cons, List.count_append, reselected_placed,
    reselected_tabIds]
  constructor <;> omega

/-- A workspace with one session edited, repaired: the session may have
lost its last tab. -/
theorem Session.Moves.normalized (hs : ws.sessions[i]? = some s) (h : s.Moves shown [] [] s') :
    ws.Edit shown [ids.pane.1] [ids.tab.1] ((ws.setSession i s').normalized ids).1 := by
  obtain ⟨hindexed, hnamed⟩ := normalized_settled (ws.setSession i s') ids
  refine { derived := (h.derived.setSession hs).trans (normalized_derived _ ids),
           placed := fun htidy p => ?_, tabIds := fun htidy id => ?_,
           peopled := fun _ => hindexed.peopled, indexed := fun _ => hindexed,
           named := fun _ => hnamed }
  · have hcount := (count_normalized s' ids hs htidy.peopled p p).1
    have hmoved := h.placed (Session.placed_nodup htidy.placed (List.mem_of_getElem? hs))
      (Session.tabIds_nodup htidy.tabIds (List.mem_of_getElem? hs)) p
    simp only [List.count_append, List.count_nil] at hmoved ⊢
    omega
  · have hcount := (count_normalized s' ids hs htidy.peopled id id).2
    have hmoved := h.tabIds (Session.tabIds_nodup htidy.tabIds (List.mem_of_getElem? hs)) id
    simp only [List.count_append, List.count_nil] at hmoved ⊢
    omega

theorem count_normalized_peopled (ids : IdSource) (hp : ws.Peopled) (hne : ws.sessions ≠ [])
    (p : PaneId) (id : TabId) : (ws.normalized ids).1.placed.count p ≤ ws.placed.count p ∧
      (ws.normalized ids).1.tabIds.count id ≤ ws.tabIds.count id := by
  rw [TreeWorkspace.placed, TreeWorkspace.tabIds, normalized_peopled hp hne]
  exact count_repaired_map ws.sessions p id

theorem TreeWorkspace.Moves.normalized (h : ws.Moves shown panes tabs ws') (ids : IdSource)
    (hp : ws.Peopled → ws'.Peopled) (hne : ws'.sessions ≠ []) :
    ws.Edit shown panes tabs (ws'.normalized ids).1 := by
  obtain ⟨hindexed, hnamed⟩ := normalized_settled ws' ids
  refine { derived := h.derived.trans (normalized_derived _ ids), placed := fun htidy p => ?_,
           tabIds := fun htidy id => ?_, peopled := fun _ => hindexed.peopled,
           indexed := fun _ => hindexed, named := fun _ => hnamed }
  · exact (count_normalized_peopled ids (hp htidy.peopled) hne p p).1.trans (h.placed htidy p)
  · exact (count_normalized_peopled ids (hp htidy.peopled) hne id id).2.trans (h.tabIds htidy id)

theorem erased_moves (hs : ws.sessions[i]? = some s) :
    ws.Moves shown panes tabs ⟨ws.sessions.eraseIdx i, active⟩ where
  derived := .of_subset fun tab htab => by
    obtain ⟨s, hs, hmem⟩ := TreeWorkspace.mem_tabs.mp htab
    exact TreeWorkspace.mem_tabs.mpr ⟨s, List.mem_of_mem_eraseIdx hs, hmem⟩
  placed _ p := by
    have hcount := Position.count_eraseIdx Session.placed p hs
    simp only [TreeWorkspace.placed, List.count_append]
    omega
  tabIds _ id := by
    have hcount := Position.count_eraseIdx Session.tabIds id hs
    simp only [TreeWorkspace.tabIds, List.count_append]
    omega

theorem erased_peopled (h : ws.Peopled) : (⟨ws.sessions.eraseIdx i, active⟩ : TreeWorkspace).Peopled :=
  fun s hs => h s (List.mem_of_mem_eraseIdx hs)

theorem defaultWorkspace_edit (session : SessionId) (tab : TabId) (pane : PaneId) :
    ws.Edit shown [pane] [tab] (.defaultWorkspace session tab pane) where
  derived := Derived.new tab pane
  placed _ p := by
    have hpane : (TreeWorkspace.defaultWorkspace session tab pane).placed = [pane] := rfl
    rw [hpane, List.count_append]
    omega
  tabIds _ id := by
    have htab : (TreeWorkspace.defaultWorkspace session tab pane).tabIds = [tab] := rfl
    rw [htab, List.count_append]
    omega
  peopled _ s hs := by
    obtain rfl := List.mem_singleton.mp hs
    simp [Session.singlePane]
  indexed _ s hs := by
    obtain rfl := List.mem_singleton.mp hs
    simp [Session.singlePane]
  named _ := ⟨_, List.mem_singleton_self _, rfl⟩

end

end SlopDesk.Tree
