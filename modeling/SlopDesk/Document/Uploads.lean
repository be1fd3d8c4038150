/-
SlopDesk.Document.Uploads — the two intents whose trees come from the
client: an adoption, and a new layout for a tab.

What a document is read as has its selections in order whatever the
document says, but for the active session, which is taken as it stands. A
layout that is accepted has the panes the tab had.

  §1 Reading  — what a document is read as.
  §2 Adoption — what is adopted.
  §3 Layouts  — what a new layout leaves of a tab.
-/
import SlopDesk.Document.ApplyTheorems

namespace SlopDesk.Document

open SlopDesk.Base
open SlopDesk.Wire (WireError RawUuid)
open SlopDesk.Tree
open WorkspaceTopology

variable {t t' uploaded : WorkspaceTopology} {state : HostWorkspaceState} {args : List UInt8}

/-! ## §1 Reading -/

theorem readTab_spec {id : TabId} {tab : Tab} (h : readTab state id = some tab) :
    tab.id = id ∧ tab.Selected := by
  obtain ⟨cell, -, h⟩ := Option.bind_eq_some_iff.mp h
  split at h
  case h_2 => cases h
  rename_i layout _
  obtain rfl := Option.some.inj h
  have hheld : ∀ {field p}, (state.uuid (.tab id field)).filter
      (fun pane => (readSplitNode state layout).allPaneIds.contains pane) = some p →
      p ∈ (readSplitNode state layout).allPaneIds := fun hp => by
    obtain ⟨-, hin⟩ := Option.filter_eq_some_iff.mp hp
    simpa using hin
  refine ⟨rfl, fun p hp => ?_, fun p hp => hheld hp⟩
  rcases Option.or_eq_some_iff.mp hp with hp | ⟨-, hp⟩
  · exact hheld hp
  · exact SplitNode.firstLeafId_mem hp

/-- A session that is read has a tab, and its active index is one of a
tab's. -/
theorem readSession_spec {id : SessionId} {s : Session} (h : readSession state id = some s) :
    s.id = id ∧ s.activeTabIndex < s.tabs.length ∧
      ∀ tab ∈ s.tabs, ∃ id, readTab state id = some tab := by
  unfold readSession at h
  simp only at h
  split at h
  · cases h
  · rename_i hne
    obtain rfl := Option.some.inj h
    refine ⟨rfl, ?_, fun tab htab => ?_⟩
    · cases hactive : (state.uuid (.session id Field.sessionActiveTabId)).bind fun active =>
          (((state.uuidList (.session id Field.sessionTabOrder)).getD []).filterMap
            (readTab state)).findIdx? fun tab => tab.id = active with
      | none => simpa [List.length_pos_iff] using hne
      | some i =>
        obtain ⟨active, -, hfind⟩ := Option.bind_eq_some_iff.mp hactive
        obtain ⟨hi, -⟩ := List.findIdx?_eq_some_iff_getElem.mp hfind
        simpa using hi
    · grind

/-- The sessions a document lists and that can be read. -/
def HostWorkspaceState.readable (state : HostWorkspaceState) (s : Session) : Prop :=
  ∃ ids id, state.uuidList (.root Field.rootSessionOrder) = some ids ∧ id ∈ ids ∧
    readSession state id = some s

/-- The active session a document names is one it lists and that can be
read. -/
def HostWorkspaceState.NamesActive (state : HostWorkspaceState) : Prop :=
  ∃ s, state.readable s ∧ state.uuid (.root Field.rootActiveSessionId) = some s.id

theorem fromDocument_spec (h : fromDocument state = some uploaded) :
    uploaded.tree.sessions ≠ [] ∧ (∀ s, s ∈ uploaded.tree.sessions ↔ state.readable s) ∧
      uploaded.tree.activeSessionId = state.uuid (.root Field.rootActiveSessionId) ∧
      ∀ c ∈ uploaded.closedTabs, ∃ id, readTab state id = some c.tab := by
  obtain ⟨ids, hids, h⟩ := Option.bind_eq_some_iff.mp h
  simp only at h
  split at h
  · cases h
  · rename_i hne
    obtain rfl := Option.some.inj h
    refine ⟨by simpa using hne, fun s => ?_, rfl, fun c hc => ?_⟩
    · grind [List.mem_filterMap, HostWorkspaceState.readable]
    · obtain ⟨id, -, hread⟩ := List.mem_filterMap.mp hc
      unfold readClosedTab at hread
      split at hread
      · cases hread
      · obtain ⟨tab, htab, hread⟩ := Option.bind_eq_some_iff.mp hread
        obtain ⟨owner, -, hread⟩ := Option.bind_eq_some_iff.mp hread
        obtain rfl := Option.some.inj hread
        exact ⟨id, htab⟩

theorem namesActive_iff (h : fromDocument state = some uploaded) :
    state.NamesActive ↔ uploaded.tree.Named := by
  obtain ⟨-, hsessions, hactive, -⟩ := fromDocument_spec h
  simp only [HostWorkspaceState.NamesActive, TreeWorkspace.Named, hsessions, hactive]

theorem fromDocument_tabs (h : fromDocument state = some uploaded) :
    ∀ tab ∈ uploaded.allTabs, ∃ id, readTab state id = some tab := by
  obtain ⟨-, hsessions, -, hclosed⟩ := fromDocument_spec h
  intro tab htab
  rcases List.mem_append.mp htab with hopen | hring
  · obtain ⟨s, hs, hmem⟩ := TreeWorkspace.mem_tabs.mp hopen
    obtain ⟨ids, id, -, -, hread⟩ := (hsessions s).mp hs
    exact (readSession_spec hread).2.2 tab hmem
  · grind

/-! ## §2 Adoption -/

/-- What an adoption takes: arguments that decode to a document, a topology
that reads from it, and what `accept` asks of it. -/
structure Adopted (args : List UInt8) (state : HostWorkspaceState) (uploaded : WorkspaceTopology) :
    Prop where
  decodes : decodeSnapshot args = .ok state
  reads : fromDocument state = some uploaded
  accepted : Accepted uploaded

theorem adopt_applied {pristine : Bool} (h : adopt args t pristine = .applied t') :
    pristine = true ∧ ∃ state uploaded, Adopted args state uploaded ∧ t'.tree = uploaded.tree ∧
      t'.closedTabs = uploaded.pruned.closedTabs := by
  unfold adopt at h
  split at h
  · cases h
  · rename_i hpristine
    refine ⟨by simpa using hpristine, ?_⟩
    obtain ⟨state, hdecodes, h⟩ := withArgs_applied h
    split at h
    · cases h
    · rename_i uploaded hreads
      obtain ⟨rfl, haccepted⟩ := accept_applied h
      exact ⟨state, uploaded, ⟨hdecodes, hreads, haccepted.specs, haccepted.depth⟩, rfl, rfl⟩

theorem adopted_tabs (htree : t'.tree = uploaded.tree)
    (hring : t'.closedTabs = uploaded.pruned.closedTabs) : t'.allTabs ⊆ uploaded.allTabs := by
  rw [allTabs, allTabs, htree, hring]
  exact List.append_subset.mpr ⟨List.subset_append_left ..,
    List.Subset.trans (List.map_subset _ (pruned_closedTabs uploaded).subset)
      (List.subset_append_right ..)⟩

/-! ## §3 Layouts -/

theorem rebuiltAll_eq (children : List WorkspaceLayoutNode) :
    rebuiltAll children = children.map fun child => ⟨.flex F64.one, rebuilt child⟩ := by
  induction children with
  | nil => rfl
  | cons child rest ih => simp [rebuiltAll, ih]

/-- The leaves of a list of layouts are those of each, one after the
other. -/
theorem validLeavesOf_spec {children : List WorkspaceLayoutNode} {out : List PaneId}
    (ih : ∀ child ∈ children, ∀ leaves, validLeaves child = some leaves →
      (rebuilt child).allPaneIds = leaves)
    (h : validLeavesOf children = some out) :
    children.flatMap (fun child => (rebuilt child).allPaneIds) = out := by
  induction children generalizing out with
  | nil => exact Option.some.inj h
  | cons child rest ihrest =>
    grind [validLeavesOf]

/-- The leaves a layout is accepted with are those of the tree built from
it. -/
theorem validLeaves_spec {layout : WorkspaceLayoutNode} {leaves : List PaneId}
    (h : validLeaves layout = some leaves) : (rebuilt layout).allPaneIds = leaves := by
  induction layout generalizing leaves with
  | leaf pane => exact Option.some.inj h
  | split id axis children ih =>
    unfold validLeaves at h
    split at h
    · cases h
    · split at h
      · cases h
      · rename_i out hout
        split at h
        · obtain rfl := Option.some.inj h
          have hflat := validLeavesOf_spec (fun child hc leaves hl => ih child hc hl) hout
          simp only [rebuilt, SplitNode.allPaneIds_split, rebuiltAll_eq, List.flatMap_map]
          exact hflat
        · cases h

theorem validLeaves_nodup {layout : WorkspaceLayoutNode} {leaves : List PaneId}
    (h : validLeaves layout = some leaves) : leaves.Nodup := by
  cases layout with
  | leaf pane =>
    obtain rfl := Option.some.inj h
    exact List.nodup_singleton pane
  | split id axis children =>
    grind [validLeaves]

/-- A tab with another tree, out of its zoom. -/
def relaid (tab : Tab) (layout : WorkspaceLayoutNode) : Tab :=
  { tab with root := rebuilt layout, zoomedPane := none }

/-- What a new layout asks for and what it finds: the layout, the session
and the tab. -/
structure Relays (args : List UInt8) (t : WorkspaceTopology) (layout : WorkspaceLayoutNode)
    (i j : Nat) (s : Session) (tab : Tab) : Prop where
  decodes : ∃ blob, decodeSetTabLayout args = .ok (tab.id, blob) ∧ decodeLayout blob = .ok layout
  session : t.tree.sessions[i]? = some s
  found : s.tabs[j]? = some tab
  leaves : ∃ leaves, validLeaves layout = some leaves ∧ leaves.Perm tab.allPaneIds

theorem setTabLayout_applied (h : setTabLayout args t = .applied t') :
    ∃ layout i j s tab, Relays args t layout i j s tab ∧
      t' = t.withTree (t.tree.setSession i (s.setTab j (relaid tab layout))) ∧ Accepted t' := by
  obtain ⟨⟨id, blob⟩, hargs, hrest⟩ := withArgs_applied h
  obtain ⟨layout, hlayout, h⟩ := withArgs_applied hrest
  split at h
  · cases h
  · rename_i i j hloc
    obtain ⟨s, tab, hs, ht, rfl⟩ := locateTab_spec hloc
    simp only [hs, ht, Option.bind_some, Option.map_some] at h
    split at h
    · cases h
    · rename_i leaves hleaves
      split at h
      · cases h
      · rename_i hsame
        obtain ⟨rfl, haccepted⟩ := accept_applied h
        simp only [Bool.or_eq_true, Bool.not_eq_true', not_or, Bool.not_eq_false, decide_eq_true_eq,
          Decidable.not_not, sameElements_iff] at hsame
        obtain ⟨hlen, hin, -⟩ := hsame
        have hperm : leaves.Perm tab.allPaneIds :=
          ((validLeaves_nodup hleaves).subperm hin).perm_of_length_le hlen.ge
        refine ⟨layout, i, j, s, tab, ⟨⟨blob, hargs, hlayout⟩, hs, ht, leaves, hleaves, hperm⟩, ?_,
          haccepted⟩
        simp [editingTab, hs, ht, relaid]

variable {layout : WorkspaceLayoutNode} {i j : Nat} {s : Session} {tab : Tab}

theorem Relays.panes (h : Relays args t layout i j s tab) :
    (relaid tab layout).allPaneIds.Perm tab.allPaneIds := by
  obtain ⟨leaves, hleaves, hperm⟩ := h.leaves
  rw [Tab.allPaneIds, relaid, validLeaves_spec hleaves]
  exact hperm

theorem Relays.tabs (h : Relays args t layout i j s tab) :
    ∀ x ∈ (t.withTree (t.tree.setSession i (s.setTab j (relaid tab layout)))).allTabs,
      x ∈ t.allTabs ∨ x = relaid tab layout := by
  intro x hx
  rcases List.mem_append.mp hx with hopen | hring
  · obtain ⟨y, hy, hmem⟩ := TreeWorkspace.mem_tabs.mp hopen
    rcases TreeWorkspace.mem_setSession hy with hold | rfl
    · exact .inl (mem_allTabs_of_open (TreeWorkspace.mem_tabs.mpr ⟨y, hold, hmem⟩))
    · rcases List.mem_or_eq_of_mem_set hmem with hold | rfl
      · exact .inl (mem_allTabs_of_open (TreeWorkspace.tabs_subset h.session hold))
      · exact .inr rfl
  · exact .inl (List.mem_append_right _ hring)

end SlopDesk.Document
