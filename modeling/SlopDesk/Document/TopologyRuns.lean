/-
SlopDesk.Document.TopologyRuns — what holds of a topology over a whole run
of intents.

`settle` is one request as its holder takes it: the topology applied, or
the one there was. All but an adoption and a new layout are edits
(`apply_edit`); these two are described for themselves. The results are
about runs, each from what one request keeps.

  §1 Requests   — one step of a run.
  §2 Places     — every pane is in one place, and the trees are shaped.
  §3 Selections — what is selected is there.
  §4 Zooms      — what is focused is not behind a zoom.
-/
import SlopDesk.Base.Runs
import SlopDesk.Document.Uploads

namespace SlopDesk.Document

open SlopDesk.Base
open SlopDesk.Wire (WireError RawUuid)
open SlopDesk.Tree
open WorkspaceTopology

/-! ## §1 Requests -/

/-- One request, and what it is decided with. -/
structure Request where
  op : UInt8
  args : List UInt8
  context : IntentContext

namespace Request

/-- The answer to a request. -/
def answer (r : Request) (t : WorkspaceTopology) : IntentOutcome := apply r.op r.args t r.context

/-- The operation it asks for, where it is one. -/
def intent (r : Request) : Option WorkspaceIntentOp := WorkspaceIntentOp.fromByte r.op

/-- Neither an adoption nor a new layout. -/
def Edits (r : Request) : Prop := r.intent ≠ some .adoptWorkspace ∧ r.intent ≠ some .setTabLayout
deriving Decidable

/-- The identities it may mint are nowhere in the topology. -/
def Fresh (t : WorkspaceTopology) (r : Request) : Prop :=
  r.context.ids.pane.1 ∉ t.placed ∧ r.context.ids.tab.1 ∉ t.tabIds
deriving Decidable

/-- The document it uploads where it asks for an adoption that is taken. -/
structure Uploads (r : Request) (state : HostWorkspaceState) (uploaded : WorkspaceTopology) : Prop where
  intent : r.intent = some .adoptWorkspace
  pristine : r.context.pristine = true
  adopted : Adopted r.args state uploaded

end Request

/-- The topology after a request. -/
def settle (t : WorkspaceTopology) (r : Request) : WorkspaceTopology := (r.answer t).resulting t

variable {t t' : WorkspaceTopology} {r : Request} {panes : List PaneId}
  {tabs : List TabId}

theorem settle_cases (t : WorkspaceTopology) (r : Request) :
    settle t r = t ∨ r.answer t = .applied (settle t r) := by
  unfold settle
  cases r.answer t with
  | applied next => exact .inr rfl
  | _ => exact .inl rfl

theorem applied_of_isSome (h : (r.answer t).topology.isSome = true) :
    r.answer t = .applied (settle t r) := by
  rw [settle]
  cases hanswer : r.answer t with
  | applied next => rfl
  | _ =>
    rw [hanswer] at h
    cases h

/-- What a request brings in: no more than a pane that was minted or free,
and a tab that was minted. -/
structure Brings (t : WorkspaceTopology) (ids : IdSource) (panes : List PaneId) (tabs : List TabId) :
    Prop where
  panes : panes = [] ∨ ∃ p, panes = [p] ∧ (p = ids.pane.1 ∨ t.isFree p = true)
  tabs : tabs = [] ∨ tabs = [ids.tab.1]

/-- A request that is applied edits the topology, unless it brings an
arrangement of its own. -/
theorem apply_edit (shown : Prop) (hedits : r.Edits) (h : r.answer t = .applied t')
    (hmove : shown → r.intent = some .movePane →
      ∀ moved, decodeMove r.args = .ok moved → MoveSeen t moved r.context.ids)
    (hdock : shown → r.intent = some .dockPaneAtTabEdge →
      ∀ dock, decodeDockAtTabEdge r.args = .ok dock → DockSeen t dock r.context.ids)
    (hzoom : shown → r.intent = some .setZoom →
      ∀ pane, decodeFlag r.args = .ok (pane, true) → ZoomSeen t pane) :
    ∃ panes tabs, t.Edit shown panes tabs t' ∧ Brings t r.context.ids panes tabs := by
  have nothing : Brings t r.context.ids [] [] := ⟨.inl rfl, .inl rfl⟩
  have minted : Brings t r.context.ids [r.context.ids.pane.1] [r.context.ids.tab.1] :=
    ⟨.inr ⟨_, rfl, .inl rfl⟩, .inr rfl⟩
  have tabMinted : Brings t r.context.ids [] [r.context.ids.tab.1] := ⟨.inl rfl, .inr rfl⟩
  have paneFree : ∀ {pane}, t.isFree pane = true → Brings t r.context.ids [pane] [] :=
    fun hfree => ⟨.inr ⟨_, rfl, .inr hfree⟩, .inl rfl⟩
  have bothNew : ∀ {pane}, t.isFree pane = true →
      Brings t r.context.ids [pane] [r.context.ids.tab.1] :=
    fun hfree => ⟨.inr ⟨_, rfl, .inr hfree⟩, .inr rfl⟩
  obtain ⟨hadopt, hlayout⟩ := hedits
  unfold Request.answer apply at h
  split at h
  · cases h
  all_goals rename_i hop
  · exact absurd hop hadopt
  · exact ⟨_, _, renamePane_edit h, nothing⟩
  · exact ⟨_, _, renameTab_edit h, nothing⟩
  · exact ⟨_, _, renameSession_edit h, nothing⟩
  · exact ⟨_, _, closePane_edit h, minted⟩
  · exact ⟨_, _, closeTab_edit h, minted⟩
  · obtain ⟨pane, hfree, hedit⟩ := splitPane_edit h
    exact ⟨_, _, hedit, paneFree hfree⟩
  · obtain ⟨pane, hfree, hedit⟩ := spawnPane_edit h
    exact ⟨_, _, hedit, paneFree hfree⟩
  · exact ⟨_, _, movePane_edit h fun hshown => hmove hshown hop, nothing⟩
  · exact ⟨_, _, reorderTabs_edit h, nothing⟩
  · exact ⟨_, _, focusTab_edit h, nothing⟩
  · exact ⟨_, _, focusPane_edit h, nothing⟩
  · exact ⟨_, _, setSyncInput_edit h, nothing⟩
  · obtain ⟨pane, hfree, hedit⟩ := spawnTab_edit h
    exact ⟨_, _, hedit, bothNew hfree⟩
  · exact ⟨_, _, setZoom_edit h fun hshown => hzoom hshown hop, nothing⟩
  · exact ⟨_, _, detachPane_edit h, minted⟩
  · exact ⟨_, _, reattachPane_edit h, tabMinted⟩
  · exact ⟨_, _, setDividerWeight_edit h, nothing⟩
  · obtain ⟨pane, hfree, hedit⟩ := newSession_edit h
    exact ⟨_, _, hedit, bothNew hfree⟩
  · exact ⟨_, _, closeSession_edit h, minted⟩
  · exact ⟨_, _, reopenClosedTab_edit h, nothing⟩
  · exact ⟨_, _, breakPaneToTab_edit h, tabMinted⟩
  · exact ⟨_, _, swapPanes_edit h, nothing⟩
  · exact ⟨_, _, dockPaneAtTabEdge_edit h fun hshown => hdock hshown hop, nothing⟩
  · exact absurd hop hlayout
  · obtain ⟨pane, hfree, hedit⟩ := spawnDetachedPane_edit h
    exact ⟨_, _, hedit, paneFree hfree⟩
  · exact ⟨_, _, setPaneVideoTarget_edit h, nothing⟩

/-! ## §2 Places -/

/-- The specs of a session are those of its leaves and its detached
panes. -/
def Specified (s : Session) : Prop := ∀ p, p ∈ s.specs ↔ p ∈ s.allPaneIds ∨ p ∈ s.detachedIds

theorem specsMatch_iff (s : Session) : s.specsMatch = true ↔ Specified s := s.specsMatch_iff

namespace WorkspaceTopology

/-- Specs that match; every pane in one place, every tab id once, and a tab
in every session; trees that are shaped and within the depth cap. -/
structure WellFormed (t : WorkspaceTopology) : Prop extends t.Tidy where
  specified : ∀ s ∈ t.tree.sessions, Specified s
  depth : ∀ tab ∈ t.allTabs, tab.root.depth ≤ maxDepth

theorem not_placed_of_free {p : PaneId} (h : t.isFree p = true) : p ∉ t.placed := by
  simp only [isFree, hasPane, Bool.and_eq_true, Bool.not_eq_true', Bool.or_eq_false_iff,
    List.any_eq_false, TreeWorkspace.contains, TreeWorkspace.isDetached] at h
  obtain ⟨⟨hleaf, hdetached⟩, hclosed⟩ := h
  simp only [WorkspaceTopology.placed, TreeWorkspace.placed, Session.placed, Session.allPaneIds,
    Session.detachedIds, List.mem_append, List.mem_flatMap, List.mem_map, not_or, not_exists, not_and]
  refine ⟨fun s hs => ⟨fun tab htab hp => ?_, fun entry hentry hp => ?_⟩, fun c hc hmem => ?_⟩
  · refine hleaf s hs ?_
    rw [Session.contains, List.any_eq_true]
    exact ⟨tab, htab, SplitNode.contains_iff.mpr hp⟩
  · refine hdetached s hs ?_
    rw [Session.isDetached, List.any_eq_true]
    exact ⟨entry, hentry, by simp [hp]⟩
  · exact hclosed c hc (SplitNode.contains_iff.mpr hmem)

end WorkspaceTopology

theorem Brings.nodup (h : Brings t r.context.ids panes tabs) (hfresh : r.Fresh t)
    (hplaced : t.placed.Nodup) (htabIds : t.tabIds.Nodup) :
    (panes ++ t.placed).Nodup ∧ (tabs ++ t.tabIds).Nodup := by
  constructor
  · rcases h.panes with rfl | ⟨p, rfl, rfl | hfree⟩
    · exact hplaced
    · exact List.nodup_cons.mpr ⟨hfresh.1, hplaced⟩
    · exact List.nodup_cons.mpr ⟨not_placed_of_free hfree, hplaced⟩
  · rcases h.tabs with rfl | rfl
    · exact htabIds
    · exact List.nodup_cons.mpr ⟨hfresh.2, htabIds⟩

theorem WorkspaceTopology.Edit.tidy {shown : Prop} (hedit : t.Edit shown panes tabs t') (h : t.Tidy)
    (hpanes : (panes ++ t.placed).Nodup) (htabs : (tabs ++ t.tabIds).Nodup) : t'.Tidy where
  placed := List.nodup_iff_count_le_one.mpr fun p =>
    (hedit.placed h p).trans (List.nodup_iff_count_le_one.mp hpanes p)
  tabIds := List.nodup_iff_count_le_one.mpr fun id =>
    (hedit.tabIds h id).trans (List.nodup_iff_count_le_one.mp htabs id)
  peopled := hedit.peopled h.peopled
  shaped := hedit.derived.keeps (fun _ _ step => step.shaped) Tab.new_shaped h.shaped

theorem settle_wellFormed (hedits : r.Edits) (hfresh : r.Fresh t) (h : t.WellFormed) :
    (settle t r).WellFormed := by
  rcases settle_cases t r with heq | happlied
  · rw [heq]
    exact h
  · rcases apply_answers r.op r.args t r.context _ happlied with heq | haccepted
    · rw [heq]
      exact h
    · obtain ⟨panes, tabs, hedit, hbrings⟩ := apply_edit False hedits happlied
        (fun hf => hf.elim) (fun hf => hf.elim) (fun hf => hf.elim)
      obtain ⟨hpanes, htabs⟩ := hbrings.nodup hfresh h.placed h.tabIds
      refine { hedit.tidy h.toTidy hpanes htabs with specified := fun s hs => ?_, depth := fun tab htab => ?_ }
      · exact (specsMatch_iff s).mp (List.all_eq_true.mp haccepted.specs s hs)
      · rcases List.mem_append.mp htab with hopen | hclosed
        · exact haccepted.depth tab hopen
        · obtain ⟨c, hc, rfl⟩ := List.mem_map.mp hclosed
          exact h.depth c.tab (hedit.closed c hc)

/-- Through a run of requests that arrange nothing of their own, from a
topology that is well formed, it stays well formed; and whatever is refused
leaves it as it was. -/
theorem wellFormed_throughout {requests : List Request} (h : t.WellFormed)
    (hrun : Meets settle (fun t r => r.Edits ∧ r.Fresh t) t requests) :
    Throughout settle (fun t => t.WellFormed ∧
      ∀ r : Request, (r.answer t).topology = none → settle t r = t) t requests := by
  have hthroughout : Throughout settle WellFormed t requests :=
    hrun.throughout WellFormed (fun t r hok ht => settle_wellFormed hok.1 hok.2 ht) h
  refine hthroughout.imp fun t ht => ⟨ht, fun r hrefused => ?_⟩
  rw [settle, IntentOutcome.resulting, hrefused, Option.getD_none]

/-- A topology of one pane. -/
def onePane : WorkspaceTopology where
  tree := .defaultWorkspace (uniform 1) (uniform 2) (uniform 3)

/-- A context that mints one identity. -/
def minting (byte : UInt8) : IntentContext where
  ids := ⟨Stream'.const (uniform byte), Stream'.const (uniform byte), Stream'.const (uniform byte),
    Stream'.const (uniform byte)⟩
  pristine := true
  projectKey := fun _ => none
  lower := id

/-- A split, a detach of each pane in turn, and a reattach into the origin
tab. -/
theorem wellFormed_throughout_detached :
    let requests : List Request := [
      ⟨6, (uniform 3).bytes ++ [0, 0] ++ (uniform 4).bytes ++ [0, 0], minting 10⟩,
      ⟨15, (uniform 4).bytes, minting 11⟩, ⟨15, (uniform 3).bytes, minting 12⟩,
      ⟨16, (uniform 4).bytes, minting 13⟩]
    Throughout settle (fun t => t.WellFormed ∧
        ∀ r : Request, (r.answer t).topology = none → settle t r = t) onePane requests ∧
      (run settle onePane requests).placed = [uniform 12, uniform 4, uniform 3] := by
  have hwell : onePane.WellFormed :=
    { placed := by decide +kernel
      tabIds := by decide +kernel
      peopled := by simp [onePane, TreeWorkspace.Peopled, TreeWorkspace.defaultWorkspace,
        TreeWorkspace.singlePane, Session.singlePane]
      shaped := by
        exact fun tab htab => List.mem_singleton.mp htab ▸ Tab.new_shaped _ _
      specified := fun s hs => (specsMatch_iff s).mp (List.all_eq_true.mp
        (by decide +kernel : onePane.tree.invariantHolds = true) s hs)
      depth := by decide +kernel }
  exact ⟨wellFormed_throughout hwell (by decide +kernel), by decide +kernel⟩

/-! ## §3 Selections -/

/-- How a request that is applied is applied: as an edit, as an adoption of
a document, or as a new layout of one tab. -/
theorem applied_cases (shown : Prop) (h : r.answer t = .applied t')
    (hmove : shown → r.intent = some .movePane →
      ∀ moved, decodeMove r.args = .ok moved → MoveSeen t moved r.context.ids)
    (hdock : shown → r.intent = some .dockPaneAtTabEdge →
      ∀ dock, decodeDockAtTabEdge r.args = .ok dock → DockSeen t dock r.context.ids)
    (hzoom : shown → r.intent = some .setZoom →
      ∀ pane, decodeFlag r.args = .ok (pane, true) → ZoomSeen t pane) :
    (∃ panes tabs, t.Edit shown panes tabs t') ∨
    (∃ state uploaded, r.Uploads state uploaded ∧ t'.tree = uploaded.tree ∧
      t'.closedTabs = uploaded.pruned.closedTabs) ∨
    (∃ layout i j s tab, Relays r.args t layout i j s tab ∧
      t' = t.withTree (t.tree.setSession i (s.setTab j (relaid tab layout)))) := by
  by_cases hadopt : r.intent = some .adoptWorkspace
  · rw [Request.answer, apply, ← Request.intent, hadopt] at h
    obtain ⟨hpristine, state, uploaded, hadopted, htree, hring⟩ := adopt_applied h
    exact .inr (.inl ⟨state, uploaded, ⟨hadopt, hpristine, hadopted⟩, htree, hring⟩)
  · by_cases hlayout : r.intent = some .setTabLayout
    · rw [Request.answer, apply, ← Request.intent, hlayout] at h
      obtain ⟨layout, i, j, s, tab, hrelays, heq, -⟩ := setTabLayout_applied h
      exact .inr (.inr ⟨layout, i, j, s, tab, hrelays, heq⟩)
    · obtain ⟨panes, tabs, hedit, -⟩ := apply_edit shown ⟨hadopt, hlayout⟩ h hmove hdock hzoom
      exact .inl ⟨panes, tabs, hedit⟩

namespace WorkspaceTopology

/-- There is a session and a tab in each, the active session is one of
them, every active index is one of a tab, and what a tab has focused or
zoomed is one of its leaves. -/
structure Settled (t : WorkspaceTopology) : Prop where
  sessions : t.tree.sessions ≠ []
  peopled : ∀ s ∈ t.tree.sessions, s.tabs ≠ []
  named : ∃ s ∈ t.tree.sessions, t.tree.activeSessionId = some s.id
  indexed : ∀ s ∈ t.tree.sessions, s.activeTabIndex < s.tabs.length
  selected : ∀ tab ∈ t.allTabs, tab.Selected

theorem Settled.of_named (hnamed : t.tree.Named) (hindexed : t.tree.Indexed)
    (hselected : ∀ tab ∈ t.allTabs, tab.Selected) : t.Settled where
  sessions hnil := by
    obtain ⟨s, hs, -⟩ := hnamed
    rw [hnil] at hs
    cases hs
  peopled := hindexed.peopled
  named := hnamed
  indexed := hindexed
  selected := hselected

end WorkspaceTopology

/-- A document that is adopted names as active a session it lists. -/
def Request.NamesActive (_ : WorkspaceTopology) (r : Request) : Prop :=
  ∀ state uploaded, r.Uploads state uploaded → state.NamesActive

theorem settle_settled (hadopts : r.NamesActive t) (h : t.Settled) : (settle t r).Settled := by
  rcases settle_cases t r with heq | happlied
  · rw [heq]
    exact h
  · generalize settle t r = t' at happlied ⊢
    rcases applied_cases False happlied (fun hf => hf.elim) (fun hf => hf.elim)
      (fun hf => hf.elim) with ⟨panes, tabs, hedit⟩ | ⟨state, uploaded, hup, htree, hring⟩ |
      ⟨layout, i, j, s, tab, hrelays, rfl⟩
    · exact .of_named (hedit.named h.named) (hedit.indexed h.indexed)
        (hedit.derived.keeps (fun _ _ step => step.selected) Tab.new_selected h.selected)
    · obtain ⟨-, hsessions, -⟩ := fromDocument_spec hup.adopted.reads
      refine .of_named ?_ (fun s hs => ?_) fun tab htab => ?_
      · rw [htree]
        exact (namesActive_iff hup.adopted.reads).mp (hadopts state uploaded hup)
      · rw [htree] at hs
        obtain ⟨ids, id, -, -, hread⟩ := (hsessions s).mp hs
        exact (readSession_spec hread).2.1
      · obtain ⟨id, hread⟩ := fromDocument_tabs hup.adopted.reads tab (adopted_tabs htree hring htab)
        exact (readTab_spec hread).2
    · have hlen : ∀ x ∈ (t.tree.setSession i (s.setTab j (relaid tab layout))).sessions,
          x.activeTabIndex < x.tabs.length := fun x hx => by
        rcases TreeWorkspace.mem_setSession hx with hold | rfl
        · exact h.indexed x hold
        · have hindex := h.indexed s (List.mem_of_getElem? hrelays.session)
          simpa [Session.setTab] using hindex
      refine .of_named (TreeWorkspace.named_setSession hrelays.session rfl h.named) hlen
        fun x hx => ?_
      rcases hrelays.tabs x hx with hold | rfl
      · exact h.selected x hold
      · have hpanes := hrelays.panes
        have hbefore := h.selected tab (mem_allTabs_of_open
          (TreeWorkspace.tabs_subset hrelays.session (List.mem_of_getElem? hrelays.found)))
        exact ⟨fun p hp => hpanes.mem_iff.mpr (hbefore.active p hp), fun p hp => by cases hp⟩

/-- Where the upload can be read, whether it names its active session is
plain from what it is read as. -/
theorem namesActive_of_uploaded (h : (match decodeSnapshot r.args with
    | .ok state => (fromDocument state).all fun uploaded => decide uploaded.tree.Named
    | _ => false) = true) : r.NamesActive t := by
  intro state uploaded hup
  rw [hup.adopted.decodes] at h
  simp only [hup.adopted.reads, Option.all_some, decide_eq_true_eq] at h
  exact (namesActive_iff hup.adopted.reads).mpr h

/-- Through a run of requests whose adopted documents name an active
session they list, no selection dangles. -/
theorem settled_throughout {requests : List Request} (h : t.Settled)
    (hrun : Meets settle Request.NamesActive t requests) :
    Throughout settle Settled t requests :=
  hrun.throughout Settled (fun _ _ hadopts ht => settle_settled hadopts ht) h

/-- The arguments of an adoption of a topology. -/
def uploading (t : WorkspaceTopology) : List UInt8 := encodeSnapshot (.fromEntries t.entries)

theorem onePane_settled : onePane.Settled := by
  refine .of_named ⟨_, List.mem_singleton_self _, rfl⟩ (fun s hs => ?_) fun tab htab => ?_
  · obtain rfl := List.mem_singleton.mp hs
    exact Nat.one_pos
  · exact List.mem_singleton.mp htab ▸ Tab.new_selected _ _

/-- The topology of one pane, uploaded to a host that has another. -/
theorem settled_throughout_adopted :
    let requests : List Request := [
      ⟨4, (uniform 3).bytes, minting 10⟩, ⟨0, uploading onePane, minting 11⟩]
    Throughout settle Settled onePane requests ∧
      (run settle onePane requests).tree.activeSessionId = some (uniform 1) := by
  refine ⟨settled_throughout onePane_settled ⟨?_, ?_, trivial⟩, by decide +kernel⟩
  · exact fun state uploaded hup => absurd hup.intent (by decide)
  · exact namesActive_of_uploaded (by decide +kernel)

/-- An upload that names no active session leaves none. -/
theorem unnamed_adoption :
    let upload := { onePane with tree := { onePane.tree with activeSessionId := none } }
    onePane.Settled ∧ ¬ Throughout settle Settled onePane [⟨0, uploading upload, minting 10⟩] := by
  refine ⟨onePane_settled, fun h => ?_⟩
  obtain ⟨s, -, hactive⟩ := h.last.named
  have hnone : (run settle onePane [⟨0, uploading
      { onePane with tree := { onePane.tree with activeSessionId := none } }, minting 10⟩]).tree.activeSessionId =
      none := by decide +kernel
  rw [hnone] at hactive
  cases hactive

/-! ## §4 Zooms -/

/-- What a request meets that brings the focus behind no zoom. -/
structure Request.Shows (t : WorkspaceTopology) (r : Request) : Prop where
  move : r.intent = some .movePane →
    ∀ moved, decodeMove r.args = .ok moved → MoveSeen t moved r.context.ids
  dock : r.intent = some .dockPaneAtTabEdge →
    ∀ dock, decodeDockAtTabEdge r.args = .ok dock → DockSeen t dock r.context.ids
  zoom : r.intent = some .setZoom →
    ∀ pane, decodeFlag r.args = .ok (pane, true) → ZoomSeen t pane
  adopt : ∀ state uploaded, r.Uploads state uploaded → ∀ tab ∈ uploaded.pruned.allTabs, tab.Unhidden

theorem settle_unhidden (hshows : r.Shows t) (h : ∀ tab ∈ t.allTabs, tab.Unhidden) :
    ∀ tab ∈ (settle t r).allTabs, tab.Unhidden := by
  rcases settle_cases t r with heq | happlied
  · rw [heq]
    exact h
  · generalize settle t r = t' at happlied ⊢
    rcases applied_cases True happlied (fun _ => hshows.move) (fun _ => hshows.dock)
      (fun _ => hshows.zoom) with ⟨panes, tabs, hedit⟩ | ⟨state, uploaded, hup, htree, hring⟩ |
      ⟨layout, i, j, s, tab, hrelays, rfl⟩
    · exact hedit.derived.keeps (fun _ _ step => step.unhidden trivial) Tab.new_unhidden h
    · have hall : t'.allTabs = uploaded.pruned.allTabs := by
        rw [allTabs, allTabs, htree, hring, pruned_tree]
      rw [hall]
      exact hshows.adopt state uploaded hup
    · intro x hx
      rcases hrelays.tabs x hx with hold | rfl
      · exact h x hold
      · exact .inl rfl

/-- Through a run of such requests, the zoom of every tab, where there is
one, stays on the pane it has focused. -/
theorem unhidden_throughout {requests : List Request} (h : ∀ tab ∈ t.allTabs, tab.Unhidden)
    (hrun : Meets settle Request.Shows t requests) :
    Throughout settle (fun t => ∀ tab ∈ t.allTabs, tab.zoomedPane = none ∨
      tab.zoomedPane = tab.activePane) t requests :=
  hrun.throughout (fun t => ∀ tab ∈ t.allTabs, tab.Unhidden)
    (fun _ _ hshows ht => settle_unhidden hshows ht) h

/-- Two panes side by side, the second one focused. -/
def twoPanes : WorkspaceTopology := settle onePane
  ⟨6, (uniform 3).bytes ++ [0, 0] ++ (uniform 4).bytes ++ [0, 0], minting 10⟩

/-- A zoom on the focused pane, and then a focus on the other one. -/
theorem unhidden_throughout_zoomed :
    let requests : List Request := [
      ⟨14, (uniform 4).bytes ++ [1], minting 11⟩, ⟨10, (uniform 3).bytes, minting 12⟩]
    Throughout settle (fun t => ∀ tab ∈ t.allTabs, tab.zoomedPane = none ∨
        tab.zoomedPane = tab.activePane) twoPanes requests ∧
      (run settle twoPanes requests).allTabs.map Tab.activePane = [some (uniform 3)] := by
  have hshows : ∀ {t : WorkspaceTopology} {r : Request}, r.intent ≠ some .movePane →
      r.intent ≠ some .dockPaneAtTabEdge → r.intent ≠ some .adoptWorkspace →
      (r.intent = some .setZoom → ∀ pane, decodeFlag r.args = .ok (pane, true) → ZoomSeen t pane) →
      r.Shows t := fun hmove hdock hadopt hzoom =>
    ⟨fun h => absurd h hmove, fun h => absurd h hdock, hzoom, fun _ _ hup => absurd hup.intent hadopt⟩
  refine ⟨unhidden_throughout (by decide +kernel)
    ⟨hshows (by decide) (by decide) (by decide) fun _ pane hpane tab hholds => ?_,
      hshows (by decide) (by decide) (by decide) fun h => absurd h (by decide), trivial⟩,
    by decide +kernel⟩
  have hfocus : ∀ tab ∈ twoPanes.tree.tabs, tab.activePane = some (uniform 4) := by decide +kernel
  have hargs : decodeFlag ((uniform 4).bytes ++ [1]) = .ok (uniform 4, true) := by decide +kernel
  obtain ⟨i, j, s, -, hs, ht⟩ := hholds
  obtain ⟨rfl, -⟩ := Prod.mk.inj (Outcome.ok.inj (hargs.symm.trans hpane))
  exact hfocus tab (TreeWorkspace.tabs_subset hs (List.mem_of_getElem? ht))

/-- A zoom on the focused pane, and then a move of the other one below it,
which brings the focus to the pane the zoom hides. -/
theorem move_behind_zoom :
    let requests : List Request := [
      ⟨14, (uniform 4).bytes ++ [1], minting 11⟩,
      ⟨7, (uniform 3).bytes ++ (uniform 4).bytes ++ [1, 0], minting 12⟩]
    (∀ tab ∈ twoPanes.allTabs, tab.zoomedPane = none ∨ tab.zoomedPane = tab.activePane) ∧
      ¬ Throughout settle (fun t => ∀ tab ∈ t.allTabs, tab.zoomedPane = none ∨
        tab.zoomedPane = tab.activePane) twoPanes requests := by
  refine ⟨by decide +kernel, fun h => ?_⟩
  have hhidden : (run settle twoPanes [⟨14, (uniform 4).bytes ++ [1], minting 11⟩,
      ⟨7, (uniform 3).bytes ++ (uniform 4).bytes ++ [1, 0], minting 12⟩]).allTabs.map
        (fun tab => (tab.zoomedPane, tab.activePane)) = [(some (uniform 4), some (uniform 3))] := by
    decide +kernel
  obtain ⟨tab, htab, heq⟩ := List.mem_map.mp (hhidden ▸ List.mem_singleton_self _)
  obtain ⟨hzoom, hactive⟩ := Prod.mk.inj heq
  rcases h.last tab htab with hnone | hsame
  · rw [hzoom] at hnone
    cases hnone
  · rw [hzoom, hactive] at hsame
    exact absurd hsame (by decide)

end SlopDesk.Document
