/-
SlopDesk.Document.Structure — the structure of a topology, and what the two
intents whose trees come from the client may do to it.

A topology is structured when every pane is in one place, no tab id and no
split id is there twice, and every tree is shaped and within the depth cap.
A topology is read from a document through its outline: the tabs the
document lists, each with its layout. Adoptions and new layouts are taken
with less than all of this checked; `structured_iff_sound` says what else
they have to bring themselves.

  §1 Layouts     — a tree by its layout.
  §2 Structure   — of a topology, by its outline.
  §3 New layouts — the outline after one.
  §4 Documents   — the outline of a document.
  §5 Payloads    — the two intents.
-/
import SlopDesk.Document.TopologyRuns

namespace SlopDesk.Document

open SlopDesk.Base
open SlopDesk.Wire (WireError RawUuid)
open SlopDesk.Tree
open WorkspaceTopology

/-! ## §1 Layouts -/

namespace WorkspaceLayoutNode

mutual

/-- The panes of a layout. -/
def panes : WorkspaceLayoutNode → List PaneId
  | .leaf pane => [pane]
  | .split _ _ children => panesOf children

def panesOf : List WorkspaceLayoutNode → List PaneId
  | [] => []
  | child :: rest => panes child ++ panesOf rest

end

mutual

/-- The ids of its splits. -/
def splitIds : WorkspaceLayoutNode → List SplitNodeId
  | .leaf _ => []
  | .split id _ children => id :: splitIdsOf children

def splitIdsOf : List WorkspaceLayoutNode → List SplitNodeId
  | [] => []
  | child :: rest => splitIds child ++ splitIdsOf rest

end

mutual

/-- How many levels it has. -/
def depth : WorkspaceLayoutNode → Nat
  | .leaf _ => 1
  | .split _ _ children => 1 + depthOf children

def depthOf : List WorkspaceLayoutNode → Nat
  | [] => 0
  | child :: rest => max (depth child) (depthOf rest)

end

/-- The axis of a split. -/
def axis? : WorkspaceLayoutNode → Option SplitAxis
  | .leaf _ => none
  | .split _ axis _ => some axis

/-- Every split has at least two children. -/
inductive Branching : WorkspaceLayoutNode → Prop
  | leaf {pane : RawUuid} : Branching (.leaf pane)
  | split {id : RawUuid} {axis : SplitAxis} {children : List WorkspaceLayoutNode}
      (arity : 2 ≤ children.length) (nodes : ∀ child ∈ children, Branching child) :
      Branching (.split id axis children)

/-- No child of a split is a split along the same axis. -/
inductive Alternating : WorkspaceLayoutNode → Prop
  | leaf {pane : RawUuid} : Alternating (.leaf pane)
  | split {id : RawUuid} {axis : SplitAxis} {children : List WorkspaceLayoutNode}
      (crossed : ∀ child ∈ children, child.axis? ≠ some axis)
      (nodes : ∀ child ∈ children, Alternating child) : Alternating (.split id axis children)

theorem panesOf_eq (children : List WorkspaceLayoutNode) : panesOf children = children.flatMap panes := by
  induction children with
  | nil => rfl
  | cons child rest ih => simp [panesOf, ih]

theorem splitIdsOf_eq (children : List WorkspaceLayoutNode) :
    splitIdsOf children = children.flatMap splitIds := by
  induction children with
  | nil => rfl
  | cons child rest ih => simp [splitIdsOf, ih]

end WorkspaceLayoutNode

section

variable {node : SplitNode}

theorem axis_layoutOf (node : SplitNode) : (layoutOf node).axis? = node.axis? := by
  cases node <;> rfl

theorem panes_layoutOf (node : SplitNode) : (layoutOf node).panes = node.allPaneIds := by
  induction node with
  | leaf => rfl
  | split id axis children ih =>
    simp only [layoutOf, WorkspaceLayoutNode.panes, layoutsOf_eq, WorkspaceLayoutNode.panesOf_eq,
      List.flatMap_map, SplitNode.allPaneIds_split]
    exact List.flatMap_congr ih

theorem depth_layoutOf (node : SplitNode) : (layoutOf node).depth = node.depth := by
  induction node with
  | leaf => rfl
  | split id axis children ih =>
    have hof : WorkspaceLayoutNode.depthOf (layoutsOf children) = SplitNode.depthOf children := by
      induction children with
      | nil => rfl
      | cons child rest ihrest =>
        obtain ⟨weight, node⟩ := child
        rw [layoutsOf, WorkspaceLayoutNode.depthOf, SplitNode.depthOf, ih _ List.mem_cons_self,
          ihrest fun c hc => ih c (List.mem_cons_of_mem _ hc)]
    rw [layoutOf, WorkspaceLayoutNode.depth, SplitNode.depth, hof]

theorem shaped_iff_layoutOf : Shaped node ↔ (layoutOf node).Branching ∧ (layoutOf node).Alternating := by
  constructor
  · intro h
    induction h with
    | leaf => exact ⟨.leaf, .leaf⟩
    | split arity nodes crossed ih =>
      rw [layoutOf, layoutsOf_eq]
      refine ⟨.split (by simpa using arity) fun child hc => ?_,
        .split (fun child hc => ?_) fun child hc => ?_⟩ <;>
        obtain ⟨c, hmem, rfl⟩ := List.mem_map.mp hc
      · exact (ih c hmem).1
      · rw [axis_layoutOf]
        exact crossed c hmem
      · exact (ih c hmem).2
  · induction node with
    | leaf => exact fun _ => .leaf
    | split id axis children ih =>
      rw [layoutOf, layoutsOf_eq]
      rintro ⟨hbranching, halternating⟩
      cases hbranching with
      | split arity branching =>
        cases halternating with
        | split crossed alternating =>
          refine .split (by simpa using arity) (fun c hc => ?_) fun c hc => ?_
          · exact ih c hc ⟨branching _ (List.mem_map_of_mem hc), alternating _ (List.mem_map_of_mem hc)⟩
          · grind [axis_layoutOf]

theorem layoutOf_rebuilt (layout : WorkspaceLayoutNode) : layoutOf (rebuilt layout) = layout := by
  induction layout with
  | leaf => rfl
  | split id axis children ih =>
    rw [rebuilt, layoutOf, layoutsOf_eq, rebuiltAll_eq, List.map_map]
    congr 1
    exact (List.map_congr_left ih).trans (List.map_id _)

theorem readWeights_length (state : HostWorkspaceState) (id : RawUuid) (count : Nat) :
    (readWeights state id count).length = count := by
  unfold readWeights
  cases h : ((state.get (.splitNode id Field.splitNodeWeight)).bind decodeWeights).filter
      fun weights => weights.length = count with
  | none => simp
  | some weights => simpa using (Option.filter_eq_some_iff.mp h).2

/-- A tree that is read has the layout it is read from: there are as many
weights as children. -/
theorem layoutOf_readSplitNode (state : HostWorkspaceState) (layout : WorkspaceLayoutNode) :
    layoutOf (readSplitNode state layout) = layout := by
  induction layout with
  | leaf => rfl
  | split id axis children ih =>
    have hchildren : ∀ (weights : List SplitWeight) (list : List WorkspaceLayoutNode),
        weights.length = list.length → (∀ child ∈ list, layoutOf (readSplitNode state child) = child) →
        layoutsOf (readSplitNodes state weights list) = list := by
      intro weights list hlen hread
      induction list generalizing weights with
      | nil => simp [readSplitNodes, layoutsOf]
      | cons child rest ihrest =>
        cases weights with
        | nil => simp at hlen
        | cons weight weights =>
          rw [readSplitNodes, layoutsOf, hread child List.mem_cons_self,
            ihrest weights (by simpa using hlen) fun c hc => hread c (List.mem_cons_of_mem _ hc)]
    rw [readSplitNode, layoutOf, hchildren _ children (readWeights_length ..) ih]

end

/-! ## §2 Structure -/

namespace WorkspaceTopology

/-- Every tab, open or closed, with the layout of its tree. -/
def outline (t : WorkspaceTopology) : List (TabId × WorkspaceLayoutNode) :=
  t.allTabs.map fun tab => (tab.id, layoutOf tab.root)

/-- The ids of the splits of every tree. -/
def splitIds (t : WorkspaceTopology) : List SplitNodeId := t.outline.flatMap fun entry => entry.2.splitIds

/-- Every pane in one place, every tab id and every split id once, and
every tree shaped and within the depth cap. -/
structure Structured (t : WorkspaceTopology) : Prop where
  placed : t.placed.Nodup
  tabIds : t.tabIds.Nodup
  splitIds : t.splitIds.Nodup
  shaped : ∀ tab ∈ t.allTabs, Shaped tab.root
  depth : ∀ tab ∈ t.allTabs, tab.root.depth ≤ maxDepth

theorem tabIds_eq (t : WorkspaceTopology) : t.tabIds = t.outline.map Prod.fst := by
  rw [WorkspaceTopology.tabIds, outline, allTabs, TreeWorkspace.tabIds_eq, ← List.map_eq_flatMap,
    List.map_map, List.map_append, List.map_map]
  rfl

theorem shaped_iff_outline (t : WorkspaceTopology) : (∀ tab ∈ t.allTabs, Shaped tab.root) ↔
    ∀ entry ∈ t.outline, entry.2.Branching ∧ entry.2.Alternating := by
  simp only [outline, List.forall_mem_map, shaped_iff_layoutOf]

theorem depth_iff_outline (t : WorkspaceTopology) : (∀ tab ∈ t.allTabs, tab.root.depth ≤ maxDepth) ↔
    ∀ entry ∈ t.outline, entry.2.depth ≤ maxDepth := by
  simp only [outline, List.forall_mem_map, depth_layoutOf]

end WorkspaceTopology

/-! ## §3 New layouts -/

variable {t t' uploaded : WorkspaceTopology} {state : HostWorkspaceState} {r : Request}
  {args : List UInt8} {layout : WorkspaceLayoutNode} {i j : Nat} {s : Session} {tab : Tab}

/-- The layouts of the tabs of other ids. -/
def others (t : WorkspaceTopology) (id : TabId) : List (TabId × WorkspaceLayoutNode) :=
  t.outline.filter fun entry => entry.1 ≠ id

theorem Relays.outline_cut (h : Relays args t layout i j s tab) :
    ∃ before after, t.outline = before ++ (tab.id, layoutOf tab.root) :: after ∧
      (t.withTree (t.tree.setSession i (s.setTab j (relaid tab layout)))).outline =
        before ++ (tab.id, layout) :: after := by
  obtain ⟨pre, post, hsessions, rfl⟩ := Position.of_getElem? h.session
  obtain ⟨left, right, htabs, rfl⟩ := Position.of_getElem? h.found
  let outlineOf := fun tabs : List Tab => tabs.map fun tab => (tab.id, layoutOf tab.root)
  refine ⟨outlineOf (pre.flatMap Session.tabs ++ left),
    outlineOf (right ++ post.flatMap Session.tabs ++ t.closedTabs.map ClosedTab.tab), ?_, ?_⟩
  · simp [outline, allTabs, TreeWorkspace.tabs, hsessions, htabs, outlineOf]
  · have hrelaid : layoutOf (relaid tab layout).root = layout := layoutOf_rebuilt layout
    simp [outline, allTabs, TreeWorkspace.tabs, TreeWorkspace.setSession, Session.setTab, withTree,
      hsessions, htabs, outlineOf, hrelaid]
    rfl

theorem Relays.placed_perm (h : Relays args t layout i j s tab) :
    (t.withTree (t.tree.setSession i (s.setTab j (relaid tab layout)))).placed.Perm t.placed := by
  refine List.perm_iff_count.mpr fun p => ?_
  have hsessions := Position.count_set Session.placed p (y := s.setTab j (relaid tab layout)) h.session
  have htabs := Position.count_set Tab.allPaneIds p (y := relaid tab layout) h.found
  have hpanes := h.panes.count_eq p
  simp only [Session.count_placed, Session.setTab, Session.detachedIds] at hsessions
  simp only [WorkspaceTopology.placed, TreeWorkspace.placed, TreeWorkspace.setSession, withTree,
    List.count_append, Session.setTab]
  omega

theorem validLeaves_branching {leaves : List PaneId} (h : validLeaves layout = some leaves) :
    layout.Branching := by
  induction layout generalizing leaves with
  | leaf pane => exact .leaf
  | split id axis children ih =>
    have hof : ∀ (list : List WorkspaceLayoutNode) (out : List PaneId),
        validLeavesOf list = some out → (∀ child ∈ list, ∀ leaves, validLeaves child = some leaves →
          child.Branching) → ∀ child ∈ list, child.Branching := by
      intro list
      induction list with
      | nil => exact fun _ _ _ child hc => absurd hc List.not_mem_nil
      | cons head rest ihrest =>
        grind [validLeavesOf]
    unfold validLeaves at h
    split at h
    · cases h
    · split at h
      · cases h
      · rename_i out hout
        exact .split (by omega) (hof children out hout fun child hc leaves hl => ih child hc hl)

/-- What a new layout has to bring itself: no split along its parent's
axis, and no split id twice, in it or in another tab. -/
theorem Relays.structured_iff (h : Relays args t layout i j s tab) (ht : t.Structured)
    (heq : t' = t.withTree (t.tree.setSession i (s.setTab j (relaid tab layout))))
    (haccepted : Accepted t') : t'.Structured ↔ layout.Alternating ∧
      (layout.splitIds ++ (others t tab.id).flatMap fun entry => entry.2.splitIds).Nodup := by
  obtain ⟨before, after, hold, hnew⟩ := h.outline_cut
  rw [← heq] at hnew
  have hids := ht.tabIds
  rw [tabIds_eq, hold, List.map_append, List.map_cons] at hids
  have hothers : others t tab.id = before ++ after := by
    have hnodup := List.nodup_append.mp hids
    have hbefore : ∀ entry ∈ before, entry.1 ≠ tab.id := fun entry hmem =>
      hnodup.2.2 entry.1 (List.mem_map_of_mem hmem) tab.id List.mem_cons_self
    have hafter : ∀ entry ∈ after, entry.1 ≠ tab.id := fun entry hmem hsame =>
      (List.nodup_cons.mp hnodup.2.1).1 (List.mem_map.mpr ⟨entry, hmem, hsame⟩)
    rw [others, hold, List.filter_append, List.filter_cons_of_neg (by simp),
      List.filter_eq_self.mpr fun entry hmem => by simpa using hbefore entry hmem,
      List.filter_eq_self.mpr fun entry hmem => by simpa using hafter entry hmem]
  have hsplits : t'.splitIds.Perm
      (layout.splitIds ++ (others t tab.id).flatMap fun entry => entry.2.splitIds) := by
    rw [WorkspaceTopology.splitIds, hnew, hothers, List.flatMap_append, List.flatMap_cons,
      List.flatMap_append]
    exact List.perm_append_comm_assoc _ _ _
  have hshaped := (shaped_iff_outline t).mp ht.shaped
  rw [hold] at hshaped
  constructor
  · intro hstructured
    have hall := (shaped_iff_outline t').mp hstructured.shaped
    rw [hnew] at hall
    exact ⟨(hall (tab.id, layout) (by simp)).2, hsplits.nodup_iff.mp hstructured.splitIds⟩
  · rintro ⟨halternating, hnodup⟩
    refine ⟨?_, ?_, hsplits.nodup_iff.mpr hnodup, ?_, fun x hx => ?_⟩
    · rw [heq]
      exact h.placed_perm.nodup_iff.mpr ht.placed
    · rw [tabIds_eq, hnew, List.map_append, List.map_cons]
      exact hids
    · obtain ⟨leaves, hleaves, -⟩ := h.leaves
      refine (shaped_iff_outline t').mpr fun entry hentry => ?_
      rw [hnew, List.mem_append, List.mem_cons] at hentry
      rcases hentry with hmem | rfl | hmem
      · exact hshaped entry (by simp [hmem])
      · exact ⟨validLeaves_branching hleaves, halternating⟩
      · exact hshaped entry (by simp [hmem])
    · rcases List.mem_append.mp hx with hopen | hclosed
      · exact haccepted.depth x hopen
      · rw [heq] at hclosed
        exact ht.depth x (List.mem_append_right _ hclosed)

/-! ## §4 Documents -/

/-- The detached panes a session takes of those it lists: none that is
taken, and none twice. -/
def untaken (taken : List PaneId) : List (RawUuid × Option RawUuid) → List PaneId
  | [] => []
  | (pane, _) :: rest =>
    if pane ∈ taken then untaken taken rest else pane :: untaken (pane :: taken) rest

namespace HostWorkspaceState

/-- The layout of a tab. -/
def layoutAt (state : HostWorkspaceState) (id : TabId) : Option WorkspaceLayoutNode :=
  (state.get (.tab id Field.tabLayoutStructure)).bind fun cell =>
    match decodeLayout cell with
    | .ok layout => some layout
    | _ => none

/-- The tabs a session lists whose layouts can be read. -/
def tabsOf (state : HostWorkspaceState) (id : SessionId) : List (TabId × WorkspaceLayoutNode) :=
  ((state.uuidList (.session id Field.sessionTabOrder)).getD []).filterMap fun tab =>
    (state.layoutAt tab).map fun layout => (tab, layout)

/-- The panes of those tabs, and of the detached list of a session that has
one. -/
def panesOf (state : HostWorkspaceState) (id : SessionId) : List PaneId :=
  if (state.tabsOf id).isEmpty then []
  else
    let leaves := (state.tabsOf id).flatMap fun entry => entry.2.panes
    leaves ++ untaken leaves ((state.detachedPanes (.session id Field.sessionDetachedPanes)).getD [])

/-- The sessions a document lists. -/
def sessionOrder (state : HostWorkspaceState) : List SessionId :=
  (state.uuidList (.root Field.rootSessionOrder)).getD []

/-- The open tabs of a document. -/
def openTabs (state : HostWorkspaceState) : List (TabId × WorkspaceLayoutNode) :=
  state.sessionOrder.flatMap state.tabsOf

/-- The closed tabs of a document: those of the ring that are not open,
that name a session and whose layouts can be read. -/
def ringTabs (state : HostWorkspaceState) : List (TabId × WorkspaceLayoutNode) :=
  ((state.uuidList (.root Field.rootClosedTabRing)).getD []).filterMap fun tab =>
    if (state.openTabs.map Prod.fst).contains tab then none
    else if (state.uuid (.tab tab Field.tabSessionId)).isNone then none
    else (state.layoutAt tab).map fun layout => (tab, layout)

/-- Its tabs, open and closed. -/
def outline (state : HostWorkspaceState) : List (TabId × WorkspaceLayoutNode) :=
  state.openTabs ++ state.ringTabs

/-- Where its panes are. -/
def panes (state : HostWorkspaceState) : List PaneId :=
  state.sessionOrder.flatMap state.panesOf ++ state.ringTabs.flatMap fun entry => entry.2.panes

end HostWorkspaceState

/-- What is kept of a tab in the outline. -/
def outlined (tab : Tab) : TabId × WorkspaceLayoutNode := (tab.id, layoutOf tab.root)

theorem readTab_outlined (state : HostWorkspaceState) (id : TabId) :
    (readTab state id).map outlined = (state.layoutAt id).map fun layout => (id, layout) := by
  unfold readTab HostWorkspaceState.layoutAt
  cases state.get (.tab id Field.tabLayoutStructure) with
  | none => rfl
  | some cell =>
    simp only [Option.bind_eq_bind, Option.bind_some]
    cases decodeLayout cell with
    | ok layout =>
      have hlayout := layoutOf_readSplitNode state layout
      simpa [outlined] using hlayout
    | _ => rfl

theorem readTabs_outlined (state : HostWorkspaceState) (ids : List TabId) :
    (ids.filterMap (readTab state)).map outlined =
      ids.filterMap fun tab => (state.layoutAt tab).map fun layout => (tab, layout) := by
  rw [List.map_filterMap]
  exact List.filterMap_congr fun id _ => readTab_outlined state id

theorem outlined_panes (tabs : List Tab) :
    (tabs.map outlined).flatMap (fun entry => entry.2.panes) = tabs.flatMap Tab.allPaneIds := by
  rw [List.flatMap_map]
  exact List.flatMap_congr fun tab _ => panes_layoutOf tab.root

section

variable (state : HostWorkspaceState)

theorem mem_readSpecs (panes : List PaneId) (into : BTreeMap PaneId PaneSpec) (p : PaneId) :
    p ∈ readSpecs state panes into ↔ p ∈ into ∨ p ∈ panes := by
  induction panes generalizing into with
  | nil => simp [readSpecs]
  | cons pane rest ih =>
    have hstep : readSpecs state (pane :: rest) into =
        readSpecs state rest (into.insert pane (readSpec state pane)) := rfl
    rw [hstep, ih, Std.ExtTreeMap.mem_insert, Std.compare_eq_iff_eq, List.mem_cons]
    constructor
    · grind
    · grind

theorem readDetached_panes (listed : List (RawUuid × Option RawUuid))
    (specs : BTreeMap PaneId PaneSpec) (taken : List PaneId) (h : ∀ p, p ∈ specs ↔ p ∈ taken) :
    (readDetached state listed specs).1.map DetachedPane.pane = untaken taken listed := by
  induction listed generalizing specs taken with
  | nil => rfl
  | cons entry rest ih =>
    obtain ⟨pane, origin⟩ := entry
    unfold readDetached untaken
    by_cases hin : pane ∈ taken
    · grind
    · grind

theorem readSession_outlined (id : SessionId) : match readSession state id with
    | some s => s.tabs.map outlined = state.tabsOf id ∧ s.placed = state.panesOf id
    | none => state.tabsOf id = [] := by
  have htabs := readTabs_outlined state ((state.uuidList (.session id Field.sessionTabOrder)).getD [])
  unfold readSession
  simp only
  split
  · rename_i s hs
    split at hs
    · cases hs
    · rename_i hne
      obtain rfl := Option.some.inj hs
      have hnonempty : (state.tabsOf id).isEmpty = false := by
        rw [HostWorkspaceState.tabsOf, ← htabs, List.isEmpty_map]
        exact eq_false_of_ne_true hne
      have hleaves := outlined_panes
        (((state.uuidList (.session id Field.sessionTabOrder)).getD []).filterMap (readTab state))
      rw [htabs] at hleaves
      refine ⟨htabs, ?_⟩
      rw [HostWorkspaceState.panesOf, hnonempty, HostWorkspaceState.tabsOf, hleaves]
      refine congrArg (_ ++ ·) (readDetached_panes _ _ _ _ fun p => ?_)
      rw [mem_readSpecs]
      simp
  · rename_i hnone
    split at hnone
    · rename_i hempty
      rw [HostWorkspaceState.tabsOf, ← htabs, List.isEmpty_iff.mp hempty, List.map_nil]
    · cases hnone

theorem readSessions_outlined (ids : List SessionId) :
    ((ids.filterMap (readSession state)).flatMap Session.tabs).map outlined = ids.flatMap state.tabsOf ∧
      (ids.filterMap (readSession state)).flatMap Session.placed = ids.flatMap state.panesOf := by
  induction ids with
  | nil => exact ⟨rfl, rfl⟩
  | cons id rest ih =>
    obtain ⟨ihtabs, ihpanes⟩ := ih
    have hsession := readSession_outlined state id
    cases hread : readSession state id with
    | some s =>
      grind
    | none =>
      rw [hread] at hsession
      have hnone : state.panesOf id = [] := by rw [HostWorkspaceState.panesOf, hsession]; rfl
      rw [List.filterMap_cons_none hread, List.flatMap_cons, List.flatMap_cons, hsession, hnone,
        List.nil_append, List.nil_append]
      exact ⟨ihtabs, ihpanes⟩

theorem readClosedTabs_outlined (ring : List TabId) (live : List TabId) :
    (ring.filterMap (readClosedTab state live)).map (fun closed => outlined closed.tab) =
      ring.filterMap fun tab =>
        if live.contains tab then none
        else if (state.uuid (.tab tab Field.tabSessionId)).isNone then none
        else (state.layoutAt tab).map fun layout => (tab, layout) := by
  rw [List.map_filterMap]
  refine List.filterMap_congr fun id _ => ?_
  have htab := readTab_outlined state id
  unfold readClosedTab
  split
  · rfl
  · rw [← htab]
    cases readTab state id with
    | none => simp
    | some tab => cases state.uuid (.tab id Field.tabSessionId) <;> simp

end

theorem readClosedTab_fresh {live : List TabId} {id : TabId} {closed : ClosedTab}
    (h : readClosedTab state live id = some closed) : closed.tab.id ∉ live := by
  unfold readClosedTab at h
  split at h
  · cases h
  · rename_i hlive
    obtain ⟨tab, htab, h⟩ := Option.bind_eq_some_iff.mp h
    obtain ⟨owner, -, h⟩ := Option.bind_eq_some_iff.mp h
    obtain rfl := Option.some.inj h
    obtain ⟨rfl, -⟩ := readTab_spec htab
    simpa using hlive

/-- What a document is read as has the outline of the document and its
panes, and nothing of it is pruned. -/
theorem fromDocument_outline (h : fromDocument state = some uploaded) :
    uploaded.pruned.outline = state.outline ∧ uploaded.pruned.placed = state.panes ∧
      uploaded.tree.tabs.map outlined = state.openTabs := by
  obtain ⟨ids, hids, h⟩ := Option.bind_eq_some_iff.mp h
  simp only at h
  split at h
  · cases h
  · have horder : state.sessionOrder = ids := by rw [HostWorkspaceState.sessionOrder, hids]; rfl
    obtain ⟨htabs, hpanes⟩ := readSessions_outlined state ids
    generalize ids.filterMap (readSession state) = sessions at h htabs hpanes
    have hlive : (sessions.flatMap Session.tabs).map Tab.id = state.openTabs.map Prod.fst := by
      rw [HostWorkspaceState.openTabs, horder, ← htabs, List.map_map]
      rfl
    have hring := readClosedTabs_outlined state ((state.uuidList (.root Field.rootClosedTabRing)).getD [])
      (state.openTabs.map Prod.fst)
    have hkept : uploaded.pruned.closedTabs = uploaded.closedTabs := by
      obtain rfl := Option.some.inj h
      refine List.filter_eq_self.mpr fun c hc => ?_
      obtain ⟨id, -, hread⟩ := List.mem_filterMap.mp hc
      rw [Bool.not_eq_true', List.contains_eq_mem, decide_eq_false_iff_not]
      exact readClosedTab_fresh hread
    have htree : uploaded.pruned.tree.sessions = sessions := by
      obtain rfl := Option.some.inj h
      rfl
    have hclosed : uploaded.closedTabs.map (fun closed => outlined closed.tab) = state.ringTabs := by
      obtain rfl := Option.some.inj h
      simp only [hlive]
      exact hring
    have hopen : uploaded.tree.tabs.map outlined = state.openTabs := by
      rw [TreeWorkspace.tabs, ← pruned_tree, htree, htabs, HostWorkspaceState.openTabs, horder]
    refine ⟨?_, ?_, hopen⟩
    · rw [WorkspaceTopology.outline, allTabs, hkept, pruned_tree, List.map_append, List.map_map]
      exact congrArg₂ (· ++ ·) hopen hclosed
    · rw [WorkspaceTopology.placed, hkept, TreeWorkspace.placed, htree, hpanes,
        HostWorkspaceState.panes, horder, ← hclosed, List.flatMap_map]
      exact congrArg (_ ++ ·) (List.flatMap_congr fun closed _ => (panes_layoutOf closed.tab.root).symm)

/-- What a document has to bring itself to be adopted: no pane in two
places, no tab id and no split id twice, layouts that branch and alternate,
and none on the ring that is past the depth cap. -/
structure HostWorkspaceState.Sound (state : HostWorkspaceState) : Prop where
  panes : state.panes.Nodup
  tabs : (state.outline.map Prod.fst).Nodup
  splits : (state.outline.flatMap fun entry => entry.2.splitIds).Nodup
  shaped : ∀ entry ∈ state.outline, entry.2.Branching ∧ entry.2.Alternating
  depth : ∀ entry ∈ state.ringTabs, entry.2.depth ≤ maxDepth

theorem adopted_structured_iff (hadopted : Adopted args state uploaded)
    (htree : t'.tree = uploaded.tree) (hring : t'.closedTabs = uploaded.pruned.closedTabs) :
    t'.Structured ↔ state.Sound := by
  obtain ⟨houtline, hplaced, hopenTabs⟩ := fromDocument_outline hadopted.reads
  have hsame : t'.outline = state.outline := by
    rw [← houtline, WorkspaceTopology.outline, allTabs, htree, hring]
    rfl
  have hpanes : t'.placed = state.panes := by
    rw [← hplaced, WorkspaceTopology.placed, htree, hring]
    rfl
  have hopen : ∀ entry ∈ state.openTabs, entry.2.depth ≤ maxDepth := by
    rw [← hopenTabs]
    refine List.forall_mem_map.mpr fun tab htab => ?_
    rw [outlined, depth_layoutOf]
    exact hadopted.accepted.depth tab htab
  constructor
  · intro h
    have hdepth := (depth_iff_outline t').mp h.depth
    rw [hsame] at hdepth
    exact { panes := hpanes ▸ h.placed
            tabs := by rw [← hsame, ← tabIds_eq]; exact h.tabIds
            splits := by rw [← hsame]; exact h.splitIds
            shaped := by rw [← hsame]; exact (shaped_iff_outline t').mp h.shaped
            depth := fun entry hentry => hdepth entry (List.mem_append_right _ hentry) }
  · intro h
    exact { placed := hpanes ▸ h.panes
            tabIds := by rw [tabIds_eq, hsame]; exact h.tabs
            splitIds := by rw [WorkspaceTopology.splitIds, hsame]; exact h.splits
            shaped := (shaped_iff_outline t').mpr (by rw [hsame]; exact h.shaped)
            depth := (depth_iff_outline t').mpr (by
              rw [hsame]
              exact fun entry hentry => (List.mem_append.mp hentry).elim (hopen entry) (h.depth entry)) }

/-! ## §5 Payloads -/

/-- What an adoption or a new layout has to bring itself. -/
structure Request.Sound (t : WorkspaceTopology) (r : Request) : Prop where
  document : r.intent = some .adoptWorkspace → ∀ state, decodeSnapshot r.args = .ok state → state.Sound
  layout : r.intent = some .setTabLayout → ∀ id blob layout,
    decodeSetTabLayout r.args = .ok (id, blob) → decodeLayout blob = .ok layout →
      layout.Alternating ∧
        (layout.splitIds ++ (others t id).flatMap fun entry => entry.2.splitIds).Nodup

/-- An adoption or a new layout that is applied leaves a structured
topology structured when its payload is sound, and then only. -/
theorem structured_iff_sound (ht : t.Structured)
    (hop : r.intent = some .adoptWorkspace ∨ r.intent = some .setTabLayout)
    (happlied : r.answer t = .applied t') : t'.Structured ↔ r.Sound t := by
  rcases hop with hadopt | hlayout
  · rw [Request.answer, apply, ← Request.intent, hadopt] at happlied
    obtain ⟨-, state, uploaded, hadopted, htree, hring⟩ := adopt_applied happlied
    rw [adopted_structured_iff hadopted htree hring]
    constructor
    · refine fun h => ⟨fun _ state' hdecodes => ?_, fun hlayout => ?_⟩
      · obtain rfl := Outcome.ok.inj (hadopted.decodes.symm.trans hdecodes)
        exact h
      · rw [hadopt] at hlayout
        cases hlayout
    · exact fun h => h.document hadopt state hadopted.decodes
  · rw [Request.answer, apply, ← Request.intent, hlayout] at happlied
    obtain ⟨layout, i, j, s, tab, hrelays, heq, haccepted⟩ := setTabLayout_applied happlied
    rw [hrelays.structured_iff ht heq haccepted]
    obtain ⟨blob, hargs, hblob⟩ := hrelays.decodes
    constructor
    · refine fun h => ⟨fun hadopt => ?_, fun _ id' blob' layout' hargs' hblob' => ?_⟩
      · rw [hlayout] at hadopt
        cases hadopt
      · grind
    · exact fun h => h.layout hlayout tab.id blob layout hargs hblob

/-- Three panes side by side. -/
def threePanes : WorkspaceTopology := settle twoPanes
  ⟨6, (uniform 4).bytes ++ [0, 0] ++ (uniform 5).bytes ++ [0, 0], minting 11⟩

theorem threePanes_structured : threePanes.Structured where
  placed := by decide +kernel
  tabIds := by decide +kernel
  splitIds := by decide +kernel
  shaped := by
    have hall : threePanes.allTabs.map Tab.root = [.split (uniform 10) .horizontal
        [.leaf (uniform 3), .leaf (uniform 4), .leaf (uniform 5)]] := by decide +kernel
    refine fun tab htab => ?_
    obtain hroot : tab.root = _ := List.mem_singleton.mp (hall ▸ List.mem_map_of_mem htab)
    rw [hroot]
    refine .split (by simp) (fun child hc => ?_) fun child hc => ?_ <;>
      simp only [List.mem_cons, List.not_mem_nil, or_false] at hc
    · rcases hc with rfl | rfl | rfl <;> exact .leaf
    · rcases hc with rfl | rfl | rfl <;> simp [WeightedChild.leaf, SplitNode.axis?]
  depth := by decide +kernel

/-- A layout of the three panes, as the arguments that ask for it. -/
def layingOut (layout : WorkspaceLayoutNode) : Request :=
  ⟨24, (uniform 2).bytes ++ encodeLayout layout, minting 12⟩

theorem decodeLayout_of_rebuilt {blob : List UInt8} (h : (match decodeLayout blob with
    | .ok decoded => decide (rebuilt decoded = rebuilt layout)
    | _ => false) = true) : decodeLayout blob = .ok layout := by
  split at h
  · rename_i decoded hdecoded
    rw [hdecoded, ← layoutOf_rebuilt decoded, of_decide_eq_true h, layoutOf_rebuilt]
  · cases h

/-- One pane beside the two others, which stand one over the other. -/
theorem structured_iff_sound_crossed :
    let layout : WorkspaceLayoutNode := .split (uniform 9) .horizontal
      [.leaf (uniform 3), .split (uniform 8) .vertical [.leaf (uniform 4), .leaf (uniform 5)]]
    (layingOut layout).answer threePanes = .applied (settle threePanes (layingOut layout)) ∧
      (settle threePanes (layingOut layout)).Structured := by
  intro layout
  have happlied : (layingOut layout).answer threePanes =
      .applied (settle threePanes (layingOut layout)) := applied_of_isSome (by decide +kernel)
  refine ⟨happlied, (structured_iff_sound threePanes_structured (.inr rfl) happlied).mpr
    ⟨fun h => absurd h (by decide), fun _ id blob decoded hargs hblob => ?_⟩⟩
  have hasked : decodeSetTabLayout (layingOut layout).args = .ok (uniform 2, encodeLayout layout) := by
    decide +kernel
  obtain ⟨rfl, rfl⟩ := Prod.mk.inj (Outcome.ok.inj (hasked.symm.trans hargs))
  have hlayout : decodeLayout (encodeLayout layout) = .ok layout :=
    decodeLayout_of_rebuilt (by decide +kernel)
  obtain rfl := Outcome.ok.inj (hlayout.symm.trans hblob)
  refine ⟨.split (fun child hc => ?_) fun child hc => ?_, by decide +kernel⟩ <;>
    simp only [List.mem_cons, List.not_mem_nil, or_false] at hc
  · rcases hc with rfl | rfl <;> simp [WorkspaceLayoutNode.axis?]
  · rcases hc with rfl | rfl
    · exact .leaf
    · refine .split (fun child hc => ?_) fun child hc => ?_ <;>
        simp only [List.mem_cons, List.not_mem_nil, or_false] at hc <;> rcases hc with rfl | rfl
      · simp [WorkspaceLayoutNode.axis?]
      · simp [WorkspaceLayoutNode.axis?]
      · exact .leaf
      · exact .leaf

/-- One pane beside a row of the two others. -/
theorem row_in_row :
    let layout : WorkspaceLayoutNode := .split (uniform 9) .horizontal
      [.leaf (uniform 3), .split (uniform 8) .horizontal [.leaf (uniform 4), .leaf (uniform 5)]]
    threePanes.Structured ∧ ∃ t', (layingOut layout).answer threePanes = .applied t' ∧
      ¬ t'.Structured := by
  intro layout
  refine ⟨threePanes_structured, settle threePanes (layingOut layout),
    applied_of_isSome (by decide +kernel), fun h => ?_⟩
  have hroot : rebuilt layout ∈ (settle threePanes (layingOut layout)).allTabs.map Tab.root := by
    decide +kernel
  obtain ⟨tab, htab, hroot⟩ := List.mem_map.mp hroot
  have hshaped := h.shaped tab htab
  rw [hroot] at hshaped
  cases hshaped with
  | split arity nodes crossed =>
    exact crossed ⟨.flex F64.one, rebuilt (.split (uniform 8) .horizontal
      [.leaf (uniform 4), .leaf (uniform 5)])⟩ (by simp [rebuiltAll]) rfl

end SlopDesk.Document
