/-
SlopDesk.Document.Topology — the half of the document an intent writes
(`slopdesk-wire/src/document/topology.rs`).

A topology is the arrangement and the facts the arrangement does not hold:
which tabs have their input synchronised, which tab was focused before
which, the closed tabs a reopen can put back, and where each pane's shell
was asked to start. `entries` is what it is written as, `fromDocument` the
topology a document holds.
-/
import SlopDesk.Document.Cells

namespace SlopDesk.Document

open SlopDesk.Base
open SlopDesk.Wire (RawUuid)
open SlopDesk.Tree

/-- `CLOSED_TAB_RING_CAP`. -/
def closedTabRingCap : Nat := 25

/-- `FOCUS_MRU_CAP`. -/
def focusMruCap : Nat := 16

structure ClosedTab where
  sessionId : SessionId
  tab : Tab
  specs : BTreeMap PaneId PaneSpec

structure WorkspaceTopology where
  tree : TreeWorkspace
  syncInputTabs : BTreeSet TabId := ∅
  focusMru : BTreeMap SessionId (List TabId) := ∅
  closedTabs : List ClosedTab := []
  unattachedSessionId : Option SessionId := none
  hostDisplayName : String := ""
  spawnCwd : BTreeMap PaneId String := ∅

/-! ## Writing -/

/-- An entry for a value that may be absent. -/
def entryOf (key : WorkspaceKey) (value : Option (List UInt8)) : List WorkspaceEntry :=
  (value.map fun value => (⟨key, value⟩ : WorkspaceEntry)).toList

mutual

/-- `layout_of`: the shape, without the weights. -/
def layoutOf : SplitNode → WorkspaceLayoutNode
  | .leaf id => .leaf id
  | .split id axis children => .split id axis (layoutsOf children)

def layoutsOf : List WeightedChild → List WorkspaceLayoutNode
  | [] => []
  | ⟨_, node⟩ :: rest => layoutOf node :: layoutsOf rest

end

theorem layoutsOf_eq (children : List WeightedChild) :
    layoutsOf children = children.map fun child => layoutOf child.node := by
  induction children with
  | nil => rfl
  | cons child rest ih =>
    obtain ⟨weight, node⟩ := child
    simp [layoutsOf, ih]

mutual

def appendWeights : SplitNode → List WorkspaceEntry
  | .leaf _ => []
  | .split id _ children =>
    ⟨.splitNode id Field.splitNodeWeight,
        encodeWeights (children.map fun child => child.weight)⟩ :: appendWeightsAll children

def appendWeightsAll : List WeightedChild → List WorkspaceEntry
  | [] => []
  | ⟨_, node⟩ :: rest => appendWeights node ++ appendWeightsAll rest

end

theorem appendWeightsAll_eq (children : List WeightedChild) :
    appendWeightsAll children = children.flatMap fun child => appendWeights child.node := by
  induction children with
  | nil => rfl
  | cons child rest ih =>
    obtain ⟨weight, node⟩ := child
    simp [appendWeightsAll, ih]

namespace WorkspaceTopology

def appendRoot (t : WorkspaceTopology) : List WorkspaceEntry :=
  [⟨.root Field.rootSessionOrder, encodeUuidList (t.tree.sessions.map Session.id)⟩,
    ⟨.root Field.rootClosedTabRing, encodeUuidList (t.closedTabs.map fun closed => closed.tab.id)⟩,
    ⟨.root Field.rootHostDisplayName, encodeString t.hostDisplayName maxStringBytes⟩] ++
  entryOf (.root Field.rootActiveSessionId) (t.tree.activeSessionId.map encodeUuid) ++
  entryOf (.root Field.rootUnattachedSessionId) (t.unattachedSessionId.map encodeUuid)

/-- `append_session`. The active tab goes out as an id, never an index. -/
def appendSession (t : WorkspaceTopology) (s : Session) : List WorkspaceEntry :=
  [⟨.session s.id Field.sessionName, encodeString s.name maxStringBytes⟩,
    ⟨.session s.id Field.sessionTabOrder, encodeUuidList (s.tabs.map Tab.id)⟩,
    ⟨.session s.id Field.sessionDetachedPanes,
      encodeDetachedPanes (s.detached.map fun entry => (entry.pane, entry.originTab))⟩,
    ⟨.session s.id Field.sessionFocusMru, encodeUuidList (t.focusMru[s.id]?.getD [])⟩] ++
  entryOf (.session s.id Field.sessionActiveTabId)
    (s.tabs[s.activeTabIndex]?.map fun active => encodeUuid active.id)

def appendTab (t : WorkspaceTopology) (tab : Tab) (sessionId : SessionId) : List WorkspaceEntry :=
  [⟨.tab tab.id Field.tabTitle, encodeString tab.title maxStringBytes⟩,
    ⟨.tab tab.id Field.tabSessionId, encodeUuid sessionId⟩,
    ⟨.tab tab.id Field.tabLayoutStructure, encodeLayout (layoutOf tab.root)⟩] ++
  entryOf (.tab tab.id Field.tabActivePaneId) (tab.activePane.map encodeUuid) ++
  entryOf (.tab tab.id Field.tabZoomedPaneId) (tab.zoomedPane.map encodeUuid) ++
  entryOf (.tab tab.id Field.tabSyncInputArmed)
    (if t.syncInputTabs.contains tab.id then some (encodeBool true) else none)

def appendPane (t : WorkspaceTopology) (id : PaneId) (spec : PaneSpec) : List WorkspaceEntry :=
  [⟨.pane id Field.paneKind, encodeU8 spec.kind.asByte⟩,
    ⟨.pane id Field.paneTitle, encodeString spec.title maxStringBytes⟩] ++
  entryOf (.pane id Field.paneUserRenamed) (if spec.userRenamed then some (encodeBool true) else none) ++
  entryOf (.pane id Field.paneVideoTarget) (spec.video.map encodeVideoTarget) ++
  entryOf (.pane id Field.paneSpawnCwd)
    (t.spawnCwd[id]?.map fun cwd => encodeString cwd maxStringBytes)

/-- The entries of a table of specs, in id order. -/
def appendPanes (t : WorkspaceTopology) (specs : BTreeMap PaneId PaneSpec) : List WorkspaceEntry :=
  specs.toList.flatMap fun (id, spec) => t.appendPane id spec

def entries (t : WorkspaceTopology) : List WorkspaceEntry :=
  t.appendRoot ++
  (t.tree.sessions.flatMap fun s =>
    t.appendSession s ++ (s.tabs.flatMap fun tab => t.appendTab tab s.id ++ appendWeights tab.root) ++
      t.appendPanes s.specs) ++
  t.closedTabs.flatMap fun closed =>
    t.appendTab closed.tab closed.sessionId ++ appendWeights closed.tab.root ++ t.appendPanes closed.specs

end WorkspaceTopology

/-! ## Reading -/

namespace HostWorkspaceState

def string (s : HostWorkspaceState) (key : WorkspaceKey) : Option String := (s.get key).bind decodeString

/-- `bool`: false when absent or malformed. -/
def bool (s : HostWorkspaceState) (key : WorkspaceKey) : Bool := ((s.get key).bind decodeBool).getD false

def uuid (s : HostWorkspaceState) (key : WorkspaceKey) : Option RawUuid := (s.get key).bind decodeUuid

def uuidList (s : HostWorkspaceState) (key : WorkspaceKey) : Option (List RawUuid) :=
  (s.get key).bind decodeUuidList

def detachedPanes (s : HostWorkspaceState) (key : WorkspaceKey) :
    Option (List (RawUuid × Option RawUuid)) :=
  (s.get key).bind decodeDetachedPanes

end HostWorkspaceState

/-- The weights `read_split_node` gives the children of a split: those of
its cell, when there are as many as there are children, else even ones. -/
def readWeights (state : HostWorkspaceState) (id : RawUuid) (count : Nat) : List SplitWeight :=
  let stored := ((state.get (.splitNode id Field.splitNodeWeight)).bind decodeWeights).filter
    fun weights => weights.length = count
  (stored.getD (List.replicate count .default)).map SplitWeight.repaired

mutual

def readSplitNode (state : HostWorkspaceState) : WorkspaceLayoutNode → SplitNode
  | .leaf id => .leaf id
  | .split id axis children =>
    .split id axis (readSplitNodes state (readWeights state id children.length) children)

def readSplitNodes (state : HostWorkspaceState) (weights : List SplitWeight) :
    List WorkspaceLayoutNode → List WeightedChild
  | [] => []
  | child :: rest =>
    match weights with
    | [] => []
    | weight :: weights => ⟨weight, readSplitNode state child⟩ :: readSplitNodes state weights rest

end

/-- `read_tab`: a focus or a zoom that names no leaf is dropped. -/
def readTab (state : HostWorkspaceState) (id : TabId) : Option Tab := do
  let cell ← state.get (.tab id Field.tabLayoutStructure)
  let layout ← match decodeLayout cell with
    | .ok layout => some layout
    | _ => none
  let root := readSplitNode state layout
  let paneAt := fun field => (state.uuid (.tab id field)).filter fun pane => root.allPaneIds.contains pane
  pure {
    id := id
    title := (state.string (.tab id Field.tabTitle)).getD ""
    root := root
    activePane := (paneAt Field.tabActivePaneId).or root.firstLeafId
    zoomedPane := paneAt Field.tabZoomedPaneId }

def readSpec (state : HostWorkspaceState) (id : PaneId) : PaneSpec where
  kind := .fromByte (((state.get (.pane id Field.paneKind)).bind decodeU8).getD 0)
  title := (state.string (.pane id Field.paneTitle)).getD defaultPaneTitle
  video := (state.get (.pane id Field.paneVideoTarget)).bind decodeVideoTarget
  userRenamed := state.bool (.pane id Field.paneUserRenamed)

def readSpawnCwd (state : HostWorkspaceState) (id : PaneId) : Option String :=
  state.string (.pane id Field.paneSpawnCwd)

/-- The specs of these panes, put into a table. -/
def readSpecs (state : HostWorkspaceState) (panes : List PaneId) (into : BTreeMap PaneId PaneSpec) :
    BTreeMap PaneId PaneSpec :=
  panes.foldl (fun specs id => specs.insert id (readSpec state id)) into

/-- The start directories of these panes, put into a table. -/
def readSpawnCwds (state : HostWorkspaceState) (panes : List PaneId) (into : BTreeMap PaneId String) :
    BTreeMap PaneId String :=
  panes.foldl (fun table id =>
    match readSpawnCwd state id with
    | some cwd => table.insert id cwd
    | none => table) into

/-- The detached list of `read_session`: a pane that has a spec already is
skipped. -/
def readDetached (state : HostWorkspaceState) :
    List (RawUuid × Option RawUuid) → BTreeMap PaneId PaneSpec → List DetachedPane × BTreeMap PaneId PaneSpec
  | [], specs => ([], specs)
  | (pane, origin) :: rest, specs =>
    if specs.contains pane then readDetached state rest specs
    else
      let (detached, specs) := readDetached state rest (specs.insert pane (readSpec state pane))
      (⟨pane, origin⟩ :: detached, specs)

/-- `read_session`: a session with no usable tab is not a session. -/
def readSession (state : HostWorkspaceState) (id : SessionId) : Option Session :=
  let tabs := ((state.uuidList (.session id Field.sessionTabOrder)).getD []).filterMap (readTab state)
  if tabs.isEmpty then none
  else
    let specs := readSpecs state (tabs.flatMap Tab.allPaneIds) ∅
    let (detached, specs) := readDetached state
      ((state.detachedPanes (.session id Field.sessionDetachedPanes)).getD []) specs
    some {
      id := id
      name := (state.string (.session id Field.sessionName)).getD ""
      tabs := tabs
      activeTabIndex := ((state.uuid (.session id Field.sessionActiveTabId)).bind fun active =>
        tabs.findIdx? fun tab => tab.id = active).getD 0
      specs := specs
      detached := detached }

/-- The focus rings of these sessions. -/
def readFocusMru (state : HostWorkspaceState) (sessions : List Session) : BTreeMap SessionId (List TabId) :=
  sessions.foldl (fun rings s =>
    match state.uuidList (.session s.id Field.sessionFocusMru) with
    | some ids => if ids.isEmpty then rings else rings.insert s.id ids
    | none => rings) ∅

/-- Those of these tabs that are armed. -/
def readSyncInput (state : HostWorkspaceState) (tabs : List Tab) : BTreeSet TabId :=
  tabs.foldl (fun armed tab =>
    if state.bool (.tab tab.id Field.tabSyncInputArmed) then armed.insert tab.id else armed) ∅

/-- One entry of the closed ring: a tab that is open, or whose session the
document does not name, is dropped. -/
def readClosedTab (state : HostWorkspaceState) (live : List TabId) (id : TabId) : Option ClosedTab :=
  if live.contains id then none
  else do
    let tab ← readTab state id
    let owner ← state.uuid (.tab id Field.tabSessionId)
    pure ⟨owner, tab, readSpecs state tab.allPaneIds ∅⟩

def WorkspaceTopology.fromDocument (state : HostWorkspaceState) : Option WorkspaceTopology := do
  let sessionIds ← state.uuidList (.root Field.rootSessionOrder)
  let sessions := sessionIds.filterMap (readSession state)
  if sessions.isEmpty then none
  else
    let tabs := sessions.flatMap Session.tabs
    let ring := (state.uuidList (.root Field.rootClosedTabRing)).getD []
    let closedTabs := ring.filterMap (readClosedTab state (tabs.map Tab.id))
    let spawnCwd := readSpawnCwds state (sessions.flatMap fun s => s.specs.keys) ∅
    some {
      tree := ⟨sessions, state.uuid (.root Field.rootActiveSessionId)⟩
      syncInputTabs := readSyncInput state tabs
      focusMru := readFocusMru state sessions
      closedTabs := closedTabs
      unattachedSessionId := state.uuid (.root Field.rootUnattachedSessionId)
      hostDisplayName := (state.string (.root Field.rootHostDisplayName)).getD ""
      spawnCwd := readSpawnCwds state (closedTabs.flatMap fun closed => closed.tab.allPaneIds) spawnCwd }

end SlopDesk.Document
