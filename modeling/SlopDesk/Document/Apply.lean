/-
SlopDesk.Document.Apply — one client's request as a new topology, or a
refusal (`slopdesk-wire/src/document/apply.rs`).

Every identity a request names must be there and every one it proposes
must not, and what an operation answers passes `accept` before it is
taken. The host decides with it and the client builds its overlay with it.
`projectKey` resolves a pane's project, for the successor of a closed tab;
`lower` stands for `char::to_lowercase` in the order of the tabs.
-/
import SlopDesk.Document.Intent
import SlopDesk.Document.Topology
import SlopDesk.Tree.TreeOps

namespace SlopDesk.Document

open SlopDesk.Base
open SlopDesk.Wire (WireError)
open SlopDesk.Tree

inductive IntentOutcome where
  | applied (next : WorkspaceTopology)
  | rejectedStale
  | rejectedInvalid
  | rejectedNotFound
  | unknownOp

namespace IntentOutcome

def topology : IntentOutcome → Option WorkspaceTopology
  | .applied next => some next
  | _ => none

/-- The topology a holder of `t` is left with. -/
def resulting (outcome : IntentOutcome) (t : WorkspaceTopology) : WorkspaceTopology :=
  outcome.topology.getD t

end IntentOutcome

/-- The rest of an operation once its arguments decode; refused where they
do not. -/
def withArgs (args : Outcome WireError α) (rest : α → IntentOutcome) : IntentOutcome :=
  match args with
  | .ok value => rest value
  | _ => .rejectedInvalid

/-! ## Acceptance -/

def accept (next : WorkspaceTopology) : IntentOutcome :=
  if !next.tree.invariantHolds then .rejectedInvalid
  else if next.tree.tabs.any fun tab => tab.root.depth > maxDepth then .rejectedInvalid
  else .applied next

namespace WorkspaceTopology

/-- The focus rings of the sessions that are there, without the tabs that
are not. -/
def prunedFocus (t : WorkspaceTopology) (liveTabs : List TabId) : BTreeMap SessionId (List TabId) :=
  t.tree.sessions.foldl (fun focus s =>
    let kept := (t.focusMru[s.id]?.getD []).filter fun tab => liveTabs.contains tab
    if kept.isEmpty then focus else focus.insert s.id kept) ∅

def pruned (t : WorkspaceTopology) : WorkspaceTopology :=
  let liveTabs := t.tree.tabs.map Tab.id
  let livePanes := t.tree.sessions.flatMap (fun s => s.specs.keys) ++
    t.closedTabs.flatMap fun closed => closed.specs.keys
  { t with
    syncInputTabs := t.syncInputTabs.filter fun tab => liveTabs.contains tab
    spawnCwd := t.spawnCwd.filter fun pane _ => livePanes.contains pane
    closedTabs := t.closedTabs.filter fun closed => !liveTabs.contains closed.tab.id
    focusMru := t.prunedFocus liveTabs }

def notingFocus (t : WorkspaceTopology) (tab : TabId) : WorkspaceTopology :=
  match t.tree.sessions.find? fun s => s.tabs.any fun candidate => candidate.id = tab with
  | none => t
  | some s =>
    let ring := (t.focusMru[s.id]?.getD []).filter fun id => id ≠ tab
    { t with focusMru := t.focusMru.insert s.id ((tab :: ring).take focusMruCap) }

/-! ## Lookups -/

def hasPane (t : WorkspaceTopology) (pane : PaneId) : Bool :=
  t.tree.contains pane || t.tree.isDetached pane

def hasTab (t : WorkspaceTopology) (tab : TabId) : Bool :=
  t.tree.sessions.any fun s => s.tabs.any fun candidate => candidate.id = tab

def hasSession (t : WorkspaceTopology) (session : SessionId) : Bool :=
  t.tree.sessions.any fun candidate => candidate.id = session

/-- `is_free`: the panes of the reopen ring are in use too. -/
def isFree (t : WorkspaceTopology) (pane : PaneId) : Bool :=
  !t.hasPane pane && !t.closedTabs.any fun closed => closed.tab.contains pane

def sessionOfTab (t : WorkspaceTopology) (tab : TabId) : Option (Nat × Nat) := locateTab t.tree tab

def tabOfPane (t : WorkspaceTopology) (pane : PaneId) : Option TabId :=
  (t.tree.locationOf pane).map Prod.snd

/-- The first tab of that id. -/
def findTab (t : WorkspaceTopology) (tab : TabId) : Option Tab :=
  t.tree.tabs.find? fun candidate => candidate.id = tab

/-- A topology with another tree. -/
def withTree (t : WorkspaceTopology) (tree : TreeWorkspace) : WorkspaceTopology := { t with tree := tree }

/-- The start directory of a new pane, where one was given. -/
def withCwd (t : WorkspaceTopology) (pane : PaneId) (cwd : String) : WorkspaceTopology :=
  if cwd.isEmpty then t else { t with spawnCwd := t.spawnCwd.insert pane cwd }

/-! ## The closed ring and the successor -/

/-- The record of a tab that closes. -/
def closedRecord (s : Session) (tab : Tab) : ClosedTab where
  sessionId := s.id
  tab := tab
  specs := insertSpecs ∅ s.specs tab.allPaneIds

/-- `capturing`: the tab joins the ring, which forgets its oldest past the
cap. -/
def capturing (t : WorkspaceTopology) (tab : TabId) : WorkspaceTopology :=
  match t.tree.sessions.find? fun s => s.tabs.any fun candidate => candidate.id = tab with
  | none => t
  | some s =>
    match s.tabs.find? fun candidate => candidate.id = tab with
    | none => t
    | some found =>
      let ring := t.closedTabs ++ [closedRecord s found]
      { t with closedTabs := ring.drop (ring.length - closedTabRingCap) }

def soleLeaf (t : WorkspaceTopology) (tab : TabId) : Option PaneId := do
  let found ← t.findTab tab
  if found.root.leafCount = 1 then found.root.allPaneIds.head? else none

/-- `successor_after_closing`: the active tab, unless it is the one that
closes. -/
def successorAfterClosing (t : WorkspaceTopology) (closing : TabId)
    (projectKey : PaneId → Option String) (lower : Char → Char) : Option TabId := do
  let s ← t.tree.sessions.find? fun s => s.tabs.any fun candidate => candidate.id = closing
  match (s.tabs[s.activeTabIndex]?.map Tab.id).filter fun active => active ≠ closing with
  | some active => some active
  | none =>
    let ring := t.focusMru[s.id]?.getD []
    let live := s.tabs.map Tab.id
    match ring.find? fun tab => tab ≠ closing && live.contains tab with
    | some recent => some recent
    | none =>
      let tabKey := fun tab => tabProjectKey tab s projectKey
      successorAfterClose closing (projectGroupedTabOrder lower live tabKey) tabKey ring

end WorkspaceTopology

open WorkspaceTopology

/-! ## Adoption and renames -/

def adopt (args : List UInt8) (t : WorkspaceTopology) (pristine : Bool) : IntentOutcome :=
  if !pristine then .rejectedStale
  else withArgs (decodeSnapshot args) fun state =>
    match fromDocument state with
    | none => .rejectedInvalid
    | some uploaded =>
      -- the host keeps its own name and its own session
      accept (pruned { uploaded with
        hostDisplayName := t.hostDisplayName
        unattachedSessionId := t.unattachedSessionId })

/-- `rename_pane`: a rename is authorship. -/
def renamePane (args : List UInt8) (t : WorkspaceTopology) : IntentOutcome :=
  withArgs (decodeName args) fun (pane, title) =>
    if !t.hasPane pane then .rejectedNotFound
    else accept (t.withTree
      (updatingSpec t.tree pane fun spec => { spec with title := title, userRenamed := true }))

def renameTab (args : List UInt8) (t : WorkspaceTopology) : IntentOutcome :=
  withArgs (decodeName args) fun (tab, title) =>
    if !t.hasTab tab then .rejectedNotFound else accept (t.withTree (Tree.renameTab t.tree tab title))

def renameSession (args : List UInt8) (t : WorkspaceTopology) : IntentOutcome :=
  withArgs (decodeName args) fun (session, name) =>
    if !t.hasSession session then .rejectedNotFound
    else accept (t.withTree (Tree.renameSession t.tree session name))

/-! ## Closes -/

/-- `close_pane`. A detached pane has no tab to walk; a pane that is its
tab's only leaf takes the tab with it, filed on the ring. -/
def closePane (args : List UInt8) (t : WorkspaceTopology) (ids : IdSource)
    (projectKey : PaneId → Option String) (lower : Char → Char) : IntentOutcome :=
  withArgs (decodeIdentity args) fun pane =>
    if !t.hasPane pane then .rejectedNotFound
    else if t.tree.isDetached pane then accept (t.withTree (closeDetachedPane t.tree pane)).pruned
    else
      let owning := t.tabOfPane pane
      let successor := owning.bind fun tab => t.successorAfterClosing tab projectKey lower
      let next := match owning with
        | some tab => if t.soleLeaf tab = some pane then t.capturing tab else t
        | none => t
      accept (next.withTree (Tree.closePane next.tree pane successor ids)).pruned

def closeTab (args : List UInt8) (t : WorkspaceTopology) (ids : IdSource)
    (projectKey : PaneId → Option String) (lower : Char → Char) : IntentOutcome :=
  withArgs (decodeIdentity args) fun tab =>
    if !t.hasTab tab then .rejectedNotFound
    else
      let next := t.capturing tab
      let successor := next.successorAfterClosing tab projectKey lower
      accept (next.withTree (Tree.closeTab next.tree tab successor ids)).pruned

/-! ## New panes -/

def inserting (t : WorkspaceTopology) (pane target : PaneId) (axis : SplitAxis) (before : Bool)
    (cwd : String) (ids : IdSource) : IntentOutcome :=
  let grown := Tree.splitPane t.tree target axis .seeded before pane ids
  if !grown.contains pane then .rejectedInvalid
  else
    let next := (t.withTree grown).withCwd pane cwd
    accept (match next.tabOfPane pane with
      | some tab => next.notingFocus tab
      | none => next)

def splitPane (args : List UInt8) (t : WorkspaceTopology) (ids : IdSource) : IntentOutcome :=
  withArgs (decodeSplit args) fun split =>
    if !t.tree.contains split.target then .rejectedNotFound
    else if !t.isFree split.newPane then .rejectedInvalid
    else inserting t split.newPane split.target split.axis split.before split.spawnCwd ids

/-- `spawn_pane`: beside whatever the tab has focused. -/
def spawnPane (args : List UInt8) (t : WorkspaceTopology) (ids : IdSource) : IntentOutcome :=
  withArgs (decodeSplit args) fun split =>
    match (t.findTab split.target).bind fun found => found.activePane.or found.root.firstLeafId with
    | none => .rejectedNotFound
    | some target =>
      if !t.isFree split.newPane then .rejectedInvalid
      else inserting t split.newPane target split.axis split.before split.spawnCwd ids

/-! ## Moves -/

/-- `move_pane`: a pane that did not move is a refusal. -/
def movePane (args : List UInt8) (t : WorkspaceTopology) (ids : IdSource) : IntentOutcome :=
  withArgs (decodeMove args) fun moved =>
    if !t.tree.contains moved.source || !t.tree.contains moved.target then .rejectedNotFound
    else if moved.source = moved.target then .rejectedInvalid
    else
      let next := t.withTree
        (moveLeafAcrossTabs t.tree moved.source moved.target moved.axis moved.before ids)
      if next.tabOfPane moved.source ≠ next.tabOfPane moved.target then .rejectedInvalid
      else accept next

/-- Whether two lists have the same elements. -/
def sameElements (xs ys : List TabId) : Bool :=
  (xs.all fun x => ys.contains x) && ys.all fun y => xs.contains y

/-- `reorder_tabs`: a permutation or nothing. The selection follows the
tab. -/
def reorderTabs (args : List UInt8) (t : WorkspaceTopology) : IntentOutcome :=
  withArgs (decodeReorderTabs args) fun (session, wanted) =>
    match t.tree.sessionIndexOf session with
    | none => .rejectedNotFound
    | some index =>
      match t.tree.sessions[index]? with
      | none => .rejectedNotFound
      | some s =>
        if !sameElements wanted (s.tabs.map Tab.id) || wanted.length ≠ s.tabs.length then
          .rejectedInvalid
        else
          let active := s.tabs[s.activeTabIndex]?.map Tab.id
          accept (t.withTree (t.tree.setSession index
            { s with
              tabs := wanted.filterMap fun id => s.tabs.find? fun tab => tab.id = id
              activeTabIndex :=
                (active.bind fun id => wanted.findIdx? fun tab => tab = id).getD 0 }))

/-! ## Focus, zoom and synchronised input -/

def focusTab (args : List UInt8) (t : WorkspaceTopology) : IntentOutcome :=
  withArgs (decodeIdentity args) fun tab =>
    match t.sessionOfTab tab with
    | none => .rejectedNotFound
    | some (si, ti) =>
      match t.tree.sessions[si]? with
      | none => .rejectedNotFound
      | some s =>
        accept ((t.withTree { t.tree.setSession si { s with activeTabIndex := ti } with
          activeSessionId := some s.id }).notingFocus tab)

def focusPane (args : List UInt8) (t : WorkspaceTopology) : IntentOutcome :=
  withArgs (decodeIdentity args) fun pane =>
    if !t.tree.contains pane then .rejectedNotFound
    else
      let next := t.withTree (Tree.focusPane t.tree pane)
      accept (match next.tabOfPane pane with
        | some tab => next.notingFocus tab
        | none => next)

def setSyncInput (args : List UInt8) (t : WorkspaceTopology) : IntentOutcome :=
  withArgs (decodeFlag args) fun (tab, armed) =>
    if !t.hasTab tab then .rejectedNotFound
    else accept { t with
      syncInputTabs := if armed then t.syncInputTabs.insert tab else t.syncInputTabs.erase tab }

/-- `spawn_tab`: in the session asked for, which is selected first. -/
def spawnTab (args : List UInt8) (t : WorkspaceTopology) (ids : IdSource) : IntentOutcome :=
  withArgs (decodeSpawnTab args) fun spawn =>
    if !t.hasSession spawn.session then .rejectedNotFound
    else if !t.isFree spawn.newPane then .rejectedInvalid
    else
      let tab := ids.tab.1
      let grown := newTab (selectSession t.tree spawn.session) .seeded spawn.position tab spawn.newPane
      if !grown.contains spawn.newPane then .rejectedInvalid
      else accept (((t.withTree grown).withCwd spawn.newPane spawn.spawnCwd).notingFocus tab)

/-- `set_zoom`: set, not toggled. -/
def setZoom (args : List UInt8) (t : WorkspaceTopology) : IntentOutcome :=
  withArgs (decodeFlag args) fun (pane, zoomed) =>
    match locate t.tree pane with
    | none => .rejectedNotFound
    | some (si, ti) =>
      accept (t.withTree (editingTab t.tree si ti fun tab =>
        some { tab with zoomedPane := if zoomed then some pane else none }))

/-! ## Detached panes -/

def detachPane (args : List UInt8) (t : WorkspaceTopology) (ids : IdSource) : IntentOutcome :=
  withArgs (decodeIdentity args) fun pane =>
    if !t.tree.contains pane then .rejectedNotFound
    else accept (t.withTree (Tree.detachPane t.tree pane ids)).pruned

def reattachPane (args : List UInt8) (t : WorkspaceTopology) (ids : IdSource) : IntentOutcome :=
  withArgs (decodeIdentity args) fun pane =>
    if !t.tree.isDetached pane then .rejectedNotFound
    else
      let (tab, ids) := ids.tab
      let next := t.withTree (Tree.reattachPane t.tree pane tab ids).1
      if next.tree.isDetached pane then .rejectedInvalid else accept next.pruned

/-! ## Dividers -/

mutual

/-- The walk of `contains_split`. -/
def holdsSplit (split : SplitNodeId) : SplitNode → Bool
  | .leaf _ => false
  | .split id _ children => id = split || anyHoldsSplit split children

def anyHoldsSplit (split : SplitNodeId) : List WeightedChild → Bool
  | [] => false
  | ⟨_, node⟩ :: rest => holdsSplit split node || anyHoldsSplit split rest

end

/-- `contains_split`: in any tab. -/
def containsSplit (t : WorkspaceTopology) (split : SplitNodeId) : Bool :=
  t.tree.tabs.any fun tab => holdsSplit split tab.root

def setDividerWeight (args : List UInt8) (t : WorkspaceTopology) : IntentOutcome :=
  withArgs (decodeDividerWeight args) fun (split, index, weight) =>
    if !weight.isFinite || weight.lt minWeight then .rejectedInvalid
    else if !containsSplit t split then .rejectedNotFound
    else accept (t.withTree (Tree.setDividerWeight t.tree split index.toNat weight))

/-! ## Sessions -/

def newSession (args : List UInt8) (t : WorkspaceTopology) (ids : IdSource) : IntentOutcome :=
  withArgs (decodeNewSession args) fun new =>
    if t.hasSession new.session || !t.isFree new.newPane then .rejectedInvalid
    else
      let tab := ids.tab.1
      let name := if new.name.isEmpty then defaultSessionName else new.name
      let next := t.withCwd new.newPane new.spawnCwd
      accept ((next.withTree (insertSession next.tree
        (.singlePane new.session name tab new.newPane .seeded) true)).notingFocus tab)

def closeSession (args : List UInt8) (t : WorkspaceTopology) (ids : IdSource) : IntentOutcome :=
  withArgs (decodeIdentity args) fun session =>
    if !t.hasSession session then .rejectedNotFound
    else accept (t.withTree (Tree.closeSession t.tree session ids)).pruned

/-! ## Tabs -/

/-- `reopen_closed_tab`: the index counts from the newest, and past the
end of the ring the request is satisfied as it is. -/
def reopenClosedTab (args : List UInt8) (t : WorkspaceTopology) : IntentOutcome :=
  withArgs (decodeReopenClosedTab args) fun (lifoIndex, position) =>
    if t.closedTabs.length < lifoIndex.toNat + 1 then .applied t
    else
      let arrayIndex := t.closedTabs.length - (lifoIndex.toNat + 1)
      match t.closedTabs[arrayIndex]? with
      | none => .applied t
      | some restored =>
        -- where its session is gone the tab lands in the active one
        let selected := selectSession t.tree restored.sessionId
        match selected.activeSessionIndex with
        | none => .rejectedNotFound
        | some index =>
          let tree := insertTab selected restored.tab restored.specs position
          let landed := tree.sessions[index]?.any fun s =>
            s.tabs.any fun tab => tab.id = restored.tab.id
          if !landed then .rejectedInvalid
          else accept (({ t with
            tree := tree
            closedTabs := t.closedTabs.eraseIdx arrayIndex }).notingFocus restored.tab.id)

def breakPaneToTab (args : List UInt8) (t : WorkspaceTopology) (ids : IdSource) : IntentOutcome :=
  withArgs (decodeIdentity args) fun pane =>
    match t.tabOfPane pane with
    | none => .rejectedNotFound
    | some origin =>
      let next := t.withTree (Tree.breakPaneToTab t.tree pane ids.tab.1)
      match (next.tabOfPane pane).filter fun landed => landed ≠ origin with
      | none => .rejectedInvalid
      | some landed => accept (next.notingFocus landed)

/-! ## Rearrangements -/

def swapPanes (args : List UInt8) (t : WorkspaceTopology) : IntentOutcome :=
  withArgs (decodeSwapPanes args) fun (a, b) =>
    if !t.tree.contains a || !t.tree.contains b then .rejectedNotFound
    else if a = b then .rejectedInvalid
    else accept (t.withTree (Tree.swapPanes t.tree a b))

def dockPaneAtTabEdge (args : List UInt8) (t : WorkspaceTopology) (ids : IdSource) : IntentOutcome :=
  withArgs (decodeDockAtTabEdge args) fun dock =>
    if !t.tree.contains dock.source || !t.hasTab dock.tab then .rejectedNotFound
    else
      let next := t.withTree (moveLeafToTabRootEdge t.tree dock.source dock.tab dock.edge ids)
      if next.tabOfPane dock.source ≠ some dock.tab then .rejectedInvalid else accept next.pruned

mutual

def validLeaves : WorkspaceLayoutNode → Option (List PaneId)
  | .leaf id => some [id]
  | .split _ _ children =>
    if children.length < 2 then none
    else
      match validLeavesOf children with
      | none => none
      | some out => if out.Nodup then some out else none

def validLeavesOf : List WorkspaceLayoutNode → Option (List PaneId)
  | [] => some []
  | child :: rest =>
    match validLeaves child, validLeavesOf rest with
    | some leaves, some out => some (leaves ++ out)
    | _, _ => none

end

mutual

/-- `rebuilt`: every split comes back at an equal share. -/
def rebuilt : WorkspaceLayoutNode → SplitNode
  | .leaf id => .leaf id
  | .split id axis children => .split id axis (rebuiltAll children)

def rebuiltAll : List WorkspaceLayoutNode → List WeightedChild
  | [] => []
  | child :: rest => ⟨.flex F64.one, rebuilt child⟩ :: rebuiltAll rest

end

/-- `set_tab_layout`: panes are moved, none is made or dropped, and the tab
exits zoom. -/
def setTabLayout (args : List UInt8) (t : WorkspaceTopology) : IntentOutcome :=
  withArgs (decodeSetTabLayout args) fun (tab, blob) =>
    withArgs (decodeLayout blob) fun layout =>
      match t.sessionOfTab tab with
      | none => .rejectedNotFound
      | some (si, ti) =>
        match (t.tree.sessions[si]?.bind fun s => s.tabs[ti]?).map Tab.allPaneIds with
        | none => .rejectedNotFound
        | some current =>
          match validLeaves layout with
          | none => .rejectedInvalid
          | some leaves =>
            if leaves.length ≠ current.length || !sameElements leaves current then .rejectedInvalid
            else accept (t.withTree (editingTab t.tree si ti fun tab =>
              some { tab with root := rebuilt layout, zoomedPane := none }))

/-! ## Video panes -/

def bornTitle (kind : PaneKind) (video : Option VideoEndpoint) : String :=
  match (video.map VideoEndpoint.title).filter fun title => !title.isEmpty with
  | some title => title
  | none => if kind.isVideo then defaultDesktopPaneTitle else defaultPaneTitle

/-- The rest of an operation once a video blob decodes: none is no target,
and bytes that do not decode are refused. -/
def withVideo (blob : List UInt8) (rest : Option VideoEndpoint → IntentOutcome) : IntentOutcome :=
  if blob.isEmpty then rest none
  else
    match decodeVideoTarget blob with
    | none => .rejectedInvalid
    | some video => rest (some video)

def spawnDetachedPane (args : List UInt8) (t : WorkspaceTopology) : IntentOutcome :=
  withArgs (decodeSpawnDetachedPane args) fun spawn =>
    if !t.isFree spawn.newPane then .rejectedInvalid
    else withVideo spawn.video fun video =>
      let spec : PaneSpec :=
        { kind := spawn.kind, title := bornTitle spawn.kind video, video := video }
      let grown := mintDetachedPane t.tree spec spawn.newPane
      if !grown.isDetached spawn.newPane then .rejectedInvalid else accept (t.withTree grown)

/-- A spec pointed at another target: its title follows while it still
reads as the old one's. -/
def PaneSpec.retargeted (spec : PaneSpec) (video : Option VideoEndpoint) : PaneSpec :=
  let tracking := spec.video.all fun current => spec.title = current.title
  { spec with
    title := if !spec.userRenamed && tracking then bornTitle spec.kind video else spec.title
    video := video }

def setPaneVideoTarget (args : List UInt8) (t : WorkspaceTopology) : IntentOutcome :=
  withArgs (decodeSetPaneVideoTarget args) fun (pane, blob) =>
    withVideo blob fun video =>
      match t.tree.sessions.findIdx? fun s => s.specs.contains pane with
      | none => .rejectedNotFound
      | some index =>
        accept (t.withTree (editingSession t.tree index fun s =>
          s.specs[pane]?.map fun spec =>
            { s with specs := s.specs.insert pane (PaneSpec.retargeted spec video) }))

/-! ## One intent -/

/-- What an intent is decided with, besides the topology. -/
structure IntentContext where
  ids : IdSource
  pristine : Bool
  projectKey : PaneId → Option String
  lower : Char → Char

def apply (op : UInt8) (args : List UInt8) (t : WorkspaceTopology) (c : IntentContext) : IntentOutcome :=
  match WorkspaceIntentOp.fromByte op with
  | none => .unknownOp
  | some .adoptWorkspace => adopt args t c.pristine
  | some .renamePane => renamePane args t
  | some .renameTab => renameTab args t
  | some .renameSession => renameSession args t
  | some .closePane => closePane args t c.ids c.projectKey c.lower
  | some .closeTab => closeTab args t c.ids c.projectKey c.lower
  | some .splitPane => splitPane args t c.ids
  | some .spawnPane => spawnPane args t c.ids
  | some .movePane => movePane args t c.ids
  | some .reorderTabs => reorderTabs args t
  | some .focusTab => focusTab args t
  | some .focusPane => focusPane args t
  | some .setSyncInput => setSyncInput args t
  | some .spawnTab => spawnTab args t c.ids
  | some .setZoom => setZoom args t
  | some .detachPane => detachPane args t c.ids
  | some .reattachPane => reattachPane args t c.ids
  | some .setDividerWeight => setDividerWeight args t
  | some .newSession => newSession args t c.ids
  | some .closeSession => closeSession args t c.ids
  | some .reopenClosedTab => reopenClosedTab args t
  | some .breakPaneToTab => breakPaneToTab args t c.ids
  | some .swapPanes => swapPanes args t
  | some .dockPaneAtTabEdge => dockPaneAtTabEdge args t c.ids
  | some .setTabLayout => setTabLayout args t
  | some .spawnDetachedPane => spawnDetachedPane args t
  | some .setPaneVideoTarget => setPaneVideoTarget args t

end SlopDesk.Document
