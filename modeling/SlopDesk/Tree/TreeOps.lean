/-
SlopDesk.Tree.TreeOps — the operations an intent performs on the
arrangement (`slopdesk-tree/src/tree_ops.rs`).

Each takes a workspace and answers a new one; one whose target is absent,
or whose result would breach the depth cap, answers the workspace as it
was. An operation is written as what it does when it does something, under
the source's name with a question mark, and the operation itself is that
or the workspace unchanged. Identities are drawn from an `IdSource` in the
source's order; where nothing is drawn after an operation, what it leaves
of the source is not given back.
-/
import SlopDesk.Base.Position
import SlopDesk.Tree.Layout
import SlopDesk.Tree.Workspace

namespace SlopDesk.Tree

open SlopDesk.Base

/-! ## Locating -/

def locate (ws : TreeWorkspace) (pane : PaneId) : Option (Nat × Nat) :=
  Position.findMap (fun s => s.tabIndexContaining pane) ws.sessions

def locateTab (ws : TreeWorkspace) (tab : TabId) : Option (Nat × Nat) :=
  Position.findMap (fun s => s.tabIndexOf tab) ws.sessions

/-- A session with one of its tabs replaced. -/
def Session.setTab (s : Session) (index : Nat) (tab : Tab) : Session :=
  { s with tabs := s.tabs.set index tab }

/-- `editing_tab`: the edit gives the tab it makes, or nothing to
decline. -/
def editingTab (ws : TreeWorkspace) (session tab : Nat) (edit : Tab → Option Tab) : TreeWorkspace :=
  (do
    let s ← ws.sessions[session]?
    let t ← s.tabs[tab]?
    let t ← edit t
    pure (ws.setSession session (s.setTab tab t))).getD ws

def editingSession (ws : TreeWorkspace) (session : Nat) (edit : Session → Option Session) :
    TreeWorkspace :=
  (do
    let s ← ws.sessions[session]?
    let s ← edit s
    pure (ws.setSession session s)).getD ws

/-- `REFOCUS_BOUND`: `1000.0`. -/
def refocusBound : F64 := ⟨0x408F400000000000⟩

/-- `neighbour`: the pane on the first side that has one, else the first
other leaf. -/
def neighbour (pane : PaneId) (tab : Tab) : Option PaneId :=
  let solved := solve tab.root (.xywh F64.zero F64.zero refocusBound refocusBound) .zero
  let sides : List FocusDirection := [.left, .right, .up, .down]
  (sides.findSome? fun direction => (neighbor pane direction solved).filter fun found => found ≠ pane).or
    (tab.root.allPaneIds.find? fun id => id ≠ pane)

/-! ## Split and close -/

/-- `split_pane`, when it splits. -/
def splitPane? (ws : TreeWorkspace) (target : PaneId) (axis : SplitAxis) (spec : PaneSpec)
    (before : Bool) (pane : PaneId) (ids : IdSource) : Option TreeWorkspace := do
  let (si, ti) ← locate ws target
  let s ← ws.sessions[si]?
  let tab ← s.tabs[ti]?
  let root ← tab.root.splitting target axis pane before ids.split.1
  pure (ws.setSession si
    { s with
      tabs := s.tabs.set ti { tab with root := root, activePane := some pane, zoomedPane := none }
      specs := s.specs.insert pane spec })

def splitPane (ws : TreeWorkspace) (target : PaneId) (axis : SplitAxis) (spec : PaneSpec)
    (before : Bool) (pane : PaneId) (ids : IdSource) : TreeWorkspace :=
  (splitPane? ws target axis spec before pane ids).getD ws

def cascadeAfterTabRemoval (ws : TreeWorkspace) (sessionIndex removedTabIndex : Nat)
    (successor : Option TabId) (ids : IdSource) : TreeWorkspace × IdSource :=
  match ws.sessions[sessionIndex]? with
  | none => (ws, ids)
  | some s =>
    if s.tabs.isEmpty then
      -- a session that still owns detached panes survives its last tab
      if !s.detached.isEmpty then (ws, ids)
      else
        let sessions := ws.sessions.eraseIdx sessionIndex
        if sessions.isEmpty then
          let (session, ids) := ids.session
          let (tab, ids) := ids.tab
          let (pane, ids) := ids.pane
          (.defaultWorkspace session tab pane, ids)
        else if ws.activeSessionId = some s.id then
          (⟨sessions, sessions[min sessionIndex (sessions.length - 1)]?.map Session.id⟩, ids)
        else (⟨sessions, ws.activeSessionId⟩, ids)
    else
      let index := (successor.bind s.tabIndexOf).getD (min removedTabIndex (s.tabs.length - 1))
      (ws.setSession sessionIndex { s with activeTabIndex := index }, ids)

/-- A tab without one of its leaves, as a close leaves it: the focus moves
to `refocus`, or to the first leaf. -/
def Tab.pruned (tab : Tab) (target : PaneId) (root : SplitNode) (refocus : Option PaneId) : Tab :=
  { tab with
    root := root
    activePane :=
      if tab.activePane = some target then refocus.or root.firstLeafId else tab.activePane
    zoomedPane := if tab.zoomedPane = some target then none else tab.zoomedPane }

/-- `close_pane`, when the pane is there. -/
def closePane? (ws : TreeWorkspace) (target : PaneId) (successor : Option TabId) (ids : IdSource) :
    Option TreeWorkspace := do
  let (si, ti) ← locate ws target
  let s ← ws.sessions[si]?
  let tab ← s.tabs[ti]?
  let s := { s with specs := s.specs.erase target }
  match tab.root.removing target with
  | none =>
    let removed := ws.setSession si { s with tabs := s.tabs.eraseIdx ti }
    let (cascaded, ids) := cascadeAfterTabRemoval removed si ti successor ids
    pure (cascaded.normalized ids).1
  | some root =>
    -- the focus to fall back to is read off the tree the pane is still in
    pure (ws.setSession si (s.setTab ti (tab.pruned target root (neighbour target tab)))).normalizingSpecs

def closePane (ws : TreeWorkspace) (target : PaneId) (successor : Option TabId) (ids : IdSource) :
    TreeWorkspace :=
  (closePane? ws target successor ids).getD ws

/-! ## Dividers -/

def activeTabIndex (ws : TreeWorkspace) : Option (Nat × Nat) := do
  let si ← ws.activeSessionIndex
  let s ← ws.sessions[si]?
  if s.activeTabIndex < s.tabs.length then some (si, s.activeTabIndex) else none

/-- `set_divider_weight`: in the active tab of the active session. -/
def setDividerWeight (ws : TreeWorkspace) (split : SplitNodeId) (leadingIndex : Nat)
    (leadingWeight : F64) : TreeWorkspace :=
  match activeTabIndex ws with
  | none => ws
  | some (si, ti) => editingTab ws si ti fun tab =>
    some { tab with root := tab.root.settingDividerWeight split leadingIndex leadingWeight }

/-! ## Move, swap, dock -/

/-- `swap_panes`: within one tab. -/
def swapPanes (ws : TreeWorkspace) (a b : PaneId) : TreeWorkspace :=
  if a = b then ws
  else
    match locate ws a, locate ws b with
    | some left, some right =>
      if left ≠ right then ws
      else editingTab ws left.1 left.2 fun tab => some { tab with root := tab.root.swapping a b }
    | _, _ => ws

/-- A tab re-arranged within itself, unless the new tree is past the depth
cap or reproduces the old one. -/
def Tab.rearranged (tab : Tab) (source : PaneId) (relocated : SplitNode) : Option Tab :=
  if relocated.depth > maxDepth || relocated.isStructurallyEqual tab.root then none
  else some { tab with root := relocated, activePane := some source }

/-- A tab with one of its panes taken out and put back beside another. -/
def Tab.movedBeside (tab : Tab) (source target : PaneId) (axis : SplitAxis) (before : Bool)
    (freshSplit : SplitNodeId) : Option Tab := do
  let pruned ← tab.root.removing source
  let relocated ← pruned.insertingBeside source target axis before freshSplit
  tab.rearranged source relocated

/-- A tab with one of its panes, not the only one, taken out and put back
at an edge. -/
def Tab.movedToEdge (tab : Tab) (source : PaneId) (edge : PaneDropEdge) (freshSplit : SplitNodeId) :
    Option Tab :=
  if tab.root.leafCount ≤ 1 then none
  else do
    let pruned ← tab.root.removing source
    tab.rearranged source (pruned.insertingAtRoot source edge.axis edge.insertsBefore freshSplit)

def moveLeaf (ws : TreeWorkspace) (source target : PaneId) (axis : SplitAxis) (before : Bool)
    (ids : IdSource) : TreeWorkspace :=
  if source = target then ws
  else
    match locate ws source, locate ws target with
    | some start, some goal =>
      if start ≠ goal then ws
      else editingTab ws start.1 start.2 fun tab =>
        tab.movedBeside source target axis before ids.split.1
    | _, _ => ws

def moveLeafToRootEdge (ws : TreeWorkspace) (source : PaneId) (edge : PaneDropEdge) (ids : IdSource) :
    TreeWorkspace :=
  match locate ws source with
  | none => ws
  | some (si, ti) => editingTab ws si ti fun tab => tab.movedToEdge source edge ids.split.1

/-- `prune_leaf_from_tab`: the tab shrinks, or goes when the leaf was its
only one. -/
def pruneLeafFromTab (s : Session) (source : PaneId) (index : Nat) : Session :=
  match s.tabs[index]? with
  | none => s
  | some tab =>
    match tab.root.removing source with
    | some root => s.setTab index (tab.pruned source root none)
    | none => { s with tabs := s.tabs.eraseIdx index }

/-- A session where a pane has left its tab and landed, focused, in
another, whose tree it grew; that tab is selected. -/
def Session.landed (s : Session) (source : PaneId) (sourceTab : Nat) (destination : TabId)
    (grown : SplitNode) : Option Session :=
  let s := pruneLeafFromTab s source sourceTab
  do
    let index ← s.tabIndexOf destination
    let tab ← s.tabs[index]?
    pure { s.setTab index { tab with root := grown, activePane := some source, zoomedPane := none } with
           activeTabIndex := index }

/-- `move_leaf_across_tabs`, between two tabs of a session, when it
moves. -/
def moveLeafAcrossTabs? (ws : TreeWorkspace) (source target : PaneId) (axis : SplitAxis) (before : Bool)
    (si sourceTab targetTab : Nat) (ids : IdSource) : Option TreeWorkspace := do
  let s ← ws.sessions[si]?
  let destination ← s.tabs[targetTab]?
  let grown ← destination.root.insertingBeside source target axis before ids.split.1
  if grown.depth > maxDepth then none
  else do
    let s ← s.landed source sourceTab destination.id grown
    pure (ws.setSession si s)

def moveLeafAcrossTabs (ws : TreeWorkspace) (source target : PaneId) (axis : SplitAxis) (before : Bool)
    (ids : IdSource) : TreeWorkspace :=
  if source = target then ws
  else
    match locate ws source, locate ws target with
    | some (sourceSession, sourceTab), some (targetSession, targetTab) =>
      if sourceSession ≠ targetSession then ws
      else if sourceTab = targetTab then moveLeaf ws source target axis before ids
      else (moveLeafAcrossTabs? ws source target axis before sourceSession sourceTab targetTab ids).getD ws
    | _, _ => ws

/-- `move_leaf_to_tab_root_edge`, between two tabs of a session, when it
moves. -/
def moveLeafToTabRootEdge? (ws : TreeWorkspace) (source : PaneId) (edge : PaneDropEdge)
    (si sourceTab targetIndex : Nat) (ids : IdSource) : Option TreeWorkspace := do
  let s ← ws.sessions[si]?
  let targetTab ← s.tabs[targetIndex]?
  let grown := targetTab.root.insertingAtRoot source edge.axis edge.insertsBefore ids.split.1
  if grown.depth > maxDepth then none
  else do
    let s ← s.landed source sourceTab targetTab.id grown
    pure (ws.setSession si s)

def moveLeafToTabRootEdge (ws : TreeWorkspace) (source : PaneId) (destination : TabId)
    (edge : PaneDropEdge) (ids : IdSource) : TreeWorkspace :=
  match locate ws source with
  | none => ws
  | some (si, sourceTab) =>
    match ws.sessions[si]?.bind fun s => s.tabIndexOf destination with
    | none => ws
    | some targetIndex =>
      if sourceTab = targetIndex then moveLeafToRootEdge ws source edge ids
      else (moveLeafToTabRootEdge? ws source edge si sourceTab targetIndex ids).getD ws

/-! ## Focus -/

/-- `focus_pane`: focusing another pane than the zoomed one exits zoom. -/
def focusPane (ws : TreeWorkspace) (target : PaneId) : TreeWorkspace :=
  (do
    let (si, ti) ← locate ws target
    let s ← ws.sessions[si]?
    let tab ← s.tabs[ti]?
    let focused := { tab with
      activePane := some target
      zoomedPane := if tab.zoomedPane ≠ some target then none else tab.zoomedPane }
    pure { ws.setSession si { s.setTab ti focused with activeTabIndex := ti } with
           activeSessionId := some s.id }).getD ws

/-! ## Tabs -/

def newTab (ws : TreeWorkspace) (spec : PaneSpec) (position : NewTabPosition) (tab : TabId)
    (pane : PaneId) : TreeWorkspace :=
  match ws.activeSessionIndex with
  | none => ws
  | some si => editingSession ws si fun s =>
    let index := s.newTabIndex position
    some { s with
      tabs := s.tabs.insertIdx index (.new tab (.leaf pane))
      activeTabIndex := index
      specs := s.specs.insert pane spec }

/-- The specs of a tab's panes that are supplied, put into a table. -/
def insertSpecs (into supplied : BTreeMap PaneId PaneSpec) (panes : List PaneId) :
    BTreeMap PaneId PaneSpec :=
  panes.foldl (fun table id =>
    match supplied[id]? with
    | some spec => table.insert id spec
    | none => table) into

def insertTab (ws : TreeWorkspace) (tab : Tab) (specs : BTreeMap PaneId PaneSpec)
    (position : NewTabPosition) : TreeWorkspace :=
  match ws.activeSessionIndex with
  | none => ws
  | some si => (editingSession ws si fun s =>
    let index := s.newTabIndex position
    some { s with
      specs := insertSpecs s.specs specs tab.allPaneIds
      tabs := s.tabs.insertIdx index tab
      activeTabIndex := index }).normalizingSpecs

/-- `close_tab`, when the tab is there. -/
def closeTab? (ws : TreeWorkspace) (tab : TabId) (successor : Option TabId) (ids : IdSource) :
    Option TreeWorkspace := do
  let (si, ti) ← locateTab ws tab
  let s ← ws.sessions[si]?
  let closing ← s.tabs[ti]?
  let removed := ws.setSession si
    { s with
      specs := closing.allPaneIds.foldl (fun specs id => specs.erase id) s.specs
      tabs := s.tabs.eraseIdx ti }
  let (cascaded, ids) := cascadeAfterTabRemoval removed si ti successor ids
  pure (cascaded.normalized ids).1

def closeTab (ws : TreeWorkspace) (tab : TabId) (successor : Option TabId) (ids : IdSource) :
    TreeWorkspace :=
  (closeTab? ws tab successor ids).getD ws

def renameTab (ws : TreeWorkspace) (tab : TabId) (title : String) : TreeWorkspace :=
  match locateTab ws tab with
  | none => ws
  | some (si, ti) => editingTab ws si ti fun tab => some { tab with title := title }

/-! ## Sessions -/

def insertSession (ws : TreeWorkspace) (session : Session) (makeActive : Bool) : TreeWorkspace where
  sessions := ws.sessions ++ [session]
  activeSessionId := if makeActive then some session.id else ws.activeSessionId

def closeSession (ws : TreeWorkspace) (session : SessionId) (ids : IdSource) : TreeWorkspace :=
  match ws.sessionIndexOf session with
  | none => ws
  | some index =>
    let sessions := ws.sessions.eraseIdx index
    if sessions.isEmpty then
      let (session, ids) := ids.session
      let (tab, ids) := ids.tab
      let (pane, _) := ids.pane
      .defaultWorkspace session tab pane
    else
      let active :=
        if ws.activeSessionId = some session then
          sessions[min index (sessions.length - 1)]?.map Session.id
        else ws.activeSessionId
      (TreeWorkspace.normalized ⟨sessions, active⟩ ids).1

def selectSession (ws : TreeWorkspace) (session : SessionId) : TreeWorkspace :=
  if ws.sessions.any fun s => s.id = session then { ws with activeSessionId := some session } else ws

def renameSession (ws : TreeWorkspace) (session : SessionId) (name : String) : TreeWorkspace :=
  match ws.sessionIndexOf session with
  | none => ws
  | some index => editingSession ws index fun s => some { s with name := name }

/-! ## The spec side table -/

/-- `updating_spec`: a tree leaf's spec, or a detached pane's. -/
def updatingSpec (ws : TreeWorkspace) (target : PaneId) (transform : PaneSpec → PaneSpec) :
    TreeWorkspace :=
  match ((locate ws target).map Prod.fst).or (ws.sessions.findIdx? fun s => s.isDetached target) with
  | none => ws
  | some index => editingSession ws index fun s =>
    s.specs[target]?.map fun spec => { s with specs := s.specs.insert target (transform spec) }

/-! ## Detach and reattach -/

/-- `detach_pane`, when the pane is a leaf. -/
def detachPane? (ws : TreeWorkspace) (target : PaneId) (ids : IdSource) : Option TreeWorkspace := do
  let (si, ti) ← locate ws target
  let s ← ws.sessions[si]?
  let origin ← s.tabs[ti]?
  let s := pruneLeafFromTab s target ti
  let s := { s with
    detached := s.detached ++ [⟨target, some origin.id⟩]
    activeTabIndex := min s.activeTabIndex (s.tabs.length - 1) }
  pure ((ws.setSession si s).normalized ids).1

def detachPane (ws : TreeWorkspace) (target : PaneId) (ids : IdSource) : TreeWorkspace :=
  (detachPane? ws target ids).getD ws

/-- `detached_owner`: never a video pane's. -/
def detachedOwner (ws : TreeWorkspace) (target : PaneId) : Option Nat := do
  let index ← ws.sessions.findIdx? fun s => s.isDetached target
  let isVideo := (ws.sessions[index]?.bind fun s => s.specFor target).any fun spec => spec.kind.isVideo
  if isVideo then none else some index

/-- The session of a pane that comes back out of the detached list: docked
in its origin tab when that is there and has the depth for it, else in a
tab of its own. -/
def Session.reattached (s : Session) (target : PaneId) (tab : TabId) (freshSplit : SplitNodeId) :
    Session :=
  let origin := (s.detached.find? fun entry => entry.pane = target).bind DetachedPane.originTab
  let s := { s with detached := s.detached.filter fun entry => entry.pane ≠ target }
  let docked := do
    let index ← origin.bind s.tabIndexOf
    let existing ← s.tabs[index]?
    let grown := existing.root.insertingAtRoot target .horizontal false freshSplit
    if grown.depth ≤ maxDepth then
      some { s.setTab index { existing with
               root := grown, activePane := some target, zoomedPane := none } with
             activeTabIndex := index }
    else none
  docked.getD { s with tabs := s.tabs ++ [.new tab (.leaf target)], activeTabIndex := s.tabs.length }

def reattachPane (ws : TreeWorkspace) (target : PaneId) (tab : TabId) (ids : IdSource) :
    TreeWorkspace × IdSource :=
  match detachedOwner ws target with
  | none => (ws, ids)
  | some index =>
    let (freshSplit, ids) := ids.split
    match ws.sessions[index]? with
    | none => (ws, ids)
    | some s =>
      ({ ws.setSession index (s.reattached target tab freshSplit) with activeSessionId := some s.id },
        ids)

def mintDetachedPane (ws : TreeWorkspace) (spec : PaneSpec) (pane : PaneId) : TreeWorkspace :=
  match ws.activeSessionIndex with
  | none => ws
  | some si => editingSession ws si fun s =>
    (s.tabs[s.activeTabIndex]?.or s.tabs.head?).map fun origin =>
      { s with
        specs := s.specs.insert pane spec
        detached := s.detached ++ [⟨pane, some origin.id⟩] }

def closeDetachedPane (ws : TreeWorkspace) (target : PaneId) : TreeWorkspace :=
  match ws.sessions.findIdx? fun s => s.isDetached target with
  | none => ws
  | some index => editingSession ws index fun s =>
    some { s with
      detached := s.detached.filter fun entry => entry.pane ≠ target
      specs := s.specs.erase target }

/-- `break_pane_to_tab`, when the pane has a tab to break out of. -/
def breakPaneToTab? (ws : TreeWorkspace) (target : PaneId) (tab : TabId) : Option TreeWorkspace := do
  let (si, ti) ← locate ws target
  let s ← ws.sessions[si]?
  let source ← s.tabs[ti]?
  if source.root.leafCount ≤ 1 then none
  else do
    let root ← source.root.removing target
    pure (ws.setSession si
      { s with
        tabs := s.tabs.set ti (source.pruned target root none) ++ [.new tab (.leaf target)]
        activeTabIndex := s.tabs.length })

def breakPaneToTab (ws : TreeWorkspace) (target : PaneId) (tab : TabId) : TreeWorkspace :=
  (breakPaneToTab? ws target tab).getD ws

/-! ## The launch restore -/

/-- Every one of these panes reattached, in order, a tab drawn for
each. -/
def reattachAll : List PaneId → TreeWorkspace → IdSource → TreeWorkspace × IdSource
  | [], ws, ids => (ws, ids)
  | pane :: rest, ws, ids =>
    let (tab, ids) := ids.tab
    let (ws, ids) := reattachPane ws pane tab ids
    reattachAll rest ws ids

/-- The active tab of the first session of that id put back at `index`,
where there is one. -/
def restoreActiveTab (sessions : List Session) (saved : SessionId × Nat) : List Session :=
  match sessions.findIdx? fun s => s.id = saved.1 with
  | none => sessions
  | some i => sessions.modify i fun s =>
    if saved.2 < s.tabs.length then { s with activeTabIndex := saved.2 } else s

def redockingDetachedPanes (ws : TreeWorkspace) (ids : IdSource) : TreeWorkspace :=
  let next := ws.droppingVideoPanes
  if next.sessions.all fun s => s.detached.isEmpty then (next.normalized ids).1
  else
    let activeTabs := next.sessions.map fun s => (s.id, s.activeTabIndex)
    let (docked, ids) := reattachAll next.detachedPaneIds next ids
    let restored : TreeWorkspace :=
      ⟨activeTabs.foldl restoreActiveTab docked.sessions, next.activeSessionId⟩
    (restored.normalized ids).1

end SlopDesk.Tree
